import PropertyPatterns.Outcome
import PropertyPatterns.Proofs.CollapsedSpacing
import PropertyPatterns.Proofs.LogicTokens
import PropertyPatterns.Proofs.StrongRendering

namespace PropertyPatterns

open Token

section Visibility

variable {v : Vocabulary} {f : Formula} {ts : List Token}

theorem Formula.exists_operator_of_render (hf : f.isAtom = false) (h : f.render v = .ok ts) :
    ∃ o text, v.symbols.lookup (.operator o) = .ok text ∧ Token.operator o text ∈ ts := by
  cases f with
  | atom a => cases hf
  | neg f =>
    obtain ⟨op, hop, us, -, rfl⟩ := render_neg_eq_ok.mp h
    obtain ⟨text, htext, rfl⟩ := Vocabulary.operatorToken_eq_ok.mp hop
    exact ⟨_, text, htext, List.mem_cons_self⟩
  | connect c f g =>
    obtain ⟨left, -, op, hop, right, -, rfl⟩ := render_connect_eq_ok.mp h
    obtain ⟨text, htext, rfl⟩ := Vocabulary.operatorToken_eq_ok.mp hop
    exact ⟨_, text, htext, by simp⟩
  | modal m b f =>
    obtain ⟨op, hop, us, -, rfl⟩ := render_modal_eq_ok.mp h
    obtain ⟨text, bound, htext, -, rfl⟩ := Vocabulary.annotated_eq_ok.mp hop
    exact ⟨_, text, htext, by simp⟩
  | wait s b f g =>
    obtain ⟨left, -, op, hop, right, -, rfl⟩ := render_wait_eq_ok.mp h
    obtain ⟨text, bound, htext, -, rfl⟩ := Vocabulary.annotated_eq_ok.mp hop
    exact ⟨_, text, htext, by simp⟩

theorem Formula.exists_operator_of_renderStrong (hf : f.isAtom = false)
    (h : f.renderStrong v = .ok ts) :
    ∃ o text, v.symbols.lookup (.operator o) = .ok text ∧ Token.operator o text ∈ ts := by
  cases f with
  | atom a => cases hf
  | neg f =>
    obtain ⟨op, hop, us, -, rfl⟩ := renderStrong_neg_eq_ok.mp h
    obtain ⟨text, htext, rfl⟩ := Vocabulary.operatorToken_eq_ok.mp hop
    exact ⟨_, text, htext, List.mem_cons_self⟩
  | connect c f g =>
    obtain ⟨left, -, op, hop, right, -, rfl⟩ := renderStrong_connect_eq_ok.mp h
    obtain ⟨text, htext, rfl⟩ := Vocabulary.operatorToken_eq_ok.mp hop
    exact ⟨_, text, htext, by simp⟩
  | modal m b f =>
    obtain ⟨op, hop, us, -, rfl⟩ := renderStrong_modal_eq_ok.mp h
    obtain ⟨text, bound, htext, -, rfl⟩ := Vocabulary.annotated_eq_ok.mp hop
    exact ⟨_, text, htext, by simp⟩
  | wait s b f g =>
    cases s with
    | strong =>
      obtain ⟨left, -, op, hop, right, -, rfl⟩ := renderStrong_strong_eq_ok.mp h
      obtain ⟨text, bound, htext, -, rfl⟩ := Vocabulary.annotated_eq_ok.mp hop
      exact ⟨_, text, htext, by simp⟩
    | weak =>
      obtain ⟨left, -, strong, -, right, -, or, hor, always, -, rfl⟩ :=
        renderStrong_weak_eq_ok.mp h
      obtain ⟨text, htext, rfl⟩ := Vocabulary.operatorToken_eq_ok.mp hor
      exact ⟨_, text, htext, by simp⟩

theorem SymbolTable.mem_of_lookup_texts
    {logic always eventually next implies not and or until_ weakUntil text : String} {o : Operator}
    (h : (ofList logic (texts always eventually next implies not and or until_ weakUntil)).lookup
      (.operator o) = .ok text) :
    text ∈ [always, eventually, next, implies, not, and, or, until_, weakUntil] := by
  rcases o with _ | c | m | s
  · obtain rfl := Except.ok.inj h
    simp
  · cases c with
    | and | or | implies =>
      obtain rfl := Except.ok.inj h
      simp
  · cases m with
    | next | always | eventually =>
      obtain rfl := Except.ok.inj h
      simp
  · cases s with
    | strong | weak =>
      obtain rfl := Except.ok.inj h
      simp

theorem SymbolTable.ne_empty_of_lookup_temporal {logic : String} {c : Charset} {o : Operator}
    {text : String} (h : (ofList logic (temporal c)).lookup (.operator o) = .ok text) :
    text ≠ "" := by
  cases c with
  | unicode =>
    have hall : ∀ s ∈ ["☐", "◇", "○", "→", "¬", "∧", "∨", "U", "W"], s ≠ "" := by decide
    exact hall text (mem_of_lookup_texts h)
  | ascii =>
    have hall : ∀ s ∈ ["[]", "<>", "X", "->", "!", "&&", "||", "U", "W"], s ≠ "" := by decide
    exact hall text (mem_of_lookup_texts h)

theorem Logic.ne_empty_of_lookup {l : Logic} {c : Charset} {o : Operator} {text : String}
    (h : (l.vocabulary c).symbols.lookup (.operator o) = .ok text) : text ≠ "" := by
  cases l with
  | structuredEnglish => cases h
  | ltl => exact SymbolTable.ne_empty_of_lookup_temporal h
  | mtl =>
    have htable := (SymbolTable.lookup_define_infinity_operator _ _ o).symm.trans h
    exact SymbolTable.ne_empty_of_lookup_temporal htable
  | tbv =>
    have hall : ∀ s ∈ ["G", "F", "X", "->", "!", "&&", "||", "U", "W"], s ≠ "" := by decide
    have htable := (SymbolTable.lookup_define_infinity_operator _ _ o).symm.trans h
    exact hall text (SymbolTable.mem_of_lookup_texts htable)
  | prism | quantitativePrism =>
    have hall : ∀ s ∈ ["G", "F", "X", "=>", "!", "&", "|", "U", "W"], s ≠ "" := by decide
    exact hall text (SymbolTable.mem_of_lookup_texts h)

theorem Pattern.isAtom_formula (x : Pattern) (scope : Scope) (t : Timing) :
    (x.formula scope t).isAtom = false := by
  cases x with
  | occurrence k o =>
    cases k with
    | universality | absence | existence | transientState | steadyState | minimumDuration
    | maximumDuration | recurrence =>
      cases scope with
      | globally | before | after | between | afterUntil => rfl
  | boundedExistence n o =>
    cases scope with
    | globally =>
      rw [formula, Occurrence.countedFormula, Occurrence.boundedExistence]
      cases n.times.toNat with
      | zero | succ => rfl
    | before | after | between | afterUntil => rfl
  | order k o =>
    cases k with
    | precedence | holdUntil | response | responseInvariance =>
      cases scope with
      | globally | before | after | between | afterUntil => rfl
  | chain k o links =>
    cases k with
    | precedenceOneMany | precedenceManyOne | responseOneMany | responseManyOne =>
      cases scope with
      | globally | before | after | between | afterUntil => rfl

end Visibility

namespace Logic

/-- The logics without a weak until, which is eliminated from their formulas. -/
def lacksWeakUntil : Logic → Bool
  | tbv | prism | quantitativePrism => true
  | structuredEnglish | ltl | mtl => false

variable {l : Logic} {c : Charset} {scope : Scope} {x : Pattern}

theorem plain_queryLead (query : String) : Plain [text query, space, text "["] := by
  simp [Plain]

theorem resolves_queryTokens {s : Substitution} {ts us : List Token}
    (h : s.Resolves ts us) (query : String) :
    s.Resolves (queryTokens query ts) (queryTokens query us) := by
  have hclosing : s.Resolves [text "]"] [text "]"] := .plain (by simp [Plain])
  have hlead := Substitution.Resolves.join (plain_queryLead query) (.plain plain_nil) h
  have hquery := Substitution.Resolves.join plain_nil hlead hclosing
  simpa [queryTokens] using hquery

theorem plain_steadyStateBody : Plain (l.steadyStateBody x) := by
  unfold steadyStateBody
  split
  · simp [Plain, cannotExpress]
    rfl
  · simp [Plain]

theorem legible_queryTokens (query : String) (body : List Token) :
    Legible (queryTokens query body) := by
  have hbracket (b : Bool) : collapseText? b "[" = some "[" := by
    cases b <;> rfl
  exact legible_of_text hbracket (by decide) (by simp [queryTokens])

theorem legible_render {ts : List Token} (h : l.body c scope x = .ok ts) (rest : List Token) :
    Legible (ts ++ rest) := by
  obtain ⟨o, text, htext, hmem⟩ :=
    Formula.exists_operator_of_render (x.isAtom_formula scope l.timing) h
  exact legible_of_mem rfl (ne_empty_of_lookup htext) (List.mem_append_left rest hmem)

theorem legible_renderStrong {us : List Token}
    (h : (x.formula scope l.timing).renderStrong (l.vocabulary c) = .ok us) (rest : List Token) :
    Legible (us ++ rest) := by
  obtain ⟨o, text, htext, hmem⟩ :=
    Formula.exists_operator_of_renderStrong (x.isAtom_formula scope l.timing) h
  exact legible_of_mem rfl (ne_empty_of_lookup htext) (List.mem_append_left rest hmem)

/-- In a logic that lacks the weak until, the stream of a cell resolves to one that can be read. -/
theorem exists_resolves (hl : l.lacksWeakUntil = true)
    (hsupports : l.supports scope.kind x.kind = true) {s : Substitution}
    (hs : Substitution.ofTable (l.vocabulary c).symbols = .ok s) :
    ∃ ts us, l.tokens c scope x = .ok ts ∧ s.Resolves ts us ∧ Legible us := by
  have hl' : l ≠ .structuredEnglish := by
    rintro rfl
    cases hl
  obtain ⟨body, hbody⟩ := exists_body hl' c scope x
  obtain ⟨us, hus, hres⟩ := Formula.exists_renderStrong hs hbody
  have hprobabilistic (hprism : l = .prism ∨ l = .quantitativePrism) :
      ∃ ts us, l.tokens c scope x = .ok ts ∧ s.Resolves ts us ∧ Legible us := by
    rw [tokens_probabilistic hprism hsupports]
    by_cases hkind : x.kind = .occurrence .steadyState
    · exact ⟨_, _, probabilisticTokens_steadyState hkind,
        resolves_queryTokens (.plain plain_steadyStateBody) _, legible_queryTokens _ _⟩
    · exact ⟨_, _, probabilisticTokens_body hkind hbody, resolves_queryTokens hres _,
        legible_queryTokens _ _⟩
  cases l with
  | structuredEnglish | ltl | mtl => cases hl
  | tbv =>
    exact ⟨_, _, tokens_tbv hbody, .trail isAnnotation_probabilityErrors.plain hres,
      legible_renderStrong hus _⟩
  | prism => exact hprobabilistic (Or.inl rfl)
  | quantitativePrism => exact hprobabilistic (Or.inr rfl)

theorem finalTokens_eq {ts : List Token} {ps : List Pass} (hts : l.tokens c scope x = .ok ts)
    (hps : l.passes c = .ok ps) :
    l.finalTokens c scope x = (Pass.applyAll ps ts).mapError .pass := by
  rw [finalTokens, hts, hps]
  rfl

theorem passes_of_lacksWeakUntil (hl : l.lacksWeakUntil = true) {s : Substitution}
    (hs : Substitution.ofTable (l.vocabulary c).symbols = .ok s) :
    l.passes c = .ok [.eliminateWeakUntil s, .collapseSpacing] := by
  cases l with
  | structuredEnglish | ltl | mtl => cases hl
  | tbv | prism | quantitativePrism => exact bind_eq_ok.mpr ⟨s, hs, rfl⟩

theorem applyAll_of_resolves {s : Substitution} {ts us : List Token} (h : s.Resolves ts us) :
    Pass.applyAll [.eliminateWeakUntil s, .collapseSpacing] ts =
      .ok (collapseSpacing false us) := by
  change s.eliminate ts >>= _ = _
  rw [Substitution.eliminate_of_resolves h]
  rfl

/-- What is promised of the stream that a cell is printed from. -/
structure Prints (l : Logic) (c : Charset) (scope : Scope) (x : Pattern) (ts : List Token) :
    Prop where
  finalTokens : l.finalTokens c scope x = .ok ts
  nonempty : printed ts ≠ ""
  balanced : Balanced ts
  strong (h : l.lacksWeakUntil = true) : ∀ t ∈ ts, t.isWeakUntil = false

theorem exists_prints_of_lacksWeakUntil (hl : l.lacksWeakUntil = true) (c : Charset)
    (hsupports : l.supports scope.kind x.kind = true) : ∃ ts, l.Prints c scope x ts := by
  have hl' : l ≠ .structuredEnglish := by
    rintro rfl
    cases hl
  obtain ⟨s, hs⟩ := (complete_vocabulary hl' c).exists_ofTable
  obtain ⟨ts, us, hts, hres, hlegible⟩ := exists_resolves hl hsupports hs
  refine ⟨collapseSpacing false us, ?_, hlegible false, hres.balanced.2.collapseSpacing false, ?_⟩
  · rw [finalTokens_eq hts (passes_of_lacksWeakUntil hl hs), applyAll_of_resolves hres]
    rfl
  · intro _ t ht
    have hcount : (collapseSpacing false us).countP isWeakUntil = 0 := by
      rw [countP_collapseSpacing, hres.countP]
    exact Bool.eq_false_iff.mpr (List.countP_eq_zero.mp hcount t ht)

theorem prints_of_body {body rest : List Token} (hl : l.lacksWeakUntil = false)
    (hps : l.passes c = .ok [.collapseSpacing]) (hbody : l.body c scope x = .ok body)
    (hrest : Plain rest) (hts : l.tokens c scope x = .ok (body ++ rest)) :
    l.Prints c scope x (collapseSpacing false (body ++ rest)) where
  finalTokens := finalTokens_eq hts hps
  nonempty := legible_render hbody rest false
  balanced := ((Formula.balanced_of_render hbody).append hrest.balanced).collapseSpacing false
  strong h := by
    rw [hl] at h
    cases h

theorem prints_structuredEnglish (c : Charset) (scope : Scope) (x : Pattern) :
    structuredEnglish.Prints c scope x
      [.text scope.phrase, .text ", ", .text x.phrase, .text "."] where
  finalTokens := rfl
  nonempty := printed_ne_empty (t := .text ", ") (by decide) (by simp)
  balanced := rfl
  strong h := by cases h

theorem exists_prints (l : Logic) (c : Charset)
    (hsupports : l.supports scope.kind x.kind = true) : ∃ ts, l.Prints c scope x ts := by
  cases l with
  | structuredEnglish => exact ⟨_, prints_structuredEnglish c scope x⟩
  | ltl =>
    obtain ⟨body, hbody⟩ := exists_body (l := ltl) (by simp) c scope x
    have hts := tokens_ltl hsupports hbody
    rw [List.append_assoc] at hts
    have herrors : Plain (ltl.timeBoundErrors x ++ ltl.probabilityErrors x) :=
      isAnnotation_timeBoundErrors.plain.append isAnnotation_probabilityErrors.plain
    exact ⟨_, prints_of_body rfl rfl hbody herrors hts⟩
  | mtl =>
    obtain ⟨body, hbody⟩ := exists_body (l := mtl) (by simp) c scope x
    exact ⟨_, prints_of_body rfl rfl hbody isAnnotation_probabilityErrors.plain
      (tokens_mtl hbody)⟩
  | tbv | prism | quantitativePrism => exact exists_prints_of_lacksWeakUntil rfl c hsupports

/-- The matrix lists the scope under the pattern. -/
def Lists (l : Logic) (s : ScopeKind) (k : PatternKind) : Prop :=
  ∃ scopes, (k, scopes) ∈ l.matrix ∧ s ∈ scopes

theorem lists_iff {s : ScopeKind} {k : PatternKind} : l.Lists s k ↔ l.supports s k = true := by
  constructor
  · rintro ⟨scopes, hmem, hs⟩
    obtain ⟨k', -, heq⟩ := List.mem_map.mp hmem
    obtain ⟨rfl, rfl⟩ := Prod.mk.inj heq
    exact (List.mem_filter.mp hs).2
  · intro h
    refine ⟨_, List.mem_map_of_mem (PatternKind.mem_all k), ?_⟩
    exact List.mem_filter.mpr ⟨ScopeKind.mem_all s, h⟩

theorem outcome_of_prints {ts : List Token} (hsupports : l.supports scope.kind x.kind = true)
    (h : l.Prints c scope x ts) :
    l.outcome c scope x =
      .ok (.mapped (sentence scope x) (printed ts) (Mapping.ofTokens ts).error) := by
  rw [outcome, mapping, if_pos hsupports, h.finalTokens]
  rfl

theorem outcome_of_not_supports (h : l.supports scope.kind x.kind ≠ true) :
    l.outcome c scope x = .ok (.unsupported (sentence scope x) l.unsupportedMessage) := by
  rw [outcome, mapping, if_neg h]
  rfl

/-- Every property has an outcome in every logic: a formula if the matrix lists its cell, and the
message that there is none otherwise. -/
theorem exists_outcome (l : Logic) (c : Charset) (scope : Scope) (x : Pattern) :
    (l.Lists scope.kind x.kind →
      ∃ ts, l.finalTokens c scope x = .ok ts ∧
        l.outcome c scope x =
          .ok (.mapped (sentence scope x) (printed ts) (Mapping.ofTokens ts).error) ∧
        printed ts ≠ "" ∧ Balanced ts ∧
        (l = .tbv ∨ l = .prism ∨ l = .quantitativePrism → ∀ t ∈ ts, t.isWeakUntil = false)) ∧
      (¬l.Lists scope.kind x.kind →
        l.outcome c scope x = .ok (.unsupported (sentence scope x) l.unsupportedMessage)) := by
  constructor
  · intro hlists
    have hsupports := lists_iff.mp hlists
    obtain ⟨ts, hts⟩ := exists_prints l c hsupports
    refine ⟨ts, hts.finalTokens, outcome_of_prints hsupports hts, hts.nonempty, hts.balanced, ?_⟩
    intro hl
    apply hts.strong
    rcases hl with rfl | rfl | rfl
    · rfl
    · rfl
    · rfl
  · intro hlists
    exact outcome_of_not_supports (mt lists_iff.mpr hlists)

end Logic

end PropertyPatterns
