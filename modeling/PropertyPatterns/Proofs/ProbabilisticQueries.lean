import PropertyPatterns.Proofs.AtomInventory
import PropertyPatterns.Proofs.MessageOrder
import PropertyPatterns.Proofs.QueryTexts
import PropertyPatterns.Proofs.Translation

/-!
Queries of the two probabilistic logics. A query is asked around a body, and neither the elimination
of weak untils nor the collapsing of blanks carries anything from one to the other. The main
statement says that the two logics support the same cells and ask about the same body, whatever the
probability bound is.
-/

namespace PropertyPatterns

open Token

namespace Pattern

/-- The pattern with the probability bound in place of any it had. -/
def withProbability (x : Pattern) (b : Option ProbabilityBound) : Pattern :=
  match x with
  | occurrence k o => occurrence k { o with probability := b }
  | boundedExistence n o => boundedExistence n { o with probability := b }
  | order k o => order k { o with probability := b }
  | chain k o c => chain k { o with probability := b } c

variable (x : Pattern) (b : Option ProbabilityBound)

@[simp] theorem withProbability_probability? : x.withProbability x.probability? = x := by
  cases x <;> rfl

@[simp] theorem probability?_withProbability : (x.withProbability b).probability? = b := by
  cases x <;> rfl

@[simp] theorem kind_withProbability : (x.withProbability b).kind = x.kind := by
  cases x <;> rfl

@[simp] theorem p_withProbability : (x.withProbability b).p = x.p := by
  cases x <;> rfl

@[simp] theorem timeBound?_withProbability : (x.withProbability b).timeBound? = x.timeBound? := by
  cases x <;> rfl

@[simp] theorem formula_withProbability (scope : Scope) (t : Timing) :
    (x.withProbability b).formula scope t = x.formula scope t := by
  cases x with
  | occurrence k o => cases k <;> rfl
  | boundedExistence => rfl
  | order k o => cases k <;> rfl
  | chain k o c => cases k <;> rfl

variable {x} {scope : Scope} {t : Timing}

theorem ne_empty_of_mem_atoms (hnames : ∀ e ∈ scope.anchors ++ x.events, e.name ≠ "") :
    ∀ a ∈ (x.formula scope t).atoms, a ≠ "" := by
  intro a ha
  have hnamed : Named scope.anchors a ∨ Named x.events a := by
    cases x with
    | occurrence k o =>
      rw [formula, Occurrence.mem_atoms_formula] at ha
      exact ha.imp_right fun h => ⟨o.p, List.mem_cons_self, h.symm⟩
    | boundedExistence n o =>
      rw [formula, Occurrence.countedFormula, Occurrence.mem_atoms_boundedExistence] at ha
      exact ha.imp_right fun h => ⟨o.p, List.mem_cons_self, h.symm⟩
    | order k o =>
      rw [formula, Order.mem_atoms_formula, Order.mentions_iff] at ha
      exact ha
    | chain k o c =>
      rw [formula, Order.mem_atoms_chainFormula, Order.mentions_iff] at ha
      exact ha
  obtain ⟨e, he, rfl⟩ := named_append.mpr hnamed
  exact hnames e he

end Pattern

namespace Logic

variable {l : Logic} {c : Charset} {scope : Scope} {x : Pattern} {ts us es : List Token}
  {query : String}

def content (l : Logic) (c : Charset) (scope : Scope) (x : Pattern) :
    Except MissingSymbol (List Token) :=
  if x.kind = .occurrence .steadyState then .ok (l.steadyStateBody x) else l.body c scope x

theorem probabilisticTokens_of_content (h : l.content c scope x = .ok ts) :
    l.probabilisticTokens c scope x = .ok (queryTokens (l.query (queryOperator x) x) ts) := by
  by_cases hkind : x.kind = .occurrence .steadyState
  · rw [content, if_pos hkind] at h
    cases h
    rw [probabilisticTokens_steadyState hkind, queryOperator, if_pos hkind]
  · rw [content, if_neg hkind] at h
    rw [probabilisticTokens_body hkind h, queryOperator, if_neg hkind]

theorem content_withProbability (b : Option ProbabilityBound) :
    l.content c scope (x.withProbability b) = l.content c scope x := by
  simp [content, body, steadyStateBody]

/-- Blanks collapse in a body as they do without the query around it. -/
theorem collapseSpacing_queryTokens (hquery : BlankFree query) (hne : query ≠ "")
    (hts : Framed ts) (hes : ∀ t ∈ es, t.message?.isSome = true) :
    collapseSpacing false (queryTokens query (ts ++ es)) =
      queryTokens query (collapseSpacing false (ts ++ es)) := by
  have hbody (b : Bool) (rest : List Token) : collapseSpacing b (ts ++ es ++ rest) =
      collapseSpacing false ts ++ (es ++ collapseSpacing false rest) := by
    rw [List.append_assoc, hts.collapseSpacing_append, collapseSpacing_errors hes]
  have halone := hts.collapseSpacing_concat hes
  have hlead (rest : List Token) :
      collapseSpacing false ([.text query, .space, .text "[", .space] ++ rest) =
        [.text query, .space, .text "[", .space] ++ collapseSpacing true rest := by
    have hbracket : collapseText? true "[" = some "[" := rfl
    simp [collapseSpacing, hquery.collapseText?_eq hne, hquery.getLast?_ne, hbracket]
  rw [queryTokens, List.append_assoc, hlead, hbody, halone, queryTokens]
  simp only [List.append_assoc]
  rfl

theorem printed_queryTokens (query : String) (ts : List Token) :
    printed (queryTokens query ts) = query ++ " [ " ++ printed ts ++ " ]" := by
  have hopening : " [ " = " " ++ ("[" ++ " ") := rfl
  have hclosing : " ]" = " " ++ "]" := rfl
  simp only [queryTokens, printed_append, printed_cons, printed_nil, Token.content,
    String.append_assoc, String.append_empty, hopening, hclosing]

theorem printed_errors (hes : ∀ t ∈ es, t.message?.isSome = true) : printed es = "" := by
  induction es with
  | nil => rfl
  | cons t es ih =>
    obtain ⟨ht, hrest⟩ := List.forall_mem_cons.mp hes
    cases t with
    | error m => exact (printed_cons _ _).trans (ih hrest)
    | event | operator | opening | closing | space | timeBound | text => cases ht

theorem messages_queryTokens (query : String) (ts : List Token) :
    messages (queryTokens query ts) = messages ts := by
  simp [messages, queryTokens, List.filterMap_cons]

theorem error_ofTokens_congr (h : messages us = messages ts) :
    (Mapping.ofTokens us).error = (Mapping.ofTokens ts).error := by
  simp only [Mapping.ofTokens, h]

theorem error_steadyStateBody (l : Logic) (hkind : x.kind = .occurrence .steadyState) :
    (Mapping.ofTokens (l.steadyStateBody x)).error =
      x.timeBound?.map fun _ => l.name ++ " cannot express a time bound on SteadyState" := by
  have htag : x.kind.tag = "SteadyState" := by
    rw [hkind]
    rfl
  have hmessage : "a time bound on " ++ x.kind.tag = "a time bound on SteadyState" := by
    rw [htag]
    rfl
  cases hbound : x.timeBound? with
  | none =>
    rw [steadyStateBody, hbound]
    rfl
  | some b =>
    rw [steadyStateBody, hbound, hmessage]
    change some (l.name ++ " cannot express " ++ "a time bound on SteadyState") = _
    rw [String.append_assoc]
    rfl

theorem passes_of_probabilistic (hl : l = .prism ∨ l = .quantitativePrism) {s : Substitution}
    (hs : Substitution.ofTable (l.vocabulary c).symbols = .ok s) :
    l.passes c = .ok [.eliminateWeakUntil s, .collapseSpacing] := by
  refine passes_of_lacksWeakUntil ?_ hs
  rcases hl with rfl | rfl <;> rfl

theorem supports_prism_eq (s : ScopeKind) (k : PatternKind) :
    prism.supports s k = quantitativePrism.supports s k := by
  cases k with
  | occurrence k => cases k <;> rfl
  | boundedExistence | order | chain => rfl

/-- Both logics ask about the same tokens, with errors behind them at most. -/
theorem exists_framed (hnames : ∀ e ∈ scope.anchors ++ x.events, e.name ≠ "") (c : Charset) :
    ∃ s us, Framed us ∧ ∀ l : Logic, l = .prism ∨ l = .quantitativePrism →
      Substitution.ofTable (l.vocabulary c).symbols = .ok s ∧
        ∃ ts es, l.content c scope x = .ok ts ∧ s.Resolves ts (us ++ es) ∧
          ∀ t ∈ es, t.message?.isSome = true := by
  obtain ⟨s, hs⟩ := (complete_vocabulary (l := .prism) (by simp) c).exists_ofTable
  have htable (l : Logic) (hl : l = .prism ∨ l = .quantitativePrism) :
      Substitution.ofTable (l.vocabulary c).symbols = .ok s := by
    rcases hl with rfl | rfl
    · exact hs
    · exact hs
  by_cases hkind : x.kind = .occurrence .steadyState
  · have hp : x.p.name ≠ "" := hnames x.p (List.mem_append_right _ List.mem_cons_self)
    have hframed : Framed [.event x.p.name] :=
      framed_singleton (by simpa [isSolid, isSpacing, Token.content] using hp)
    refine ⟨s, _, hframed, fun l hl => ⟨htable l hl, ?_⟩⟩
    refine ⟨_, if x.timeBound?.isSome then [l.cannotExpress ("a time bound on " ++ x.kind.tag)]
      else [], if_pos hkind, .plain plain_steadyStateBody, ?_⟩
    intro t ht
    split at ht
    · rw [List.mem_singleton.mp ht]
      rfl
    · cases ht
  · obtain ⟨ts, hts⟩ := exists_body (l := .prism) (by simp) c scope x
    obtain ⟨us, hus, hres⟩ := Formula.exists_renderStrong hs hts
    have hframed : Framed us := Formula.framed_renderStrong
      (fun _ _ => ne_empty_of_lookup (l := .prism) (c := c)) (x.ne_empty_of_mem_atoms hnames) hus
    refine ⟨s, us, hframed, fun l hl => ⟨htable l hl, ts, [], ?_, ?_, by simp⟩⟩
    · rw [content, if_neg hkind]
      rcases hl with rfl | rfl
      · exact hts
      · exact hts
    · rwa [List.append_nil]

theorem outcome_of_content (hl : l = .prism ∨ l = .quantitativePrism)
    (hsupports : l.supports scope.kind x.kind = true) {s : Substitution}
    (hs : Substitution.ofTable (l.vocabulary c).symbols = .ok s)
    (hts : l.content c scope x = .ok ts) (hres : s.Resolves ts (us ++ es)) (hus : Framed us)
    (hes : ∀ t ∈ es, t.message?.isSome = true) :
    l.outcome c scope x = .ok (.mapped (sentence scope x)
      (l.query (queryOperator x) x ++ " [ " ++ printed (collapseSpacing false us) ++ " ]")
      (Mapping.ofTokens ts).error) := by
  let query := l.query (queryOperator x) x
  have htokens : l.tokens c scope x = .ok (queryTokens query ts) :=
    (tokens_probabilistic hl hsupports).trans (probabilisticTokens_of_content hts)
  have hfinal : l.finalTokens c scope x =
      .ok (queryTokens query (collapseSpacing false (us ++ es))) := by
    rw [finalTokens_eq htokens (passes_of_probabilistic hl hs),
      applyAll_of_resolves (resolves_queryTokens hres query),
      collapseSpacing_queryTokens (blankFree_query hl x) (query_ne_empty hl x) hus hes]
    rfl
  have hformula : printed (queryTokens query (collapseSpacing false (us ++ es))) =
      query ++ " [ " ++ printed (collapseSpacing false us) ++ " ]" := by
    rw [printed_queryTokens, hus.collapseSpacing_concat hes, printed_append, printed_errors hes,
      String.append_empty]
  have hmessages :
      messages (queryTokens query (collapseSpacing false (us ++ es))) = messages ts := by
    rw [messages_queryTokens, messages_collapseSpacing]
    exact Substitution.messages_eliminate (Substitution.eliminate_of_resolves hres)
  rw [outcome, mapping, if_pos hsupports, hfinal, ← hformula, ← error_ofTokens_congr hmessages]
  rfl

/-- The body is printed from what the logic asks about alone: from its tokens after all passes. The
elimination of weak untils does the same to them inside any query. -/
def AsksAbout (l : Logic) (c : Charset) (scope : Scope) (x : Pattern) (body : String) : Prop :=
  ∃ s ts us, l.passes c = .ok [.eliminateWeakUntil s, .collapseSpacing] ∧
    l.content c scope x = .ok ts ∧ s.eliminate ts = .ok us ∧
    (∀ query, s.eliminate (queryTokens query ts) = .ok (queryTokens query us)) ∧
    body = printed (collapseSpacing false us)

theorem asksAbout_of_resolves (hl : l = .prism ∨ l = .quantitativePrism) {s : Substitution}
    (hs : Substitution.ofTable (l.vocabulary c).symbols = .ok s)
    (hts : l.content c scope x = .ok ts) (hres : s.Resolves ts (us ++ es)) (hus : Framed us)
    (hes : ∀ t ∈ es, t.message?.isSome = true) :
    l.AsksAbout c scope x (printed (collapseSpacing false us)) := by
  refine ⟨s, ts, us ++ es, passes_of_probabilistic hl hs, hts,
    Substitution.eliminate_of_resolves hres, ?_, ?_⟩
  · intro query
    exact Substitution.eliminate_of_resolves (resolves_queryTokens hres query)
  · rw [hus.collapseSpacing_concat hes, printed_append, printed_errors hes, String.append_empty]

theorem content_eq_of_ne (hkind : x.kind ≠ .occurrence .steadyState) :
    prism.content c scope x = quantitativePrism.content c scope x := by
  rw [content, content, if_neg hkind, if_neg hkind]
  rfl

theorem error_of_content (hkind : x.kind = .occurrence .steadyState)
    (h : l.content c scope x = .ok ts) :
    (Mapping.ofTokens ts).error =
      x.timeBound?.map fun _ => l.name ++ " cannot express a time bound on SteadyState" := by
  rw [content, if_pos hkind] at h
  cases h
  exact error_steadyStateBody l hkind

/-- The two probabilistic logics support the same cells and ask about the same body, whatever the
probability bound is. Their errors differ in the name of the logic at most. -/
theorem outcome_probabilistic (c : Charset) (scope : Scope) (x : Pattern)
    (hnames : ∀ e ∈ scope.anchors ++ x.events, e.name ≠ "") :
    prism.supports scope.kind x.kind = quantitativePrism.supports scope.kind x.kind ∧
      (prism.supports scope.kind x.kind = true →
        ∃ (body : String) (e e' : Option String),
          prism.AsksAbout c scope x body ∧ quantitativePrism.AsksAbout c scope x body ∧
          (x.kind ≠ .occurrence .steadyState → e = e') ∧
          (x.kind = .occurrence .steadyState →
            e = (x.timeBound?.map fun _ => "Prism cannot express a time bound on SteadyState") ∧
            e' = (x.timeBound?.map fun _ =>
              "Quantitative Prism cannot express a time bound on SteadyState")) ∧
          x.withProbability x.probability? = x ∧
          ∀ b, let y := x.withProbability b
            prism.outcome c scope y = .ok (.mapped (sentence scope y)
              (queryOperator x ++ boundText b ++ " [ " ++ body ++ " ]") e) ∧
            quantitativePrism.outcome c scope y = .ok (.mapped (sentence scope y)
              (queryOperator x ++ "=?" ++ " [ " ++ body ++ " ]") e')) := by
  refine ⟨supports_prism_eq scope.kind x.kind, fun hsupports => ?_⟩
  obtain ⟨s, us, hus, hboth⟩ := exists_framed hnames c
  obtain ⟨hs, ts, es, hts, hres, hes⟩ := hboth .prism (Or.inl rfl)
  obtain ⟨hs', ts', es', hts', hres', hes'⟩ := hboth .quantitativePrism (Or.inr rfl)
  refine ⟨printed (collapseSpacing false us), (Mapping.ofTokens ts).error,
    (Mapping.ofTokens ts').error, asksAbout_of_resolves (Or.inl rfl) hs hts hres hus hes,
    asksAbout_of_resolves (Or.inr rfl) hs' hts' hres' hus hes', ?_, ?_, by simp, ?_⟩
  · intro hkind
    rw [content_eq_of_ne hkind, hts'] at hts
    rw [Except.ok.inj hts]
  · intro hkind
    exact ⟨error_of_content hkind hts, error_of_content hkind hts'⟩
  · intro b y
    have hkind : y.kind = x.kind := x.kind_withProbability b
    have hoperator : queryOperator y = queryOperator x := by
      rw [queryOperator, queryOperator, hkind]
    have hquery : prism.query (queryOperator y) y = queryOperator x ++ boundText b := by
      rw [query_prism, hoperator, x.probability?_withProbability]
    have hquery' : quantitativePrism.query (queryOperator y) y = queryOperator x ++ "=?" := by
      rw [query_quantitativePrism, hoperator]
    rw [← content_withProbability b] at hts hts'
    rw [← hkind] at hsupports
    have hsupports' := (supports_prism_eq scope.kind y.kind).symm.trans hsupports
    rw [← hquery, ← hquery']
    exact ⟨outcome_of_content (Or.inl rfl) hsupports hs hts hres hus hes,
      outcome_of_content (Or.inr rfl) hsupports' hs' hts' hres' hus hes'⟩

theorem outcome_probabilistic_weakUntil :
    let x : Pattern := .order .precedence ⟨⟨"p", ""⟩, ⟨"s", ""⟩, some ⟨"z", ""⟩, none, none⟩
    (∀ e ∈ Scope.globally.anchors ++ x.events, e.name ≠ "") ∧
      prism.supports .globally x.kind = true ∧
      ∃ body e, prism.AsksAbout .ascii .globally x body ∧
        ∀ b, let y := x.withProbability b
          quantitativePrism.outcome .ascii .globally y =
            .ok (.mapped (sentence .globally y) ("P=? [ " ++ body ++ " ]") e) := by
  intro x
  have hnames : ∀ e ∈ Scope.globally.anchors ++ x.events, e.name ≠ "" := by decide
  obtain ⟨body, e, e', hbody, -, -, -, -, houtcome⟩ :=
    (outcome_probabilistic .ascii .globally x hnames).2 rfl
  exact ⟨hnames, rfl, body, e', hbody, fun b => (houtcome b).2⟩

end Logic

end PropertyPatterns
