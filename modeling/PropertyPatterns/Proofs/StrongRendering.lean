import PropertyPatterns.Proofs.Rendering

namespace PropertyPatterns.Formula

open Token Substitution

/-- The token stream of a formula with a strong until, a disjunction and an always in place of each
weak until. -/
def renderStrong (v : Vocabulary) : Formula → Except MissingSymbol (List Token)
  | atom a => .ok [.event a]
  | neg f => do
    let op ← v.operatorToken .not
    let ts ← f.renderStrong v
    return op :: if f.isAtom then ts else Token.group ts
  | connect c f g => do
    let left ← f.renderStrong v
    let op ← v.operatorToken (.connective c)
    let right ← g.renderStrong v
    return f.operandTokens (.connective c) left ++ .space :: op :: .space ::
      g.operandTokens (.connective c) right
  | modal m b f => do
    let op ← v.annotated (.modality m) b
    let ts ← f.renderStrong v
    return op ++ .space :: Token.group ts
  | wait .strong b f g => do
    let left ← f.renderStrong v
    let op ← v.annotated (.wait .strong) b
    let right ← g.renderStrong v
    return f.operandTokens (.wait .strong) left ++ .space :: op ++ .space ::
      g.operandTokens (.wait .strong) right
  | wait .weak b f g => do
    let left ← f.renderStrong v
    let strong ← v.annotated (.wait .strong) b
    let right ← g.renderStrong v
    let or ← v.operatorToken (.connective .or)
    let always ← v.annotated (.modality .always) b
    let left := f.operandTokens (.wait .weak) left
    let right := g.operandTokens (.wait .weak) right
    return Token.group (left ++ .space :: strong ++ .space :: right) ++
      .space :: or :: .space :: always ++ .space :: left

section

variable {v : Vocabulary} {f g : Formula} {us : List Token}

theorem renderStrong_neg_eq_ok :
    (neg f).renderStrong v = .ok us ↔ ∃ op, v.operatorToken .not = .ok op ∧
      ∃ ts, f.renderStrong v = .ok ts ∧
        (op :: if f.isAtom then ts else Token.group ts) = us := by
  simp only [renderStrong, bind_eq_ok, pure_eq_ok]

theorem renderStrong_connect_eq_ok {c : Connective} :
    (connect c f g).renderStrong v = .ok us ↔ ∃ left, f.renderStrong v = .ok left ∧
      ∃ op, v.operatorToken (.connective c) = .ok op ∧ ∃ right, g.renderStrong v = .ok right ∧
        f.operandTokens (.connective c) left ++ .space :: op :: .space ::
          g.operandTokens (.connective c) right = us := by
  simp only [renderStrong, bind_eq_ok, pure_eq_ok]

theorem renderStrong_modal_eq_ok {m : Modality} {b : Option Bound} :
    (modal m b f).renderStrong v = .ok us ↔ ∃ op, v.annotated (.modality m) b = .ok op ∧
      ∃ ts, f.renderStrong v = .ok ts ∧ op ++ .space :: Token.group ts = us := by
  simp only [renderStrong, bind_eq_ok, pure_eq_ok]

theorem renderStrong_strong_eq_ok {b : Option Bound} :
    (wait .strong b f g).renderStrong v = .ok us ↔ ∃ left, f.renderStrong v = .ok left ∧
      ∃ op, v.annotated (.wait .strong) b = .ok op ∧ ∃ right, g.renderStrong v = .ok right ∧
        f.operandTokens (.wait .strong) left ++ .space :: op ++ .space ::
          g.operandTokens (.wait .strong) right = us := by
  simp only [renderStrong, bind_eq_ok, pure_eq_ok]

theorem renderStrong_weak_eq_ok {b : Option Bound} :
    (wait .weak b f g).renderStrong v = .ok us ↔ ∃ left, f.renderStrong v = .ok left ∧
      ∃ strong, v.annotated (.wait .strong) b = .ok strong ∧
      ∃ right, g.renderStrong v = .ok right ∧
      ∃ or, v.operatorToken (.connective .or) = .ok or ∧
      ∃ always, v.annotated (.modality .always) b = .ok always ∧
        Token.group (f.operandTokens (.wait .weak) left ++ .space :: strong ++
          .space :: g.operandTokens (.wait .weak) right) ++
        .space :: or :: .space :: always ++
        .space :: f.operandTokens (.wait .weak) left = us := by
  simp only [renderStrong, bind_eq_ok, pure_eq_ok]

end

section

variable {s : Substitution} {f g : Formula} {ts us ts' us' bound : List Token} {text : String}

theorem resolves_modal (m : Modality) (hbound : IsAnnotation bound) (h : Resolves s ts us) :
    Resolves s (.operator (.modality m) text :: bound ++ .space :: Token.group ts)
      (.operator (.modality m) text :: bound ++ .space :: Token.group us) := by
  have hlead : Plain (.operator (.modality m) text :: bound ++ [.space]) := by
    simpa [Plain, or_imp, forall_and] using hbound.plain
  have hgroup := Resolves.group hlead h
  simpa only [List.append_assoc, List.singleton_append] using hgroup

theorem resolves_operands {o : Operator} (ho : o ≠ .wait .weak) (hbound : IsAnnotation bound)
    (hleft : Resolves s ts us) (hright : Resolves s ts' us') :
    Resolves s
      (f.operandTokens o ts ++ (.space :: .operator o text :: bound ++
        .space :: g.operandTokens o ts'))
      (f.operandTokens o us ++ (.space :: .operator o text :: bound ++
        .space :: g.operandTokens o us')) := by
  have hmid : Plain (.space :: .operator o text :: bound) := by
    simpa [Plain, ho] using hbound.plain
  simp only [operandTokens_eq_enclose]
  exact .join hmid (resolves_enclose hleft _) (resolves_enclose hright _)

theorem isLiteral_of_bare {v : Vocabulary} (h : f.render v = .ok ts)
    (hbare : (!f.isBareIn (.wait .weak)) = false) : IsLiteral ts :=
  isLiteral_of_render (isLiteral_of_isBareIn_wait (by simpa using hbare)) h

theorem resolves_weakUntil {v : Vocabulary} (text : String) (hbound : IsAnnotation bound)
    (hf : f.render v = .ok ts) (hleft : Resolves s ts us) (hg : g.render v = .ok ts')
    (hright : Resolves s ts' us') :
    Resolves s
      (f.operandTokens (.wait .weak) ts ++ (.space :: .operator (.wait .weak) text :: bound ++
        .space :: g.operandTokens (.wait .weak) ts'))
      (s.replacement (f.operandTokens (.wait .weak) us) bound
        (g.operandTokens (.wait .weak) us')) := by
  have hweak : (Token.operator (.wait .weak) text).isWeakUntil = true := by simp
  simp only [operandTokens_eq_enclose]
  exact .replace hweak hbound hleft hright (isLiteral_of_bare hf) (isLiteral_of_bare hg)

end

/-- The strong rendering of a formula that can be rendered is what its stream resolves to. -/
theorem exists_renderStrong {v : Vocabulary} {s : Substitution} {f : Formula} {ts : List Token}
    (hs : ofTable v.symbols = .ok s) (h : f.render v = .ok ts) :
    ∃ us, f.renderStrong v = .ok us ∧ Resolves s ts us := by
  induction f generalizing ts with
  | atom a =>
    obtain rfl := Except.ok.inj h
    exact ⟨_, rfl, .plain (IsLiteral.event a).plain⟩
  | neg f ih =>
    obtain ⟨op, hop, us, hus, rfl⟩ := render_neg_eq_ok.mp h
    obtain ⟨us', hus', hres⟩ := ih hus
    refine ⟨_, renderStrong_neg_eq_ok.mpr ⟨op, hop, us', hus', rfl⟩, ?_⟩
    obtain ⟨text, -, rfl⟩ := Vocabulary.operatorToken_eq_ok.mp hop
    cases hf : f.isAtom with
    | true =>
      obtain ⟨a, rfl⟩ := isAtom_iff.mp hf
      obtain rfl := Except.ok.inj hus
      obtain rfl := Except.ok.inj hus'
      exact .plain (IsLiteral.negated text a).plain
    | false =>
      have hlead : Plain [.operator .not text] := by simp [Plain]
      exact .group hlead hres
  | connect c f g ihf ihg =>
    obtain ⟨left, hleft, op, hop, right, hright, rfl⟩ := render_connect_eq_ok.mp h
    obtain ⟨left', hleft', hresl⟩ := ihf hleft
    obtain ⟨right', hright', hresr⟩ := ihg hright
    refine ⟨_, renderStrong_connect_eq_ok.mpr ⟨left', hleft', op, hop, right', hright', rfl⟩, ?_⟩
    obtain ⟨text, -, rfl⟩ := Vocabulary.operatorToken_eq_ok.mp hop
    exact resolves_operands (by simp) (Or.inl rfl) hresl hresr
  | modal m b f ih =>
    obtain ⟨op, hop, us, hus, rfl⟩ := render_modal_eq_ok.mp h
    obtain ⟨us', hus', hres⟩ := ih hus
    refine ⟨_, renderStrong_modal_eq_ok.mpr ⟨op, hop, us', hus', rfl⟩, ?_⟩
    obtain ⟨text, bound, -, hbound, rfl⟩ := Vocabulary.annotated_eq_ok.mp hop
    exact resolves_modal m (Vocabulary.isAnnotation_of_boundTokens hbound) hres
  | wait str b f g ihf ihg =>
    obtain ⟨left, hleft, op, hop, right, hright, rfl⟩ := render_wait_eq_ok.mp h
    obtain ⟨left', hleft', hresl⟩ := ihf hleft
    obtain ⟨right', hright', hresr⟩ := ihg hright
    obtain ⟨text, bound, -, hbound, rfl⟩ := Vocabulary.annotated_eq_ok.mp hop
    have hannotation := Vocabulary.isAnnotation_of_boundTokens hbound
    rw [List.append_assoc]
    cases str with
    | strong =>
      refine ⟨_, renderStrong_strong_eq_ok.mpr ⟨left', hleft', _, hop, right', hright', rfl⟩, ?_⟩
      rw [List.append_assoc]
      exact resolves_operands (by simp) hannotation hresl hresr
    | weak =>
      obtain ⟨huntil, hor, halways⟩ := ofTable_eq_ok.mp hs
      have hstrong := Vocabulary.annotated_eq_ok.mpr ⟨_, bound, huntil, hbound, rfl⟩
      have hor := Vocabulary.operatorToken_eq_ok.mpr ⟨_, hor, rfl⟩
      have halways := Vocabulary.annotated_eq_ok.mpr ⟨_, bound, halways, hbound, rfl⟩
      refine ⟨_, renderStrong_weak_eq_ok.mpr ⟨left', hleft', _, hstrong, right', hright', _, hor, _,
        halways, rfl⟩, ?_⟩
      have hreplace := resolves_weakUntil text hannotation hleft hresl hright hresr
      simpa [replacement_eq] using hreplace

end PropertyPatterns.Formula
