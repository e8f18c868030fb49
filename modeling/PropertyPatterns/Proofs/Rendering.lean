import PropertyPatterns.Proofs.Elimination
import PropertyPatterns.Proofs.Results

namespace PropertyPatterns

open Token

namespace Vocabulary

variable {v : Vocabulary} {o : Operator} {b : Option Bound} {t : Token} {ts : List Token}

theorem operatorToken_eq_ok :
    v.operatorToken o = .ok t ↔
      ∃ text, v.symbols.lookup (.operator o) = .ok text ∧ operator o text = t := by
  simp only [operatorToken, bind_eq_ok, pure_eq_ok]

theorem annotated_eq_ok :
    v.annotated o b = .ok ts ↔
      ∃ text bound, v.symbols.lookup (.operator o) = .ok text ∧ v.boundTokens b = .ok bound ∧
        operator o text :: bound = ts := by
  simp only [annotated, bind_eq_ok, pure_eq_ok, operatorToken_eq_ok]
  constructor
  · rintro ⟨_, ⟨text, htext, rfl⟩, bound, hbound, rfl⟩
    exact ⟨text, bound, htext, hbound, rfl⟩
  · rintro ⟨text, bound, htext, hbound, rfl⟩
    exact ⟨_, ⟨text, htext, rfl⟩, bound, hbound, rfl⟩

theorem balanced_operator {text : String} (h : Balanced ts) : Balanced (operator o text :: ts) :=
  h.cons (by simp) (by simp)

theorem isBound_relationalToken (i : Interval) : (v.relationalToken i).isBound = true := by
  rw [relationalToken]
  split
  · rfl
  · split
    · rfl
    · split <;> rfl

theorem isAnnotation_of_boundTokens (h : v.boundTokens b = .ok ts) : IsAnnotation ts := by
  rcases b with _ | ⟨i⟩ | reason
  · obtain rfl := Except.ok.inj h
    exact Or.inl rfl
  · rw [boundTokens, intervalTokens] at h
    split at h
    · obtain rfl := Except.ok.inj h
      exact Or.inl rfl
    · split at h
      · obtain rfl := Except.ok.inj h
        exact Or.inr ⟨_, rfl, rfl⟩
      · obtain ⟨upper, -, h⟩ := bind_eq_ok.mp h
        obtain rfl := pure_eq_ok.mp h
        exact Or.inr ⟨_, rfl, rfl⟩
      · obtain rfl := Except.ok.inj h
        exact Or.inr ⟨_, rfl, isBound_relationalToken i⟩
  · obtain rfl := Except.ok.inj h
    exact Or.inr ⟨_, rfl, rfl⟩

theorem balanced_of_annotated (h : v.annotated o b = .ok ts) : Balanced ts := by
  obtain ⟨text, bound, -, hbound, rfl⟩ := annotated_eq_ok.mp h
  exact balanced_operator (isAnnotation_of_boundTokens hbound).plain.balanced

end Vocabulary

namespace Token.Substitution

theorem ofTable_eq_ok {t : SymbolTable} {s : Substitution} :
    ofTable t = .ok s ↔
      t.lookup (.operator (.wait .strong)) = .ok s.untilText ∧
      t.lookup (.operator (.connective .or)) = .ok s.orText ∧
      t.lookup (.operator (.modality .always)) = .ok s.alwaysText := by
  simp only [ofTable, bind_eq_ok, pure_eq_ok]
  constructor
  · rintro ⟨_, huntil, _, hor, _, halways, rfl⟩
    exact ⟨huntil, hor, halways⟩
  · rintro ⟨huntil, hor, halways⟩
    exact ⟨_, huntil, _, hor, _, halways, rfl⟩

end Token.Substitution

namespace Formula

variable {v : Vocabulary} {f : Formula} {ts : List Token}

theorem operandTokens_eq_enclose (o : Operator) (f : Formula) (ts : List Token) :
    f.operandTokens o ts = enclose (!f.isBareIn o) ts := by
  cases h : f.isBareIn o <;> simp [operandTokens, enclose, h]

theorem render_neg_eq_ok :
    (neg f).render v = .ok ts ↔ ∃ op, v.operatorToken .not = .ok op ∧ ∃ us, f.render v = .ok us ∧
      (op :: if f.isAtom then us else Token.group us) = ts := by
  simp only [render, bind_eq_ok, pure_eq_ok]

theorem render_connect_eq_ok {c : Connective} {g : Formula} :
    (connect c f g).render v = .ok ts ↔ ∃ left, f.render v = .ok left ∧
      ∃ op, v.operatorToken (.connective c) = .ok op ∧ ∃ right, g.render v = .ok right ∧
        f.operandTokens (.connective c) left ++ .space :: op :: .space ::
          g.operandTokens (.connective c) right = ts := by
  simp only [render, bind_eq_ok, pure_eq_ok]

theorem render_modal_eq_ok {m : Modality} {b : Option Bound} :
    (modal m b f).render v = .ok ts ↔ ∃ op, v.annotated (.modality m) b = .ok op ∧
      ∃ us, f.render v = .ok us ∧ op ++ .space :: Token.group us = ts := by
  simp only [render, bind_eq_ok, pure_eq_ok]

theorem render_wait_eq_ok {s : Strength} {b : Option Bound} {g : Formula} :
    (wait s b f g).render v = .ok ts ↔ ∃ left, f.render v = .ok left ∧
      ∃ op, v.annotated (.wait s) b = .ok op ∧ ∃ right, g.render v = .ok right ∧
        f.operandTokens (.wait s) left ++ .space :: op ++ .space ::
          g.operandTokens (.wait s) right = ts := by
  simp only [render, bind_eq_ok, pure_eq_ok]

theorem isAtom_iff : f.isAtom = true ↔ ∃ a, f = atom a := by
  cases f <;> simp [isAtom]

theorem render_neg_atom (a : String) :
    (neg (atom a)).render v = .ok ts ↔
      ∃ text, v.symbols.lookup (.operator .not) = .ok text ∧
        [.operator .not text, .event a] = ts := by
  simp only [render, bind_eq_ok, pure_eq_ok, Vocabulary.operatorToken_eq_ok]
  constructor
  · rintro ⟨_, ⟨text, htext, rfl⟩, us, hus, rfl⟩
    obtain rfl := Except.ok.inj hus
    exact ⟨text, htext, rfl⟩
  · rintro ⟨text, htext, rfl⟩
    exact ⟨_, ⟨text, htext, rfl⟩, _, rfl, rfl⟩

theorem isLiteral_of_isBareIn_wait {f : Formula} {s : Strength}
    (h : f.isBareIn (.wait s) = true) : f.isLiteral = true := by
  simpa [isBareIn] using h

theorem isLiteral_of_render (hf : f.isLiteral = true) (h : f.render v = .ok ts) :
    IsLiteral ts := by
  -- A literal needs no brackets because its tokens form an operand by themselves.
  cases f with
  | atom a =>
    obtain rfl := Except.ok.inj h
    exact .event a
  | neg f =>
    obtain ⟨a, rfl⟩ := isAtom_iff.mp hf
    obtain ⟨text, -, rfl⟩ := (render_neg_atom a).mp h
    exact .negated text a
  | connect | modal | wait => cases hf

theorem balanced_operandTokens {o : Operator} (h : Balanced ts) :
    Balanced (f.operandTokens o ts) := by
  rw [operandTokens_eq_enclose]
  exact enclose_balanced h

theorem balanced_of_render (h : f.render v = .ok ts) : Balanced ts := by
  induction f generalizing ts with
  | atom a =>
    obtain rfl := Except.ok.inj h
    exact (IsLiteral.event a).plain.balanced
  | neg f ih =>
    obtain ⟨op, hop, us, hus, rfl⟩ := render_neg_eq_ok.mp h
    obtain ⟨text, -, rfl⟩ := Vocabulary.operatorToken_eq_ok.mp hop
    apply Vocabulary.balanced_operator
    split
    · exact ih hus
    · exact (ih hus).group
  | connect c f g ihf ihg =>
    obtain ⟨left, hleft, op, hop, right, hright, rfl⟩ := render_connect_eq_ok.mp h
    obtain ⟨text, -, rfl⟩ := Vocabulary.operatorToken_eq_ok.mp hop
    have hmid : Balanced [.space, .operator (.connective c) text] := rfl
    exact Substitution.balanced_join hmid (balanced_operandTokens (ihf hleft))
      (balanced_operandTokens (ihg hright))
  | modal m b f ih =>
    obtain ⟨op, hop, us, hus, rfl⟩ := render_modal_eq_ok.mp h
    exact (Vocabulary.balanced_of_annotated hop).append ((ih hus).group.cons (by simp) (by simp))
  | wait s b f g ihf ihg =>
    obtain ⟨left, hleft, op, hop, right, hright, rfl⟩ := render_wait_eq_ok.mp h
    have hmid : Balanced (.space :: op) :=
      (Vocabulary.balanced_of_annotated hop).cons (by simp) (by simp)
    rw [List.append_assoc]
    exact Substitution.balanced_join hmid (balanced_operandTokens (ihf hleft))
      (balanced_operandTokens (ihg hright))

end Formula

end PropertyPatterns
