import PropertyPatterns.Proofs.WeakUntilSearch

namespace PropertyPatterns.Token

/-- Tokens that neither open nor close a group nor ask for a replacement. -/
def Plain (ts : List Token) : Prop :=
  ∀ t ∈ ts, t ≠ opening ∧ t ≠ closing ∧ t.isWeakUntil = false

theorem plain_nil : Plain [] := by
  simp [Plain]

theorem Plain.balanced {ts : List Token} (h : Plain ts) : Balanced ts :=
  openAfter_of_ne fun t ht => ⟨(h t ht).1, (h t ht).2.1⟩

theorem Plain.countP {ts : List Token} (h : Plain ts) : ts.countP isWeakUntil = 0 := by
  rw [List.countP_eq_zero]
  intro t ht
  simp [(h t ht).2.2]

theorem Plain.append {ts us : List Token} (hts : Plain ts) (hus : Plain us) : Plain (ts ++ us) := by
  intro t ht
  rcases List.mem_append.mp ht with h | h
  · exact hts t h
  · exact hus t h

/-- An event or a negated event: what needs no brackets as an operand. -/
inductive IsLiteral : List Token → Prop
  | event (name : String) : IsLiteral [event name]
  | negated (text name : String) : IsLiteral [operator .not text, event name]

theorem IsLiteral.plain {ts : List Token} (h : IsLiteral ts) : Plain ts := by
  cases h with
  | event name => simp [Plain]
  | negated text name => simp [Plain]

/-- A stream as an operand, in brackets or bare. -/
def enclose (brackets : Bool) (ts : List Token) : List Token :=
  if brackets then group ts else ts

/-- Bounds are printed by at most one token. -/
def IsAnnotation (ts : List Token) : Prop :=
  ts = [] ∨ ∃ t, ts = [t] ∧ t.isBound = true

theorem IsAnnotation.plain {ts : List Token} (h : IsAnnotation ts) : Plain ts := by
  rcases h with rfl | ⟨t, rfl, ht⟩
  · simp [Plain]
  · have hne : t ≠ opening ∧ t ≠ closing := by
      constructor
      · rintro rfl
        cases ht
      · rintro rfl
        cases ht
    simpa [Plain, isWeakUntil_of_isBound ht] using hne

theorem IsAnnotation.splitBound {ts us : List Token} (h : IsAnnotation ts) :
    splitBound (ts ++ space :: us) = (ts, space :: us) := by
  rcases h with rfl | ⟨t, rfl, ht⟩
  · rfl
  · rw [List.singleton_append, Token.splitBound, if_pos ht]

section Operands

variable {brackets : Bool} {ts us : List Token}

theorem enclose_balanced (h : Balanced ts) : Balanced (enclose brackets ts) := by
  cases brackets with
  | true => exact h.group
  | false => exact h

theorem countP_group : (group ts).countP isWeakUntil = ts.countP isWeakUntil := by
  simp [group]

theorem countP_enclose : (enclose brackets ts).countP isWeakUntil = ts.countP isWeakUntil := by
  cases brackets with
  | true => exact countP_group
  | false => rfl

theorem rightOperand_enclose (h : Balanced ts) (hlit : brackets = false → IsLiteral ts)
    (position : Nat) :
    rightOperand position (enclose brackets ts ++ us) = .ok (enclose brackets ts, us) := by
  cases brackets with
  | true =>
    have htake : takeGroup opening closing 0 (group ts ++ us) = some (group ts, us) :=
      takeGroup_group h
    simp only [enclose, if_true, group, List.cons_append, List.append_assoc,
      List.nil_append] at htake ⊢
    simp [rightOperand, splitTemporal, splitConnective, operator?, htake]
  | false =>
    cases hlit rfl with
    | event name => simp [rightOperand, enclose, splitTemporal, splitConnective, operator?]
    | negated text name =>
      simp [rightOperand, enclose, splitTemporal, splitConnective, splitSpaces, operator?,
        Operator.isModality, Operator.isPropositional]

theorem splitSpaces_enclose (hlit : brackets = false → IsLiteral ts) :
    splitSpaces (space :: (enclose brackets ts ++ us)) = ([space], enclose brackets ts ++ us) := by
  cases brackets with
  | true => simp [splitSpaces, enclose, group]
  | false => cases hlit rfl <;> simp [splitSpaces, enclose]

/-- The last token ahead of an operand would belong to it. -/
def EndsInNot (ts : List Token) : Prop :=
  ∃ text, ts.getLast? = some (operator .not text)

theorem leftOperand_enclose (h : Balanced ts) (hlit : brackets = false → IsLiteral ts)
    {ahead : List Token} (hahead : ¬EndsInNot ahead) :
    leftOperand (ahead ++ (enclose brackets ts ++ [space])).reverse =
      .ok ((enclose brackets ts).reverse, ahead.reverse) := by
  cases brackets with
  | true =>
    have htake : takeGroup closing opening 0 ((group ts).reverse ++ ahead.reverse) =
        some ((group ts).reverse, ahead.reverse) := takeGroup_reverse_group h
    simp only [enclose, if_true, group, List.reverse_append, List.reverse_cons, List.reverse_nil,
      List.nil_append, List.cons_append, List.append_assoc] at htake ⊢
    simp [leftOperand, htake]
  | false =>
    cases hlit rfl with
    | event name =>
      simp only [enclose, Bool.false_eq_true, if_false, List.reverse_append, List.reverse_cons,
        List.reverse_nil, List.nil_append, List.cons_append]
      cases hrev : ahead.reverse with
      | nil => simp [leftOperand]
      | cons t rest =>
        have hlast : ahead.getLast? = some t := by
          rw [List.getLast?_eq_head?_reverse, hrev]
          rfl
        have ht : ∀ text, t ≠ operator .not text := by
          rintro text rfl
          exact hahead ⟨text, hlast⟩
        have hdrop : (space :: event name :: t :: rest).dropWhile (· = space) =
            event name :: t :: rest := by simp
        simp only [leftOperand, hdrop]
        split
        · exact absurd (List.cons.inj ‹_›).1 (ht _)
        · rfl
    | negated text name => simp [leftOperand, enclose]

theorem endsInNot_append {ahead lead : List Token} (hahead : ¬EndsInNot ahead)
    (hlead : ¬EndsInNot lead) : ¬EndsInNot (ahead ++ lead) := by
  rintro ⟨text, h⟩
  rw [List.getLast?_append] at h
  cases hlast : lead.getLast? with
  | none =>
    rw [hlast] at h
    exact hahead ⟨text, h⟩
  | some t =>
    rw [hlast] at h
    exact hlead ⟨text, hlast.trans h⟩

theorem not_endsInNot_nil : ¬EndsInNot [] := by
  simp [EndsInNot]

theorem not_endsInNot_concat {lead : List Token} {t : Token} (h : t.operator? = none) :
    ¬EndsInNot (lead ++ [t]) := by
  rintro ⟨text, hlast⟩
  rw [List.getLast?_concat] at hlast
  obtain rfl := Option.some.inj hlast
  cases h

end Operands

end PropertyPatterns.Token
