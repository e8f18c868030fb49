import Mathlib.Data.List.TakeWhile
import PropertyPatterns.Proofs.Elimination

namespace PropertyPatterns.Token

/-- What the elimination takes for an operand, apart from operators ahead of it. -/
inductive IsOperand : List Token → Prop
  | literal {ts : List Token} (h : IsLiteral ts) : IsOperand ts
  | group {ts : List Token} (h : Balanced ts) : IsOperand (group ts)

section Operands

variable {inner : Nat} {ts : List Token}

theorem IsOperand.balanced (h : IsOperand ts) : Balanced ts := by
  cases h with
  | literal h => exact h.plain.balanced
  | group h => exact h.group

theorem IsOperand.countP_eq_zero (h : IsOperand ts)
    (hle : ∀ e ∈ weakUntilDepths inner ts, e ≤ inner) : ts.countP isWeakUntil = 0 := by
  -- A weak until in an operand is deeper than the operand stands.
  cases h with
  | literal h => exact h.plain.countP
  | @group body h =>
    have hbare : true = false → IsLiteral body := by simp
    rw [countP_group]
    exact Substitution.countP_eq_zero_of_le h hbare hle

theorem plain_takeWhile_space (ts : List Token) : Plain (ts.takeWhile (· = space)) := by
  intro t ht
  obtain rfl : t = space := by simpa using List.mem_takeWhile_imp ht
  decide

/-- Reading backwards from a place inside some brackets, the operand is found or its last token is
none that ends an operand. -/
theorem leftOperand_cases (h : openAfter closing opening inner ts = some 0) :
    (∃ i found, leftOperand ts = .error (.unrecognizedOperand i found) ∧ i ≤ ts.length) ∨
      ∃ gap left ahead, ts = gap ++ (left ++ ahead) ∧ Plain gap ∧ IsOperand left.reverse ∧
        leftOperand ts = .ok (left, ahead) := by
  have hgap := plain_takeWhile_space ts
  have hsplit : ts.takeWhile (· = space) ++ ts.dropWhile (· = space) = ts :=
    List.takeWhile_append_dropWhile
  generalize ts.takeWhile (· = space) = gap at hgap hsplit
  unfold leftOperand
  generalize ts.dropWhile (· = space) = us at hsplit
  subst hsplit
  have hrest : openAfter closing opening inner us = some 0 := by
    have hback : openAfter closing opening inner gap = some inner :=
      openAfter_of_ne fun t ht => ⟨(hgap t ht).2.1, (hgap t ht).1⟩
    rwa [openAfter_append hback] at h
  split
  · exact .inl ⟨_, _, rfl, Nat.le_refl _⟩
  · rename_i vs
    obtain ⟨body, ahead, htake, hbody⟩ := exists_takeGroup_body (by decide) hrest
    have hgroup : (closing :: body ++ [opening]).reverse = group body.reverse := by
      simp [group]
    refine .inr ⟨gap, _, ahead, ?_, hgap, ?_, by rw [htake]; rfl⟩
    · rw [append_of_takeGroup htake]
    · rw [hgroup]
      exact .group (openAfter_reverse hbody (by decide))
  · rename_i e vs
    split
    · rename_i text us
      exact .inr ⟨gap, [event e, operator .not text], us, rfl, hgap, .literal (.negated text e), rfl⟩
    · exact .inr ⟨gap, [event e], vs, rfl, hgap, .literal (.event e), rfl⟩
  · refine .inl ⟨_, _, rfl, ?_⟩
    simp only [List.length_append, List.length_cons]
    omega

theorem isAnnotation_splitBound (ts : List Token) : IsAnnotation (splitBound ts).1 := by
  cases ts with
  | nil => exact .inl rfl
  | cons t ts =>
    rw [splitBound]
    split
    · exact .inr ⟨t, rfl, ‹_›⟩
    · exact .inl rfl

theorem plain_splitSpaces (ts : List Token) : Plain (splitSpaces ts).1 :=
  plain_takeWhile_space ts

theorem exists_splitBound (ts : List Token) :
    ∃ bound gap us, ts = bound ++ gap ++ us ∧ IsAnnotation bound ∧ Plain gap ∧
      splitBound ts = (bound, gap ++ us) ∧ splitSpaces (gap ++ us) = (gap, us) := by
  have hbound := isAnnotation_splitBound ts
  have hts := splitBound_append ts
  rcases hsplit : splitBound ts with ⟨bound, rest⟩
  rw [hsplit] at hbound hts
  have hrest := splitSpaces_append rest
  refine ⟨bound, (splitSpaces rest).1, (splitSpaces rest).2, ?_, hbound, plain_splitSpaces rest,
    ?_, ?_⟩
  · rw [List.append_assoc, hrest, hts]
  · rw [hrest]
  · rw [hrest]

theorem plain_operator {t : Token} {p : Operator → Bool} (h : t.operator?.any p = true)
    (hp : p (.wait .weak) = false) : Plain [t] := by
  cases t with
  | operator o text =>
    have ho : o ≠ .wait .weak := by
      rintro rfl
      exact Bool.false_ne_true (hp.symm.trans h)
    simpa [Plain] using ho
  | event | opening | closing | space | timeBound | text | error => cases h

theorem plain_splitTemporal (ts : List Token) : Plain (splitTemporal ts).1 := by
  cases ts with
  | nil => exact plain_nil
  | cons t ts =>
    rw [splitTemporal]
    split
    · have ht : Plain [t] := plain_operator ‹_› rfl
      exact (ht.append (isAnnotation_splitBound ts).plain).append (plain_splitSpaces _)
    · exact plain_nil

theorem plain_splitConnective (ts : List Token) : Plain (splitConnective ts).1 := by
  cases ts with
  | nil => exact plain_nil
  | cons t ts =>
    rw [splitConnective]
    split
    · have ht : Plain [t] := plain_operator ‹_› rfl
      exact ht.append (plain_splitSpaces ts)
    · exact plain_nil

/-- Reading forwards from a place inside some brackets, the operand is found or its first token is
none that begins an operand. -/
theorem rightOperand_cases (h : openAfter opening closing inner ts = some 0) (position : Nat) :
    (∃ i found, rightOperand position ts = .error (.unrecognizedOperand i found) ∧
        i ≤ position + ts.length) ∨
      ∃ lead right rest, ts = lead ++ right ++ rest ∧ Plain lead ∧ IsOperand right ∧
        rightOperand position ts = .ok (lead ++ right, rest) := by
  have hlead := (plain_splitTemporal ts).append (plain_splitConnective (splitTemporal ts).2)
  have hsplit : (splitTemporal ts).1 ++ (splitConnective (splitTemporal ts).2).1 ++
      (splitConnective (splitTemporal ts).2).2 = ts := by
    rw [List.append_assoc, splitConnective_append, splitTemporal_append]
  simp only [rightOperand]
  generalize (splitTemporal ts).1 ++ (splitConnective (splitTemporal ts).2).1 = lead
    at hlead hsplit ⊢
  generalize (splitConnective (splitTemporal ts).2).2 = us at hsplit ⊢
  subst hsplit
  have hrest : openAfter opening closing inner us = some 0 := by
    rwa [openAfter_append hlead.balanced.openAfter] at h
  cases us with
  | nil => exact .inl ⟨_, _, rfl, by simp⟩
  | cons u us =>
    cases u with
    | event e => exact .inr ⟨lead, [event e], us, by simp, hlead, .literal (.event e), rfl⟩
    | opening =>
      obtain ⟨body, rest, htake, hbody⟩ := exists_takeGroup_body (by decide) hrest
      refine .inr ⟨lead, group body, rest, ?_, hlead, .group hbody, by simp only [htake]; rfl⟩
      rw [List.append_assoc, group, append_of_takeGroup htake]
    | closing | operator | space | timeBound | text | error =>
      exact .inl ⟨_, _, rfl, by simp⟩

theorem Plain.reverse (h : Plain ts) : Plain ts.reverse :=
  fun t ht => h t (List.mem_reverse.mp ht)

end Operands

end PropertyPatterns.Token
