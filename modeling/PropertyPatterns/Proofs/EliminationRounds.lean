import PropertyPatterns.Proofs.FoundOperands

/-!
The rounds of the elimination in any stream of tokens. A round finds its operands within the stream
or reports a token that begins none, never a bracket without its counterpart. Its operands are free of
weak untils, so each round leaves one less, although the left operand is copied.
-/

namespace PropertyPatterns.Token

namespace Substitution

section Rounds

variable {s : Substitution} {ts us : List Token} {w : Nat}

/-- What comes of replacing the weak until at position `w`: there is no operand at some place of the
stream, or the weak until and the operands beside it, which hold no other, make way for the
replacement. Brackets are never reported: each that an operand begins with has its counterpart. -/
inductive Round (s : Substitution) (ts : List Token) (w : Nat) :
    Except PassError (List Token) → Prop
  | unrecognized {i : Nat} (found : String) (hi : i ≤ ts.length) :
    Round s ts w (.error (.unrecognizedOperand i found))
  | replaced {ahead left gap bound gap' lead right rest : List Token} {t : Token}
    (hts : ts = ahead ++ (left ++ gap ++ t :: (bound ++ gap' ++ (lead ++ right))) ++ rest)
    (hw : w = (ahead ++ (left ++ gap)).length) (ht : t.isWeakUntil = true)
    (hgap : Plain gap) (hbound : IsAnnotation bound) (hgap' : Plain gap') (hlead : Plain lead)
    (hleft : IsOperand left) (hright : IsOperand right) (hleftCount : left.countP isWeakUntil = 0)
    (hrightCount : right.countP isWeakUntil = 0) :
    Round s ts w (.ok (ahead ++ s.replacement left bound (lead ++ right) ++ rest))

theorem Round.countP (h : s.Round ts w (.ok us)) :
    us.countP isWeakUntil + 1 = ts.countP isWeakUntil := by
  cases h with
  | replaced hts hw ht hgap hbound hgap' hlead hleft hright hleftCount hrightCount =>
    subst hts
    simp only [List.countP_append, List.countP_cons, countP_replacement hbound.plain, hleftCount,
      hrightCount, hlead.countP, hgap.countP, hgap'.countP, hbound.plain.countP, ht, if_true]
    omega

theorem Round.balanced (h : s.Round ts w (.ok us)) (hts : Balanced ts) : Balanced us := by
  cases h with
  | replaced heq hw ht hgap hbound hgap' hlead hleft hright hleftCount hrightCount =>
    rename_i ahead left gap bound gap' lead right rest t
    subst heq
    obtain ⟨ho, hc⟩ := ne_bracket_of_isWeakUntil ht
    have hbehind : Balanced (bound ++ gap' ++ (lead ++ right)) :=
      (hbound.plain.append hgap').balanced.append (hlead.balanced.append hright.balanced)
    have hold : Balanced (left ++ gap ++ t :: (bound ++ gap' ++ (lead ++ right))) :=
      (hleft.balanced.append hgap.balanced).append (hbehind.cons ho hc)
    have hnew : Balanced (s.replacement left bound (lead ++ right)) :=
      balanced_replacement hleft.balanced (hlead.balanced.append hright.balanced) hbound.plain
    -- Both streams go on at the same depth behind the part that changes.
    obtain ⟨k, hinner, hrest⟩ := exists_openAfter_of_append hts
    obtain ⟨d, hahead, hk⟩ := exists_openAfter_of_append hinner
    obtain rfl : d = k := Option.some.inj (hold.openAfter.symm.trans hk)
    rw [Balanced, List.append_assoc, openAfter_append hahead, openAfter_append hnew.openAfter]
    exact hrest

section IsNext

variable {t : Token} {before behind mid : List Token} {inner : Nat}

theorem leftOperand_of_isNext (h : IsNext 0 before t behind inner) :
    (∃ i found, leftOperand before.reverse = .error (.unrecognizedOperand i found) ∧
        i ≤ before.length) ∨
      ∃ ahead left gap, before = ahead ++ (left ++ gap) ∧ Plain gap ∧ IsOperand left ∧
        left.countP isWeakUntil = 0 ∧
        leftOperand before.reverse = .ok (left.reverse, ahead.reverse) := by
  -- Read backwards, the stream closes the brackets that are open around the weak until.
  have hback : openAfter closing opening inner before.reverse = some 0 :=
    openAfter_reverse h.openAfter_before (by decide)
  obtain ⟨i, found, herror, hi⟩ | ⟨gap, left, ahead, hsplit, hgap, hleft, hok⟩ :=
    leftOperand_cases hback
  · exact .inl ⟨i, found, herror, by rwa [List.length_reverse] at hi⟩
  · obtain rfl : before = ahead.reverse ++ (left.reverse ++ gap.reverse) := by
      simpa using congrArg List.reverse hsplit
    refine .inr ⟨ahead.reverse, left.reverse, gap.reverse, rfl, hgap.reverse, hleft, ?_, ?_⟩
    · -- The operand begins at the depth of the weak until, so what it holds is deeper.
      obtain ⟨k, hahead, hk⟩ := exists_openAfter_of_append h.openAfter_before
      have hbalanced : Balanced (left.reverse ++ gap.reverse) :=
        hleft.balanced.append hgap.reverse.balanced
      obtain rfl : k = inner := Option.some.inj (hbalanced.openAfter.symm.trans hk)
      have hle : ∀ e ∈ weakUntilDepths k left.reverse, e ≤ k := by
        intro e he
        have hlt := (h.of_append_before hahead).lt_of_mem_before e
        exact Nat.le_of_lt (hlt (mem_weakUntilDepths_append he))
      exact hleft.countP_eq_zero hle
    · rw [List.reverse_reverse, List.reverse_reverse]
      exact hok

theorem openAfter_of_isNext (h : IsNext 0 before t (mid ++ ts) inner) (hmid : Plain mid)
    (hbalanced : Balanced (before ++ t :: (mid ++ ts))) :
    openAfter opening closing inner ts = some 0 := by
  obtain ⟨ho, hc⟩ := ne_bracket_of_isWeakUntil h.isWeakUntil
  rw [Balanced, openAfter_append h.openAfter_before, openAfter_other ho hc,
    openAfter_append hmid.balanced.openAfter] at hbalanced
  exact hbalanced

theorem rightOperand_of_isNext (h : IsNext 0 before t (mid ++ ts) inner) (hmid : Plain mid)
    (hts : openAfter opening closing inner ts = some 0) (position : Nat) :
    (∃ i found, rightOperand position ts = .error (.unrecognizedOperand i found) ∧
        i ≤ position + ts.length) ∨
      ∃ lead right rest, ts = lead ++ right ++ rest ∧ Plain lead ∧ IsOperand right ∧
        right.countP isWeakUntil = 0 ∧ rightOperand position ts = .ok (lead ++ right, rest) := by
  refine (rightOperand_cases hts position).imp_right ?_
  rintro ⟨lead, right, rest, rfl, hlead, hright, hok⟩
  refine ⟨lead, right, rest, rfl, hlead, hright, ?_, hok⟩
  have hle : ∀ e ∈ weakUntilDepths inner right, e ≤ inner := by
    intro e he
    apply h.le_of_mem_behind
    rw [weakUntilDepths_append hmid.balanced.openAfter, List.append_assoc,
      weakUntilDepths_append hlead.balanced.openAfter]
    exact List.mem_append_right _ (List.mem_append_right _ (mem_weakUntilDepths_append he))
  exact hright.countP_eq_zero hle

end IsNext

theorem round_replaceAt (h : nextWeakUntil ts = .ok (some w)) :
    s.Round ts w (s.replaceAt ts w) := by
  have hbalanced := balanced_of_nextWeakUntil h
  obtain ⟨hnone, -⟩ | ⟨before, t, behind, inner, rfl, hnext, hfound⟩ :=
    nextWeakUntil_cases hbalanced
  · cases hnone.symm.trans h
  · obtain rfl : before.length = w := Option.some.inj (Except.ok.inj (hfound.symm.trans h))
    rw [replaceAt_length]
    obtain ⟨i, found, hleft, hi⟩ | ⟨ahead, left, gap, rfl, hgap, hleft, hleftCount, hok⟩ :=
      leftOperand_of_isNext hnext
    · rw [hleft]
      refine .unrecognized found ?_
      rw [List.length_append]
      omega
    · rw [hok]
      obtain ⟨bound, gap', us, rfl, hbound, hgap', hsplit, hsplit'⟩ := exists_splitBound behind
      have hmid : Plain (bound ++ gap') := hbound.plain.append hgap'
      have hus : openAfter opening closing inner us = some 0 :=
        openAfter_of_isNext hnext hmid hbalanced
      simp only [bind, Except.bind, hsplit, hsplit']
      obtain ⟨i, found, hright, hi⟩ | ⟨lead, right, rest, rfl, hlead, hright, hrightCount, hok'⟩ :=
        rightOperand_of_isNext hnext hmid hus _
      · rw [hright]
        refine .unrecognized found ?_
        simp only [List.length_append, List.length_cons] at hi ⊢
        omega
      · rw [hok', List.reverse_reverse, List.reverse_reverse]
        refine .replaced ?_ rfl hnext.isWeakUntil hgap hbound hgap' hlead hleft hright hleftCount
          hrightCount
        simp

theorem countP_balanced_of_replaceAt (h : nextWeakUntil ts = .ok (some w))
    (hround : s.replaceAt ts w = .ok us) :
    us.countP isWeakUntil + 1 = ts.countP isWeakUntil ∧ Balanced us := by
  have hends := round_replaceAt (s := s) h
  rw [hround] at hends
  exact ⟨hends.countP, hends.balanced (balanced_of_nextWeakUntil h)⟩

end Rounds

section Loop

variable {s : Substitution} {ts us : List Token} {n : Nat}

theorem nextWeakUntil_eq_none_iff :
    nextWeakUntil ts = .ok none ↔ Balanced ts ∧ ts.countP isWeakUntil = 0 := by
  constructor
  · intro h
    have hbalanced := balanced_of_nextWeakUntil h
    obtain ⟨-, hdepths⟩ | ⟨before, t, behind, inner, -, -, hfound⟩ :=
      nextWeakUntil_cases hbalanced
    · exact ⟨hbalanced, by rw [← length_weakUntilDepths 0, hdepths]; rfl⟩
    · cases h.symm.trans hfound
  · rintro ⟨hbalanced, hcount⟩
    obtain ⟨hnone, -⟩ | ⟨before, t, behind, inner, rfl, hnext, -⟩ :=
      nextWeakUntil_cases hbalanced
    · exact hnone
    · simp [hnext.isWeakUntil] at hcount

/-- The loop that goes on while there is a weak until, without a limit: it stops after so many rounds,
one that fails included. -/
inductive Runs (s : Substitution) : (rounds : Nat) → List Token →
    Except PassError (List Token) → Prop
  | unbalanced {ts : List Token} {e : PassError} (h : nextWeakUntil ts = .error e) :
    Runs s 0 ts (.error e)
  | done {ts : List Token} (h : nextWeakUntil ts = .ok none) : Runs s 0 ts (.ok ts)
  | stuck {ts : List Token} {w : Nat} {e : PassError} (h : nextWeakUntil ts = .ok (some w))
    (hround : s.replaceAt ts w = .error e) : Runs s 1 ts (.error e)
  | round {ts us : List Token} {w n : Nat} {result : Except PassError (List Token)}
    (h : nextWeakUntil ts = .ok (some w)) (hround : s.replaceAt ts w = .ok us)
    (hruns : Runs s n us result) : Runs s (n + 1) ts result

theorem exists_runs (hn : ts.countP isWeakUntil = n) :
    ∃ rounds ≤ n, s.Runs rounds ts (s.eliminateWithin n ts) := by
  induction n generalizing ts with
  | zero =>
    rw [eliminateWithin]
    cases h : nextWeakUntil ts with
    | error e => exact ⟨0, Nat.le_refl 0, .unbalanced h⟩
    | ok found =>
      have hnone := nextWeakUntil_eq_none_iff.mpr ⟨balanced_of_nextWeakUntil h, hn⟩
      exact ⟨0, Nat.le_refl 0, .done hnone⟩
  | succ n ih =>
    rw [eliminateWithin]
    cases h : nextWeakUntil ts with
    | error e => exact ⟨0, Nat.zero_le _, .unbalanced h⟩
    | ok found =>
      cases found with
      | none => exact ⟨0, Nat.zero_le _, .done h⟩
      | some w =>
        simp only [bind, Except.bind]
        cases hround : s.replaceAt ts w with
        | error e => exact ⟨1, Nat.le_add_left 1 n, .stuck h hround⟩
        | ok us =>
          have hcount : us.countP isWeakUntil = n := by
            have hless := (countP_balanced_of_replaceAt h hround).1
            omega
          obtain ⟨rounds, hle, hruns⟩ := ih hcount
          exact ⟨rounds + 1, Nat.succ_le_succ hle, .round h hround hruns⟩

theorem Runs.unique {n m : Nat} {result result' : Except PassError (List Token)}
    (h : s.Runs n ts result) (h' : s.Runs m ts result') : n = m ∧ result = result' := by
  induction h generalizing m with
  | unbalanced h =>
    cases h' with
    | unbalanced h' => exact ⟨rfl, congrArg _ (Except.error.inj (h.symm.trans h'))⟩
    | done h' | stuck h' | round h' => cases h.symm.trans h'
  | done h =>
    cases h' with
    | done => exact ⟨rfl, rfl⟩
    | unbalanced h' | stuck h' | round h' => cases h.symm.trans h'
  | stuck h hround =>
    cases h' with
    | unbalanced h' | done h' => cases h.symm.trans h'
    | stuck h' hround' =>
      cases h.symm.trans h'
      exact ⟨rfl, congrArg _ (Except.error.inj (hround.symm.trans hround'))⟩
    | round h' hround' =>
      cases h.symm.trans h'
      cases hround.symm.trans hround'
  | round h hround hruns ih =>
    cases h' with
    | unbalanced h' | done h' => cases h.symm.trans h'
    | stuck h' hround' =>
      cases h.symm.trans h'
      cases hround.symm.trans hround'
    | round h' hround' hruns' =>
      cases h.symm.trans h'
      cases hround.symm.trans hround'
      obtain ⟨rfl, rfl⟩ := ih hruns'
      exact ⟨rfl, rfl⟩

theorem Runs.nextWeakUntil_eq_none {result : Except PassError (List Token)}
    (h : s.Runs n ts result) (hresult : result = .ok us) : nextWeakUntil us = .ok none := by
  induction h with
  | unbalanced h | stuck h hround => cases hresult
  | done h =>
    obtain rfl := Except.ok.inj hresult
    exact h
  | round h hround hruns ih => exact ih hresult

theorem eliminate_of_nextWeakUntil (h : nextWeakUntil ts = .ok none) : s.eliminate ts = .ok ts := by
  rw [eliminate, (nextWeakUntil_eq_none_iff.mp h).2, eliminateWithin, h]
  rfl

/-- The elimination stops on every stream, rendered or not: it is the loop without a limit, which has
at most one round for each weak until. A round ends in one of the ways of `Round`, and one that
succeeds leaves one weak until less in a stream that is still balanced. A result is balanced, holds
no weak until and stays as it is. -/
theorem eliminate_terminates (s : Substitution) (ts : List Token) :
    (∃ n ≤ ts.countP isWeakUntil, ∀ rounds result,
        s.Runs rounds ts result ↔ rounds = n ∧ result = s.eliminate ts) ∧
      (∀ w, nextWeakUntil ts = .ok (some w) → s.Round ts w (s.replaceAt ts w)) ∧
      (∀ w us, nextWeakUntil ts = .ok (some w) → s.replaceAt ts w = .ok us →
        us.countP isWeakUntil + 1 = ts.countP isWeakUntil ∧ Balanced us) ∧
      ∀ us, s.eliminate ts = .ok us →
        us.countP isWeakUntil = 0 ∧ Balanced us ∧ s.eliminate us = .ok us := by
  obtain ⟨n, hn, hruns⟩ : ∃ n ≤ ts.countP isWeakUntil, s.Runs n ts (s.eliminate ts) :=
    exists_runs rfl
  refine ⟨⟨n, hn, ?_⟩, fun w => round_replaceAt, fun w us => countP_balanced_of_replaceAt, ?_⟩
  · intro rounds result
    constructor
    · intro h
      exact h.unique hruns
    · rintro ⟨rfl, rfl⟩
      exact hruns
  · intro us hus
    have hnone := hruns.nextWeakUntil_eq_none hus
    obtain ⟨hbalanced, hcount⟩ := nextWeakUntil_eq_none_iff.mp hnone
    exact ⟨hcount, hbalanced, eliminate_of_nextWeakUntil hnone⟩

/-- The stream `p W F !q`, where operators stand ahead of the right operand. No formula is rendered
so. -/
def ledOperand : List Token :=
  [event "p", space, operator (.wait .weak) "W", space, operator (.modality .eventually) "F", space,
    operator .not "!", event "q"]

theorem eliminate_terminates_ledOperand :
    ∃ us, (⟨"U", "|", "G"⟩ : Substitution).eliminate ledOperand = .ok us ∧
      us.countP isWeakUntil = 0 ∧ Balanced us ∧
      (⟨"U", "|", "G"⟩ : Substitution).eliminate us = .ok us := by
  refine ⟨_, rfl, ?_⟩
  exact (eliminate_terminates _ ledOperand).2.2.2 _ rfl

end Loop

end Substitution

end PropertyPatterns.Token
