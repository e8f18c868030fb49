import PropertyPatterns.Proofs.EliminationRounds
import PropertyPatterns.Proofs.OperandVerdicts

/-!
Which streams the elimination of weak untils accepts, told from the stream as it is given. It has to
be balanced, and each weak until needs a token on either side that an operand can end or begin with,
some way past spaces, bounds and operators. A round looks at a stream that the rounds before it have
changed, but none of them changes what another weak until finds beside it.
-/

namespace PropertyPatterns.Token

section Operands

variable {ts : List Token}

theorem IsOperand.exists_endsOperand (h : IsOperand ts) :
    ∃ us t, ts = us ++ [t] ∧ t.endsOperand = true := by
  cases h with
  | literal h =>
    cases h with
    | event name => exact ⟨[], event name, rfl, rfl⟩
    | negated text name => exact ⟨[operator .not text], event name, rfl, rfl⟩
  | @group body h => exact ⟨opening :: body, closing, rfl, rfl⟩

theorem IsOperand.isLed_reverse (h : IsOperand ts) (reversed : List Token) :
    isLed (ts.reverse ++ reversed) = true := by
  obtain ⟨us, t, rfl, ht⟩ := h.exists_endsOperand
  rw [List.reverse_append]
  exact isLed_of_endsOperand ht _

theorem isLed_of_leftOperand {result : List Token × List Token} (h : leftOperand ts = .ok result) :
    isLed ts = true := by
  unfold leftOperand at h
  unfold isLed pastSpaces
  split at h
  · cases h
  · rename_i heq
    rw [heq]
    rfl
  · rename_i heq
    rw [heq]
    rfl
  · cases h

theorem isLed_of_leftOperand_error {i : Nat} {found : String}
    (h : leftOperand ts = .error (.unrecognizedOperand i found)) : isLed ts = false := by
  unfold leftOperand at h
  unfold isLed pastSpaces
  split at h
  · rename_i heq
    rw [heq]
    rfl
  · rename_i vs heq
    cases htake : takeGroup closing opening 0 (closing :: vs) with
    | none => simp [htake] at h
    | some r => simp [htake] at h
  · split at h <;> cases h
  · rename_i t vs hclosing hevent heq
    rw [heq]
    cases t with
    | event e => exact absurd rfl (hevent e)
    | closing => exact absurd rfl hclosing
    | _ => rfl

theorem splitBound_snd (ts : List Token) : (splitBound ts).2 = pastBound ts := by
  cases ts with
  | nil => rfl
  | cons t ts =>
    rw [splitBound, pastBound, pastHead]
    split <;> rfl

theorem splitTemporal_snd (ts : List Token) : (splitTemporal ts).2 = pastTemporal ts := by
  cases ts with
  | nil => rfl
  | cons t ts =>
    rw [splitTemporal, pastTemporal, pastHead]
    split
    · exact congrArg pastSpaces (splitBound_snd ts)
    · rfl

theorem splitConnective_snd (ts : List Token) : (splitConnective ts).2 = pastConnective ts := by
  cases ts with
  | nil => rfl
  | cons t ts =>
    rw [splitConnective, pastConnective, pastHead]
    split <;> rfl

theorem leadsToOperand_of_rightOperand {position : Nat} {result : List Token × List Token}
    (h : rightOperand position ts = .ok result) :
    leadsToOperand ts = true := by
  rw [leadsToOperand, ← splitTemporal_snd, ← splitConnective_snd]
  simp only [rightOperand] at h
  split at h
  · cases h
  · rename_i heq
    rw [heq]
    rfl
  · rename_i heq
    rw [heq]
    rfl
  · cases h

theorem leadsToOperand_of_rightOperand_error {position i : Nat} {found : String}
    (h : rightOperand position ts = .error (.unrecognizedOperand i found)) :
    leadsToOperand ts = false := by
  rw [leadsToOperand, ← splitTemporal_snd, ← splitConnective_snd]
  simp only [rightOperand] at h
  split at h
  · rename_i heq
    rw [heq]
    rfl
  · cases h
  · split at h <;> cases h
  · rename_i t vs hevent hopening heq
    rw [heq]
    cases t with
    | event e => exact absurd rfl (hevent e)
    | opening => exact absurd rfl hopening
    | _ => rfl

end Operands

theorem exists_isNext {ts : List Token} {w : Nat} (h : nextWeakUntil ts = .ok (some w)) :
    ∃ before t behind inner, ts = before ++ t :: behind ∧ before.length = w ∧
      IsNext 0 before t behind inner := by
  obtain ⟨hnone, -⟩ | ⟨before, t, behind, inner, hts, hnext, hfound⟩ :=
    nextWeakUntil_cases (balanced_of_nextWeakUntil h)
  · cases hnone.symm.trans h
  · exact ⟨before, t, behind, inner, hts, Option.some.inj (Except.ok.inj (hfound.symm.trans h)),
      hnext⟩

namespace Substitution

section Rounds

variable {s : Substitution} {before behind ts us : List Token} {t : Token} {inner w : Nat}

/-- A round succeeds where its weak until has operands; where it fails, it reports a token. -/
theorem replaceAt_cases (hbalanced : Balanced (before ++ t :: behind))
    (hnext : IsNext 0 before t behind inner) :
    (HasOperands before behind ∧
        ∃ us, s.replaceAt (before ++ t :: behind) before.length = .ok us) ∨
      (¬HasOperands before behind ∧ ∃ i found,
        s.replaceAt (before ++ t :: behind) before.length =
          .error (.unrecognizedOperand i found)) := by
  rw [replaceAt_length]
  obtain ⟨i, found, hleft, -⟩ | ⟨ahead, left, gap, -, -, -, -, hleft⟩ := leftOperand_of_isNext hnext
  · have hnot : ¬HasOperands before behind := by
      rintro ⟨hled, -⟩
      exact Bool.false_ne_true ((isLed_of_leftOperand_error hleft).symm.trans hled)
    exact .inr ⟨hnot, i, found, by rw [hleft]; rfl⟩
  · obtain ⟨bound, gap', us, rfl, hbound, hgap', hsplit, hsplit'⟩ := exists_splitBound behind
    have hmid : Plain (bound ++ gap') := hbound.plain.append hgap'
    have hus : openAfter opening closing inner us = some 0 :=
      openAfter_of_isNext hnext hmid hbalanced
    have hfollowed : isFollowed (bound ++ gap' ++ us) = leadsToOperand us := by
      have hbehind : pastSpaces (pastBound (bound ++ gap' ++ us)) = us := by
        rw [← splitBound_snd, hsplit]
        exact congrArg Prod.snd hsplit'
      rw [isFollowed, hbehind]
    rw [hleft]
    simp only [bind, Except.bind, hsplit, hsplit']
    obtain ⟨i, found, hright, -⟩ | ⟨lead, right, rest, -, -, -, -, hright⟩ :=
      rightOperand_of_isNext hnext hmid hus
        (before.length + 1 + bound.length + gap'.length)
    · have hnot : ¬HasOperands before (bound ++ gap' ++ us) := by
        rintro ⟨-, hright'⟩
        rw [hfollowed, leadsToOperand_of_rightOperand_error hright] at hright'
        cases hright'
      exact .inr ⟨hnot, i, found, by rw [hright]⟩
    · have hhas : HasOperands before (bound ++ gap' ++ us) :=
        ⟨isLed_of_leftOperand hleft, hfollowed.trans (leadsToOperand_of_rightOperand hright)⟩
      exact .inl ⟨hhas, _, by rw [hright]; rfl⟩

theorem isLed_reverse_replacement {left : List Token} (h : IsOperand left)
    (bound right reversed : List Token) :
    isLed ((s.replacement left bound right).reverse ++ reversed) = true := by
  rw [replacement_eq, List.reverse_append, List.reverse_append, List.reverse_cons,
    List.append_assoc, List.append_assoc, List.append_assoc]
  exact h.isLed_reverse _

/-- A part of a stream makes way for one without weak untils. Those ahead of it are less deep, so a
bracket hides it from them, and those behind it find an operand at the end of either part. -/
theorem verdicts_exchange {ahead mid mid' rest : List Token} {d : Nat}
    (hahead : openAfter opening closing 0 ahead = some d)
    (hlt : ∀ e ∈ weakUntilDepths 0 ahead, e < d)
    (hmid : verdictsWithin rest ahead.reverse mid = [true]) (hmid' : mid'.countP isWeakUntil = 0)
    (hled : isLed (mid.reverse ++ ahead.reverse) = isLed (mid'.reverse ++ ahead.reverse)) :
    ∃ l r, verdicts (ahead ++ mid ++ rest) = l ++ true :: r ∧
      verdicts (ahead ++ mid' ++ rest) = l ++ r := by
  refine ⟨verdictsWithin (mid ++ rest) [] ahead,
    verdictsWithin [] (mid.reverse ++ ahead.reverse) rest, ?_, ?_⟩
  · rw [verdicts_append_append, hmid, List.append_assoc]
    rfl
  · rw [verdicts_append_append, verdictsWithin_eq_nil hmid', List.append_nil,
      verdictsWithin_congr_behind hahead hlt (mid' ++ rest) (mid ++ rest),
      verdictsWithin_congr_ahead hled rest]

theorem Round.exists_verdicts (h : s.Round (before ++ t :: behind) before.length (.ok us))
    (hnext : IsNext 0 before t behind inner) (hhas : HasOperands before behind) :
    ∃ l r, verdicts (before ++ t :: behind) = l ++ true :: r ∧ verdicts us = l ++ r := by
  cases h with
  | @replaced ahead left gap bound gap' lead right rest u hts hw hu hgap hbound hgap' hlead hleft
      hright hleftCount hrightCount =>
    obtain ⟨hbefore, hbehind⟩ : before = ahead ++ (left ++ gap) ∧
        t :: behind = u :: (bound ++ gap' ++ (lead ++ right) ++ rest) := by
      apply List.append_inj _ hw
      rw [hts]
      simp
    obtain ⟨rfl, rfl⟩ := List.cons.inj hbehind
    subst hbefore
    obtain ⟨d, hahead, hd⟩ := exists_openAfter_of_append hnext.openAfter_before
    have hoperand : Balanced (left ++ gap) := hleft.balanced.append hgap.balanced
    obtain rfl : d = inner := Option.some.inj (hoperand.openAfter.symm.trans hd)
    have hlt : ∀ e ∈ weakUntilDepths 0 ahead, e < d :=
      fun e he => hnext.lt_of_mem_before e (mem_weakUntilDepths_append he)
    have hl : (left ++ gap).countP isWeakUntil = 0 := by
      rw [List.countP_append, hleftCount, hgap.countP]
    have hr : (bound ++ gap' ++ (lead ++ right)).countP isWeakUntil = 0 := by
      simp only [List.countP_append, hbound.plain.countP, hgap'.countP, hlead.countP, hrightCount]
    have hverdict : verdictsWithin rest ahead.reverse
        (left ++ gap ++ t :: (bound ++ gap' ++ (lead ++ right))) = [true] := by
      rw [verdictsWithin_single hu hl hr, ← List.reverse_append, hhas.1, hhas.2]
      rfl
    have hcount : (s.replacement left bound (lead ++ right)).countP isWeakUntil = 0 := by
      rw [countP_replacement hbound.plain, List.countP_append, hlead.countP, hleftCount,
        hrightCount]
    have hled : isLed ((left ++ gap ++ t :: (bound ++ gap' ++ (lead ++ right))).reverse ++
        ahead.reverse) = true := by
      simpa using hright.isLed_reverse
        ((left ++ gap ++ t :: (bound ++ gap' ++ lead)).reverse ++ ahead.reverse)
    rw [hts]
    exact verdicts_exchange hahead hlt hverdict hcount
      (hled.trans (isLed_reverse_replacement hleft bound (lead ++ right) ahead.reverse).symm)

/-- A round takes the verdict on its weak until away and leaves the others as they are. -/
theorem verdicts_of_replaceAt (h : nextWeakUntil ts = .ok (some w))
    (hround : s.replaceAt ts w = .ok us) :
    ∃ l r, verdicts ts = l ++ true :: r ∧ verdicts us = l ++ r := by
  obtain ⟨before, t, behind, inner, rfl, rfl, hnext⟩ := exists_isNext h
  have hends := round_replaceAt (s := s) h
  rw [hround] at hends
  obtain ⟨hhas, -⟩ | ⟨-, i, found, herror⟩ :=
    replaceAt_cases (s := s) (balanced_of_nextWeakUntil h) hnext
  · exact hends.exists_verdicts hnext hhas
  · cases herror.symm.trans hround

end Rounds

section Loop

variable {s : Substitution} {ts us : List Token} {n : Nat}

theorem nextWeakUntilFrom_error {position d : Nat} {best : Option (Nat × Nat)} {e : PassError}
    (h : nextWeakUntilFrom position d best ts = .error e) : ∃ i, e = .unbalancedBrackets i := by
  induction ts generalizing position d best with
  | nil =>
    rw [nextWeakUntilFrom] at h
    split at h
    · cases h
    · exact ⟨position, (Except.error.inj h).symm⟩
  | cons t ts ih =>
    by_cases ho : t = opening
    · subst t
      exact ih h
    · by_cases hc : t = closing
      · subst t
        rw [nextWeakUntilFrom] at h
        split at h
        · exact ⟨position, (Except.error.inj h).symm⟩
        · exact ih h
      · rw [nextWeakUntilFrom_other ho hc] at h
        exact ih h

theorem eliminate_of_not_balanced (h : ¬Balanced ts) :
    ∃ i, s.eliminate ts = .error (.unbalancedBrackets i) := by
  cases hnext : nextWeakUntil ts with
  | ok found => exact absurd (balanced_of_nextWeakUntil hnext) h
  | error e =>
    obtain ⟨i, rfl⟩ := nextWeakUntilFrom_error hnext
    refine ⟨i, ?_⟩
    rw [eliminate]
    cases ts.countP isWeakUntil with
    | zero => rw [eliminateWithin, hnext]; rfl
    | succ n => rw [eliminateWithin, hnext]; rfl

theorem Runs.allHaveOperands {result : Except PassError (List Token)} (h : s.Runs n ts result)
    (hbalanced : Balanced ts) :
    (AllHaveOperands ts ∧ ∃ us, result = .ok us) ∨
      (¬AllHaveOperands ts ∧ ∃ i found, result = .error (.unrecognizedOperand i found)) := by
  induction h with
  | unbalanced h =>
    obtain ⟨hnone, -⟩ | ⟨before, t, behind, inner, -, -, hfound⟩ := nextWeakUntil_cases hbalanced
    · cases hnone.symm.trans h
    · cases hfound.symm.trans h
  | @done ts h =>
    have hnone : verdicts ts = [] := verdictsWithin_eq_nil (nextWeakUntil_eq_none_iff.mp h).2
    refine .inl ⟨?_, ts, rfl⟩
    simp [allHaveOperands_iff, hnone]
  | stuck h hround =>
    obtain ⟨before, t, behind, inner, rfl, rfl, hnext⟩ := exists_isNext h
    obtain ⟨-, us, hok⟩ | ⟨hnot, i, found, herror⟩ := replaceAt_cases (s := s) hbalanced hnext
    · cases hok.symm.trans hround
    · refine .inr ⟨fun hall => hnot (hall before t behind rfl hnext.isWeakUntil), i, found, ?_⟩
      exact congrArg _ (Except.error.inj (hround.symm.trans herror))
  | @round ts us w n result h hround hruns ih =>
    -- The round's own verdict is in its favour, and the others are those on the stream it leaves.
    have hiff : AllHaveOperands ts ↔ AllHaveOperands us := by
      obtain ⟨l, r, hts, hus⟩ := verdicts_of_replaceAt h hround
      simp [allHaveOperands_iff, hts, hus]
    rw [hiff]
    exact ih (countP_balanced_of_replaceAt h hround).2

/-- The elimination reports brackets that do not match wherever there are some, weak until or not.
In a balanced stream it succeeds if every weak until has operands in the stream as it is given, and
reports a token otherwise. Every round takes the verdict on its own weak until away and leaves those
on the others as they are. -/
theorem eliminate_accepts (s : Substitution) (ts : List Token) :
    ((∃ i, s.eliminate ts = .error (.unbalancedBrackets i)) ↔ ¬Balanced ts) ∧
      (Balanced ts →
        ((∃ us, s.eliminate ts = .ok us) ↔ AllHaveOperands ts) ∧
        ((∃ i found, s.eliminate ts = .error (.unrecognizedOperand i found)) ↔
          ¬AllHaveOperands ts)) ∧
      ∀ w us, nextWeakUntil ts = .ok (some w) → s.replaceAt ts w = .ok us →
        ∃ l r, verdicts ts = l ++ true :: r ∧ verdicts us = l ++ r := by
  have hends : Balanced ts →
      (AllHaveOperands ts ∧ ∃ us, s.eliminate ts = .ok us) ∨
        (¬AllHaveOperands ts ∧
          ∃ i found, s.eliminate ts = .error (.unrecognizedOperand i found)) := by
    intro hbalanced
    obtain ⟨n, -, hruns⟩ : ∃ n ≤ ts.countP isWeakUntil, s.Runs n ts (s.eliminate ts) :=
      exists_runs rfl
    exact hruns.allHaveOperands hbalanced
  refine ⟨⟨?_, eliminate_of_not_balanced⟩, ?_, fun w us => verdicts_of_replaceAt⟩
  · rintro ⟨i, herror⟩ hbalanced
    obtain ⟨-, us, hok⟩ | ⟨-, j, found, hfound⟩ := hends hbalanced
    · cases hok.symm.trans herror
    · cases hfound.symm.trans herror
  · intro hbalanced
    obtain ⟨hall, us, hok⟩ | ⟨hnot, i, found, herror⟩ := hends hbalanced
    · simp [hall, hok]
    · simp [hnot, herror]

/-- The stream `(p W q) W F !r W t`, where the last two weak untils share an operand that the first
of their rounds takes away, and the brackets hold another weak until. -/
def sharedOperand : List Token :=
  group [event "p", space, operator (.wait .weak) "W", space, event "q"] ++
    [space, operator (.wait .weak) "W", space, operator (.modality .eventually) "F", space,
      operator .not "!", event "r", space, operator (.wait .weak) "W", space, event "t"]

theorem eliminate_accepts_sharedOperand :
    Balanced sharedOperand ∧ AllHaveOperands sharedOperand ∧
      (∃ us, (⟨"U", "|", "G"⟩ : Substitution).eliminate sharedOperand = .ok us) ∧
      ¬AllHaveOperands (sharedOperand ++ [operator (.wait .weak) "W"]) ∧
      ∃ i found,
        (⟨"U", "|", "G"⟩ : Substitution).eliminate
            (sharedOperand ++ [operator (.wait .weak) "W"]) =
          .error (.unrecognizedOperand i found) := by
  have hall : AllHaveOperands sharedOperand := by decide
  have hnot : ¬AllHaveOperands (sharedOperand ++ [operator (.wait .weak) "W"]) := by decide
  refine ⟨by decide, hall, ?_, hnot, ?_⟩
  · exact ((eliminate_accepts _ sharedOperand).2.1 (by decide)).1.mpr hall
  · exact ((eliminate_accepts _ _).2.1 (by decide)).2.mpr hnot

end Loop

end Substitution

end PropertyPatterns.Token
