import PropertyPatterns.Proofs.WeakUntilSearch

namespace PropertyPatterns.Token

/-- An operand can end with the token: an event or a group. -/
def endsOperand : Token → Bool
  | event _ | closing => true
  | _ => false

/-- An operand can begin with the token, apart from operators ahead of it. -/
def beginsOperand : Token → Bool
  | event _ | opening => true
  | _ => false

def pastSpaces (ts : List Token) : List Token :=
  ts.dropWhile (· = space)

/-- What is left behind a first token of some kind, where `skip` passes over what belongs to it; the
whole stream if the first token is none. -/
def pastHead (isKind : Token → Bool) (skip : List Token → List Token) : List Token → List Token
  | [] => []
  | t :: ts => if isKind t then skip ts else t :: ts

def pastBound : List Token → List Token :=
  pastHead isBound id

def pastTemporal : List Token → List Token :=
  pastHead (fun t => t.operator?.any (·.isModality)) fun ts => pastSpaces (pastBound ts)

def pastConnective : List Token → List Token :=
  pastHead (fun t => t.operator?.any (·.isPropositional)) pastSpaces

/-- Up to spaces, the stream begins with a token that ends an operand. The stream is given
backwards. -/
def isLed (reversed : List Token) : Bool :=
  (pastSpaces reversed).head?.any endsOperand

/-- Up to one temporal operator and one connective, the stream begins with an operand. -/
def leadsToOperand (ts : List Token) : Bool :=
  (pastConnective (pastTemporal ts)).head?.any beginsOperand

/-- Up to the bound and the spaces of a weak until, operators and an operand follow. -/
def isFollowed (ts : List Token) : Bool :=
  leadsToOperand (pastSpaces (pastBound ts))

/-- Something stands on either side of a weak until that can be taken for its operand. -/
def HasOperands (before behind : List Token) : Prop :=
  isLed before.reverse = true ∧ isFollowed behind = true

instance (before behind : List Token) : Decidable (HasOperands before behind) :=
  inferInstanceAs (Decidable (_ ∧ _))

def AllHaveOperands (ts : List Token) : Prop :=
  ∀ before t behind, ts = before ++ t :: behind → t.isWeakUntil = true → HasOperands before behind

/-- Of each weak until of a part of a stream, whether it has operands. What is ahead of the part is
given backwards. -/
def verdictsWithin (behind : List Token) : (reversed : List Token) → List Token → List Bool
  | _, [] => []
  | reversed, t :: ts =>
    if t.isWeakUntil then
      (isLed reversed && isFollowed (ts ++ behind)) :: verdictsWithin behind (t :: reversed) ts
    else verdictsWithin behind (t :: reversed) ts

def verdicts (ts : List Token) : List Bool :=
  verdictsWithin [] [] ts

section Verdicts

variable {behind behind' reversed reversed' ts us : List Token} {t : Token}

theorem verdictsWithin_append (behind reversed ts us : List Token) :
    verdictsWithin behind reversed (ts ++ us) =
      verdictsWithin (us ++ behind) reversed ts ++
        verdictsWithin behind (ts.reverse ++ reversed) us := by
  induction ts generalizing reversed with
  | nil => rfl
  | cons t ts ih =>
    rw [List.cons_append, verdictsWithin, verdictsWithin, ih]
    split <;> simp

theorem verdictsWithin_weakUntil (h : t.isWeakUntil = true) :
    verdictsWithin behind reversed (t :: ts) =
      (isLed reversed && isFollowed (ts ++ behind)) ::
        verdictsWithin behind (t :: reversed) ts := by
  rw [verdictsWithin, if_pos h]

theorem verdictsWithin_eq_nil (h : ts.countP isWeakUntil = 0) :
    verdictsWithin behind reversed ts = [] := by
  induction ts generalizing reversed with
  | nil => rfl
  | cons t ts ih =>
    rw [List.countP_cons, Nat.add_eq_zero_iff] at h
    have ht : t.isWeakUntil ≠ true := by simpa using h.2
    rw [verdictsWithin, if_neg ht]
    exact ih h.1

theorem verdicts_append_append (ahead mid rest : List Token) :
    verdicts (ahead ++ mid ++ rest) =
      verdictsWithin (mid ++ rest) [] ahead ++ verdictsWithin rest ahead.reverse mid ++
        verdictsWithin [] (mid.reverse ++ ahead.reverse) rest := by
  simp [verdicts, verdictsWithin_append]

theorem verdictsWithin_single (ht : t.isWeakUntil = true) (hts : ts.countP isWeakUntil = 0)
    (hus : us.countP isWeakUntil = 0) :
    verdictsWithin behind reversed (ts ++ t :: us) =
      [isLed (ts.reverse ++ reversed) && isFollowed (us ++ behind)] := by
  rw [verdictsWithin_append, verdictsWithin_weakUntil ht, verdictsWithin_eq_nil hts,
    verdictsWithin_eq_nil hus]
  rfl

theorem mem_verdictsWithin_iff {v : Bool} :
    v ∈ verdictsWithin behind reversed ts ↔
      ∃ before t after, ts = before ++ t :: after ∧ t.isWeakUntil = true ∧
        v = (isLed (before.reverse ++ reversed) && isFollowed (after ++ behind)) := by
  constructor
  · intro h
    induction ts generalizing reversed with
    | nil => cases h
    | cons t ts ih =>
      have hlater (hv : v ∈ verdictsWithin behind (t :: reversed) ts) :
          ∃ before u after, t :: ts = before ++ u :: after ∧ u.isWeakUntil = true ∧
            v = (isLed (before.reverse ++ reversed) && isFollowed (after ++ behind)) := by
        obtain ⟨before, u, after, rfl, hu, rfl⟩ := ih hv
        exact ⟨t :: before, u, after, rfl, hu, by simp⟩
      rw [verdictsWithin] at h
      split at h
      · rcases List.mem_cons.mp h with rfl | hv
        · exact ⟨[], t, ts, rfl, ‹_›, rfl⟩
        · exact hlater hv
      · exact hlater h
  · rintro ⟨before, t, after, rfl, ht, rfl⟩
    rw [verdictsWithin_append, verdictsWithin_weakUntil ht]
    exact List.mem_append_right _ List.mem_cons_self

theorem allHaveOperands_iff : AllHaveOperands ts ↔ ∀ v ∈ verdicts ts, v = true := by
  have hand (before behind : List Token) :
      HasOperands before behind ↔
        (isLed (before.reverse ++ []) && isFollowed (behind ++ [])) = true := by
    rw [List.append_nil, List.append_nil, Bool.and_eq_true, HasOperands]
  constructor
  · intro h v hv
    obtain ⟨before, t, behind, hts, ht, rfl⟩ := mem_verdictsWithin_iff.mp hv
    exact (hand before behind).mp (h before t behind hts ht)
  · intro h before t behind hts ht
    refine (hand before behind).mpr (h _ ?_)
    exact mem_verdictsWithin_iff.mpr ⟨before, t, behind, hts, ht, rfl⟩

instance (ts : List Token) : Decidable (AllHaveOperands ts) :=
  decidable_of_iff _ allHaveOperands_iff.symm

end Verdicts

section Ahead

variable {ts us : List Token} {t : Token}

theorem isLed_cons (reversed : List Token) :
    isLed (t :: reversed) = if t = space then isLed reversed else t.endsOperand := by
  by_cases h : t = space <;> simp [isLed, pastSpaces, h]

theorem isLed_of_endsOperand (h : t.endsOperand = true) (reversed : List Token) :
    isLed (t :: reversed) = true := by
  have hne : t ≠ space := by
    rintro rfl
    cases h
  rw [isLed_cons, if_neg hne, h]

theorem verdictsWithin_congr_ahead {behind reversed reversed' : List Token}
    (h : isLed reversed = isLed reversed') (ts : List Token) :
    verdictsWithin behind reversed ts = verdictsWithin behind reversed' ts := by
  induction ts generalizing reversed reversed' with
  | nil => rfl
  | cons t ts ih =>
    have hcons : isLed (t :: reversed) = isLed (t :: reversed') := by
      rw [isLed_cons, isLed_cons, h]
    rw [verdictsWithin, verdictsWithin, h, ih hcons]

end Ahead

section Behind

variable {ts us : List Token} {t : Token}

/-- Skipping part of a stream goes no further than an opening bracket. -/
def StopsAtOpening (skip : List Token → List Token) : Prop :=
  ∀ ts, opening ∈ ts → opening ∈ skip ts ∧ ∀ us, skip (ts ++ us) = skip ts ++ us

theorem StopsAtOpening.comp {skip skip' : List Token → List Token} (h : StopsAtOpening skip)
    (h' : StopsAtOpening skip') : StopsAtOpening fun ts => skip' (skip ts) := by
  intro ts hts
  obtain ⟨hmem, hskip⟩ := h ts hts
  obtain ⟨hmem', hskip'⟩ := h' (skip ts) hmem
  exact ⟨hmem', fun us => (congrArg skip' (hskip us)).trans (hskip' us)⟩

theorem StopsAtOpening.pastHead {isKind : Token → Bool} {skip : List Token → List Token}
    (h : StopsAtOpening skip) (hkind : isKind opening = false) :
    StopsAtOpening (pastHead isKind skip) := by
  intro ts hts
  cases ts with
  | nil => cases hts
  | cons t ts =>
    simp only [List.cons_append, Token.pastHead]
    split
    · have hne : opening ≠ t := by
        rintro rfl
        simp [hkind] at *
      exact h ts (List.mem_of_ne_of_mem hne hts)
    · exact ⟨hts, fun us => rfl⟩

theorem stopsAtOpening_pastSpaces : StopsAtOpening pastSpaces := by
  intro ts hts
  induction ts with
  | nil => cases hts
  | cons t ts ih =>
    by_cases ht : t = space
    · subst t
      have hmem : opening ∈ ts := by simpa using hts
      simpa [pastSpaces] using ih hmem
    · simpa [pastSpaces, ht] using hts

theorem stopsAtOpening_pastBound : StopsAtOpening pastBound :=
  StopsAtOpening.pastHead (fun _ hts => ⟨hts, fun _ => rfl⟩) rfl

/-- What stands behind an opening bracket is never looked at. -/
theorem isFollowed_append (h : opening ∈ ts) (us : List Token) :
    isFollowed (ts ++ us) = isFollowed ts := by
  have htemporal : StopsAtOpening pastTemporal :=
    (stopsAtOpening_pastBound.comp stopsAtOpening_pastSpaces).pastHead rfl
  have hconnective : StopsAtOpening pastConnective :=
    stopsAtOpening_pastSpaces.pastHead rfl
  have hstops :=
    ((stopsAtOpening_pastBound.comp stopsAtOpening_pastSpaces).comp htemporal).comp hconnective
  obtain ⟨hmem, hskip⟩ := hstops ts h
  have hhead {vs : List Token} (hvs : opening ∈ vs) : (vs ++ us).head? = vs.head? := by
    cases vs with
    | nil => cases hvs
    | cons v vs => rfl
  have hbehind := (congrArg List.head? (hskip us)).trans (hhead hmem)
  exact congrArg (Option.any beginsOperand) hbehind

theorem opening_mem_of_openAfter {d e : Nat} (h : openAfter opening closing d ts = some e)
    (hlt : d < e) : opening ∈ ts := by
  induction ts generalizing d with
  | nil =>
    obtain rfl := Option.some.inj h
    exact absurd hlt (Nat.lt_irrefl d)
  | cons t ts ih =>
    obtain ⟨rfl, -⟩ | ⟨-, rfl, k, rfl, hts⟩ | ⟨-, -, hts⟩ := openAfter_cons_cases h
    · exact List.mem_cons_self
    · exact List.mem_cons_of_mem _ (ih hts (Nat.lt_trans (Nat.lt_succ_self k) hlt))
    · exact List.mem_cons_of_mem _ (ih hts hlt)

/-- Weak untils that stand inside fewer brackets than the part of the stream ends in see only what
is in the part. -/
theorem verdictsWithin_congr_behind {reversed : List Token} {d e : Nat}
    (h : openAfter opening closing d ts = some e) (hlt : ∀ k ∈ weakUntilDepths d ts, k < e)
    (behind behind' : List Token) :
    verdictsWithin behind reversed ts = verdictsWithin behind' reversed ts := by
  induction ts generalizing d reversed with
  | nil => rfl
  | cons t ts ih =>
    rw [verdictsWithin, verdictsWithin]
    obtain ⟨rfl, hts⟩ | ⟨-, rfl, k, rfl, hts⟩ | ⟨ho, hc, hts⟩ := openAfter_cons_cases h
    · rw [weakUntilDepths_opening] at hlt
      rw [ih hts hlt]
      rfl
    · rw [weakUntilDepths_closing] at hlt
      rw [ih hts hlt]
      rfl
    · cases hw : t.isWeakUntil with
      | true =>
        rw [weakUntilDepths_weakUntil hw] at hlt
        have hmem : opening ∈ ts := opening_mem_of_openAfter hts (hlt d List.mem_cons_self)
        have hrest : ∀ k ∈ weakUntilDepths d ts, k < e :=
          fun k hk => hlt k (List.mem_cons_of_mem d hk)
        rw [isFollowed_append hmem, isFollowed_append hmem, ih hts hrest]
      | false =>
        rw [weakUntilDepths_other ho hc hw] at hlt
        rw [ih hts hlt]
        rfl

end Behind

end PropertyPatterns.Token
