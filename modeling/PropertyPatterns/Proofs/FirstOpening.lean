import PropertyPatterns.Proofs.FirstPositions

/-!
Scopes that the first `q` opens for good. The cells of most patterns either persist once they hold,
or have held all along, or name the first `q`. So these patterns hold after `q` if and only if they
hold at the first `q`. For patterns that wait once, a later `q` may make up for the first one.
-/

namespace PropertyPatterns

open Formula

section Cells

variable {t : Trace} {q : Event}

theorem Scope.holds_throughout_after (body : Formula) :
    (Scope.throughout (.after q) none body).Holds t 0 ↔
      HoldsAtFirst t q (Scope.throughout .globally none body) :=
  persists_always.holds_always_event

theorem Scope.holds_answering_after (free : Formula) (bounded : Event → Formula) :
    (Scope.answering (.after q) free bounded).Holds t 0 ↔
      HoldsAtFirst t q (Scope.answering .globally free bounded) :=
  persists_always.holds_always_event

namespace Occurrence

theorem holds_existence_after (p : Event) :
    (existence (.after q) p none).Holds t 0 ↔ HoldsAtFirst t q (existence .globally p none) :=
  foreshadows_eventually.holds_atFirst

theorem holds_transientState_after (p : Event) :
    (transientState (.after q) p none).Holds t 0 ↔
      HoldsAtFirst t q (transientState .globally p none) :=
  foreshadows_eventually.holds_atFirst

theorem holds_steadyState_after (p : Event) :
    (steadyState (.after q) p none).Holds t 0 ↔
      HoldsAtFirst t q (steadyState .globally p none) :=
  persists_always.eventually.holds_always_event

theorem holds_boundedExistence_after (p : Event) (n : Nat) :
    (boundedExistence (.after q) p n none).Holds t 0 ↔
      HoldsAtFirst t q (boundedExistence .globally p n none) :=
  holds_until_first

theorem holds_formula_after (k : OccurrenceKind) (o : Occurrence) :
    (o.formula .untimed (.after q) k).Holds t 0 ↔
      HoldsAtFirst t q (o.formula .untimed .globally k) := by
  cases k with
  | universality | absence | minimumDuration | maximumDuration =>
    exact Scope.holds_throughout_after _
  | existence => exact holds_existence_after o.p
  | transientState => exact holds_transientState_after o.p
  | steadyState => exact holds_steadyState_after o.p
  | recurrence =>
    simp only [formula, recurrence]
    exact Scope.holds_answering_after _ _

end Occurrence

/-- Patterns of the kind wait a single time, from the opening of the scope on. -/
def PatternKind.waitsOnce : PatternKind → Bool
  | occurrence _ | boundedExistence => false
  | order .response | order .responseInvariance => false
  | chain .responseOneMany | chain .responseManyOne => false
  | order .precedence | order .holdUntil => true
  | chain .precedenceOneMany | chain .precedenceManyOne => true

namespace Order

theorem holds_formula_after (k : OrderKind) (o : Order)
    (hk : (PatternKind.order k).waitsOnce = false) :
    (o.formula .untimed (.after q) k).Holds t 0 ↔
      HoldsAtFirst t q (o.formula .untimed .globally k) := by
  cases k with
  | precedence | holdUntil => cases hk
  | response | responseInvariance =>
    simp only [formula, response, responseInvariance]
    exact Scope.holds_answering_after _ _

theorem holds_chainFormula_after (k : ChainKind) (o : Order) (links : Chain)
    (hk : (PatternKind.chain k).waitsOnce = false) :
    (o.chainFormula .untimed (.after q) k links).Holds t 0 ↔
      HoldsAtFirst t q (o.chainFormula .untimed .globally k links) := by
  cases k with
  | precedenceOneMany | precedenceManyOne => cases hk
  | responseOneMany | responseManyOne =>
    simp only [chainFormula, responseOneMany, responseManyOne]
    exact Scope.holds_answering_after _ _

end Order

end Cells

namespace Pattern

/-- The pattern holds after `q` if and only if it holds without a scope at the first `q`. -/
def OpensAtFirst (x : Pattern) (q : Event) (t : Trace) : Prop :=
  (x.formula (.after q) .untimed).Holds t 0 ↔ HoldsAtFirst t q (x.formula .globally .untimed)

/-- Unless it waits once, a pattern holds after `q` if and only if `q` never holds or the pattern
holds at the first `q`. -/
theorem holds_after_iff_first (x : Pattern) (q : Event) (t : Trace)
    (hx : x.kind.waitsOnce = false) :
    (x.formula (.after q) .untimed).Holds t 0 ↔
      (∀ i, ¬t i q.name) ∨
        ∃ m, FirstFrom t q 0 m ∧ (x.formula .globally .untimed).Holds t m := by
  cases x with
  | occurrence k o => exact Occurrence.holds_formula_after k o
  | boundedExistence n o => exact Occurrence.holds_boundedExistence_after o.p n.times.toNat
  | order k o => exact Order.holds_formula_after k o hx
  | chain k o links => exact Order.holds_chainFormula_after k o links hx

theorem holds_after_iff_first_unanswered :
    let x : Pattern := .order .response ⟨⟨"p", ""⟩, ⟨"s", ""⟩, some ⟨"z", ""⟩, none, none⟩
    let t : Trace := fun i a => i = 0 ∧ a = "p" ∨ 1 ≤ i ∧ a = "q"
    x.kind.waitsOnce = false ∧ (x.formula (.after ⟨"q", ""⟩) .untimed).Holds t 0 ∧
      ¬(x.formula .globally .untimed).Holds t 0 := by
  intro x t
  have hs (j : Nat) : ¬t j "s" := by simp [t]
  refine ⟨rfl, (holds_after_iff_first x ⟨"q", ""⟩ t rfl).mpr (Or.inr ⟨1, ?_, ?_⟩), ?_⟩
  · refine ⟨by decide, by simp [t], ?_⟩
    intro j _ hj
    simp [t, Nat.lt_one_iff.mp hj]
  · apply holds_always.mpr
    rintro j hj (⟨rfl, -⟩ | ⟨-, hp⟩)
    · exact absurd hj (by decide)
    · exact absurd hp (by decide)
  · intro h
    obtain ⟨j, -, hj, -⟩ := holds_strongUntil.mp (h 0 trivial (by simp [t]))
    exact hs j hj

/-- What a pattern that waits once says after `q` is what it says at some `q`, in any timing. -/
theorem formula_after_of_waitsOnce (x : Pattern) (q : Event) (timing : Timing)
    (hx : x.kind.waitsOnce = true) :
    x.formula (.after q) timing = atFirst q (x.formula .globally timing) := by
  cases x with
  | occurrence | boundedExistence => cases hx
  | order k o =>
    cases k with
    | precedence | holdUntil => rfl
    | response | responseInvariance => cases hx
  | chain k o links =>
    cases k with
    | precedenceOneMany | precedenceManyOne => rfl
    | responseOneMany | responseManyOne => cases hx

theorem holds_after_iff_exists (x : Pattern) (q : Event) (t : Trace)
    (hx : x.kind.waitsOnce = true) :
    (x.formula (.after q) .untimed).Holds t 0 ↔
      (∀ i, ¬t i q.name) ∨ ∃ i, t i q.name ∧ (x.formula .globally .untimed).Holds t i := by
  rw [formula_after_of_waitsOnce x q .untimed hx]
  exact holds_atFirst

theorem opensAtFirst_iff (x : Pattern) (q : Event) (t : Trace) (hx : x.kind.waitsOnce = true) :
    x.OpensAtFirst q t ↔
      ∀ i m, t i q.name → (x.formula .globally .untimed).Holds t i → FirstFrom t q 0 m →
        (x.formula .globally .untimed).Holds t m := by
  rw [OpensAtFirst, holds_after_iff_exists x q t hx, holdsAtFirst_iff]
  constructor
  · intro hfirst i m hi h
    exact hfirst.mp (Or.inr ⟨i, hi, h⟩) m
  · intro hall
    constructor
    · rintro (hnever | ⟨i, hi, h⟩) m hm
      · exact absurd hm.holds (hnever m)
      · exact hall i m hi h hm
    · intro h
      rcases holdsAtFirst_iff.mpr h with hnever | ⟨m, hm, hx⟩
      · exact Or.inl hnever
      · exact Or.inr ⟨m, hm.holds, hx⟩

/-- A pattern that waits once holds after `q` if it holds at any `q`. So it holds at the first one
exactly where no later `q` makes up for it. -/
theorem holds_after_of_waitsOnce (x : Pattern) (q : Event) (t : Trace)
    (hx : x.kind.waitsOnce = true) :
    ((x.formula (.after q) .untimed).Holds t 0 ↔
        (∀ i, ¬t i q.name) ∨ ∃ i, t i q.name ∧ (x.formula .globally .untimed).Holds t i) ∧
      (x.OpensAtFirst q t ↔
        ∀ i m, t i q.name → (x.formula .globally .untimed).Holds t i → FirstFrom t q 0 m →
          (x.formula .globally .untimed).Holds t m) :=
  ⟨holds_after_iff_exists x q t hx, opensAtFirst_iff x q t hx⟩

theorem holds_after_of_waitsOnce_atOnce :
    let x : Pattern := .order .precedence ⟨⟨"p", ""⟩, ⟨"s", ""⟩, some ⟨"z", ""⟩, none, none⟩
    let t : Trace := fun i a => a = "q" ∨ a = "s" ∧ i = 0 ∨ a = "p"
    x.kind.waitsOnce = true ∧ x.OpensAtFirst ⟨"q", ""⟩ t := by
  intro x t
  refine ⟨rfl, (holds_after_of_waitsOnce x ⟨"q", ""⟩ t rfl).2.mpr ?_⟩
  intro i m _ _ hm
  obtain rfl : m = 0 := Nat.le_zero.mp (hm.le_of_holds (Nat.le_refl 0) (Or.inl rfl))
  apply holds_weakUntil.mpr
  intro k _
  exact Or.inr ⟨0, Nat.le_refl 0, Nat.zero_le k, Or.inr (Or.inl ⟨rfl, rfl⟩)⟩

end Pattern

section TwoOpenings

/-- The event `q` holds at the first two positions, together with `p` and then with `s`. -/
def twoOpenings : Trace :=
  fun i a => i = 0 ∧ (a = "q" ∨ a = "p") ∨ i = 1 ∧ (a = "q" ∨ a = "s")

theorem twoOpenings_p (i : Nat) : twoOpenings i "p" ↔ i = 0 := by
  simp [twoOpenings]

theorem twoOpenings_s (i : Nat) : twoOpenings i "s" ↔ i = 1 := by
  simp [twoOpenings]

theorem twoOpenings_x (i : Nat) : ¬twoOpenings i "x" := by
  simp [twoOpenings]

theorem not_opensAtFirst_of {x : Pattern} (hx : x.kind.waitsOnce = true)
    (hfirst : ¬(x.formula .globally .untimed).Holds twoOpenings 0)
    (hsecond : (x.formula .globally .untimed).Holds twoOpenings 1) :
    ¬x.OpensAtFirst ⟨"q", ""⟩ twoOpenings := by
  have hq : twoOpenings 0 "q" := Or.inl ⟨rfl, Or.inl rfl⟩
  have hq' : twoOpenings 1 "q" := Or.inr ⟨rfl, Or.inl rfl⟩
  intro h
  refine hfirst ((x.opensAtFirst_iff _ _ hx).mp h 1 0 hq' hsecond ?_)
  exact ⟨Nat.le_refl 0, hq, fun j _ hj => absurd hj j.not_lt_zero⟩

def orderOf (p s : String) : Order :=
  ⟨⟨p, ""⟩, ⟨s, ""⟩, none, none, none⟩

theorem not_opensAtFirst_precedence :
    ¬(Pattern.order .precedence (orderOf "p" "s")).OpensAtFirst ⟨"q", ""⟩ twoOpenings := by
  apply not_opensAtFirst_of rfl
  · intro h
    rcases holds_weakUntil.mp h 0 (Nat.le_refl 0) with h | ⟨j, -, hj, h⟩
    · exact h ((twoOpenings_p 0).mpr rfl)
    · obtain rfl : j = 1 := (twoOpenings_s j).mp h
      exact absurd hj (by decide)
  · apply holds_weakUntil.mpr
    intro k hk
    exact Or.inr ⟨1, Nat.le_refl 1, hk, (twoOpenings_s 1).mpr rfl⟩

theorem not_opensAtFirst_holdUntil :
    ¬(Pattern.order .holdUntil (orderOf "x" "s")).OpensAtFirst ⟨"q", ""⟩ twoOpenings := by
  apply not_opensAtFirst_of rfl
  · intro h
    obtain ⟨j, -, hj, h⟩ := holds_strongUntil.mp h
    obtain rfl : j = 1 := (twoOpenings_s j).mp hj
    exact twoOpenings_x 0 (h 0 (Nat.le_refl 0) Nat.zero_lt_one)
  · apply holds_strongUntil.mpr
    refine ⟨1, Nat.le_refl 1, (twoOpenings_s 1).mpr rfl, ?_⟩
    intro k hk hlt
    exact absurd hlt (Nat.not_lt.mpr hk)

theorem not_opensAtFirst_precedenceOneMany :
    ¬(Pattern.chain .precedenceOneMany (orderOf "x" "p")
      ⟨⟨⟨"s", ""⟩, none, none⟩, []⟩).OpensAtFirst ⟨"q", ""⟩ twoOpenings := by
  apply not_opensAtFirst_of rfl
  · intro h
    have hs : (eventually (event ⟨"s", ""⟩)).Holds twoOpenings 1 :=
      holds_eventually.mpr ⟨1, Nat.le_refl 1, (twoOpenings_s 1).mpr rfl⟩
    have huntil := h (holds_eventually.mpr
      ⟨0, Nat.le_refl 0, (twoOpenings_p 0).mpr rfl, holds_next.mpr hs⟩)
    obtain ⟨j, -, hj, -⟩ := holds_strongUntil.mp huntil
    exact twoOpenings_x j hj
  · intro h
    obtain ⟨j, hj, hp, -⟩ := holds_eventually.mp h
    obtain rfl : j = 0 := (twoOpenings_p j).mp hp
    exact absurd hj (by decide)

theorem not_opensAtFirst_precedenceManyOne :
    ¬(Pattern.chain .precedenceManyOne (orderOf "p" "x")
      ⟨⟨⟨"s", ""⟩, none, none⟩, []⟩).OpensAtFirst ⟨"q", ""⟩ twoOpenings := by
  apply not_opensAtFirst_of rfl
  · intro h
    have huntil := h (holds_eventually.mpr ⟨0, Nat.le_refl 0, (twoOpenings_p 0).mpr rfl⟩)
    obtain ⟨j, -, hj, -⟩ := holds_strongUntil.mp huntil
    exact twoOpenings_x j (holds_conjunction.mp hj).1
  · intro h
    obtain ⟨j, hj, hp⟩ := holds_eventually.mp h
    obtain rfl : j = 0 := (twoOpenings_p j).mp hp
    exact absurd hj (by decide)

/-- No kind of pattern that waits once is tied to the first `q`. -/
theorem not_opensAtFirst :
    let q : Event := ⟨"q", ""⟩
    let links : Chain := ⟨⟨⟨"s", ""⟩, none, none⟩, []⟩
    ¬(Pattern.order .precedence (orderOf "p" "s")).OpensAtFirst q twoOpenings ∧
      ¬(Pattern.order .holdUntil (orderOf "x" "s")).OpensAtFirst q twoOpenings ∧
      ¬(Pattern.chain .precedenceOneMany (orderOf "x" "p") links).OpensAtFirst q twoOpenings ∧
      ¬(Pattern.chain .precedenceManyOne (orderOf "p" "x") links).OpensAtFirst q twoOpenings :=
  ⟨not_opensAtFirst_precedence, not_opensAtFirst_holdUntil, not_opensAtFirst_precedenceOneMany,
    not_opensAtFirst_precedenceManyOne⟩

end TwoOpenings

end PropertyPatterns
