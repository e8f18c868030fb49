import PropertyPatterns.Proofs.ClosedScopes
import PropertyPatterns.Proofs.FirstOpening

namespace PropertyPatterns

open Formula

/-- The event holds infinitely often. -/
def Recurs (t : Trace) (e : Event) : Prop :=
  ∀ i, ∃ j, i ≤ j ∧ t j e.name

section Waits

variable {t : Trace} {f g f' g' : Formula} {i : Nat}

theorem holds_weakUntil_of_strongUntil (h : (strongUntil f g).Holds t i) :
    (weakUntil f g).Holds t i := by
  obtain ⟨j, hij, hg, hf⟩ := holds_strongUntil.mp h
  apply holds_weakUntil.mpr
  intro k hk
  rcases Nat.lt_or_ge k j with hkj | hjk
  · exact Or.inl (hf k hk hkj)
  · exact Or.inr ⟨j, hij, hjk, hg⟩

theorem holds_strongUntil_of_weakUntil (h : (weakUntil f g).Holds t i)
    (hg : ∃ j, i ≤ j ∧ g.Holds t j) : (strongUntil f g).Holds t i := by
  -- The earliest position at which the right operand holds ends the wait.
  obtain ⟨j, hij, hj⟩ := hg
  obtain ⟨n, hin, -, hn, hbefore⟩ := exists_first (P := g.Holds t) hij hj
  refine holds_strongUntil.mpr ⟨n, hin, hn, ?_⟩
  intro k hik hkn
  rcases holds_weakUntil.mp h k hik with hf | ⟨l, hil, hlk, hgl⟩
  · exact hf
  · exact absurd hgl (hbefore l hil (Nat.lt_of_le_of_lt hlk hkn))

theorem holds_weakUntil_iff_of_right (hg : ∃ j, i ≤ j ∧ g.Holds t j) :
    (weakUntil f g).Holds t i ↔ (strongUntil f g).Holds t i :=
  ⟨fun h => holds_strongUntil_of_weakUntil h hg, holds_weakUntil_of_strongUntil⟩

theorem holds_weakUntil_iff_of_not_left (hf : ∃ j, i ≤ j ∧ ¬f.Holds t j) :
    (weakUntil f g).Holds t i ↔ (strongUntil f g).Holds t i := by
  constructor
  · intro h
    obtain ⟨j, hij, hfj⟩ := hf
    rcases holds_weakUntil.mp h j hij with hfj' | ⟨k, hik, -, hgk⟩
    · exact absurd hfj' hfj
    · exact holds_strongUntil_of_weakUntil h ⟨k, hik, hgk⟩
  · exact holds_weakUntil_of_strongUntil

theorem holds_wait_congr {s : Strength} {b : Option Bound} (hf : ∀ j, f.Holds t j ↔ f'.Holds t j)
    (hg : ∀ j, g.Holds t j ↔ g'.Holds t j) :
    (wait s b f g).Holds t i ↔ (wait s b f' g').Holds t i := by
  cases s with
  | strong | weak => simp only [Holds, hf, hg]

end Waits

section Recurrence

variable {t : Trace} {q r : Event} {f g g' : Formula}

theorem Recurs.exists_right (hr : Recurs t r) (hg : ∀ i, t i r.name → g.Holds t i) (i : Nat) :
    ∃ j, i ≤ j ∧ g.Holds t j := by
  obtain ⟨j, hij, hj⟩ := hr i
  exact ⟨j, hij, hg j hj⟩

theorem Recurs.holds_implies_eventually (hr : Recurs t r) (i : Nat) :
    (implies (eventually (event r)) f).Holds t i ↔ f.Holds t i := by
  constructor
  · intro h
    exact h (holds_eventually.mpr (hr i))
  · intro h _
    exact h

theorem Recurs.holds_weakUntil_iff (hr : Recurs t r) (hg : ∀ i, t i r.name → g.Holds t i)
    (i : Nat) :
    (weakUntil f g).Holds t i ↔
      (implies (eventually (event r)) (strongUntil f g)).Holds t i := by
  rw [hr.holds_implies_eventually]
  exact holds_weakUntil_iff_of_right (hr.exists_right hg i)

theorem Recurs.holds_weakUntil_or_iff (hr : Recurs t r) (h : ∀ i, g.Holds t i ↔ g'.Holds t i)
    (i : Nat) :
    (weakUntil f (or (event r) g)).Holds t i ↔ (strongUntil f (or (event r) g')).Holds t i := by
  have hclosing (j : Nat) (hj : t j r.name) : (or (event r) g).Holds t j := Or.inl hj
  rw [holds_weakUntil_iff_of_right (hr.exists_right hclosing i)]
  apply holds_wait_congr
  · intro j
    rfl
  · intro j
    exact or_congr Iff.rfl (h j)

theorem holdsAtOpenings_congr (h : ∀ i, f.Holds t i ↔ g.Holds t i) :
    HoldsAtOpenings t q r f ↔ HoldsAtOpenings t q r g := by
  simp only [HoldsAtOpenings, h]

theorem holds_openWindow_congr (h : ∀ i, f.Holds t i ↔ g.Holds t i) :
    (always (implies (openWindow q r) f)).Holds t 0 ↔ HoldsAtOpenings t q r g := by
  rw [holds_always_openWindow]
  exact holdsAtOpenings_congr h

theorem holds_always_event (hf : ∀ i, t i r.name → f.Holds t i) :
    (always (implies (event q) f)).Holds t 0 ↔ HoldsAtOpenings t q r f := by
  rw [holds_always]
  constructor
  · intro h i hq _
    exact h i (Nat.zero_le i) hq
  · intro h i _ hq
    by_cases hr : t i r.name
    · exact hf i hr
    · exact h i hq hr

end Recurrence

section Cells

variable {t : Trace} {q r : Event}

theorem Scope.holds_throughout_afterUntil (hr : Recurs t r) (body : Formula) :
    (Scope.throughout (.afterUntil q r) none body).Holds t 0 ↔
      HoldsAtOpenings t q r (Scope.throughout (.before r) none body) :=
  holds_openWindow_congr (hr.holds_weakUntil_iff fun _ h => h)

theorem Scope.holds_answering_afterUntil (hr : Recurs t r) (free : Formula)
    (bounded : Event → Formula) :
    (Scope.answering (.afterUntil q r) free bounded).Holds t 0 ↔
      HoldsAtOpenings t q r (Scope.answering (.before r) free bounded) :=
  holds_openWindow_congr (hr.holds_weakUntil_iff fun _ h => h)

namespace Occurrence

/-- The only cell that waits strongly in the open scope and weakly in the closed one. -/
theorem holds_existence_afterUntil (hr : Recurs t r) (p : Event) :
    (existence (.afterUntil q r) p none).Holds t 0 ↔
      HoldsAtOpenings t q r (existence (.before r) p none) := by
  apply holds_openWindow_congr
  intro i
  obtain ⟨j, hij, hj⟩ := hr i
  have hopen : ¬(absent r).Holds t j := fun h => h hj
  exact (holds_weakUntil_iff_of_not_left ⟨j, hij, hopen⟩).symm

theorem holds_transientState_afterUntil (hr : Recurs t r) (p : Event) :
    (transientState (.afterUntil q r) p none).Holds t 0 ↔
      HoldsAtOpenings t q r (transientState (.before r) p none) :=
  holds_openWindow_congr fun i => (hr.holds_implies_eventually i).symm

theorem holds_settles_iff (hr : Recurs t r) (p : Event) (i : Nat) :
    (settles .weak p r none).Holds t i ↔ (settles .strong p r none).Holds t i := by
  apply holds_wait_congr
  · intro j
    rfl
  · intro j
    exact holds_weakUntil_iff_of_right (hr j)

theorem holds_steadyState_afterUntil (hr : Recurs t r) (p : Event) :
    (steadyState (.afterUntil q r) p none).Holds t 0 ↔
      HoldsAtOpenings t q r (steadyState (.before r) p none) := by
  apply holds_openWindow_congr
  intro i
  rw [holds_settles_iff hr]
  exact (hr.holds_implies_eventually i).symm

theorem holds_boundedStretchesBefore_iff (hr : Recurs t r) (p : Event) (n i : Nat) :
    (boundedStretchesBefore .weak p r n).Holds t i ↔
      (boundedStretchesBefore .strong p r n).Holds t i := by
  -- Both waits for a stretch end at the latest where the window closes.
  induction n generalizing i with
  | zero => exact holds_weakUntil_iff_of_right (hr i)
  | succ n ih =>
    have hstretch (j : Nat) := hr.holds_weakUntil_or_iff (f := inside p r) ih j
    exact hr.holds_weakUntil_or_iff hstretch i

theorem setBound_boundedStretches (p : Event) (n : Nat) :
    (boundedStretches p n).setBound none = boundedStretches p n := by
  cases n with
  | zero | succ => rfl

theorem setBound_boundedStretchesBefore (s : Strength) (p r : Event) (n : Nat) :
    (boundedStretchesBefore s p r n).setBound none = boundedStretchesBefore s p r n := by
  cases n with
  | zero | succ => rfl

theorem holds_boundedExistence_afterUntil (hr : Recurs t r) (p : Event) (n : Nat) :
    (boundedExistence (.afterUntil q r) p n none).Holds t 0 ↔
      HoldsAtOpenings t q r (boundedExistence (.before r) p n none) := by
  have hiff (i : Nat) : ((boundedStretchesBefore .weak p r n).setBound none).Holds t i ↔
      ((boundedStretchesBefore .strong p r n).setBound none).Holds t i := by
    rw [setBound_boundedStretchesBefore, setBound_boundedStretchesBefore]
    exact holds_boundedStretchesBefore_iff hr p n i
  unfold boundedExistence
  rw [holds_always_event]
  · apply holdsAtOpenings_congr
    intro i
    rw [hr.holds_implies_eventually]
    exact hiff i
  · intro i hi
    exact (hiff i).mpr (holds_boundedStretchesBefore_of_closing hi)

theorem holds_formula_afterUntil (hr : Recurs t r) (k : OccurrenceKind) (o : Occurrence) :
    (o.formula .untimed (.afterUntil q r) k).Holds t 0 ↔
      HoldsAtOpenings t q r (o.formula .untimed (.before r) k) := by
  cases k with
  | universality | absence | minimumDuration | maximumDuration =>
    exact Scope.holds_throughout_afterUntil hr _
  | existence => exact holds_existence_afterUntil hr o.p
  | transientState => exact holds_transientState_afterUntil hr o.p
  | steadyState => exact holds_steadyState_afterUntil hr o.p
  | recurrence =>
    simp only [formula, recurrence]
    exact Scope.holds_answering_afterUntil hr _ _

end Occurrence

namespace Order

theorem holds_awaiting_afterUntil (hr : Recurs t r) (free : Strength) (left : Formula)
    (s : Event) :
    (awaiting (.afterUntil q r) free none left s).Holds t 0 ↔
      HoldsAtOpenings t q r (awaiting (.before r) free none left s) :=
  holds_openWindow_congr (hr.holds_weakUntil_iff fun _ h => Or.inr h)

theorem holds_formula_afterUntil (hr : Recurs t r) (k : OrderKind) (o : Order) :
    (o.formula .untimed (.afterUntil q r) k).Holds t 0 ↔
      HoldsAtOpenings t q r (o.formula .untimed (.before r) k) := by
  cases k with
  | precedence => exact holds_awaiting_afterUntil hr .weak _ o.s
  | holdUntil => exact holds_awaiting_afterUntil hr .strong _ o.s
  | response | responseInvariance =>
    simp only [formula, response, responseInvariance]
    exact Scope.holds_answering_afterUntil hr _ _

theorem holds_chainFormula_afterUntil (hr : Recurs t r) (k : ChainKind) (o : Order)
    (links : Chain) :
    (o.chainFormula .untimed (.afterUntil q r) k links).Holds t 0 ↔
      HoldsAtOpenings t q r (o.chainFormula .untimed (.before r) k links) := by
  cases k with
  | precedenceOneMany | precedenceManyOne =>
    exact holds_openWindow_congr (hr.holds_weakUntil_iff fun _ h => Or.inl h)
  | responseOneMany | responseManyOne =>
    simp only [chainFormula, responseOneMany, responseManyOne]
    exact Scope.holds_answering_afterUntil hr _ _

end Order

end Cells

namespace Pattern

/-- Where `r` holds infinitely often, a pattern holds after `q` until `r` if and only if it holds
between `q` and `r`. -/
theorem holds_afterUntil_iff_between (x : Pattern) (q r : Event) (t : Trace)
    (hr : ∀ i, ∃ j, i ≤ j ∧ t j r.name) :
    (x.formula (.afterUntil q r) .untimed).Holds t 0 ↔
      (x.formula (.between q r) .untimed).Holds t 0 := by
  cases x with
  | occurrence k o =>
    exact (Occurrence.holds_formula_afterUntil hr k o).trans
      (Occurrence.holds_formula_between k o).symm
  | boundedExistence n o =>
    exact (Occurrence.holds_boundedExistence_afterUntil hr o.p n.times.toNat).trans
      (Occurrence.holds_boundedExistence_between o.p n.times.toNat).symm
  | order k o =>
    exact (Order.holds_formula_afterUntil hr k o).trans (Order.holds_formula_between k o).symm
  | chain k o links =>
    exact (Order.holds_chainFormula_afterUntil hr k o links).trans
      (Order.holds_chainFormula_between k o links).symm

theorem holds_afterUntil_iff_between_alternating :
    let o : Order := ⟨⟨"p", ""⟩, ⟨"s", ""⟩, some ⟨"z", ""⟩, none, none⟩
    let links : Chain := ⟨⟨⟨"a", ""⟩, some ⟨"y", ""⟩, none⟩, [⟨⟨"b", ""⟩, none, none⟩]⟩
    let x : Pattern := .chain .precedenceOneMany o links
    let t : Trace := fun i a => a = "q" ∧ i % 2 = 0 ∨ a = "s" ∨ a = "r" ∧ i % 2 = 1
    (∀ i, ∃ j, i ≤ j ∧ t j "r") ∧
      ((x.formula (.afterUntil ⟨"q", ""⟩ ⟨"r", ""⟩) .untimed).Holds t 0 ↔
        (x.formula (.between ⟨"q", ""⟩ ⟨"r", ""⟩) .untimed).Holds t 0) := by
  intro o links x t
  have hr : ∀ i, ∃ j, i ≤ j ∧ t j "r" := by
    intro i
    refine ⟨2 * i + 1, by omega, Or.inr (Or.inr ⟨rfl, ?_⟩)⟩
    omega
  exact ⟨hr, holds_afterUntil_iff_between x ⟨"q", ""⟩ ⟨"r", ""⟩ t hr⟩

end Pattern

end PropertyPatterns
