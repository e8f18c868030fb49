import PropertyPatterns.Catalogue.Cell
import PropertyPatterns.Formula.Semantics

namespace PropertyPatterns

open Formula

/-- The formula holds at every position at which a window from `q` to `r` opens. -/
def HoldsAtOpenings (t : Trace) (q r : Event) (f : Formula) : Prop :=
  ∀ i, t i q.name → ¬t i r.name → f.Holds t i

section Windows

variable {t : Trace} {q r : Event} {f : Formula} {i : Nat}

theorem holds_closedWindow :
    (closedWindow q r).Holds t i ↔ t i q.name ∧ ¬t i r.name ∧ ∃ j, i ≤ j ∧ t j r.name := by
  rw [closedWindow, holds_conjunction]
  simp [holds_eventually]

theorem holds_always_openWindow :
    (always (implies (openWindow q r) f)).Holds t 0 ↔ HoldsAtOpenings t q r f := by
  rw [holds_always]
  constructor
  · intro h i hq hr
    exact h i (Nat.zero_le i) ⟨hq, hr⟩
  · rintro h i - ⟨hq, hr⟩
    exact h i hq hr

theorem holds_always_closedWindow :
    (always (implies (closedWindow q r) f)).Holds t 0 ↔
      HoldsAtOpenings t q r (implies (eventually (event r)) f) := by
  rw [holds_always]
  constructor
  · intro h i hq hr hclosing
    refine h i (Nat.zero_le i) (holds_closedWindow.mpr ⟨hq, hr, ?_⟩)
    exact holds_eventually.mp hclosing
  · intro h i _ hwindow
    obtain ⟨hq, hr, hclosing⟩ := holds_closedWindow.mp hwindow
    exact h i hq hr (holds_eventually.mpr hclosing)

theorem holds_always_pending (hf : ∀ i, t i r.name → f.Holds t i) :
    (always (implies (and (event q) (eventually (event r))) f)).Holds t 0 ↔
      HoldsAtOpenings t q r (implies (eventually (event r)) f) := by
  rw [holds_always]
  constructor
  · intro h i hq _ hclosing
    exact h i (Nat.zero_le i) ⟨hq, hclosing⟩
  · rintro h i - ⟨hq, hclosing⟩
    by_cases hr : t i r.name
    · exact hf i hr
    · exact h i hq hr hclosing

theorem holds_strongUntil_of_right {g : Formula} (hg : g.Holds t i) :
    (strongUntil f g).Holds t i := by
  refine holds_strongUntil.mpr ⟨i, Nat.le_refl i, hg, ?_⟩
  intro k hle hlt
  exact absurd hlt (Nat.not_lt.mpr hle)

end Windows

section Cells

variable {t : Trace} {q r : Event}

theorem Scope.holds_throughout_between (body : Formula) :
    (Scope.throughout (.between q r) none body).Holds t 0 ↔
      HoldsAtOpenings t q r (Scope.throughout (.before r) none body) :=
  holds_always_closedWindow

theorem Scope.holds_answering_between (free : Formula) (bounded : Event → Formula) :
    (Scope.answering (.between q r) free bounded).Holds t 0 ↔
      HoldsAtOpenings t q r (Scope.answering (.before r) free bounded) :=
  holds_always_closedWindow

namespace Occurrence

theorem holds_existence_between (p : Event) :
    (existence (.between q r) p none).Holds t 0 ↔
      HoldsAtOpenings t q r (existence (.before r) p none) :=
  holds_always_openWindow

theorem holds_transientState_between (p : Event) :
    (transientState (.between q r) p none).Holds t 0 ↔
      HoldsAtOpenings t q r (transientState (.before r) p none) :=
  holds_always_closedWindow

theorem holds_steadyState_between (p : Event) :
    (steadyState (.between q r) p none).Holds t 0 ↔
      HoldsAtOpenings t q r (steadyState (.before r) p none) :=
  holds_always_closedWindow

theorem holds_boundedStretchesBefore_of_closing {p : Event} {n i : Nat} (hr : t i r.name) :
    ((boundedStretchesBefore .strong p r n).setBound none).Holds t i := by
  -- However many stretches remain to be counted, none need be where the window closes.
  cases n with
  | zero => exact holds_strongUntil_of_right hr
  | succ n => exact holds_strongUntil_of_right (Or.inl hr)

theorem holds_boundedExistence_between (p : Event) (n : Nat) :
    (boundedExistence (.between q r) p n none).Holds t 0 ↔
      HoldsAtOpenings t q r (boundedExistence (.before r) p n none) :=
  holds_always_pending fun _ hr => holds_boundedStretchesBefore_of_closing hr

theorem holds_recurrence_between (p : Event) :
    (recurrence (.between q r) p none).Holds t 0 ↔
      HoldsAtOpenings t q r (recurrence (.before r) p none) :=
  Scope.holds_answering_between _ _

theorem holds_formula_between (k : OccurrenceKind) (o : Occurrence) :
    (o.formula .untimed (.between q r) k).Holds t 0 ↔
      HoldsAtOpenings t q r (o.formula .untimed (.before r) k) := by
  cases k with
  | universality | absence | minimumDuration | maximumDuration =>
    exact Scope.holds_throughout_between _
  | existence => exact holds_existence_between o.p
  | transientState => exact holds_transientState_between o.p
  | steadyState => exact holds_steadyState_between o.p
  | recurrence => exact holds_recurrence_between o.p

end Occurrence

namespace Order

theorem holds_awaiting_between (free : Strength) (left : Formula) (s : Event) :
    (awaiting (.between q r) free none left s).Holds t 0 ↔
      HoldsAtOpenings t q r (awaiting (.before r) free none left s) :=
  holds_always_closedWindow

theorem holds_response_between (o : Order) :
    (response (.between q r) o none).Holds t 0 ↔
      HoldsAtOpenings t q r (response (.before r) o none) :=
  Scope.holds_answering_between _ _

theorem holds_responseInvariance_between (o : Order) :
    (responseInvariance (.between q r) o none).Holds t 0 ↔
      HoldsAtOpenings t q r (responseInvariance (.before r) o none) := by
  unfold responseInvariance
  exact Scope.holds_answering_between _ _

theorem holds_formula_between (k : OrderKind) (o : Order) :
    (o.formula .untimed (.between q r) k).Holds t 0 ↔
      HoldsAtOpenings t q r (o.formula .untimed (.before r) k) := by
  cases k with
  | precedence => exact holds_awaiting_between .weak _ o.s
  | holdUntil => exact holds_awaiting_between .strong _ o.s
  | response => exact holds_response_between o
  | responseInvariance => exact holds_responseInvariance_between o

/-- A precedence chain waits until the window closes, whatever it waits for besides. -/
theorem holds_precedenceOneMany_between (o : Order) (links : Chain) :
    (precedenceOneMany .untimed (.between q r) o links).Holds t 0 ↔
      HoldsAtOpenings t q r (precedenceOneMany .untimed (.before r) o links) :=
  holds_always_pending fun _ hr => holds_strongUntil_of_right (Or.inl hr)

theorem holds_precedenceManyOne_between (o : Order) (links : Chain) :
    (precedenceManyOne .untimed (.between q r) o links).Holds t 0 ↔
      HoldsAtOpenings t q r (precedenceManyOne .untimed (.before r) o links) :=
  holds_always_pending fun _ hr => holds_strongUntil_of_right (Or.inl hr)

theorem holds_responseOneMany_between (o : Order) (links : Chain) :
    (responseOneMany .untimed (.between q r) o links).Holds t 0 ↔
      HoldsAtOpenings t q r (responseOneMany .untimed (.before r) o links) := by
  unfold responseOneMany
  exact Scope.holds_answering_between _ _

theorem holds_responseManyOne_between (o : Order) (links : Chain) :
    (responseManyOne .untimed (.between q r) o links).Holds t 0 ↔
      HoldsAtOpenings t q r (responseManyOne .untimed (.before r) o links) := by
  unfold responseManyOne
  exact Scope.holds_answering_between _ _

theorem holds_chainFormula_between (k : ChainKind) (o : Order) (links : Chain) :
    (o.chainFormula .untimed (.between q r) k links).Holds t 0 ↔
      HoldsAtOpenings t q r (o.chainFormula .untimed (.before r) k links) := by
  cases k with
  | precedenceOneMany => exact holds_precedenceOneMany_between o links
  | precedenceManyOne => exact holds_precedenceManyOne_between o links
  | responseOneMany => exact holds_responseOneMany_between o links
  | responseManyOne => exact holds_responseManyOne_between o links

end Order

end Cells

namespace Pattern

/-- A pattern holds between `q` and `r` if and only if it holds before `r` from every position at
which `q` holds and `r` does not. -/
theorem holds_between (x : Pattern) (q r : Event) (t : Trace) :
    (x.formula (.between q r) .untimed).Holds t 0 ↔
      ∀ i, t i q.name → ¬t i r.name → (x.formula (.before r) .untimed).Holds t i := by
  cases x with
  | occurrence k o => exact Occurrence.holds_formula_between k o
  | boundedExistence n o => exact Occurrence.holds_boundedExistence_between o.p n.times.toNat
  | order k o => exact Order.holds_formula_between k o
  | chain k o links => exact Order.holds_chainFormula_between k o links

end Pattern

end PropertyPatterns
