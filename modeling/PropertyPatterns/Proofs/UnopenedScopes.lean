import PropertyPatterns.Proofs.OpenScopes

namespace PropertyPatterns

open Formula

/-- The scope without its opening event. -/
def Scope.unopened : Scope → Scope
  | globally | after _ => globally
  | before r | between _ r | afterUntil _ r => before r

/-- The scope opens at the start or never, and it closes later on, again and again. -/
structure Scope.OpensOnce (scope : Scope) (t : Trace) : Prop where
  opening : ∀ q ∈ scope.opening?, ∀ i, t i q.name → i = 0
  not_closing : ∀ r ∈ scope.closing?, ¬t 0 r.name
  recurs : ∀ r ∈ scope.closing?, Recurs t r

section Opening

variable {t : Trace} {q r : Event} {f : Formula}

theorem holdsAtFirst_iff_of_once (hq : ∀ i, t i q.name → i = 0) :
    HoldsAtFirst t q f ↔ (t 0 q.name → f.Holds t 0) := by
  rw [holdsAtFirst_iff]
  constructor
  · intro h h0
    exact h 0 ⟨Nat.le_refl 0, h0, fun j _ hj => absurd hj j.not_lt_zero⟩
  · intro h m hm
    obtain rfl := hq m hm.holds
    exact h hm.holds

theorem holds_atFirst_iff_of_once (hq : ∀ i, t i q.name → i = 0) :
    ((∀ i, ¬t i q.name) ∨ ∃ i, t i q.name ∧ f.Holds t i) ↔ (t 0 q.name → f.Holds t 0) := by
  constructor
  · rintro (hnever | ⟨i, hi, h⟩) h0
    · exact absurd h0 (hnever 0)
    · obtain rfl := hq i hi
      exact h
  · intro h
    by_cases h0 : t 0 q.name
    · exact Or.inr ⟨0, h0, h h0⟩
    · refine Or.inl ?_
      intro i hi
      obtain rfl := hq i hi
      exact h0 hi

theorem holdsAtOpenings_iff_of_once (hq : ∀ i, t i q.name → i = 0) (hr : ¬t 0 r.name) :
    HoldsAtOpenings t q r f ↔ (t 0 q.name → f.Holds t 0) := by
  constructor
  · intro h h0
    exact h 0 h0 hr
  · intro h i hi _
    obtain rfl := hq i hi
    exact h hi

end Opening

namespace Pattern

variable {t : Trace} {scope : Scope}

/-- In a scope that opens once, a pattern says what it says in the scope without its opening
event. -/
theorem holds_iff_unopened (x : Pattern) (h : scope.OpensOnce t) :
    (x.formula scope .untimed).Holds t 0 ↔
      ((∀ q ∈ scope.opening?, t 0 q.name) → (x.formula scope.unopened .untimed).Holds t 0) := by
  obtain ⟨hopening, hclosing, hrecurs⟩ := h
  cases scope with
  | globally | before r => simp [Scope.opening?, Scope.unopened]
  | after q =>
    have hq := hopening q rfl
    simp only [Scope.opening?, Option.mem_some_iff, forall_eq', Scope.unopened]
    cases hx : x.kind.waitsOnce with
    | true => exact (x.holds_after_iff_exists q t hx).trans (holds_atFirst_iff_of_once hq)
    | false =>
      rw [← holdsAtFirst_iff_of_once hq]
      cases x with
      | occurrence k o => exact Occurrence.holds_formula_after k o
      | boundedExistence n o => exact Occurrence.holds_boundedExistence_after o.p n.times.toNat
      | order k o => exact Order.holds_formula_after k o hx
      | chain k o links => exact Order.holds_chainFormula_after k o links hx
  | between q r =>
    simp only [Scope.opening?, Option.mem_some_iff, forall_eq', Scope.unopened]
    rw [← holdsAtOpenings_iff_of_once (hopening q rfl) (hclosing r rfl)]
    cases x with
    | occurrence k o => exact Occurrence.holds_formula_between k o
    | boundedExistence n o => exact Occurrence.holds_boundedExistence_between o.p n.times.toNat
    | order k o => exact Order.holds_formula_between k o
    | chain k o links => exact Order.holds_chainFormula_between k o links
  | afterUntil q r =>
    have hr := hrecurs r rfl
    simp only [Scope.opening?, Option.mem_some_iff, forall_eq', Scope.unopened]
    rw [← holdsAtOpenings_iff_of_once (hopening q rfl) (hclosing r rfl)]
    cases x with
    | occurrence k o => exact Occurrence.holds_formula_afterUntil hr k o
    | boundedExistence n o =>
      exact Occurrence.holds_boundedExistence_afterUntil hr o.p n.times.toNat
    | order k o => exact Order.holds_formula_afterUntil hr k o
    | chain k o links => exact Order.holds_chainFormula_afterUntil hr k o links

end Pattern

end PropertyPatterns
