import PropertyPatterns.Formula.Basic

/-!
Semantics of formulas on infinite traces, in discrete time with one unit for each position. Bounds
are sets of delays; formulas without bounds have the usual meaning of linear temporal logic, which
the lemmas at the end state over positions.
-/

namespace PropertyPatterns

/-- The atoms that hold at each position. -/
abbrev Trace : Type := Nat → String → Prop

/-- The delays that an annotation allows: all of them, unless it is an interval. -/
def Bound.Allows : Option Bound → Nat → Prop
  | some (interval i), d => i.Contains d
  | some (inexpressible _), _ => True
  | none, _ => True

def Connective.Joins : Connective → Prop → Prop → Prop
  | and, a, b => a ∧ b
  | or, a, b => a ∨ b
  | implies, a, b => a → b

namespace Formula

/-- The formula holds at a position of the trace. An until looks at the left operand ahead of the
chosen delay only. -/
def Holds (t : Trace) : Formula → Nat → Prop
  | atom a, i => t i a
  | neg f, i => ¬f.Holds t i
  | connect c f g, i => c.Joins (f.Holds t i) (g.Holds t i)
  | modal .next b f, i => Bound.Allows b 1 ∧ f.Holds t (i + 1)
  | modal .always b f, i => ∀ d, Bound.Allows b d → f.Holds t (i + d)
  | modal .eventually b f, i => ∃ d, Bound.Allows b d ∧ f.Holds t (i + d)
  | wait .strong b f g, i =>
    ∃ d, Bound.Allows b d ∧ g.Holds t (i + d) ∧ ∀ e < d, f.Holds t (i + e)
  | wait .weak b f g, i =>
    ∀ d, Bound.Allows b d → f.Holds t (i + d) ∨ ∃ e ≤ d, g.Holds t (i + e)

variable {t : Trace} {f g : Formula} {i : Nat}

@[simp] theorem holds_event {e : Event} : (event e).Holds t i ↔ t i e.name := Iff.rfl

@[simp] theorem holds_absent {e : Event} : (absent e).Holds t i ↔ ¬t i e.name := Iff.rfl

@[simp] theorem holds_neg : (neg f).Holds t i ↔ ¬f.Holds t i := Iff.rfl

@[simp] theorem holds_and : (and f g).Holds t i ↔ f.Holds t i ∧ g.Holds t i := Iff.rfl

@[simp] theorem holds_or : (or f g).Holds t i ↔ f.Holds t i ∨ g.Holds t i := Iff.rfl

@[simp] theorem holds_implies :
    (implies f g).Holds t i ↔ (f.Holds t i → g.Holds t i) := Iff.rfl

@[simp] theorem holds_next : (next f).Holds t i ↔ f.Holds t (i + 1) :=
  ⟨fun h => h.2, fun h => ⟨trivial, h⟩⟩

theorem holds_always : (always f).Holds t i ↔ ∀ j, i ≤ j → f.Holds t j := by
  constructor
  · intro h j hj
    obtain ⟨d, rfl⟩ := Nat.exists_eq_add_of_le hj
    exact h d trivial
  · intro h d _
    exact h (i + d) (Nat.le_add_right i d)

theorem holds_eventually : (eventually f).Holds t i ↔ ∃ j, i ≤ j ∧ f.Holds t j := by
  constructor
  · rintro ⟨d, -, h⟩
    exact ⟨i + d, Nat.le_add_right i d, h⟩
  · rintro ⟨j, hj, h⟩
    obtain ⟨d, rfl⟩ := Nat.exists_eq_add_of_le hj
    exact ⟨d, trivial, h⟩

theorem holds_strongUntil :
    (strongUntil f g).Holds t i ↔
      ∃ j, i ≤ j ∧ g.Holds t j ∧ ∀ k, i ≤ k → k < j → f.Holds t k := by
  constructor
  · rintro ⟨d, -, hg, hf⟩
    refine ⟨i + d, Nat.le_add_right i d, hg, ?_⟩
    intro k hk hlt
    obtain ⟨e, rfl⟩ := Nat.exists_eq_add_of_le hk
    exact hf e (by omega)
  · rintro ⟨j, hj, hg, hf⟩
    obtain ⟨d, rfl⟩ := Nat.exists_eq_add_of_le hj
    exact ⟨d, trivial, hg, fun e he => hf (i + e) (by omega) (by omega)⟩

theorem holds_weakUntil :
    (weakUntil f g).Holds t i ↔
      ∀ k, i ≤ k → f.Holds t k ∨ ∃ j, i ≤ j ∧ j ≤ k ∧ g.Holds t j := by
  constructor
  · intro h k hk
    obtain ⟨d, rfl⟩ := Nat.exists_eq_add_of_le hk
    rcases h d trivial with hf | ⟨e, he, hg⟩
    · exact Or.inl hf
    · exact Or.inr ⟨i + e, by omega, by omega, hg⟩
  · intro h d _
    rcases h (i + d) (Nat.le_add_right i d) with hf | ⟨j, hj, hle, hg⟩
    · exact Or.inl hf
    · obtain ⟨e, rfl⟩ := Nat.exists_eq_add_of_le hj
      exact Or.inr ⟨e, by omega, hg⟩

theorem holds_conjunction {fs : List Formula} :
    (conjunction f fs).Holds t i ↔ f.Holds t i ∧ ∀ g ∈ fs, g.Holds t i := by
  induction fs generalizing f with
  | nil => simp [conjunction]
  | cons g gs ih =>
    change (conjunction (and f g) gs).Holds t i ↔ _
    rw [ih]
    simp [and_assoc]

end Formula

end PropertyPatterns
