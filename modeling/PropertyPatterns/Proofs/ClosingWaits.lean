import Mathlib.Data.ENat.Basic
import PropertyPatterns.Proofs.OpenScopes

namespace PropertyPatterns

open Formula

/-- The window from `i` lasts up to the first `r`, or forever if there is none. -/
inductive Closes (t : Trace) (r : Event) (i : Nat) : ℕ∞ → Prop
  | closing {n : Nat} (h : FirstFrom t r i n) : Closes t r i n
  | never (h : ∀ j, i ≤ j → ¬t j r.name) : Closes t r i ⊤

/-- The windows of a scope: from `i` up to `n`. -/
inductive Scope.Window (t : Trace) : Scope → Nat → ℕ∞ → Prop
  | globally : Window t .globally 0 ⊤
  | before {r : Event} {n : Nat} (hr : FirstFrom t r 0 n) : Window t (.before r) 0 n
  | after {q : Event} {i : Nat} (hq : FirstFrom t q 0 i) : Window t (.after q) i ⊤
  | between {q r : Event} {i n : Nat} (hq : t i q.name) (hr : FirstFrom t r i n) :
    Window t (.between q r) i n
  | afterUntil {q r : Event} {i : Nat} {n : ℕ∞} (hq : t i q.name) (hr : Closes t r i n) :
    Window t (.afterUntil q r) i n

section Closing

variable {t : Trace} {r : Event} {i j : Nat} {n : ℕ∞}

theorem exists_closes (t : Trace) (r : Event) (i : Nat) : ∃ n, Closes t r i n := by
  by_cases h : ∃ j, i ≤ j ∧ t j r.name
  · obtain ⟨j, hij, hj⟩ := h
    obtain ⟨n, -, hn⟩ := exists_firstFrom hij hj
    exact ⟨n, .closing hn⟩
  · refine ⟨⊤, .never ?_⟩
    intro j hij hj
    exact h ⟨j, hij, hj⟩

theorem Closes.not_holds (h : Closes t r i n) (hij : i ≤ j) (hjn : j < n) : ¬t j r.name := by
  cases h with
  | closing h => exact h.before j hij (Nat.cast_lt.mp hjn)
  | never h => exact h j hij

theorem Closes.later (h : Closes t r i n) (hij : i ≤ j) (hjn : j < n) : Closes t r j n := by
  cases h with
  | closing h =>
    refine .closing ⟨Nat.le_of_lt (Nat.cast_lt.mp hjn), h.holds, ?_⟩
    intro k hjk
    exact h.before k (Nat.le_trans hij hjk)
  | never h =>
    refine .never ?_
    intro k hjk
    exact h k (Nat.le_trans hij hjk)

end Closing

/-- In the window from `i` up to `n`, the first predicate holds until the second one does, or else
throughout. -/
def Awaits (f g : Nat → Prop) (i : Nat) (n : ℕ∞) : Prop :=
  (∃ j : Nat, i ≤ j ∧ j < n ∧ g j ∧ ∀ k, i ≤ k → k < j → f k) ∨ ∀ k : Nat, i ≤ k → k < n → f k

section Waits

variable {t : Trace} {r : Event} {f g : Formula} {i : Nat} {n : ℕ∞}

theorem Awaits.mono {f f' g g' : Nat → Prop} (hf : ∀ j : Nat, i ≤ j → j < n → f j → f' j)
    (hg : ∀ j : Nat, i ≤ j → j < n → g j → g' j) (h : Awaits f g i n) : Awaits f' g' i n := by
  rcases h with ⟨j, hij, hjn, hj, hbefore⟩ | hall
  · refine Or.inl ⟨j, hij, hjn, hg j hij hjn hj, ?_⟩
    intro k hik hkj
    exact hf k hik (lt_trans (Nat.cast_lt.mpr hkj) hjn) (hbefore k hik hkj)
  · refine Or.inr ?_
    intro k hik hkn
    exact hf k hik hkn (hall k hik hkn)

theorem awaits_congr {f f' g g' : Nat → Prop} (hf : ∀ j : Nat, i ≤ j → j < n → (f j ↔ f' j))
    (hg : ∀ j : Nat, i ≤ j → j < n → (g j ↔ g' j)) : Awaits f g i n ↔ Awaits f' g' i n := by
  constructor
  · exact Awaits.mono (fun j hij hjn => (hf j hij hjn).mp) fun j hij hjn => (hg j hij hjn).mp
  · exact Awaits.mono (fun j hij hjn => (hf j hij hjn).mpr) fun j hij hjn => (hg j hij hjn).mpr

theorem awaits_iff_of_not_right {f g : Nat → Prop} (hg : ∀ j : Nat, i ≤ j → j < n → ¬g j) :
    Awaits f g i n ↔ ∀ j : Nat, i ≤ j → j < n → f j := by
  apply or_iff_right
  rintro ⟨j, hij, hjn, hj, -⟩
  exact hg j hij hjn hj

theorem holds_weakUntil_iff_awaits :
    (weakUntil f g).Holds t i ↔ Awaits (f.Holds t) (g.Holds t) i ⊤ := by
  constructor
  · intro h
    by_cases hg : ∃ j, i ≤ j ∧ g.Holds t j
    · obtain ⟨j, hij, hj, hbefore⟩ := holds_strongUntil.mp (holds_strongUntil_of_weakUntil h hg)
      exact Or.inl ⟨j, hij, ENat.natCast_lt_top j, hj, hbefore⟩
    · refine Or.inr ?_
      intro k hik _
      rcases holds_weakUntil.mp h k hik with hf | ⟨j, hij, -, hj⟩
      · exact hf
      · exact absurd ⟨j, hij, hj⟩ hg
  · rintro (⟨j, hij, -, hj, hbefore⟩ | hall)
    · exact holds_weakUntil_of_strongUntil (holds_strongUntil.mpr ⟨j, hij, hj, hbefore⟩)
    · apply holds_weakUntil.mpr
      intro k hik
      exact Or.inl (hall k hik (ENat.natCast_lt_top k))

/-- A wait that the closing event ends takes place in the window. Only a strong one needs the
window to close. -/
theorem Closes.holds_wait_iff {s : Strength} (h : Closes t r i n) (hs : s = .weak ∨ n ≠ ⊤)
    (hg : ∀ j, t j r.name → g.Holds t j) :
    (Formula.wait s none f g).Holds t i ↔ Awaits (f.Holds t) (g.Holds t) i n := by
  cases h with
  | never h =>
    obtain rfl : s = .weak := hs.resolve_right (not_not_intro rfl)
    exact holds_weakUntil_iff_awaits
  | @closing n h =>
    have hstrong : (Formula.wait s none f g).Holds t i ↔ (strongUntil f g).Holds t i := by
      cases s with
      | strong => rfl
      | weak => exact holds_weakUntil_iff_of_right ⟨n, h.le, hg n h.holds⟩
    rw [hstrong, holds_strongUntil]
    constructor
    · rintro ⟨j, hij, hj, hbefore⟩
      rcases Nat.lt_or_ge j n with hjn | hnj
      · exact Or.inl ⟨j, hij, Nat.cast_lt.mpr hjn, hj, hbefore⟩
      · refine Or.inr ?_
        intro k hik hkn
        exact hbefore k hik (Nat.lt_of_lt_of_le (Nat.cast_lt.mp hkn) hnj)
    · rintro (⟨j, hij, -, hj, hbefore⟩ | hall)
      · exact ⟨j, hij, hj, hbefore⟩
      · refine ⟨n, h.le, hg n h.holds, ?_⟩
        intro k hik hkn
        exact hall k hik (Nat.cast_lt.mpr hkn)

theorem Closes.holds_wait_closing_iff {s : Strength} (h : Closes t r i n)
    (hs : s = .weak ∨ n ≠ ⊤) :
    (Formula.wait s none f (event r)).Holds t i ↔ ∀ j : Nat, i ≤ j → j < n → f.Holds t j :=
  (h.holds_wait_iff (g := event r) hs fun _ hr => hr).trans
    (awaits_iff_of_not_right fun _ => h.not_holds)

theorem Closes.holds_wait_or_iff {s : Strength} (h : Closes t r i n) (hs : s = .weak ∨ n ≠ ⊤) :
    (Formula.wait s none f (or (event r) g)).Holds t i ↔ Awaits (f.Holds t) (g.Holds t) i n := by
  have hclosing (j : Nat) (hj : t j r.name) : (or (event r) g).Holds t j := Or.inl hj
  apply (h.holds_wait_iff hs hclosing).trans
  apply awaits_congr (fun _ _ _ => Iff.rfl)
  intro j hij hjn
  exact or_iff_right (h.not_holds hij hjn)

end Waits

end PropertyPatterns
