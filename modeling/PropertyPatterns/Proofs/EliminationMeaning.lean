import PropertyPatterns.Formula.WeakUntil
import PropertyPatterns.Proofs.OpenScopes

namespace PropertyPatterns.Formula

section Meaning

variable {t : Trace} {f f' g g' : Formula}

/-- Either the right operand ends the wait, at the earliest position where it holds, or it never
does. -/
theorem holds_weakUntil_iff_or {i : Nat} :
    (weakUntil f g).Holds t i ↔ (strongUntil f g).Holds t i ∨ (always f).Holds t i := by
  constructor
  · intro h
    by_cases hg : ∃ j, i ≤ j ∧ g.Holds t j
    · exact Or.inl (holds_strongUntil_of_weakUntil h hg)
    · refine Or.inr (holds_always.mpr fun k hk => ?_)
      rcases holds_weakUntil.mp h k hk with hf | ⟨j, hij, -, hj⟩
      · exact hf
      · exact absurd ⟨j, hij, hj⟩ hg
  · rintro (h | h)
    · exact holds_weakUntil_of_strongUntil h
    · exact holds_weakUntil.mpr fun k hk => Or.inl (holds_always.mp h k hk)

theorem holds_connect_congr (hf : ∀ i, f.Holds t i ↔ f'.Holds t i)
    (hg : ∀ i, g.Holds t i ↔ g'.Holds t i) {c : Connective} {i : Nat} :
    (connect c f g).Holds t i ↔ (connect c f' g').Holds t i := by
  simp only [Holds, hf, hg]

theorem holds_modal_congr {m : Modality} {b : Option Bound} {i : Nat}
    (hf : ∀ i, f.Holds t i ↔ f'.Holds t i) :
    (modal m b f).Holds t i ↔ (modal m b f').Holds t i := by
  cases m with
  | next | always | eventually => simp only [Holds, hf]

theorem holds_eliminateWeakUntil (h : f.bounds = []) (i : Nat) :
    f.eliminateWeakUntil.Holds t i ↔ f.Holds t i := by
  induction f generalizing i with
  | atom a => exact Iff.rfl
  | neg f ih => exact not_congr (ih h i)
  | connect c f g ihf ihg =>
    obtain ⟨hf, hg⟩ := List.append_eq_nil_iff.mp h
    exact holds_connect_congr (ihf hf) (ihg hg)
  | modal m b f ih => exact holds_modal_congr (ih (List.append_eq_nil_iff.mp h).2)
  | wait s b f g ihf ihg =>
    obtain ⟨hbf, hg⟩ := List.append_eq_nil_iff.mp h
    obtain ⟨hb, hf⟩ := List.append_eq_nil_iff.mp hbf
    have hcongr := holds_wait_congr (i := i) (s := s) (b := b) (ihf hf) (ihg hg)
    cases s with
    | strong => exact hcongr
    | weak =>
      -- only without a bound does the right operand end the wait for both parts
      obtain rfl := Option.toList_eq_nil_iff.mp hb
      exact holds_weakUntil_iff_or.symm.trans hcongr

end Meaning

theorem eliminateWeakUntil_of_countWeakUntil {f : Formula} (h : f.countWeakUntil = 0) :
    f.eliminateWeakUntil = f := by
  induction f with
  | atom => rfl
  | neg f ih | modal m b f ih => rw [eliminateWeakUntil, ih h]
  | connect c f g ihf ihg =>
    obtain ⟨hf, hg⟩ := Nat.add_eq_zero_iff.mp h
    rw [eliminateWeakUntil, ihf hf, ihg hg]
  | wait s b f g ihf ihg =>
    cases s with
    | strong =>
      obtain ⟨hf, hg⟩ := Nat.add_eq_zero_iff.mp h
      rw [eliminateWeakUntil, ihf hf, ihg hg]
    | weak =>
      rw [countWeakUntil] at h
      omega

theorem mem_bounds_eliminateWeakUntil {f : Formula} {b : Bound} :
    b ∈ f.eliminateWeakUntil.bounds ↔ b ∈ f.bounds := by
  induction f with
  | atom => exact Iff.rfl
  | neg f ih => exact ih
  | connect c f g ihf ihg => simp only [eliminateWeakUntil, bounds, List.mem_append, ihf, ihg]
  | modal m c f ih => simp only [eliminateWeakUntil, bounds, List.mem_append, ih]
  | wait s c f g ihf ihg =>
    cases s with
    | strong => simp only [eliminateWeakUntil, bounds, List.mem_append, ihf, ihg]
    | weak =>
      simp only [eliminateWeakUntil, bounds, List.mem_append, ihf, ihg]
      exact or_iff_left_of_imp Or.inl

theorem mem_reasons_eliminateWeakUntil {f : Formula} {reason : String} :
    reason ∈ f.eliminateWeakUntil.reasons ↔ reason ∈ f.reasons := by
  simp only [reasons, List.mem_filterMap, mem_bounds_eliminateWeakUntil]

/-- The elimination keeps the meaning of every formula without bounds, at every position of every
trace. Of any formula it leaves no weak until, so that a second elimination has no effect, nor has
one of a formula that had none, and it gives the same reasons as before. -/
theorem eliminateWeakUntil_faithful (f : Formula) :
    (f.bounds = [] → ∀ t i, f.eliminateWeakUntil.Holds t i ↔ f.Holds t i) ∧
      f.eliminateWeakUntil.countWeakUntil = 0 ∧
      f.eliminateWeakUntil.eliminateWeakUntil = f.eliminateWeakUntil ∧
      (f.countWeakUntil = 0 → f.eliminateWeakUntil = f) ∧
      {reason | reason ∈ f.eliminateWeakUntil.reasons} = {reason | reason ∈ f.reasons} := by
  have hcount := f.countWeakUntil_eliminateWeakUntil
  refine ⟨fun h _ => holds_eliminateWeakUntil h, hcount,
    eliminateWeakUntil_of_countWeakUntil hcount, eliminateWeakUntil_of_countWeakUntil, ?_⟩
  ext reason
  exact mem_reasons_eliminateWeakUntil

theorem eliminateWeakUntil_faithful_nested :
    let f := weakUntil (weakUntil (atom "a") (atom "b")) (weakUntil (atom "c") (atom "d"))
    f.bounds = [] ∧ f.countWeakUntil = 3 ∧
      ∀ t i, f.eliminateWeakUntil.Holds t i ↔ f.Holds t i :=
  ⟨rfl, rfl, (eliminateWeakUntil_faithful _).1 rfl⟩

end PropertyPatterns.Formula
