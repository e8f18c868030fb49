import Mathlib.Data.Nat.Find
import PropertyPatterns.Catalogue.Cell
import PropertyPatterns.Formula.Semantics

namespace PropertyPatterns

open Formula

/-- The first position from `i` on at which the event holds is `n`. -/
structure FirstFrom (t : Trace) (e : Event) (i n : Nat) : Prop where
  le : i ≤ n
  holds : t n e.name
  before : ∀ j, i ≤ j → j < n → ¬t j e.name

theorem exists_first {P : Nat → Prop} {i j : Nat} (hij : i ≤ j) (hj : P j) :
    ∃ n, i ≤ n ∧ n ≤ j ∧ P n ∧ ∀ k, i ≤ k → k < n → ¬P k := by
  classical
  have h : ∃ n, i ≤ n ∧ P n := ⟨j, hij, hj⟩
  obtain ⟨hle, hn⟩ := Nat.find_spec h
  refine ⟨Nat.find h, hle, Nat.find_min' h ⟨hij, hj⟩, hn, ?_⟩
  intro k hik hk hP
  exact Nat.find_min h hk ⟨hik, hP⟩

section Positions

variable {t : Trace} {e : Event} {i j m n : Nat}

theorem exists_firstFrom (hij : i ≤ j) (hj : t j e.name) : ∃ n, n ≤ j ∧ FirstFrom t e i n := by
  obtain ⟨n, hin, hnj, hn, hbefore⟩ := exists_first (P := fun j => t j e.name) hij hj
  exact ⟨n, hnj, hin, hn, hbefore⟩

theorem FirstFrom.le_of_holds (h : FirstFrom t e i n) (hij : i ≤ j) (hj : t j e.name) : n ≤ j := by
  apply Nat.le_of_not_lt
  intro hlt
  exact h.before j hij hlt hj

theorem FirstFrom.unique (hm : FirstFrom t e i m) (hn : FirstFrom t e i n) : m = n :=
  Nat.le_antisymm (hm.le_of_holds hn.le hn.holds) (hn.le_of_holds hm.le hm.holds)

end Positions

/-- The formula holds at the first `q`, or there is none. -/
def HoldsAtFirst (t : Trace) (q : Event) (f : Formula) : Prop :=
  (∀ i, ¬t i q.name) ∨ ∃ m, FirstFrom t q 0 m ∧ f.Holds t m

theorem holdsAtFirst_iff {t : Trace} {q : Event} {f : Formula} :
    HoldsAtFirst t q f ↔ ∀ m, FirstFrom t q 0 m → f.Holds t m := by
  constructor
  · rintro (hnever | ⟨n, hn, h⟩) m hm
    · exact absurd hm.holds (hnever m)
    · rwa [hm.unique hn]
  · intro h
    by_cases hq : ∃ i, t i q.name
    · obtain ⟨i, hi⟩ := hq
      obtain ⟨m, -, hm⟩ := exists_firstFrom (Nat.zero_le i) hi
      exact Or.inr ⟨m, hm, h m hm⟩
    · exact Or.inl (not_exists.mp hq)

/-- Once the formula holds, it goes on holding. -/
def Persists (t : Trace) (f : Formula) : Prop :=
  ∀ i j, i ≤ j → f.Holds t i → f.Holds t j

/-- Once the formula holds, it has held from the start. -/
def Foreshadows (t : Trace) (f : Formula) : Prop :=
  ∀ i j, i ≤ j → f.Holds t j → f.Holds t i

section Openings

variable {t : Trace} {q : Event} {f : Formula}

theorem persists_always : Persists t (always f) := by
  intro i j hij h
  rw [holds_always] at h ⊢
  intro k hjk
  exact h k (Nat.le_trans hij hjk)

theorem foreshadows_eventually : Foreshadows t (eventually f) := by
  intro i j hij h
  rw [holds_eventually] at h ⊢
  obtain ⟨k, hjk, hk⟩ := h
  exact ⟨k, Nat.le_trans hij hjk, hk⟩

theorem Persists.eventually (hf : Persists t f) : Persists t (eventually f) := by
  intro i j hij h
  rw [holds_eventually] at h ⊢
  obtain ⟨k, -, hk⟩ := h
  -- The position found may lie before `j`, but then the formula still holds at `j`.
  exact ⟨max j k, Nat.le_max_left j k, hf k (max j k) (Nat.le_max_right j k) hk⟩

theorem Persists.holds_always_event (hf : Persists t f) :
    (always (implies (event q) f)).Holds t 0 ↔ HoldsAtFirst t q f := by
  -- What persists holds at every `q` if it holds at the first one.
  rw [holds_always, holdsAtFirst_iff]
  constructor
  · intro h m hm
    exact h m (Nat.zero_le m) hm.holds
  · intro h i _ hi
    obtain ⟨m, hle, hm⟩ := exists_firstFrom (Nat.zero_le i) hi
    exact hf m i hle (h m hm)

/-- The cell speaks of the first `q`, but accepts any `q` at which its body holds. -/
theorem holds_atFirst :
    (atFirst q f).Holds t 0 ↔ (∀ i, ¬t i q.name) ∨ ∃ i, t i q.name ∧ f.Holds t i := by
  simp [atFirst, holds_always, holds_eventually]

theorem Foreshadows.holds_atFirst (hf : Foreshadows t f) :
    (atFirst q f).Holds t 0 ↔ HoldsAtFirst t q f := by
  rw [PropertyPatterns.holds_atFirst]
  apply or_congr Iff.rfl
  constructor
  · rintro ⟨i, hi, h⟩
    obtain ⟨m, hle, hm⟩ := exists_firstFrom (Nat.zero_le i) hi
    exact ⟨m, hm, hf m i hle h⟩
  · rintro ⟨m, hm, h⟩
    exact ⟨m, hm.holds, h⟩

theorem holds_until_first :
    (implies (eventually (event q)) (strongUntil (absent q) (and (event q) f))).Holds t 0 ↔
      HoldsAtFirst t q f := by
  rw [holds_implies, holds_eventually, holds_strongUntil, holdsAtFirst_iff]
  constructor
  · intro h m hm
    obtain ⟨n, hle, ⟨hn, hf⟩, hbefore⟩ := h ⟨m, hm.le, hm.holds⟩
    have hfirst : FirstFrom t q 0 n := ⟨hle, hn, hbefore⟩
    rwa [hm.unique hfirst]
  · rintro h ⟨i, hle, hi⟩
    obtain ⟨m, -, hm⟩ := exists_firstFrom hle hi
    exact ⟨m, hm.le, ⟨hm.holds, h m hm⟩, hm.before⟩

end Openings

end PropertyPatterns
