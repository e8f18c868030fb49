import Mathlib.Data.Set.Card
import PropertyPatterns.Proofs.ClosingWaits

/-!
Counting the stretches of positions at which an event holds. Bounded existence is a nest of waits;
the main statement says that in each scope it allows as many stretches in every window as its
frequency says. A window ends at a position of the trace or never, so its end is an extended number.
-/

namespace PropertyPatterns

open Formula

/-- The positions of the window from `i` up to `n` at which a stretch of `p` begins. -/
def stretchStarts (t : Trace) (p : Event) (i : Nat) (n : ℕ∞) : Set Nat :=
  {j | i ≤ j ∧ j < n ∧ t j p.name ∧ (j = i ∨ ¬t (j - 1) p.name)}

/-- The window from `i` up to `n` has at most `k` stretches of `p`. -/
def AtMostStretches (t : Trace) (p : Event) (k i : Nat) (n : ℕ∞) : Prop :=
  (stretchStarts t p i n).encard ≤ k

section Counting

variable {t : Trace} {p : Event} {k i j : Nat} {n : ℕ∞}

theorem FirstFrom.mem_stretchStarts (h : FirstFrom t p i j) (hjn : j < n) :
    j ∈ stretchStarts t p i n := by
  refine ⟨h.le, hjn, h.holds, ?_⟩
  rcases Nat.eq_or_lt_of_le h.le with rfl | hij
  · exact Or.inl rfl
  · exact Or.inr (h.before (j - 1) (by omega) (by omega))

theorem stretchStarts_of_absent (hij : i ≤ j) (habsent : ∀ l, i ≤ l → l < j → ¬t l p.name) :
    stretchStarts t p i n = stretchStarts t p j n := by
  ext l
  constructor
  · rintro ⟨hil, hln, hl, hstart⟩
    have hjl : j ≤ l := by
      apply Nat.le_of_not_lt
      intro hlj
      exact habsent l hil hlj hl
    refine ⟨hjl, hln, hl, ?_⟩
    rcases Nat.eq_or_lt_of_le hjl with rfl | hlt
    · exact Or.inl rfl
    · exact Or.inr (hstart.resolve_left (by omega))
  · rintro ⟨hjl, hln, hl, hstart⟩
    refine ⟨Nat.le_trans hij hjl, hln, hl, ?_⟩
    rcases hstart with rfl | hstart
    · rcases Nat.eq_or_lt_of_le hij with rfl | hlt
      · exact Or.inl rfl
      · exact Or.inr (habsent (l - 1) (by omega) (by omega))
    · exact Or.inr hstart

theorem stretchStarts_subset_insert (hrun : ∀ l, i ≤ l → l < j → t l p.name) :
    stretchStarts t p i n ⊆ insert i (stretchStarts t p j n) := by
  -- A stretch that begins with the window adds one start at most to those behind it.
  rintro l ⟨hil, hln, hl, hstart⟩
  rcases Nat.eq_or_lt_of_le hil with rfl | hlt
  · exact Set.mem_insert i _
  · have hbefore : ¬t (l - 1) p.name := hstart.resolve_left (by omega)
    refine Set.mem_insert_of_mem i ⟨?_, hln, hl, Or.inr hbefore⟩
    apply Nat.le_of_not_lt
    intro hlj
    exact hbefore (hrun (l - 1) (by omega) (by omega))

theorem stretchStarts_eq_insert (hij : i < j) (hin : i < n)
    (hrun : ∀ l, i ≤ l → l < j → t l p.name) (hj : ¬t j p.name) :
    stretchStarts t p i n = insert i (stretchStarts t p j n) := by
  apply Set.Subset.antisymm (stretchStarts_subset_insert hrun)
  rintro l (rfl | ⟨hjl, hln, hl, hstart⟩)
  · exact ⟨Nat.le_refl l, hin, hrun l (Nat.le_refl l) hij, Or.inl rfl⟩
  · refine ⟨by omega, hln, hl, Or.inr ?_⟩
    rcases hstart with rfl | hstart
    · exact absurd hl hj
    · exact hstart

theorem stretchStarts_subset_singleton (hrun : ∀ l : Nat, i ≤ l → l < n → t l p.name) :
    stretchStarts t p i n ⊆ {i} := by
  rintro l ⟨hil, hln, hl, hstart⟩
  rcases hstart with rfl | hstart
  · rfl
  · rcases Nat.eq_or_lt_of_le hil with rfl | hlt
    · rfl
    · have hbefore : ((l - 1 : Nat) : ℕ∞) < n := lt_trans (Nat.cast_lt.mpr (by omega)) hln
      exact absurd (hrun (l - 1) (by omega) hbefore) hstart

theorem atMostStretches_zero :
    AtMostStretches t p 0 i n ↔ ∀ j : Nat, i ≤ j → j < n → ¬t j p.name := by
  rw [AtMostStretches, Nat.cast_zero, nonpos_iff_eq_zero, Set.encard_eq_zero]
  constructor
  · intro h j hij hjn hj
    obtain ⟨m, hmj, hm⟩ := exists_firstFrom hij hj
    have hmem : m ∈ stretchStarts t p i n :=
      hm.mem_stretchStarts (lt_of_le_of_lt (Nat.cast_le.mpr hmj) hjn)
    rw [h] at hmem
    exact hmem
  · intro h
    ext j
    constructor
    · rintro ⟨hij, hjn, hj, -⟩
      exact h j hij hjn hj
    · intro hj
      exact absurd hj (Set.notMem_empty j)

theorem AtMostStretches.mono {k' : Nat} (h : AtMostStretches t p k i n) (hk : k ≤ k') :
    AtMostStretches t p k' i n :=
  le_trans h (Nat.cast_le.mpr hk)

theorem atMostStretches_iff_of_absent (hij : i ≤ j)
    (habsent : ∀ l, i ≤ l → l < j → ¬t l p.name) :
    AtMostStretches t p k i n ↔ AtMostStretches t p k j n := by
  rw [AtMostStretches, AtMostStretches, stretchStarts_of_absent hij habsent]

theorem atMostStretches_succ_iff_of_run (hij : i < j) (hin : i < n)
    (hrun : ∀ l, i ≤ l → l < j → t l p.name) (hj : ¬t j p.name) :
    AtMostStretches t p (k + 1) i n ↔ AtMostStretches t p k j n := by
  have hnotMem : i ∉ stretchStarts t p j n := fun h => absurd h.1 (Nat.not_le.mpr hij)
  rw [AtMostStretches, AtMostStretches, stretchStarts_eq_insert hij hin hrun hj,
    Set.encard_insert_of_notMem hnotMem, Nat.cast_succ]
  exact ENat.add_le_add_iff_right ENat.one_ne_top

theorem AtMostStretches.of_run (h : AtMostStretches t p k j n)
    (hrun : ∀ l, i ≤ l → l < j → t l p.name) : AtMostStretches t p (k + 1) i n :=
  calc (stretchStarts t p i n).encard
      ≤ (insert i (stretchStarts t p j n)).encard :=
        Set.encard_le_encard (stretchStarts_subset_insert hrun)
    _ ≤ (stretchStarts t p j n).encard + 1 := Set.encard_insert_le _ _
    _ ≤ k + 1 := add_le_add_left h 1
    _ = (k + 1 : Nat) := (Nat.cast_succ k).symm

theorem atMostStretches_of_throughout (hrun : ∀ l : Nat, i ≤ l → l < n → t l p.name) :
    AtMostStretches t p (k + 1) i n :=
  calc (stretchStarts t p i n).encard
      ≤ ({i} : Set Nat).encard := Set.encard_le_encard (stretchStarts_subset_singleton hrun)
    _ = 1 := Set.encard_singleton i
    _ ≤ k + 1 := le_add_self
    _ = (k + 1 : Nat) := (Nat.cast_succ k).symm

theorem awaits_of_stretch (hi : t i p.name) (hin : i < n)
    (h : AtMostStretches t p (k + 1) i n) :
    Awaits (fun j => t j p.name) (fun j => AtMostStretches t p k j n) i n := by
  by_cases hend : ∃ j : Nat, i ≤ j ∧ j < n ∧ ¬t j p.name
  · obtain ⟨j, hij, hjn, hj⟩ := hend
    obtain ⟨m, him, hmj, hm, hbefore⟩ := exists_first (P := fun j => ¬t j p.name) hij hj
    have hrun (l : Nat) (hil : i ≤ l) (hlm : l < m) : t l p.name :=
      Classical.not_not.mp (hbefore l hil hlm)
    have hlt : i < m := by
      apply lt_of_le_of_ne him
      rintro rfl
      exact hm hi
    refine Or.inl ⟨m, him, lt_of_le_of_lt (Nat.cast_le.mpr hmj) hjn, ?_, hrun⟩
    exact (atMostStretches_succ_iff_of_run hlt hin hrun hm).mp h
  · refine Or.inr ?_
    intro j hij hjn
    by_contra hj
    exact hend ⟨j, hij, hjn, hj⟩

theorem atMostStretches_of_awaits
    (h : Awaits (fun j => t j p.name) (fun j => AtMostStretches t p k j n) i n) :
    AtMostStretches t p (k + 1) i n := by
  rcases h with ⟨j, -, -, hj, hrun⟩ | hrun
  · exact hj.of_run hrun
  · exact atMostStretches_of_throughout hrun

/-- One stretch more is allowed if the event stays away until one stretch, and then at most as many
as before, are left. -/
theorem atMostStretches_succ :
    AtMostStretches t p (k + 1) i n ↔
      Awaits (fun j => ¬t j p.name)
        (Awaits (fun l => t l p.name) (fun l => AtMostStretches t p k l n) · n) i n := by
  constructor
  · intro h
    by_cases hp : ∃ j : Nat, i ≤ j ∧ j < n ∧ t j p.name
    · obtain ⟨j, hij, hjn, hj⟩ := hp
      obtain ⟨m, hmj, hm⟩ := exists_firstFrom hij hj
      have hmn : m < n := lt_of_le_of_lt (Nat.cast_le.mpr hmj) hjn
      refine Or.inl ⟨m, hm.le, hmn, awaits_of_stretch hm.holds hmn ?_, hm.before⟩
      exact (atMostStretches_iff_of_absent hm.le hm.before).mp h
    · refine Or.inr ?_
      intro j hij hjn hj
      exact hp ⟨j, hij, hjn, hj⟩
  · -- If the event never holds, no stretch is left, so the count need not be lowered.
    rintro (⟨j, hij, -, hj, habsent⟩ | habsent)
    · exact (atMostStretches_iff_of_absent hij habsent).mpr (atMostStretches_of_awaits hj)
    · exact (atMostStretches_zero.mpr habsent).mono (Nat.zero_le (k + 1))

end Counting

namespace Occurrence

variable {t : Trace} {p q r : Event} {k i : Nat} {n : ℕ∞}

theorem holds_boundedStretches_iff :
    (boundedStretches p k).Holds t i ↔ AtMostStretches t p k i ⊤ := by
  induction k generalizing i with
  | zero =>
    rw [boundedStretches, holds_always, atMostStretches_zero]
    simp [ENat.natCast_lt_top]
  | succ k ih =>
    rw [boundedStretches, holds_weakUntil_iff_awaits, atMostStretches_succ]
    apply awaits_congr
    · intro j _ _
      exact holds_absent
    · intro j _ _
      rw [holds_weakUntil_iff_awaits]
      exact awaits_congr (fun _ _ _ => Iff.rfl) fun _ _ _ => ih

theorem holds_boundedStretchesBefore_iff_atMost {s : Strength} (h : Closes t r i n)
    (hs : s = .weak ∨ n ≠ ⊤) :
    (boundedStretchesBefore s p r k).Holds t i ↔ AtMostStretches t p k i n := by
  -- The start moves past a stretch in each step; the end stays the first `r` from there.
  induction k generalizing i with
  | zero => rw [boundedStretchesBefore, h.holds_wait_closing_iff hs, atMostStretches_zero]; rfl
  | succ k ih =>
    rw [boundedStretchesBefore, h.holds_wait_or_iff hs, atMostStretches_succ]
    apply awaits_congr
    · intro j hij hjn
      exact and_iff_left (h.not_holds hij hjn)
    · intro j hij hjn
      have hj := h.later hij hjn
      rw [hj.holds_wait_or_iff hs]
      apply awaits_congr
      · intro l hjl hln
        exact and_iff_left (hj.not_holds hjl hln)
      · intro l hjl hln
        exact ih (hj.later hjl hln)

theorem holds_boundedExistence_globally_iff :
    (boundedExistence .globally p k none).Holds t i ↔ AtMostStretches t p k i ⊤ := by
  rw [boundedExistence, setBound_boundedStretches, holds_boundedStretches_iff]

theorem holds_boundedExistence_before_iff :
    (boundedExistence (.before r) p k none).Holds t i ↔
      ∀ n : Nat, FirstFrom t r i n → AtMostStretches t p k i n := by
  rw [boundedExistence, setBound_boundedStretchesBefore, holds_implies, holds_eventually]
  constructor
  · intro h n hn
    have hclosing := h ⟨n, hn.le, hn.holds⟩
    exact (holds_boundedStretchesBefore_iff_atMost (.closing hn) (by simp)).mp hclosing
  · rintro h ⟨j, hij, hj⟩
    obtain ⟨n, -, hn⟩ := exists_firstFrom hij hj
    exact (holds_boundedStretchesBefore_iff_atMost (.closing hn) (by simp)).mpr (h n hn)

theorem holds_boundedExistence_after_iff :
    (boundedExistence (.after q) p k none).Holds t 0 ↔
      ∀ i, FirstFrom t q 0 i → AtMostStretches t p k i ⊤ := by
  rw [holds_boundedExistence_after, holdsAtFirst_iff]
  simp only [holds_boundedExistence_globally_iff]

theorem holds_boundedExistence_between_iff :
    (boundedExistence (.between q r) p k none).Holds t 0 ↔
      ∀ i, t i q.name → ∀ n : Nat, FirstFrom t r i n → AtMostStretches t p k i n := by
  rw [boundedExistence, holds_always]
  constructor
  · intro h i hq
    apply holds_boundedExistence_before_iff.mp
    intro hclosing
    exact h i (Nat.zero_le i) ⟨hq, hclosing⟩
  · rintro h i - ⟨hq, hclosing⟩
    exact holds_boundedExistence_before_iff.mpr (h i hq) hclosing

theorem holds_boundedExistence_afterUntil_iff :
    (boundedExistence (.afterUntil q r) p k none).Holds t 0 ↔
      ∀ i, t i q.name → ∀ n, Closes t r i n → AtMostStretches t p k i n := by
  rw [boundedExistence, setBound_boundedStretchesBefore, holds_always]
  constructor
  · intro h i hq n hn
    exact (holds_boundedStretchesBefore_iff_atMost hn (Or.inl rfl)).mp (h i (Nat.zero_le i) hq)
  · intro h i _ hq
    obtain ⟨n, hn⟩ := exists_closes t r i
    exact (holds_boundedStretchesBefore_iff_atMost hn (Or.inl rfl)).mpr (h i hq n hn)

end Occurrence

namespace Pattern

/-- Bounded existence holds in a scope if and only if no window of the scope has more stretches of
the event than the frequency says. -/
theorem holds_boundedExistence_iff (k : Frequency) (o : Occurrence) (scope : Scope) (t : Trace) :
    ((boundedExistence k o).formula scope .untimed).Holds t 0 ↔
      ∀ i n, scope.Window t i n → AtMostStretches t o.p k.times.toNat i n := by
  cases scope with
  | globally =>
    apply Occurrence.holds_boundedExistence_globally_iff.trans
    constructor
    · intro h i n hwindow
      cases hwindow with
      | globally => exact h
    · intro h
      exact h 0 ⊤ .globally
  | before r =>
    apply Occurrence.holds_boundedExistence_before_iff.trans
    constructor
    · intro h i n hwindow
      cases hwindow with
      | before hr => exact h _ hr
    · intro h n hr
      exact h 0 n (.before hr)
  | after q =>
    apply Occurrence.holds_boundedExistence_after_iff.trans
    constructor
    · intro h i n hwindow
      cases hwindow with
      | after hq => exact h i hq
    · intro h i hq
      exact h i ⊤ (.after hq)
  | between q r =>
    apply Occurrence.holds_boundedExistence_between_iff.trans
    constructor
    · intro h i n hwindow
      cases hwindow with
      | between hq hr => exact h i hq _ hr
    · intro h i hq n hr
      exact h i n (.between hq hr)
  | afterUntil q r =>
    apply Occurrence.holds_boundedExistence_afterUntil_iff.trans
    constructor
    · intro h i n hwindow
      cases hwindow with
      | afterUntil hq hr => exact h i hq n hr
    · intro h i hq n hr
      exact h i n (.afterUntil hq hr)

end Pattern

end PropertyPatterns
