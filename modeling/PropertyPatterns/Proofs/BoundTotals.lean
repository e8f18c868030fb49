import Mathlib.Data.ENat.Basic
import PropertyPatterns.Proofs.LostBounds

namespace PropertyPatterns

def Limit.Admits : Limit → Nat → Prop
  | finite u, d => d ≤ u.toNat
  | unbounded, _ => True

/-- The limit as a number. -/
def Limit.value : Limit → ℕ∞
  | finite u => u.toNat
  | unbounded => ⊤

/-- A number that outgrows the word counts as infinite. -/
def capped (n : ℕ∞) : ℕ∞ :=
  if n < UInt64.size then n else ⊤

section Limits

variable {u : Limit} {d : Nat} {a b n : ℕ∞}

theorem Limit.admits_iff : u.Admits d ↔ (d : ℕ∞) ≤ u.value := by
  cases u with
  | finite u => exact Nat.cast_le.symm
  | unbounded => exact iff_of_true trivial le_top

theorem Limit.value_add (u v : Limit) : (u.add v).value = capped (u.value + v.value) := by
  cases u with
  | unbounded => simp [value, capped]
  | finite m =>
    cases v with
    | unbounded => simp [value, capped]
    | finite n =>
      have hfits : (m.toNat + n.toNat : ℕ∞) < UInt64.size ↔ m.toNat + n.toNat < UInt64.size := by
        rw [← Nat.cast_add, Nat.cast_lt]
      simp only [add, value, capped, hfits]
      by_cases h : m.toNat + n.toNat < UInt64.size
      · have hsum : (m + n).toNat = m.toNat + n.toNat := by
          rw [UInt64.toNat_add]
          exact Nat.mod_eq_of_lt h
        simp only [if_pos h, hsum, Nat.cast_add]
      · simp only [if_neg h]

theorem le_capped : n ≤ capped n := by
  unfold capped
  split
  · exact le_refl n
  · exact le_top

theorem capped_add_capped : capped (a + capped b) = capped (a + b) := by
  -- It makes no difference whether a part of a sum has outgrown the word already.
  unfold capped
  by_cases hb : b < UInt64.size
  · rw [if_pos hb]
  · have hab : ¬a + b < UInt64.size := fun h => hb (lt_of_le_of_lt le_add_self h)
    rw [if_neg hb, if_neg hab, add_top, if_neg not_top_lt]

theorem capped_of_fits (h : n = ⊤ ∨ n < UInt64.size) : capped n = n := by
  unfold capped
  rcases h with rfl | h
  · rw [if_neg not_top_lt]
  · rw [if_pos h]

end Limits

@[simp] theorem Interval.lower_between (l : UInt64) (u : Limit) : (between l u).lower = l := by
  cases u <;> rfl

@[simp] theorem Interval.upper_between (l : UInt64) (u : Limit) : (between l u).upper = u := by
  cases u <;> rfl

theorem Interval.contains_between {l : UInt64} {u : Limit} {d : Nat} :
    (between l u).Contains d ↔ l.toNat ≤ d ∧ u.Admits d := by
  cases u <;> rfl

namespace TimeBound

def Allows (b : TimeBound) (d : Nat) : Prop :=
  b.lower.toNat ≤ d ∧ b.upper.Admits d

/-- The bound of an outer event that has none. -/
def anyDelay : TimeBound :=
  ⟨.lower 0, defaultUnit⟩

/-- The report of a reversed bound. -/
def reversal? (b : TimeBound) : Option ShapeError :=
  match b.limits with
  | .interval l (.finite u) => if u < l then some (.reversed .asWritten l u) else none
  | _ => none

variable {b : TimeBound} {e : ShapeError}

theorem written_eq_between (h : b.isReversed = false) :
    b.written = .ok (.between b.lower b.upper) := by
  obtain ⟨limits, unit⟩ := b
  rcases limits with u | l | ⟨l, u | _⟩
  · rfl
  · rfl
  · have hlt : ¬u < l := by simpa [isReversed] using h
    simp [written, hlt, lower, upper, Interval.between]
  · rfl

theorem allows_lower (h : b.isReversed = false) : b.Allows b.lower.toNat := by
  refine ⟨Nat.le_refl b.lower.toNat, ?_⟩
  obtain ⟨limits, unit⟩ := b
  rcases limits with (u | _) | l | ⟨l, u | _⟩
  · exact Nat.zero_le u.toNat
  · trivial
  · trivial
  · have hlt : ¬u < l := by simpa [isReversed] using h
    exact Nat.le_of_not_lt hlt
  · trivial

theorem reversal?_eq_none_iff : b.reversal? = none ↔ b.isReversed = false := by
  obtain ⟨limits, unit⟩ := b
  rcases limits with u | l | ⟨l, u | _⟩
  · simp [reversal?, isReversed]
  · simp [reversal?, isReversed]
  · by_cases h : u < l <;> simp [reversal?, isReversed, h]
  · simp [reversal?, isReversed]

theorem written_of_reversal? (h : b.reversal? = some e) : b.written = .error e := by
  obtain ⟨limits, unit⟩ := b
  rcases limits with u | l | ⟨l, u | _⟩
  · cases h
  · cases h
  · by_cases hlt : u < l
    · simp only [reversal?, hlt, if_true, Option.some.injEq] at h
      simp [written, hlt, h]
    · simp [reversal?, hlt] at h
  · cases h

theorem lower_le_upper (h : b.isReversed = false) : (b.lower.toNat : ℕ∞) ≤ b.upper.value :=
  Limit.admits_iff.mp (allows_lower h).2

end TimeBound

def lowerTotal (bs : List TimeBound) : Nat :=
  (bs.map (·.lower.toNat)).sum

def upperTotal (bs : List TimeBound) : ℕ∞ :=
  (bs.map (·.upper.value)).sum

/-- Where a window over the bounds begins. -/
def windowStart (bs : List TimeBound) : Nat :=
  min (lowerTotal bs) (UInt64.size - 1)

section Totals

variable {b : TimeBound} {bs : List TimeBound} {ds : List Nat} {n : Nat}

@[simp] theorem lowerTotal_cons (b : TimeBound) (bs : List TimeBound) :
    lowerTotal (b :: bs) = b.lower.toNat + lowerTotal bs := rfl

theorem lowerTotal_append (bs cs : List TimeBound) :
    lowerTotal (bs ++ cs) = lowerTotal bs + lowerTotal cs := by
  rw [lowerTotal, List.map_append, List.sum_append]
  rfl

@[simp] theorem upperTotal_cons (b : TimeBound) (bs : List TimeBound) :
    upperTotal (b :: bs) = b.upper.value + upperTotal bs :=
  List.sum_cons

theorem upper_le_upperTotal (h : b ∈ bs) : b.upper.value ≤ upperTotal bs := by
  induction h with
  | head =>
    rw [upperTotal_cons]
    exact le_self_add
  | tail _ _ ih =>
    rw [upperTotal_cons]
    exact le_add_left ih

theorem upperTotal_of_unbounded (h : ∃ b ∈ bs, b.upper = .unbounded) : upperTotal bs = ⊤ := by
  obtain ⟨b, hb, hupper⟩ := h
  have hle := upper_le_upperTotal hb
  rw [hupper] at hle
  exact top_le_iff.mp hle

theorem upperTotal_concat (bs : List TimeBound) (b : TimeBound) :
    upperTotal (bs ++ [b]) = b.upper.value + upperTotal bs := by
  rw [upperTotal, List.map_append, List.sum_append, add_comm]
  simp [upperTotal]

theorem lowerTotal_concat (bs : List TimeBound) (b : TimeBound) :
    lowerTotal (bs ++ [b]) = lowerTotal bs + b.lower.toNat := by
  rw [lowerTotal_append]
  rfl

theorem lowerTotal_le_upperTotal (h : ∀ b ∈ bs, b.isReversed = false) :
    (lowerTotal bs : ℕ∞) ≤ upperTotal bs := by
  induction bs with
  | nil => exact le_refl 0
  | cons b bs ih =>
    obtain ⟨hb, hbs⟩ := List.forall_mem_cons.mp h
    rw [lowerTotal_cons, upperTotal_cons, Nat.cast_add]
    exact add_le_add (TimeBound.lower_le_upper hb) (ih hbs)

/-- Delays that are allowed one by one add up to a number between the sums of the limits. -/
theorem total_le_of_allows (h : List.Forall₂ TimeBound.Allows bs ds) :
    lowerTotal bs ≤ ds.sum ∧ (ds.sum : ℕ∞) ≤ upperTotal bs := by
  induction h with
  | nil => exact ⟨le_refl 0, le_refl 0⟩
  | cons hd _ ih =>
    rw [lowerTotal_cons, upperTotal_cons, List.sum_cons, Nat.cast_add]
    exact ⟨Nat.add_le_add hd.1 ih.1, add_le_add (Limit.admits_iff.mp hd.2) ih.2⟩

/-- One delay can be split off a number between the sums of the limits. -/
theorem exists_delay (hb : b.isReversed = false) (hbs : ∀ m ∈ bs, m.isReversed = false)
    (hlower : lowerTotal (b :: bs) ≤ n) (hupper : (n : ℕ∞) ≤ upperTotal (b :: bs)) :
    ∃ d m, b.Allows d ∧ d + m = n ∧ lowerTotal bs ≤ m ∧ (m : ℕ∞) ≤ upperTotal bs := by
  rw [lowerTotal_cons] at hlower
  rw [upperTotal_cons] at hupper
  have hle := lowerTotal_le_upperTotal hbs
  have hallows := TimeBound.allows_lower hb
  cases hrest : upperTotal bs with
  | top => exact ⟨b.lower.toNat, n - b.lower.toNat, hallows, by omega, by omega, le_top⟩
  | coe rest =>
    rw [hrest] at hupper hle
    have hle : lowerTotal bs ≤ rest := Nat.cast_le.mp hle
    -- As soon as possible, unless the others cannot make up for the rest of the number.
    refine ⟨max b.lower.toNat (n - rest), n - max b.lower.toNat (n - rest), ⟨by omega, ?_⟩,
      by omega, by omega, Nat.cast_le.mpr (by omega)⟩
    rcases Nat.le_total b.lower.toNat (n - rest) with h | h
    · rw [Nat.max_eq_right h]
      cases hlimit : b.upper with
      | unbounded => trivial
      | finite u =>
        rw [hlimit, Limit.value, ← Nat.cast_add, Nat.cast_le] at hupper
        exact Nat.sub_le_of_le_add hupper
    · rw [Nat.max_eq_left h]
      exact hallows.2

theorem exists_delays (h : ∀ b ∈ bs, b.isReversed = false) (hlower : lowerTotal bs ≤ n)
    (hupper : (n : ℕ∞) ≤ upperTotal bs) :
    ∃ ds, List.Forall₂ TimeBound.Allows bs ds ∧ ds.sum = n := by
  induction bs generalizing n with
  | nil =>
    have hn : n ≤ 0 := Nat.cast_le.mp hupper
    exact ⟨[], .nil, (Nat.le_zero.mp hn).symm⟩
  | cons b bs ih =>
    obtain ⟨hb, hbs⟩ := List.forall_mem_cons.mp h
    obtain ⟨d, m, hd, rfl, hlower, hupper⟩ := exists_delay hb hbs hlower hupper
    obtain ⟨ds, hds, rfl⟩ := ih hbs hlower hupper
    exact ⟨d :: ds, .cons hd hds, rfl⟩

end Totals

end PropertyPatterns
