import PropertyPatterns.Proofs.WellFormedIntervals

namespace PropertyPatterns

namespace Interval

variable {i : Interval} {d : Nat}

/-- An open upper end comes with the lower end zero, so only one well-formed interval is empty. -/
theorem WellFormed.exists_contains_iff (h : i.WellFormed) :
    (∃ d, i.Contains d) ↔ i ≠ halfOpen 0 (.finite 0) := by
  constructor
  · rintro ⟨d, -, hd⟩ rfl
    exact Nat.not_lt_zero d hd
  · intro hne
    obtain ⟨l, u, e⟩ := i
    refine ⟨l.toNat, Nat.le_refl _, ?_⟩
    cases u with
    | unbounded => trivial
    | finite u =>
      cases e with
      | true => exact UInt64.le_iff_toNat_le.mp (h.lower_le u rfl)
      | false =>
        obtain rfl : l = 0 := h.lower_eq_zero u rfl rfl
        have hu : u.toNat ≠ 0 := by
          intro hzero
          obtain rfl : u = 0 := UInt64.toNat.inj hzero
          exact hne rfl
        exact Nat.pos_of_ne_zero hu

end Interval

namespace TimeBound

variable {b : TimeBound} {s : Shape} {i : Interval} {n : Nat}

/-- The delays that a shape makes of a bound, by its limits as numbers. Where a shape needs a limit
that the bound does not give, it describes none. -/
def Describes (b : TimeBound) (s : Shape) (n : Nat) : Prop :=
  match s with
  | .asWritten => b.Allows n
  | .untilLower => b.namesLower = true ∧ n ≤ b.lower.toNat
  | .exactly => ∃ u, b.upper = .finite u ∧ b.lower.toNat + n = u.toNat
  | .lessThan => ∃ u, b.upper = .finite u ∧ b.lower.toNat + n < u.toNat
  | .atMost => ∃ u, b.upper = .finite u ∧ b.lower.toNat + n ≤ u.toNat
  | .atLeast => ∃ u, b.upper = .finite u ∧ u.toNat ≤ b.lower.toNat + n

theorem width_eq_ok {d : UInt64} (h : b.width s = .ok d) :
    ∃ u, b.upper = .finite u ∧ b.lower.toNat + d.toNat = u.toNat := by
  unfold width at h
  cases hupper : b.upper with
  | unbounded =>
    rw [hupper] at h
    cases h
  | finite u =>
    rw [hupper] at h
    simp only at h
    split at h
    · cases h
    · rename_i hlt
      obtain rfl := Except.ok.inj h
      have hle : b.lower.toNat ≤ u.toNat := Nat.le_of_not_lt hlt
      refine ⟨u, rfl, ?_⟩
      rw [UInt64.toNat_sub_of_le _ _ (UInt64.le_iff_toNat_le.mpr hle)]
      omega

theorem contains_iff_describes (h : b.interval s = .ok i) : i.Contains n ↔ b.Describes s n := by
  cases s with
  | asWritten =>
    cases hb : b.reversal? with
    | some e => cases (written_of_reversal? hb).symm.trans h
    | none =>
      have hwritten := written_eq_between (reversal?_eq_none_iff.mp hb)
      obtain rfl := Except.ok.inj (hwritten.symm.trans h)
      exact Interval.contains_between
  | untilLower =>
    simp only [interval] at h
    split at h
    · rename_i hnames
      obtain rfl := Except.ok.inj h
      simp [Interval.Contains, Interval.closed, Describes, hnames]
    · cases h
  | exactly =>
    obtain ⟨d, hd, rfl⟩ := exists_of_map h
    obtain ⟨u, hu, hsum⟩ := width_eq_ok hd
    simp only [Interval.Contains, Interval.closed, Describes, hu, Limit.finite.injEq,
      exists_eq_left', if_true]
    omega
  | lessThan =>
    obtain ⟨d, hd, rfl⟩ := exists_of_map h
    obtain ⟨u, hu, hsum⟩ := width_eq_ok hd
    simp only [Interval.Contains, Interval.halfOpen, Describes, hu, Limit.finite.injEq,
      exists_eq_left', Bool.false_eq_true, if_false, UInt64.toNat_zero, Nat.zero_le, true_and]
    omega
  | atMost =>
    obtain ⟨d, hd, rfl⟩ := exists_of_map h
    obtain ⟨u, hu, hsum⟩ := width_eq_ok hd
    simp only [Interval.Contains, Interval.closed, Describes, hu, Limit.finite.injEq,
      exists_eq_left', if_true, UInt64.toNat_zero, Nat.zero_le, true_and]
    omega
  | atLeast =>
    obtain ⟨d, hd, rfl⟩ := exists_of_map h
    obtain ⟨u, hu, hsum⟩ := width_eq_ok hd
    simp only [Interval.Contains, Interval.atLeast, Interval.halfOpen, Describes, hu,
      Limit.finite.injEq, exists_eq_left', and_true]
    omega

theorem isReversed_iff : b.isReversed = true ↔ ∃ u, b.upper = .finite u ∧ u < b.lower := by
  obtain ⟨limits, unit⟩ := b
  rcases limits with u | l | ⟨l, u | _⟩
  · have hzero (v : UInt64) : ¬v < 0 := Nat.not_lt_zero v.toNat
    simp [isReversed, lower, hzero]
  · simp [isReversed, upper]
  · simp [isReversed, upper, lower]
  · simp [isReversed, upper]

theorem exists_upper (h : (b.upper.isUnbounded || b.isReversed) = false) :
    ∃ u, b.upper = .finite u ∧ b.lower.toNat ≤ u.toNat := by
  obtain ⟨hbounded, hreversed⟩ := Bool.or_eq_false_iff.mp h
  cases hupper : b.upper with
  | unbounded =>
    rw [hupper] at hbounded
    cases hbounded
  | finite u =>
    refine ⟨u, rfl, Nat.le_of_not_lt fun hlt => ?_⟩
    exact Bool.false_ne_true (hreversed.symm.trans (isReversed_iff.mpr ⟨u, hupper, hlt⟩))

theorem exists_describes (h : b.misfits s = false)
    (hne : s = .lessThan → b.upper ≠ .finite b.lower) : ∃ n, b.Describes s n := by
  cases s with
  | asWritten => exact ⟨_, allows_lower h⟩
  | untilLower => exact ⟨0, by simpa [misfits] using h, Nat.zero_le _⟩
  | exactly =>
    obtain ⟨u, hupper, hle⟩ := exists_upper h
    exact ⟨u.toNat - b.lower.toNat, u, hupper, by omega⟩
  | lessThan =>
    obtain ⟨u, hupper, hle⟩ := exists_upper h
    have hlt : b.lower.toNat ≠ u.toNat := by
      intro heq
      obtain rfl := UInt64.toNat.inj heq
      exact hne rfl hupper
    exact ⟨0, u, hupper, by omega⟩
  | atMost =>
    obtain ⟨u, hupper, hle⟩ := exists_upper h
    exact ⟨0, u, hupper, hle⟩
  | atLeast =>
    obtain ⟨u, hupper, hle⟩ := exists_upper h
    exact ⟨u.toNat, u, hupper, Nat.le_add_left _ _⟩

theorem misfits_eq_false (h : b.interval s = .ok i) : b.misfits s = false := by
  have hok := b.isOk_interval s
  rw [h] at hok
  simpa [Except.isOk, Except.toBool] using hok

theorem interval_eq_empty_iff :
    b.interval s = .ok (.halfOpen 0 (.finite 0)) ↔
      s = .lessThan ∧ b.upper = .finite b.lower := by
  constructor
  · intro h
    by_contra hne
    rw [not_and] at hne
    obtain ⟨n, hn⟩ := exists_describes (misfits_eq_false h) hne
    exact Nat.not_lt_zero n ((contains_iff_describes h).mpr hn).2
  · rintro ⟨rfl, hupper⟩
    simp [interval, width, hupper, Except.map]

end TimeBound

end PropertyPatterns
