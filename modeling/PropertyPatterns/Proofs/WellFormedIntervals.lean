import PropertyPatterns.Proofs.BoundPlacement
import PropertyPatterns.Proofs.RenderedMessages
import PropertyPatterns.Proofs.WindowSums

namespace PropertyPatterns

namespace Interval

/-- An infinite upper end is open, a finite one is not below the lower end, and an open finite one
comes with the lower end zero. -/
structure WellFormed (i : Interval) : Prop where
  open_of_unbounded : i.upper = .unbounded → i.includesUpper = false
  lower_le : ∀ u, i.upper = .finite u → i.lower ≤ u
  lower_eq_zero : ∀ u, i.upper = .finite u → i.includesUpper = false → i.lower = 0

theorem wellFormed_closed {l u : UInt64} (h : l ≤ u) : (closed l u).WellFormed where
  open_of_unbounded h := by cases h
  lower_le := by
    rintro _ ⟨⟩
    exact h
  lower_eq_zero _ _ h := by cases h

theorem wellFormed_atLeast (l : UInt64) : (atLeast l).WellFormed :=
  ⟨fun _ => rfl, nofun, nofun⟩

theorem wellFormed_fromZero (u : UInt64) : (halfOpen 0 (.finite u)).WellFormed where
  open_of_unbounded h := by cases h
  lower_le u _ := UInt64.le_iff_toNat_le.mpr (Nat.zero_le u.toNat)
  lower_eq_zero _ _ _ := rfl

theorem wellFormed_between {l : UInt64} {u : Limit} (h : (l.toNat : ℕ∞) ≤ u.value) :
    (between l u).WellFormed := by
  cases u with
  | finite u => exact wellFormed_closed (UInt64.le_iff_toNat_le.mpr (Nat.cast_le.mp h))
  | unbounded => exact wellFormed_atLeast l

end Interval

namespace TimeBound

variable {b : TimeBound} {i : Interval}

theorem wellFormed_of_written (h : b.written = .ok i) : i.WellFormed := by
  cases hb : b.reversal? with
  | some e => cases (written_of_reversal? hb).symm.trans h
  | none =>
    rw [reversal?_eq_none_iff] at hb
    obtain rfl := Except.ok.inj ((written_eq_between hb).symm.trans h)
    exact Interval.wellFormed_between (lower_le_upper hb)

theorem wellFormed_of_interval {s : Shape} (h : b.interval s = .ok i) : i.WellFormed := by
  cases s with
  | asWritten => exact wellFormed_of_written h
  | untilLower =>
    simp only [interval] at h
    split at h
    · cases h
      exact Interval.wellFormed_closed (UInt64.le_iff_toNat_le.mpr (Nat.zero_le _))
    · cases h
  | exactly =>
    obtain ⟨d, -, rfl⟩ := exists_of_map h
    exact Interval.wellFormed_closed (UInt64.le_refl d)
  | lessThan =>
    obtain ⟨d, -, rfl⟩ := exists_of_map h
    exact Interval.wellFormed_fromZero d
  | atMost =>
    obtain ⟨d, -, rfl⟩ := exists_of_map h
    exact Interval.wellFormed_closed (UInt64.le_iff_toNat_le.mpr (Nat.zero_le d.toNat))
  | atLeast =>
    obtain ⟨d, -, rfl⟩ := exists_of_map h
    exact Interval.wellFormed_atLeast d

end TimeBound

theorem Chain.wellFormed_of_window? {outer : Option TimeBound} {ls : List Link} {i : Interval}
    (h : window? outer ls = .ok (some i)) : i.WellFormed := by
  -- Every bound has been compared before the sums are taken, so the sums are in order as well.
  have htimed : ∀ l ∈ ls, l.timeBound ≠ none := by
    intro l hl hnone
    cases (window?_eq_ok_none_iff.mpr ⟨l, hl, hnone⟩).symm.trans h
  cases hbs : (windowBounds outer ls).findSome? TimeBound.reversal? with
  | some e => cases (window?_of_reversal? htimed hbs).symm.trans h
  | none =>
    obtain ⟨l, u, hwindow, hsums⟩ := exists_sums htimed hbs
    obtain rfl := Option.some.inj (Except.ok.inj (hwindow.symm.trans h))
    apply Interval.wellFormed_between
    have hle := lowerTotal_le_upperTotal fun b hb =>
      TimeBound.reversal?_eq_none_iff.mp (List.findSome?_eq_none_iff.mp hbs b hb)
    have hlower : l.toNat ≤ lowerTotal (windowBounds outer ls) := by
      have := hsums.lower
      rw [Interval.lower_between] at this
      omega
    have hupper := hsums.upper
    rw [Interval.upper_between] at hupper
    rw [hupper]
    exact le_trans (Nat.cast_le.mpr hlower) (le_trans hle le_capped)

theorem Bound.Derived.wellFormed {i : Interval} (h : (Bound.interval i).Derived) :
    i.WellFormed := by
  generalize hb : Bound.interval i = b at h
  cases h with
  | shape b s =>
    cases hi : b.interval s with
    | error e =>
      rw [hi] at hb
      cases hb
    | ok j =>
      rw [hi] at hb
      cases hb
      exact TimeBound.wellFormed_of_interval hi
  | window outer ls =>
    rcases hi : Chain.window? outer ls with e | _ | j
    · rw [hi] at hb
      cases hb
    · rw [hi] at hb
      cases hb
    · rw [hi] at hb
      cases hb
      exact Chain.wellFormed_of_window? hi
  | everything =>
    cases hb
    exact Interval.wellFormed_atLeast 0
  | inexpressible reason => cases hb

section Rendering

open Token

variable {v : Vocabulary} {m : String} {ts : List Token}

theorem Interval.WellFormed.exists_relationalToken {i : Interval} (h : i.WellFormed)
    (v : Vocabulary) : ∃ text, v.relationalToken i = .timeBound text := by
  rw [Vocabulary.relationalToken]
  cases hupper : i.upper with
  | unbounded => exact ⟨_, rfl⟩
  | finite u =>
    by_cases hlower : i.lower = 0
    · simp [hlower]
    · cases hclosed : i.includesUpper with
      | true => simp [hlower]
      | false => exact absurd (h.lower_eq_zero u hupper hclosed) hlower

theorem boundMessage?_of_wellFormed (hv : v.intervals.style = .relational) {b : Bound}
    (hb : ∀ i, b = .interval i → i.WellFormed) : v.boundMessage? b = b.reason? := by
  cases b with
  | inexpressible reason => rfl
  | interval i =>
    obtain ⟨text, htext⟩ := (hb i rfl).exists_relationalToken v
    simp only [Vocabulary.boundMessage?, Vocabulary.boundTokens, Vocabulary.intervalTokens, hv,
      htext]
    split
    · rfl
    · rfl

theorem Formula.mem_render_iff (hv : v.intervals.style = .relational) {f : Formula}
    (hf : ∀ i, .interval i ∈ f.bounds → i.WellFormed) (h : f.render v = .ok ts) :
    error m ∈ ts ↔ m ∈ f.reasons := by
  have hmessages : ts.filterMap message? = f.shownBounds.filterMap Bound.reason? := by
    refine filterMap_message?_of_reasons (fun b hb => boundMessage?_of_wellFormed hv ?_) h
    rintro i rfl
    exact hf i hb
  rw [← mem_filterMap_message?_iff, hmessages]
  exact (f.shownBounds_perm.filterMap Bound.reason?).mem_iff

/-- Intervals of a cell are well formed. So no vocabulary with comparisons lacks one for an
interval, and the errors on the stream are the reasons why there is no interval to print. -/
theorem Pattern.wellFormed_of_mem_bounds (x : Pattern) (scope : Scope) (t : Timing) :
    let f := x.formula scope t
    (∀ i, .interval i ∈ f.bounds → i.WellFormed) ∧
      (∀ v : Vocabulary, ∀ i, .interval i ∈ f.bounds →
        ∃ text, v.relationalToken i = timeBound text) ∧
      ∀ v : Vocabulary, v.intervals.style = .relational → ∀ ts, f.render v = .ok ts →
        ∀ m, error m ∈ ts ↔ m ∈ f.reasons := by
  intro f
  have hwellFormed : ∀ i, .interval i ∈ f.bounds → i.WellFormed := by
    intro i hi
    exact (x.derived_of_mem_annotations ((x.bounds_formula scope t).mem_iff.mp hi)).wellFormed
  refine ⟨hwellFormed, ?_, ?_⟩
  · intro v i hi
    exact (hwellFormed i hi).exists_relationalToken v
  · intro v hv ts hts m
    exact Formula.mem_render_iff hv hwellFormed hts

theorem Pattern.wellFormed_of_mem_bounds_outgrown :
    let last : UInt64 := 18446744073709551615
    let x := Pattern.chain .responseManyOne
      ⟨⟨"p", ""⟩, ⟨"s", ""⟩, none, some ⟨.interval last (.finite last), "s"⟩, none⟩
      ⟨⟨⟨"t", ""⟩, none, some ⟨.interval 2 (.finite 5), "s"⟩⟩, []⟩
    .interval (.atLeast last) ∈ (x.formula .globally .collapsed).bounds ∧
      (Interval.atLeast last).WellFormed ∧
      ∃ text, (Vocabulary.mk .prism .prism).relationalToken (.atLeast last) =
        timeBound text := by
  intro last x
  have hmem : Bound.interval (.atLeast last) ∈ (x.formula .globally .collapsed).bounds := by
    decide
  obtain ⟨hwellFormed, htext, -⟩ := x.wellFormed_of_mem_bounds .globally .collapsed
  exact ⟨hmem, hwellFormed _ hmem, htext _ _ hmem⟩

end Rendering

end PropertyPatterns
