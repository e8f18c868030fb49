import PropertyPatterns.Proofs.BoundInventory
import PropertyPatterns.Proofs.DescribedDelays

/-!
Empty intervals: annotations that no delay satisfies. An interval that a shape derives from a bound
contains just the delays that the shape describes, and where it describes none there is a reason in
place of the interval. The one exception is the shape of maximum durations. It leaves its upper end
open, and if both limits of the bound are the same, it derives an interval without any delay.
-/

namespace PropertyPatterns

namespace Bound

/-- The annotation that no delay satisfies. -/
def empty : Bound :=
  .interval (.halfOpen 0 (.finite 0))

theorem ofInterval_eq_empty_iff {b : TimeBound} {s : Shape} :
    ofInterval (b.interval s) = empty ↔ s = .lessThan ∧ b.upper = .finite b.lower := by
  rw [← TimeBound.interval_eq_empty_iff]
  cases b.interval s with
  | error e => simp [ofInterval, empty]
  | ok i => simp [ofInterval, empty]

theorem between_ne_empty (l : UInt64) (u : Limit) : interval (.between l u) ≠ empty := by
  cases u with
  | finite u | unbounded => simp [empty, Interval.between, Interval.closed, Interval.atLeast,
      Interval.halfOpen]

theorem ofWindow_ne_empty (outer : Option TimeBound) (ls : List Link) :
    ofWindow (Chain.window? outer ls) ≠ empty := by
  rw [Chain.window?]
  intro h
  cases hupper : Chain.upperSum? ls with
  | none =>
    rw [hupper] at h
    cases h
  | some u =>
    cases hlower : Chain.lowerSum ls with
    | error e =>
      rw [hupper, hlower] at h
      cases h
    | ok l =>
      cases houter : Chain.outerInterval outer with
      | error e =>
        rw [hupper, hlower, houter] at h
        cases h
      | ok i =>
        rw [hupper, hlower, houter] at h
        exact between_ne_empty _ _ h

end Bound

theorem Link.annotation_ne_empty (l : Link) : l.annotation ≠ .empty := by
  obtain ⟨e, z, b⟩ := l
  cases b with
  | none => exact nofun
  | some b =>
    intro h
    cases (Bound.ofInterval_eq_empty_iff (s := .asWritten).mp h).1

namespace Pattern

variable {x : Pattern} {scope : Scope} {t : Timing}

/-- A maximum duration whose bound gives both limits the same, so that it has to be shorter than no
time at all. -/
def isMomentary (x : Pattern) : Prop :=
  x.kind = .occurrence .maximumDuration ∧ ∃ b ∈ x.timeBound?, b.upper = .finite b.lower

theorem shape_eq_lessThan_iff (x : Pattern) :
    x.shape = .lessThan ↔ x.kind = .occurrence .maximumDuration := by
  cases x with
  | occurrence k o => cases k <;> simp [shape, kind, Occurrence.shape]
  | boundedExistence | order | chain => simp [shape, kind]

theorem annotation_eq_empty_iff : x.annotation = .empty ↔ x.isMomentary := by
  rw [isMomentary, annotation, ← shape_eq_lessThan_iff]
  cases x.timeBound? with
  | none => cases x.shape <;> simp [Shape.isRequired, Bound.empty, Bound.everything,
      Interval.everything, Interval.atLeast, Interval.halfOpen]
  | some b => simp [Bound.ofInterval_eq_empty_iff]

theorem empty_mem_annotations_nested : .empty ∈ x.annotations .nested ↔ x.isMomentary := by
  rw [x.annotations_nested.mem_iff, List.mem_cons, eq_comm, annotation_eq_empty_iff]
  refine or_iff_left fun h => ?_
  obtain ⟨l, -, hl⟩ := List.mem_map.mp h
  exact l.annotation_ne_empty hl

theorem empty_mem_annotationIfBound : .empty ∈ x.annotationIfBound ↔ x.isMomentary := by
  rw [annotationIfBound]
  split
  · rw [List.mem_singleton, eq_comm, annotation_eq_empty_iff]
  · rename_i hbound
    refine iff_of_false List.not_mem_nil ?_
    rintro ⟨-, b, hb, -⟩
    exact hbound (by simp [Option.mem_def.mp hb])

theorem empty_mem_annotations_collapsed : .empty ∈ x.annotations .collapsed ↔ x.isMomentary := by
  rw [x.annotations_collapsed.mem_iff]
  cases x with
  | occurrence | boundedExistence | order => exact empty_mem_annotationIfBound
  | chain k o c =>
    have hnot : ¬(chain k o c).isMomentary := fun h => nomatch h.1
    have hown : .empty ∉ (chain k o c).annotationIfBound := mt empty_mem_annotationIfBound.mp hnot
    refine iff_of_false ?_ hnot
    simp only [collapsedAnnotations]
    split
    · cases k with
      | precedenceOneMany | precedenceManyOne => simp [Bound.empty]
      | responseOneMany =>
        rw [List.mem_cons, not_or]
        exact ⟨(Bound.ofWindow_ne_empty _ _).symm, hown⟩
      | responseManyOne =>
        rw [List.mem_singleton]
        exact (Bound.ofWindow_ne_empty _ _).symm
    · exact hown

theorem isReversed_of_forall_not_allows {b : TimeBound} (h : ∀ d, ¬b.Allows d) :
    b.isReversed = true := by
  by_contra hnot
  exact h _ (TimeBound.allows_lower (by simpa using hnot))

theorem misfits_of_forall_not_describes {b : TimeBound} (hx : ¬x.isMomentary)
    (hb : b ∈ x.timeBound?) (h : ∀ d, ¬b.Describes x.shape d) : x.misfits = true := by
  rw [misfits_eq, Option.mem_def.mp hb]
  by_contra hfits
  have hne : x.shape = .lessThan → b.upper ≠ .finite b.lower := fun hshape hupper =>
    hx ⟨x.shape_eq_lessThan_iff.mp hshape, b, hb, hupper⟩
  obtain ⟨d, hd⟩ := TimeBound.exists_describes (by simpa [Shape.misfits] using hfits) hne
  exact h d hd

theorem misfitsCollapsed_of_misfits (h : x.misfits = true) : x.misfitsCollapsed = true := by
  cases x with
  | occurrence | boundedExistence | order => exact h
  | chain k o c =>
    rw [misfits_eq] at h
    have hreversed : o.timeBound.any (·.isReversed) = true :=
      (Shape.misfits_asWritten o.timeBound).symm.trans h
    cases k <;> simp [misfitsCollapsed, hreversed]

theorem misfitsCollapsed_of_reversed_link {l : Link} (hl : l ∈ x.links)
    (h : l.isReversed = true) : x.misfitsCollapsed = true := by
  cases x with
  | occurrence | boundedExistence | order => cases hl
  | chain k o c =>
    have htimed : c.isTimed = true := by
      obtain ⟨b, hb, -⟩ := (Option.any_eq_true _ _).mp h
      exact List.any_eq_true.mpr ⟨l, hl, by simp [hb]⟩
    have hlacks : c.toList.any (·.lacksInterval) = true :=
      List.any_eq_true.mpr ⟨l, hl, by simp [Link.lacksInterval, h]⟩
    cases k <;> simp [misfitsCollapsed, htimed, hlacks]

theorem reasons_ne_nil_iff :
    (x.formula scope t).reasons ≠ [] ↔ (x.annotations t).any Bound.isLost = true := by
  rw [← (x.bounds_formula scope t).any_eq, List.any_eq_true, Formula.reasons, Ne,
    List.filterMap_eq_nil_iff]
  simp [Bound.isLost, Option.isSome_iff_ne_none]

theorem exists_contains_iff (x : Pattern) (scope : Scope) (t : Timing) :
    (∀ i, .interval i ∈ (x.formula scope t).bounds → ∃ d, i.Contains d) ↔
      .empty ∉ x.annotations t := by
  simp only [(x.bounds_formula scope t).mem_iff]
  constructor
  · intro h hempty
    obtain ⟨d, -, hd⟩ := h _ hempty
    exact Nat.not_lt_zero d hd
  · intro h i hi
    have hwellFormed := (x.derived_of_mem_annotations hi).wellFormed
    refine hwellFormed.exists_contains_iff.mpr ?_
    rintro rfl
    exact h hi

theorem empty_mem_annotations_iff (ht : t ≠ .untimed) :
    .empty ∈ x.annotations t ↔ x.isMomentary := by
  cases t with
  | untimed => exact absurd rfl ht
  | nested => exact empty_mem_annotations_nested
  | collapsed => exact empty_mem_annotations_collapsed

theorem reasons_ne_nil_of_misfits (ht : t ≠ .untimed) (scope : Scope) (h : x.misfits = true) :
    (x.formula scope t).reasons ≠ [] := by
  rw [reasons_ne_nil_iff]
  cases t with
  | untimed => exact absurd rfl ht
  | nested => simp [any_isLost_annotations_nested, h]
  | collapsed => simp [any_isLost_annotations_collapsed, misfitsCollapsed_of_misfits h]

theorem reasons_ne_nil_of_reversed_link (ht : t ≠ .untimed) (scope : Scope) {l : Link}
    (hl : l ∈ x.links) (h : l.isReversed = true) : (x.formula scope t).reasons ≠ [] := by
  rw [reasons_ne_nil_iff]
  cases t with
  | untimed => exact absurd rfl ht
  | nested =>
    rw [any_isLost_annotations_nested, List.any_eq_true.mpr ⟨l, hl, h⟩, Bool.or_true]
  | collapsed =>
    simp [any_isLost_annotations_collapsed, misfitsCollapsed_of_reversed_link hl h]

/-- Every interval of the cell contains a delay, and where a bound of the pattern or of a link
describes none, the cell gives a reason instead. -/
structure AllowsDelays (x : Pattern) (scope : Scope) (t : Timing) : Prop where
  exists_contains : ∀ i, .interval i ∈ (x.formula scope t).bounds → ∃ d, i.Contains d
  reports_own : ∀ b ∈ x.timeBound?, (∀ d, ¬b.Describes x.shape d) →
    (x.formula scope t).reasons ≠ []
  reports_link : ∀ l ∈ x.links, ∀ b ∈ l.timeBound, (∀ d, ¬b.Allows d) →
    (x.formula scope t).reasons ≠ []

/-- In every scope a pattern comes without empty intervals, and its bounds that no delay satisfies
are reported, unless it is a maximum duration whose bound gives both limits the same. -/
theorem allowsDelays_iff (x : Pattern) (scope : Scope) (ht : t ≠ .untimed) :
    x.AllowsDelays scope t ↔ ¬x.isMomentary := by
  constructor
  · intro h
    rw [← empty_mem_annotations_iff ht]
    exact (x.exists_contains_iff scope t).mp h.exists_contains
  · intro hx
    refine ⟨?_, ?_, ?_⟩
    · rw [exists_contains_iff, empty_mem_annotations_iff ht]
      exact hx
    · intro b hb hnone
      exact reasons_ne_nil_of_misfits ht scope (misfits_of_forall_not_describes hx hb hnone)
    · intro l hl b hb hnone
      refine reasons_ne_nil_of_reversed_link ht scope hl ?_
      rw [Link.isReversed, Option.mem_def.mp hb]
      exact isReversed_of_forall_not_allows hnone

theorem allowsDelays_iff_immediate :
    let x := Pattern.chain .responseOneMany
      ⟨⟨"p", ""⟩, ⟨"s", ""⟩, none, some ⟨.upper (.finite 0), "s"⟩, none⟩
      ⟨⟨⟨"t", ""⟩, none, some ⟨.interval 0 (.finite 0), "s"⟩⟩, []⟩
    Timing.collapsed ≠ .untimed ∧ x.AllowsDelays .globally .collapsed := by
  intro x
  have ht : Timing.collapsed ≠ .untimed := by decide
  exact ⟨ht, (x.allowsDelays_iff .globally ht).mpr fun h => nomatch h.1⟩

/-- A maximum duration between 3 and 3 time units has to be over within the empty interval. -/
theorem not_allowsDelays_maximumDuration :
    ¬(occurrence .maximumDuration
      ⟨⟨"p", ""⟩, some ⟨.interval 3 (.finite 3), "s"⟩, none⟩).AllowsDelays .globally .nested := by
  intro h
  obtain ⟨d, -, hd⟩ := h.exists_contains (.halfOpen 0 (.finite 0)) (by decide)
  exact Nat.not_lt_zero d hd

end Pattern

end PropertyPatterns
