import PropertyPatterns.Proofs.BoundTotals

/-!
Windows of chains as sums of intervals. A window is summed from the bounds of some links and the
bound of the event at the other end; any delay will do where there is no such bound. The main
statement says when there is no window, which bound is reported instead, and that a window contains
the sums of the delays that its bounds allow, and nothing else unless a sum outgrows the word. Upper
limits are extended numbers here, so that sums of them are sums in the usual sense.
-/

namespace PropertyPatterns

/-- The interval consists of the sums of delays that the bounds allow, except that a limit that
outgrows the word lets more delays in. -/
structure Interval.Sums (i : Interval) (bs : List TimeBound) : Prop where
  contains : ∀ ds, List.Forall₂ TimeBound.Allows bs ds → i.Contains ds.sum
  exact : lowerTotal bs < UInt64.size →
    (∃ b ∈ bs, b.upper = .unbounded) ∨ upperTotal bs < UInt64.size →
      ∀ n, i.Contains n → ∃ ds, List.Forall₂ TimeBound.Allows bs ds ∧ ds.sum = n
  lower : i.lower.toNat = min (lowerTotal bs) (UInt64.size - 1)
  upper : i.upper.value = if upperTotal bs < UInt64.size then upperTotal bs else ⊤

theorem Interval.sums_between {l : UInt64} {u : Limit} {bs : List TimeBound}
    (hbs : ∀ b ∈ bs, b.isReversed = false) (hl : l.toNat = windowStart bs)
    (hu : u.value = capped (upperTotal bs)) : (between l u).Sums bs where
  contains ds hds := by
    obtain ⟨hlower, hupper⟩ := total_le_of_allows hds
    refine contains_between.mpr ⟨?_, ?_⟩
    · rw [hl]
      exact Nat.le_trans (Nat.min_le_left _ _) hlower
    · rw [Limit.admits_iff, hu]
      exact le_trans hupper le_capped
  exact hlower hupper n hn := by
    obtain ⟨hln, hun⟩ := contains_between.mp hn
    rw [Limit.admits_iff, hu, capped_of_fits (hupper.imp_left upperTotal_of_unbounded)] at hun
    refine exists_delays hbs ?_ hun
    rw [hl, windowStart] at hln
    omega
  lower := by rw [lower_between, hl, windowStart]
  upper := by rw [upper_between, hu, capped]

namespace Chain

def Carries (ls : List Link) (bs : List TimeBound) : Prop :=
  ls.map (·.timeBound) = bs.map some

/-- The bounds that a window is summed from: those of the links in their order, and the outer
one. -/
def windowBounds (outer : Option TimeBound) (ls : List Link) : List TimeBound :=
  ls.filterMap (·.timeBound) ++ [outer.getD .anyDelay]

section Bounds

variable {outer : Option TimeBound} {b : TimeBound} {bs : List TimeBound} {ls : List Link}
  {e : ShapeError} {i : Interval}

theorem eq_nil_of_carries (h : Carries ls []) : ls = [] :=
  List.map_eq_nil_iff.mp h

theorem exists_of_carries_cons (h : Carries ls (b :: bs)) :
    ∃ l rest, ls = l :: rest ∧ l.timeBound = some b ∧ Carries rest bs := by
  rw [Carries, List.map_cons, List.map_eq_cons_iff] at h
  exact h

theorem carries_filterMap (h : ∀ l ∈ ls, l.timeBound ≠ none) :
    Carries ls (ls.filterMap (·.timeBound)) := by
  induction ls with
  | nil => rfl
  | cons l ls ih =>
    obtain ⟨hl, hls⟩ := List.forall_mem_cons.mp h
    obtain ⟨b, hb⟩ := Option.ne_none_iff_exists'.mp hl
    rw [Carries, List.filterMap_cons_some hb, List.map_cons, List.map_cons, ih hls, hb]

theorem exists_lowerSum (hls : Carries ls bs) (hbs : ∀ b ∈ bs, b.isReversed = false) :
    ∃ l, lowerSum ls = .ok l ∧ l.toNat = windowStart bs := by
  induction bs generalizing ls with
  | nil =>
    obtain rfl := eq_nil_of_carries hls
    exact ⟨0, rfl, rfl⟩
  | cons b bs ih =>
    obtain ⟨l, rest, rfl, hl, hrest⟩ := exists_of_carries_cons hls
    obtain ⟨hb, hbs⟩ := List.forall_mem_cons.mp hbs
    obtain ⟨m, hm, htotal⟩ := ih hrest hbs
    refine ⟨addClamped b.lower m, ?_, ?_⟩
    · simp only [lowerSum, hl, TimeBound.written_eq_between hb, hm, Except.map,
        Interval.lower_between]
      rfl
    · rw [toNat_addClamped, htotal, windowStart, windowStart, lowerTotal_cons]
      omega

theorem upperSum?_of_carries (h : Carries ls bs) :
    ∃ u, upperSum? ls = some u ∧ u.value = capped (upperTotal bs) := by
  induction bs generalizing ls with
  | nil =>
    obtain rfl := eq_nil_of_carries h
    exact ⟨.finite 0, rfl, rfl⟩
  | cons b bs ih =>
    obtain ⟨l, rest, rfl, hl, hrest⟩ := exists_of_carries_cons h
    obtain ⟨u, hu, hvalue⟩ := ih hrest
    refine ⟨b.upper.add u, by simp [upperSum?, hl, hu], ?_⟩
    rw [Limit.value_add, hvalue, capped_add_capped, upperTotal_cons]

theorem lowerSum_of_reversal? (h : Carries ls bs)
    (he : bs.findSome? TimeBound.reversal? = some e) : lowerSum ls = .error e := by
  induction bs generalizing ls with
  | nil => cases he
  | cons b bs ih =>
    obtain ⟨l, rest, rfl, hl, hrest⟩ := exists_of_carries_cons h
    rw [List.findSome?_cons] at he
    cases hb : b.reversal? with
    | some e' =>
      rw [hb] at he
      obtain rfl := Option.some.inj he
      simp only [lowerSum, hl, TimeBound.written_of_reversal? hb]
      rfl
    | none =>
      rw [hb] at he
      have hwritten := TimeBound.written_eq_between (TimeBound.reversal?_eq_none_iff.mp hb)
      simp only [lowerSum, hl, hwritten, ih hrest he]
      rfl

theorem outerInterval_eq (outer : Option TimeBound) :
    outerInterval outer = (outer.getD .anyDelay).written := by
  cases outer with
  | none | some => rfl

theorem window?_of_carries (h : Carries ls bs) (hbs : ∀ b ∈ bs, b.isReversed = false)
    (houter : (outer.getD .anyDelay).isReversed = false) :
    ∃ l u, window? outer ls = .ok (some (.between l u)) ∧
      l.toNat = windowStart (bs ++ [outer.getD .anyDelay]) ∧
      u.value = capped (upperTotal (bs ++ [outer.getD .anyDelay])) := by
  obtain ⟨l, hl, hstart⟩ := exists_lowerSum h hbs
  obtain ⟨u, hu, hvalue⟩ := upperSum?_of_carries h
  let b := outer.getD .anyDelay
  refine ⟨addClamped l b.lower, u.add b.upper, ?_, ?_, ?_⟩
  · simp only [window?, hu, hl, outerInterval_eq, TimeBound.written_eq_between houter, bind,
      Except.bind, Interval.lower_between, Interval.upper_between]
    rfl
  · simp only [toNat_addClamped, hstart, windowStart, lowerTotal_concat, b]
    omega
  · rw [Limit.value_add, hvalue, add_comm, capped_add_capped, upperTotal_concat]

theorem window?_eq_ok_none_iff :
    window? outer ls = .ok none ↔ ∃ l ∈ ls, l.timeBound = none := by
  have hlacks : upperSum? ls = none ↔ ∃ l ∈ ls, l.timeBound = none := by
    rw [← Option.not_isSome_iff_eq_none, isSome_upperSum?]
    simp
  rw [← hlacks, window?]
  cases upperSum? ls with
  | none => simp
  | some u =>
    cases lowerSum ls with
    | error e => simp [bind, Except.bind]
    | ok l =>
      cases outerInterval outer with
      | error e => simp [bind, Except.bind]
      | ok i => simp [bind, Except.bind, pure, Except.pure]

theorem window?_of_reversal? (h : ∀ l ∈ ls, l.timeBound ≠ none)
    (he : (windowBounds outer ls).findSome? TimeBound.reversal? = some e) :
    window? outer ls = .error e := by
  have hcarries := carries_filterMap h
  obtain ⟨u, hu, -⟩ := upperSum?_of_carries hcarries
  rw [windowBounds, List.findSome?_append, Option.or_eq_some_iff] at he
  rw [window?, hu]
  rcases he with he | ⟨hnone, he⟩
  · rw [lowerSum_of_reversal? hcarries he]
    rfl
  · have hbs : ∀ b ∈ ls.filterMap (·.timeBound), b.isReversed = false := fun b hb =>
      TimeBound.reversal?_eq_none_iff.mp (List.findSome?_eq_none_iff.mp hnone b hb)
    obtain ⟨l, hl, -⟩ := exists_lowerSum hcarries hbs
    rw [List.findSome?_singleton] at he
    rw [hl, outerInterval_eq, TimeBound.written_of_reversal? he]
    rfl

theorem exists_sums (h : ∀ l ∈ ls, l.timeBound ≠ none)
    (hnone : (windowBounds outer ls).findSome? TimeBound.reversal? = none) :
    ∃ l u, window? outer ls = .ok (some (.between l u)) ∧
      (Interval.between l u).Sums (windowBounds outer ls) := by
  have hbs : ∀ b ∈ windowBounds outer ls, b.isReversed = false := fun b hb =>
    TimeBound.reversal?_eq_none_iff.mp (List.findSome?_eq_none_iff.mp hnone b hb)
  obtain ⟨hlinks, houter⟩ := List.forall_mem_append.mp hbs
  obtain ⟨l, u, hwindow, hl, hu⟩ :=
    window?_of_carries (carries_filterMap h) hlinks (houter _ (List.mem_singleton_self _))
  exact ⟨l, u, hwindow, Interval.sums_between hbs hl hu⟩

end Bounds

/-- The window over the first links of a chain: there is none if a link has no bound, whatever the
others are; else the first reversed bound is reported, the outer one after those of the links; else
it is the sum of its bounds. -/
theorem window?_take (outer : Option TimeBound) (c : Chain) (k : Nat) :
    let ls := c.toList.take k
    (window? outer ls = .ok none ↔ ∃ l ∈ ls, l.timeBound = none) ∧
      ((∀ l ∈ ls, l.timeBound ≠ none) →
        (∀ e, (windowBounds outer ls).findSome? TimeBound.reversal? = some e →
          window? outer ls = .error e) ∧
        ((windowBounds outer ls).findSome? TimeBound.reversal? = none →
          ∃ i, window? outer ls = .ok (some i) ∧ i.Sums (windowBounds outer ls))) := by
  intro ls
  refine ⟨window?_eq_ok_none_iff, fun h => ⟨fun e => window?_of_reversal? h, ?_⟩⟩
  intro hnone
  obtain ⟨l, u, hwindow, hsums⟩ := exists_sums h hnone
  exact ⟨_, hwindow, hsums⟩

theorem window?_take_untimedLast :
    let c : Chain :=
      ⟨⟨⟨"s", ""⟩, none, some ⟨.interval 2 (.finite 5), "s"⟩⟩,
        [⟨⟨"t", ""⟩, none, some ⟨.upper (.finite 4), "s"⟩⟩, ⟨⟨"u", ""⟩, none, none⟩]⟩
    (∀ l ∈ c.toList.take 2, l.timeBound ≠ none) ∧
      (∃ i, window? none (c.toList.take 2) = .ok (some i) ∧
        i.Sums [⟨.interval 2 (.finite 5), "s"⟩, ⟨.upper (.finite 4), "s"⟩, .anyDelay]) ∧
      window? none (c.toList.take 3) = .ok none := by
  intro c
  have htimed : ∀ l ∈ c.toList.take 2, l.timeBound ≠ none := by
    simp [c, toList]
  refine ⟨htimed, ((window?_take none c 2).2 htimed).2 (by decide), ?_⟩
  exact (window?_take none c 3).1.mpr ⟨_, List.mem_of_getElem? (i := 2) rfl, rfl⟩

end Chain

end PropertyPatterns
