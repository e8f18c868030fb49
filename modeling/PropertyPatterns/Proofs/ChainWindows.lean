import PropertyPatterns.Proofs.ScopeWindows
import PropertyPatterns.Proofs.WindowSums

namespace PropertyPatterns

open Formula

theorem lowerTotal_eq_zero_iff {bs : List TimeBound} :
    lowerTotal bs = 0 ↔ ∀ m ∈ bs, m.lower = 0 := by
  induction bs with
  | nil => simp [lowerTotal]
  | cons b bs ih =>
    rw [lowerTotal_cons, Nat.add_eq_zero_iff, ih, List.forall_mem_cons]
    simp [← UInt64.toNat_inj]

/-- The window begins no later than one of its bounds does if that one begins as late as possible or
all the others begin at once. -/
theorem windowStart_le_iff {b : TimeBound} {ms others : List TimeBound}
    (htotal : lowerTotal ms = lowerTotal others + b.lower.toNat) :
    windowStart ms ≤ b.lower.toNat ↔
      b.lower.toNat = UInt64.size - 1 ∨ ∀ m ∈ others, m.lower = 0 := by
  have hb : b.lower.toNat < UInt64.size := UInt64.toNat_lt_size b.lower
  rw [← lowerTotal_eq_zero_iff, windowStart, htotal]
  omega

namespace Chain

variable {outer b : TimeBound} {bs : List TimeBound} {ls : List Link}

theorem last_timeBound_of_carries {links : Chain} (h : Carries links.toList (b :: bs)) :
    links.last.timeBound = some (bs.getLastD b) := by
  obtain ⟨first, rest⟩ := links
  obtain ⟨l, ls, hcons, hl, hls⟩ := exists_of_carries_cons h
  cases hcons
  induction bs generalizing first rest b with
  | nil =>
    cases eq_nil_of_carries hls
    exact hl
  | cons m ms ih =>
    obtain ⟨l, ls, rfl, hm, hms⟩ := exists_of_carries_cons hls
    rw [last, List.getLastD_cons, List.getLastD_cons]
    exact ih l ls hls hm hms

/-- The window begins at the sum of the lower limits, unless that outgrows the word, and from there
on allows the delays that any one of the bounds allows. -/
theorem exists_window (hls : Carries ls bs) (hbs : ∀ b ∈ outer :: bs, b.isReversed = false) :
    ∃ i, window? (some outer) ls = .ok (some i) ∧
      i.lower.toNat = windowStart (outer :: bs) ∧
      ∀ b ∈ outer :: bs, ∀ d, i.lower.toNat ≤ d → b.upper.Admits d → i.Contains d := by
  obtain ⟨hfirst, hbs⟩ := List.forall_mem_cons.mp hbs
  have houter : ((some outer).getD .anyDelay).isReversed = false := hfirst
  obtain ⟨l, u, hwindow, hl, hu⟩ := window?_of_carries hls hbs houter
  refine ⟨_, hwindow, ?_, ?_⟩
  · rw [Interval.lower_between, hl, windowStart, windowStart, lowerTotal_concat, lowerTotal_cons,
      Nat.add_comm]
    rfl
  · rw [Interval.lower_between]
    intro b hb d hd hbd
    have hmem : b ∈ bs ++ [outer] := (List.perm_append_singleton outer bs).mem_iff.mpr hb
    have hupper := Limit.admits_iff.mp hbd
    rw [Interval.contains_between, Limit.admits_iff, hu]
    exact ⟨hd, hupper.trans ((upper_le_upperTotal hmem).trans le_capped)⟩

end Chain

namespace Timing

variable {τ : Timing} {k : PatternKind} {l : Link} {links : Chain} {outer b : TimeBound}
  {bs : List TimeBound} {other : Option Bound} {d : Nat}

theorem allows_principalBound (hτ : τ ≠ .untimed) (hb : b.isReversed = false) :
    Bound.Allows (τ.principalBound k .asWritten (some b)) d ↔ b.Allows d := by
  have hbound : τ.principalBound k .asWritten (some b) =
      some (.interval (.between b.lower b.upper)) := by
    cases τ with
    | untimed => exact absurd rfl hτ
    | nested | collapsed =>
      simp only [principalBound, TimeBound.interval, TimeBound.written_eq_between hb]
      rfl
  rw [hbound]
  exact Interval.contains_between

theorem allows_linkBound (hl : l.timeBound = some b) (hb : b.isReversed = false) :
    Bound.Allows (nested.linkBound l) d ↔ b.Allows d := by
  have hbound : nested.linkBound l = some (.interval (.between b.lower b.upper)) := by
    simp only [linkBound, hl, TimeBound.written_eq_between hb]
    rfl
  rw [hbound]
  exact Interval.contains_between

theorem exists_windowBound (hlinks : Chain.Carries links.toList bs)
    (hbs : ∀ b ∈ outer :: bs, b.isReversed = false) :
    ∃ i, collapsed.windowBound (some outer) links = some (.interval i) ∧
      i.lower.toNat = windowStart (outer :: bs) ∧
      ∀ b ∈ outer :: bs, ∀ d, i.lower.toNat ≤ d → b.upper.Admits d → i.Contains d := by
  obtain ⟨i, hwindow, hstart, hadmits⟩ := Chain.exists_window hlinks hbs
  have htimed : links.isTimed = true := by
    cases bs with
    | nil => cases Chain.eq_nil_of_carries hlinks
    | cons b bs =>
      obtain ⟨l, rest, hcons, hl, -⟩ := Chain.exists_of_carries_cons hlinks
      simp [Chain.isTimed, hcons, hl]
  refine ⟨i, ?_, hstart, hadmits⟩
  simp only [windowBound, htimed, hwindow]
  rfl

theorem windowStart_le_of_allows (hlinks : Chain.Carries links.toList bs)
    (hbs : ∀ b ∈ outer :: bs, b.isReversed = false)
    (h : Bound.Allows (collapsed.windowBound (some outer) links <|> other) d) :
    windowStart (outer :: bs) ≤ d := by
  obtain ⟨i, hwindow, hstart, -⟩ := exists_windowBound hlinks hbs
  rw [hwindow] at h
  rw [← hstart]
  exact h.1

theorem allows_windowBound (hlinks : Chain.Carries links.toList bs)
    (hbs : ∀ b ∈ outer :: bs, b.isReversed = false) (hb : b ∈ outer :: bs)
    (hstart : windowStart (outer :: bs) ≤ b.lower.toNat) (hd : b.Allows d) :
    Bound.Allows (collapsed.windowBound (some outer) links <|> other) d := by
  obtain ⟨i, hwindow, hlower, hadmits⟩ := exists_windowBound hlinks hbs
  rw [← hlower] at hstart
  rw [hwindow]
  exact hadmits b hb d (Nat.le_trans hstart hd.1) hd.2

end Timing

section Waits

variable {t : Trace} {f f' : Formula} {g : Option Formula} {b b' : Option Bound} {i : Nat}

theorem holds_reach_bounded :
    (reach g b f).Holds t i ↔
      ∃ d, Bound.Allows b d ∧ f.Holds t (i + d) ∧ ∀ e < d, Guards t g (i + e) := by
  cases g with
  | none => simp [reach, Holds]
  | some g => simp [reach, Holds]

theorem holds_reach_mono (hb : ∀ d, Bound.Allows b d → Bound.Allows b' d)
    (hf : ∀ j, f.Holds t j → f'.Holds t j) (h : (reach g b f).Holds t i) :
    (reach g b' f').Holds t i := by
  obtain ⟨d, hd, htarget, hway⟩ := holds_reach_bounded.mp h
  exact holds_reach_bounded.mpr ⟨d, hb d hd, hf (i + d) htarget, hway⟩

end Waits

namespace Course

variable {t : Trace} {c c' : Course} {l : Link} {ls : List Link} {links : Chain}
  {b b' : Option Bound} {continuation continuation' tail tail' : Option Formula} {i : Nat}

theorem holds_step_mono (hguard : c.guard = c'.guard)
    (hb : ∀ d, Bound.Allows b d → Bound.Allows b' d)
    (hnext : ∀ f' ∈ continuation', ∃ f ∈ continuation, ∀ j, f.Holds t j → f'.Holds t j)
    (h : (c.step b l continuation).Holds t i) : (c'.step b' l continuation').Holds t i := by
  obtain ⟨target, hstep, htarget⟩ := c.exists_step_eq (t := t) (l := l) b continuation
  obtain ⟨target', hstep', htarget'⟩ := c'.exists_step_eq (t := t) (l := l) b' continuation'
  have hwait : c.waitGuard l = c'.waitGuard l := by rw [waitGuard, waitGuard, hguard]
  rw [hstep, hwait] at h
  rw [hstep']
  refine holds_reach_mono hb ?_ h
  intro j hj
  obtain ⟨hevent, hcontinuation⟩ := (htarget j).mp hj
  refine (htarget' j).mpr ⟨hevent, ?_⟩
  intro f' hf'
  obtain ⟨f, hf, himp⟩ := hnext f' hf'
  obtain ⟨hg, hfj⟩ := hcontinuation f hf
  exact ⟨hguard ▸ hg, himp j hfj⟩

theorem holds_along_mono (hguard : c.guard = c'.guard)
    (hlink : ∀ m d, Bound.Allows (c.linkBound m) d → Bound.Allows (c'.linkBound m) d)
    (hclosing : ∀ d, Bound.Allows (c.closing <|> c.linkBound (ls.getLastD l)) d →
      Bound.Allows (c'.closing <|> c'.linkBound (ls.getLastD l)) d)
    (htail : ∀ f' ∈ tail', ∃ f ∈ tail, ∀ j, f.Holds t j → f'.Holds t j)
    (h : (c.along tail l ls).Holds t i) : (c'.along tail' l ls).Holds t i := by
  -- A course that allows more delays accepts more chains.
  induction ls generalizing l i with
  | nil => exact holds_step_mono hguard hclosing htail h
  | cons m ms ih =>
    rw [List.getLastD_cons] at hclosing
    refine holds_step_mono hguard (hlink l) ?_ h
    rintro f' ⟨⟩
    refine ⟨_, rfl, ?_⟩
    intro j hj
    exact holds_next.mpr (ih hclosing (holds_next.mp hj))

theorem holds_follow_mono (h : (c.follow links tail).Holds t i) (hguard : c.guard = c'.guard)
    (hlink : ∀ m d, Bound.Allows (c.linkBound m) d → Bound.Allows (c'.linkBound m) d)
    (hclosing : ∀ d, Bound.Allows (c.closing <|> c.linkBound links.last) d →
      Bound.Allows (c'.closing <|> c'.linkBound links.last) d)
    (htail : ∀ f' ∈ tail', ∃ f ∈ tail, ∀ j, f.Holds t j → f'.Holds t j) :
    (c'.follow links tail').Holds t i :=
  holds_next.mpr (holds_along_mono hguard hlink hclosing htail (holds_next.mp h))

end Course

theorem Scope.holds_answering_mono {t : Trace} {scope : Scope} {free free' : Formula}
    {bounded bounded' : Event → Formula} (hfree : ∀ j, free.Holds t j → free'.Holds t j)
    (hbounded : ∀ r j, (bounded r).Holds t j → (bounded' r).Holds t j)
    (h : (scope.answering free bounded).Holds t 0) :
    (scope.answering free' bounded').Holds t 0 := by
  rw [holds_answering_iff] at h ⊢
  intro i n hwindow j hij hjn
  have hcell := h i n hwindow j hij hjn
  cases hclosing : scope.closing? with
  | none =>
    rw [hclosing] at hcell
    exact hfree j hcell
  | some r =>
    rw [hclosing] at hcell
    exact hbounded r j hcell

namespace Order

variable {t : Trace} {scope : Scope} {o : Order} {links : Chain}

theorem holds_responseOneMany_collapsed
    (hprincipal : ∀ d,
      Bound.Allows (Timing.nested.principalBound (.chain .responseOneMany) .asWritten o.timeBound)
        d →
      Bound.Allows (Timing.collapsed.principalBound (.chain .responseOneMany) .asWritten
        o.timeBound) d)
    (hclosing : ∀ d, Bound.Allows (Timing.nested.linkBound links.last) d →
      Bound.Allows (Timing.collapsed.windowBound o.timeBound links <|>
        Timing.collapsed.linkBound links.last) d)
    (h : (responseOneMany .nested scope o links).Holds t 0) :
    (responseOneMany .collapsed scope o links).Holds t 0 := by
  refine Scope.holds_answering_mono ?_ ?_ h
  · intro j hj hp
    refine holds_reach_mono hprincipal ?_ (hj hp)
    rintro m ⟨hs, hm⟩
    exact ⟨hs, Course.holds_follow_mono hm rfl (fun _ _ _ => trivial) hclosing (by simp)⟩
  · intro r j hj hp
    refine holds_reach_mono hprincipal ?_ (hj hp)
    rintro m ⟨⟨hs, hr⟩, hm⟩
    exact ⟨⟨hs, hr⟩,
      Course.holds_follow_mono hm rfl (fun _ _ _ => trivial) hclosing (by simp)⟩

theorem holds_responseManyOne_collapsed
    (hclosing : ∀ d,
      Bound.Allows (Timing.nested.principalBound (.chain .responseManyOne) .asWritten o.timeBound)
        d →
      Bound.Allows (Timing.collapsed.windowBound o.timeBound links <|>
        Timing.collapsed.principalBound (.chain .responseManyOne) .asWritten o.timeBound) d)
    (h : (responseManyOne .nested scope o links).Holds t 0) :
    (responseManyOne .collapsed scope o links).Holds t 0 := by
  refine Scope.holds_answering_mono ?_ ?_ h
  · intro j hj hs
    refine Course.holds_follow_mono (hj hs) rfl (fun _ _ _ => trivial) (fun _ _ => trivial) ?_
    rintro f' ⟨⟩
    exact ⟨_, rfl, fun m hm => holds_reach_mono hclosing (fun _ => id) hm⟩
  · intro r j hj hs
    refine Course.holds_follow_mono (hj hs) rfl (fun _ _ _ => trivial) (fun _ _ => trivial) ?_
    rintro f' ⟨⟩
    exact ⟨_, rfl, fun m hm => holds_reach_mono hclosing (fun _ => id) hm⟩

end Order

end PropertyPatterns
