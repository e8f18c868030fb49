import PropertyPatterns.Logic
import PropertyPatterns.Proofs.AtomInventory
import PropertyPatterns.Proofs.ViolatedCells

namespace PropertyPatterns

open Formula

/-- No two of the events have the same name. -/
def DistinctNames (es : List Event) : Prop :=
  es.Pairwise fun e e' => e.name ≠ e'.name

/-- The events hold one by one from the start on, the opening event holds at the start, and the
closing event behind them all, for good. -/
def enactment (opening closing : Option Event) (es : List Event) : Trace := fun i a =>
  (∃ e, es[i]? = some e ∧ e.name = a) ∨ (i = 0 ∧ ∃ q ∈ opening, q.name = a) ∨
    es.length < i ∧ ∃ r ∈ closing, r.name = a

section Enactment

variable {opening closing : Option Event} {es fs : List Event} {e q r : Event} {i : Nat}
  {a : String} {scope : Scope}

theorem enactment_event (h : es[i]? = some e) : enactment opening closing es i e.name :=
  Or.inl ⟨e, h, rfl⟩

theorem enactment_opening (h : q ∈ opening) : enactment opening closing es 0 q.name :=
  Or.inr (Or.inl ⟨rfl, q, h, rfl⟩)

theorem recurs_enactment (h : r ∈ closing) : Recurs (enactment opening closing es) r := by
  intro i
  exact ⟨max i (es.length + 1), Nat.le_max_left _ _, Or.inr (Or.inr ⟨by omega, r, h, rfl⟩)⟩

theorem Named.mono (h : es ⊆ fs) (ha : Named es a) : Named fs a := by
  obtain ⟨e, he, hname⟩ := ha
  exact ⟨e, h he, hname⟩

theorem Named.append_mono {es' fs' : List Event} (h : es ⊆ es') (h' : fs ⊆ fs')
    (ha : Named (es ++ fs) a) : Named (es' ++ fs') a := by
  rw [named_append] at ha ⊢
  exact ha.imp (.mono h) (.mono h')

theorem named_of_getElem? (h : es[i]? = some e) : Named es e.name :=
  ⟨e, List.mem_of_getElem? h, rfl⟩

theorem named_toList (h : e ∈ opening) : Named opening.toList e.name :=
  ⟨e, Option.mem_toList.mpr h, rfl⟩

theorem eq_zero_of_enactment (h : ¬Named (closing.toList ++ es) q.name)
    (hi : enactment opening closing es i q.name) : i = 0 := by
  rw [named_append, not_or] at h
  rcases hi with ⟨e, he, hname⟩ | ⟨hi, -⟩ | ⟨-, r, hr, hname⟩
  · exact absurd (hname ▸ named_of_getElem? he) h.2
  · exact hi
  · exact absurd (hname ▸ named_toList hr) h.1

theorem not_enactment_closing (h : ¬Named (opening.toList ++ es) r.name) (hi : i ≤ es.length) :
    ¬enactment opening closing es i r.name := by
  rw [named_append, not_or] at h
  rintro (⟨e, he, hname⟩ | ⟨-, q, hq, hname⟩ | ⟨hlate, -⟩)
  · exact h.2 (hname ▸ named_of_getElem? he)
  · exact h.1 (hname ▸ named_toList hq)
  · exact absurd hi (Nat.not_le.mpr hlate)

theorem neverHolds_enactment (h : ¬Named (opening.toList ++ closing.toList ++ es) e.name) :
    NeverHolds (enactment opening closing es) e := by
  rw [named_append, named_append, not_or, not_or] at h
  rintro i (⟨e', he, hname⟩ | ⟨-, q, hq, hname⟩ | ⟨-, r, hr, hname⟩)
  · exact h.2 (hname ▸ named_of_getElem? he)
  · exact h.1.1 (hname ▸ named_toList hq)
  · exact h.1.2 (hname ▸ named_toList hr)

theorem Chain.spans_of_consecutive {c : Chain} {t : Trace}
    (h : ∀ k l, c.toList[k]? = some l → t (k + 1) l.event.name) : c.Spans t 0 c.length := by
  refine ⟨fun k => k, rfl, rfl, ?_⟩
  constructor
  · intro k _
    exact Nat.lt_succ_self k
  · intro k hk
    exact h k _ (List.getElem?_eq_getElem hk)
  · intro k _ z _ i hi hi'
    omega

theorem DistinctNames.not_named_closing (h : DistinctNames (scope.anchors ++ fs))
    (hq : q ∈ scope.opening?) : ¬Named (scope.closing?.toList ++ fs) q.name := by
  rw [Scope.anchors, List.append_assoc] at h
  rintro ⟨e, he, hname⟩
  exact (List.pairwise_append.mp h).2.2 q (Option.mem_toList.mpr hq) e he hname.symm

theorem DistinctNames.not_named_opening (h : DistinctNames (scope.anchors ++ fs))
    (hr : r ∈ scope.closing?) : ¬Named (scope.opening?.toList ++ fs) r.name := by
  obtain ⟨hanchors, -, hevents⟩ := List.pairwise_append.mp h
  have hr := Option.mem_toList.mpr hr
  rw [named_append, not_or]
  constructor
  · rintro ⟨q, hq, hname⟩
    exact (List.pairwise_append.mp hanchors).2.2 q hq r hr hname
  · rintro ⟨e, he, hname⟩
    exact hevents r (List.mem_append_right _ hr) e he hname.symm

theorem DistinctNames.not_named_anchors (h : DistinctNames (scope.anchors ++ fs)) (he : e ∈ fs) :
    ¬Named scope.anchors e.name := by
  rintro ⟨a, ha, hname⟩
  exact (List.pairwise_append.mp h).2.2 a ha e he hname

theorem DistinctNames.opensOnce (h : DistinctNames (scope.anchors ++ fs)) (hes : es ⊆ fs)
    (hopening : opening.toList ⊆ scope.opening?.toList) :
    scope.OpensOnce (enactment opening scope.closing? es) where
  opening q hq i := by
    apply eq_zero_of_enactment
    exact fun hname => h.not_named_closing hq (hname.append_mono (List.Subset.refl _) hes)
  not_closing r hr := by
    apply not_enactment_closing _ (Nat.zero_le _)
    exact fun hname => h.not_named_opening hr (hname.append_mono hopening hes)
  recurs r hr := recurs_enactment hr

end Enactment

namespace Pattern

/-- Events that violate the pattern if they hold one by one and its other events stay away. -/
def offence : Pattern → List Event
  | occurrence .absence o => [o.p]
  | occurrence _ _ | boundedExistence _ _ | order .holdUntil _ => []
  | order _ o | chain .precedenceManyOne o _ | chain .responseOneMany o _ => [o.p]
  | chain .precedenceOneMany o c | chain .responseManyOne o c =>
    o.s :: c.toList.map (·.event)

variable {x : Pattern} {scope : Scope} {t : Trace}

theorem mem_events_of_mem_links {c : Chain} {l : Link} {k : ChainKind} {o : Order}
    (hl : l ∈ c.toList) : l.event ∈ (chain k o c).events.tail := by
  apply List.mem_append_right
  exact List.mem_flatMap.mpr ⟨l, hl, List.mem_cons_self⟩

theorem links_subset_events (k : ChainKind) (o : Order) (c : Chain) :
    o.s :: c.toList.map (·.event) ⊆ (chain k o c).events.tail := by
  refine List.cons_subset.mpr ⟨List.mem_cons_self, ?_⟩
  intro e he
  obtain ⟨l, hl, rfl⟩ := List.mem_map.mp he
  exact mem_events_of_mem_links hl

theorem offence_subset_events (x : Pattern) : x.offence ⊆ x.events := by
  have hp : [x.p] ⊆ x.events := List.cons_subset.mpr ⟨List.mem_cons_self, List.nil_subset _⟩
  cases x with
  | occurrence k o =>
    cases k with
    | absence => exact hp
    | _ => exact List.nil_subset _
  | boundedExistence => exact List.nil_subset _
  | order k o =>
    cases k with
    | holdUntil => exact List.nil_subset _
    | _ => exact hp
  | chain k o c =>
    cases k with
    | precedenceManyOne | responseOneMany => exact hp
    | precedenceOneMany | responseManyOne =>
      exact List.Subset.trans (links_subset_events _ o c) (List.tail_subset _)

/-- The offence of the pattern takes place, ahead of the closing event, and the other events of the
pattern stay away. -/
structure Enacts (x : Pattern) (scope : Scope) (t : Trace) : Prop where
  closesLater : scope.ClosesLater t
  holds : ∀ i e, x.offence[i]? = some e → t i e.name
  never : ∀ e ∈ x.events, ¬Named x.offence e.name → NeverHolds t e
  remains : ∀ r ∈ scope.closing?, ∀ i ≤ x.offence.length, ¬t i r.name

namespace Enacts

theorem never_p (h : x.Enacts scope t) (hnames : DistinctNames x.events)
    (hoffence : x.offence ⊆ x.events.tail) : NeverHolds t x.p := by
  apply h.never x.p List.mem_cons_self
  rintro ⟨e, he, hname⟩
  exact (List.pairwise_cons.mp hnames).1 e (hoffence he) hname.symm

theorem never_s (h : x.Enacts scope t) (hnames : DistinctNames x.events) {s : Event}
    (hs : x.s? = some s) (hoffence : x.offence ⊆ [x.p]) : NeverHolds t s := by
  have hmem : s ∈ x.events.tail := by
    simp [events, hs]
  apply h.never s (List.tail_subset _ hmem)
  rintro ⟨e, he, hname⟩
  obtain rfl := List.mem_singleton.mp (hoffence he)
  exact (List.pairwise_cons.mp hnames).1 s hmem hname

theorem spans {k : ChainKind} {o : Order} {c : Chain} (h : (chain k o c).Enacts scope t)
    (hoffence : (chain k o c).offence = o.s :: c.toList.map (·.event)) :
    c.Spans t 0 c.length := by
  apply Chain.spans_of_consecutive
  intro i l hl
  apply h.holds
  rw [hoffence, List.getElem?_cons_succ, List.getElem?_map, hl]
  rfl

theorem remains_links {k : ChainKind} {o : Order} {c : Chain} (h : (chain k o c).Enacts scope t)
    (hoffence : (chain k o c).offence = o.s :: c.toList.map (·.event)) :
    ∀ r ∈ scope.closing?, ∀ i ≤ c.length, ¬t i r.name := by
  intro r hr i hi
  apply h.remains r hr
  rw [hoffence, List.length_cons, List.length_map]
  exact Nat.le_succ_of_le hi

theorem not_holds_formula (h : x.Enacts scope t) (hnames : DistinctNames x.events)
    (hx : Logic.ltl.supportsPattern x.kind = true) (hk : x.kind ≠ .occurrence .recurrence) :
    ¬(x.formula scope .untimed).Holds t 0 := by
  have hlater := h.closesLater
  cases x with
  | occurrence k o =>
    cases k with
    | universality =>
      exact hlater.not_holds_throughout (h.never_p hnames (List.nil_subset _) 0)
    | absence => exact hlater.not_holds_throughout (not_not_intro (h.holds 0 o.p rfl))
    | existence =>
      exact Occurrence.not_holds_existence hlater (h.never_p hnames (List.nil_subset _))
    | recurrence => exact absurd rfl hk
    | transientState | steadyState | minimumDuration | maximumDuration => cases hx
  | boundedExistence => cases hx
  | order k o =>
    cases k with
    | precedence =>
      have hs := h.never_s hnames rfl (List.Subset.refl _)
      exact Order.not_holds_precedence hlater (h.holds 0 o.p rfl) (hs 0)
    | holdUntil =>
      have hs := h.never_s hnames rfl (List.nil_subset _)
      exact Order.not_holds_holdUntil hlater (h.never_p hnames (List.nil_subset _) 0) (hs 0)
    | response =>
      have hs := h.never_s hnames rfl (List.Subset.refl _)
      exact Order.not_holds_response hlater (h.holds 0 o.p rfl) hs
    | responseInvariance =>
      have hs := h.never_s hnames rfl (List.Subset.refl _)
      exact Order.not_holds_responseInvariance hlater (h.holds 0 o.p rfl) (hs 0)
  | chain k o c =>
    cases k with
    | precedenceManyOne =>
      have hs := h.never_s hnames rfl (List.Subset.refl _)
      exact Order.not_holds_precedenceManyOne hlater (h.holds 0 o.p rfl) hs
    | responseOneMany =>
      have hs := h.never_s hnames rfl (List.Subset.refl _)
      exact Order.not_holds_responseOneMany hlater (h.holds 0 o.p rfl) hs
    | precedenceOneMany =>
      have hp := h.never_p hnames (links_subset_events _ o c)
      exact Order.not_holds_precedenceOneMany hlater (h.holds 0 o.s rfl) (h.spans rfl)
        (h.remains_links rfl) hp
    | responseManyOne =>
      have hp := h.never_p hnames (links_subset_events _ o c)
      exact Order.not_holds_responseManyOne hlater (h.holds 0 o.s rfl) (h.spans rfl)
        (h.remains_links rfl) hp

end Enacts

theorem not_holds_enactment (hnames : DistinctNames (scope.anchors ++ x.events))
    (hx : Logic.ltl.supportsPattern x.kind = true) (hk : x.kind ≠ .occurrence .recurrence) :
    ¬(x.formula scope .untimed).Holds (enactment scope.opening? scope.closing? x.offence) 0 := by
  have honce := hnames.opensOnce x.offence_subset_events (List.Subset.refl scope.opening?.toList)
  have henacts : x.Enacts scope.unopened (enactment scope.opening? scope.closing? x.offence) := by
    refine ⟨honce.closesLater, fun i e => enactment_event, ?_, ?_⟩
    · intro e he hother
      apply neverHolds_enactment
      rw [named_append, not_or]
      exact ⟨hnames.not_named_anchors he, hother⟩
    · intro r hr i hi
      rw [scope.closing?_unopened] at hr
      refine not_enactment_closing (fun hname => hnames.not_named_opening hr ?_) hi
      exact hname.append_mono (List.Subset.refl _) x.offence_subset_events
  rw [x.holds_iff_unopened honce]
  intro h
  have hevents : DistinctNames x.events := (List.pairwise_append.mp hnames).2.1
  exact henacts.not_holds_formula hevents hx hk (h fun q hq => enactment_opening hq)

end Pattern

end PropertyPatterns
