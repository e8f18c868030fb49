import PropertyPatterns.Proofs.CheckedConstructions
import PropertyPatterns.Request.Property

namespace PropertyPatterns.Request

namespace TimeBoundDocument

def faults (d : TimeBoundDocument) : List Error :=
  (if d.type ∉ ["Upper", "Lower", "Interval"] then
    [.construction (.unknownTag .timeBound d.type)] else []) ++
  if d.type ∈ ["Lower", "Interval"] ∧ d.lowerLimit = none then
    [.missingField .timeBound d.type "lower_limit"] else []

/-- The document has the type of the limits and their values; an upper limit is absent where they
are unbounded. -/
def Gives (d : TimeBoundDocument) : Limits → Prop
  | .upper u => d.type = "Upper" ∧ d.upperLimit = u.finite?
  | .lower l => d.type = "Lower" ∧ d.lowerLimit = some l
  | .interval l u => d.type = "Interval" ∧ d.lowerLimit = some l ∧ d.upperLimit = u.finite?

def Describes (d : TimeBoundDocument) (b : TimeBound) : Prop :=
  d.Gives b.limits ∧ d.unit.getD TimeBound.defaultUnit = b.unit

def ofBound (b : TimeBound) : TimeBoundDocument :=
  match b.limits with
  | .upper u => ⟨"Upper", none, u.finite?, some b.unit⟩
  | .lower l => ⟨"Lower", some l, none, some b.unit⟩
  | .interval l u => ⟨"Interval", some l, u.finite?, some b.unit⟩

theorem blames_limits (d : TimeBoundDocument) : Blames d.faults d.limits := by
  have hlower (make : UInt64 → Limits) :=
    Blames.elim_ok d.lowerLimit (Error.missingField .timeBound d.type "lower_limit") make
  unfold limits
  split
  case h_1 htype => simpa [faults, htype] using Blames.ok _
  case h_2 htype => simpa [faults, htype] using hlower .lower
  case h_3 htype => simpa [faults, htype] using hlower fun l => .interval l _
  case h_4 hupper hlower hinterval =>
    have htype : d.type ≠ "Upper" ∧ d.type ≠ "Lower" ∧ d.type ≠ "Interval" :=
      ⟨hupper, hlower, hinterval⟩
    simpa [faults, htype] using Blames.error _ []

theorem wrongFamily_notMem_faults {d : TimeBoundDocument} {k : PatternKind} {e : PatternFamily} :
    Error.construction (.wrongFamily k e) ∉ d.faults := by
  simp [faults]

theorem blames_timeBound (d : TimeBoundDocument) : Blames d.faults d.timeBound :=
  d.blames_limits.bind_pure _

theorem upperLimit_elim_eq_iff {d : TimeBoundDocument} {u : Limit} :
    d.upperLimit.elim .unbounded .finite = u ↔ d.upperLimit = u.finite? := by
  cases d.upperLimit <;> cases u <;> simp [Limit.finite?]

theorem limits_eq_ok_iff {d : TimeBoundDocument} {l : Limits} : d.limits = .ok l ↔ d.Gives l := by
  unfold limits
  split
  case h_1 htype =>
    cases l <;> simp [Gives, htype, upperLimit_elim_eq_iff]
  case h_2 htype =>
    cases l <;> simp [Gives, htype, elim_eq_ok]
  case h_3 htype =>
    cases l <;> simp [Gives, htype, elim_eq_ok, upperLimit_elim_eq_iff]
  case h_4 hupper hlower hinterval =>
    have htype : d.type ≠ "Upper" ∧ d.type ≠ "Lower" ∧ d.type ≠ "Interval" :=
      ⟨hupper, hlower, hinterval⟩
    cases l <;> simp [Gives, htype]

theorem timeBound_eq_ok_iff {d : TimeBoundDocument} {b : TimeBound} :
    d.timeBound = .ok b ↔ d.Describes b := by
  simp only [timeBound, bind_eq_ok, pure_eq_ok, limits_eq_ok_iff, Describes]
  constructor
  · rintro ⟨l, hl, rfl⟩
    exact ⟨hl, rfl⟩
  · rintro ⟨hl, hunit⟩
    refine ⟨b.limits, hl, ?_⟩
    rw [hunit]

theorem describes_ofBound (b : TimeBound) : (ofBound b).Describes b := by
  obtain ⟨limits, unit⟩ := b
  cases limits with
  | upper u => exact ⟨⟨rfl, rfl⟩, rfl⟩
  | lower l => exact ⟨⟨rfl, rfl⟩, rfl⟩
  | interval l u => exact ⟨⟨rfl, rfl, rfl⟩, rfl⟩

end TimeBoundDocument

namespace ProbabilityDocument

def faults (d : ProbabilityDocument) : List Error :=
  (if Comparison.ofTag? d.type = none then
    [.construction (.unknownTag .probabilityBound d.type)] else []) ++
  if d.probability.isProbability then [] else [.construction (.notAProbability d.probability)]

def Describes (d : ProbabilityDocument) (b : ProbabilityBound) : Prop :=
  b.comparison.tag = d.type ∧ b.threshold = d.probability

def ofBound (b : ProbabilityBound) : ProbabilityDocument :=
  ⟨b.comparison.tag, b.threshold⟩

theorem wrongFamily_notMem_faults {d : ProbabilityDocument} {k : PatternKind} {e : PatternFamily} :
    Error.construction (.wrongFamily k e) ∉ d.faults := by
  simp [faults]

theorem blames_bound (d : ProbabilityDocument) : Blames d.faults d.bound := by
  have htag := (Comparison.blames_ofTag d.type).mapError Error.construction
  have hbound := htag.bind fun c _ =>
    (ProbabilityBound.blames_ofThreshold c d.probability).mapError Error.construction
  simpa only [faults, bound, apply_ite (List.map Error.construction), List.map_cons, List.map_nil]
    using hbound

theorem bound_eq_ok_iff {d : ProbabilityDocument} {b : ProbabilityBound} :
    d.bound = .ok b ↔ d.Describes b := by
  simp only [bound, bind_eq_ok, mapError_eq_ok, Comparison.ofTag_eq_ok,
    ProbabilityBound.ofThreshold_eq_ok, Describes]
  constructor
  · rintro ⟨c, hc, rfl, hb⟩
    exact ⟨hc, hb⟩
  · rintro ⟨hc, hb⟩
    exact ⟨b.comparison, hc, rfl, hb⟩

theorem describes_ofBound (b : ProbabilityBound) : (ofBound b).Describes b :=
  ⟨rfl, rfl⟩

end ProbabilityDocument

def EventDocument.ofEvent (e : Event) : EventDocument :=
  ⟨e.name, e.specification⟩

theorem map_event_ofEvent (o : Option Event) : (o.map EventDocument.ofEvent).map (·.event) = o := by
  cases o <;> rfl

namespace LinkDocument

/-- Events have no faults, so those of a link are those of its time bound. -/
def faults (d : LinkDocument) : List Error :=
  d.timeBound.toList.flatMap (·.faults)

structure Describes (d : LinkDocument) (l : Link) : Prop where
  event : d.event.event = l.event
  constraint : d.constraintEvent.map (·.event) = l.constraint
  timeBound : Option.Rel TimeBoundDocument.Describes d.timeBound l.timeBound

def ofLink (l : Link) : LinkDocument :=
  ⟨.ofEvent l.event, l.constraint.map .ofEvent, l.timeBound.map .ofBound⟩

theorem blames_link (d : LinkDocument) : Blames d.faults d.link :=
  (Blames.mapM_option TimeBoundDocument.blames_timeBound d.timeBound).bind_pure _

theorem link_eq_ok_iff {d : LinkDocument} {l : Link} : d.link = .ok l ↔ d.Describes l := by
  simp only [link, bind_eq_ok, pure_eq_ok, mapM_option_eq_ok, TimeBoundDocument.timeBound_eq_ok_iff]
  constructor
  · rintro ⟨b, hb, rfl⟩
    exact ⟨rfl, rfl, hb⟩
  · rintro ⟨hevent, hconstraint, hb⟩
    refine ⟨l.timeBound, hb, ?_⟩
    rw [hevent, hconstraint]

theorem describes_ofLink (l : Link) : (ofLink l).Describes l where
  event := rfl
  constraint := map_event_ofEvent l.constraint
  timeBound := rel_map_self TimeBoundDocument.describes_ofBound

end LinkDocument

end PropertyPatterns.Request
