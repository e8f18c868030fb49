import PropertyPatterns.Proofs.PartDocuments

/-!
Pattern documents: which documents describe a pattern, and which fault is reported for the others.
The faults of a document are listed in the order in which its parts are looked at, whether or not
they are reached, and the first of them is the error.
-/

namespace PropertyPatterns

def Pattern.frequency? : Pattern → Option Frequency
  | boundedExistence f _ => some f
  | _ => none

def Pattern.occurrencePart (x : Pattern) : Occurrence :=
  ⟨x.p, x.timeBound?, x.probability?⟩

namespace Request

namespace PatternDocument

variable {d : PatternDocument} {k : PatternKind} {o : Occurrence} {x : Pattern}

def missing {α : Type} (k : PatternKind) (field : String) (o : Option α) : List Error :=
  if o = none then [.missingField .pattern k.tag field] else []

/-- The faults of what patterns of the kind have apart from their event `p` and its bounds. -/
def partFaults (d : PatternDocument) : PatternKind → List Error
  | .occurrence _ => []
  | .boundedExistence => missing .boundedExistence "frequency" d.frequency ++
      if d.frequency = some 0 then [.construction .zeroFrequency] else []
  | .order k => missing (.order k) "s_event" d.sEvent
  | .chain k => missing (.chain k) "s_event" d.sEvent ++ d.chainEvents.flatMap (·.faults) ++
      if d.chainEvents = [] then [.construction .emptyChain] else []

/-- Without a kind the document cannot be looked at any further. -/
def faults (d : PatternDocument) : List Error :=
  match PatternKind.ofTag? d.type with
  | none => [.construction (.unknownTag .pattern d.type)]
  | some k =>
    missing k "p_event" d.pEvent ++ d.timeBound.toList.flatMap (·.faults) ++
      d.probabilityBound.toList.flatMap (·.faults) ++ d.partFaults k

def Relates (d : PatternDocument) (r : Order) : Prop :=
  d.sEvent.map (·.event) = some r.s ∧ d.constraintEvent.map (·.event) = r.constraint

/-- The document has what the pattern is made of, apart from its event `p` and its bounds. -/
def Completes (d : PatternDocument) : Pattern → Prop
  | .occurrence _ _ => True
  | .boundedExistence f _ => d.frequency = some f.times
  | .order _ r => d.Relates r
  | .chain _ r c =>
    d.Relates r ∧ List.Forall₂ LinkDocument.Describes d.chainEvents c.toList

structure Describes (d : PatternDocument) (x : Pattern) : Prop where
  kind : x.kind.tag = d.type
  p : d.pEvent.map (·.event) = some x.p
  timeBound : Option.Rel TimeBoundDocument.Describes d.timeBound x.timeBound?
  probability : Option.Rel ProbabilityDocument.Describes d.probabilityBound x.probability?
  completes : d.Completes x

def ofPattern (x : Pattern) : PatternDocument where
  type := x.kind.tag
  pEvent := some (.ofEvent x.p)
  sEvent := x.s?.map .ofEvent
  constraintEvent := x.constraint?.map .ofEvent
  timeBound := x.timeBound?.map .ofBound
  probabilityBound := x.probability?.map .ofBound
  frequency := x.frequency?.map (·.times)
  chainEvents := x.links.map .ofLink

theorem needed_eq_ok {α : Type} {field : String} {o : Option α} {a : α} :
    needed k field o = .ok a ↔ o = some a := by
  simp [needed, elim_eq_ok]

theorem order_eq_ok_iff {r : Order} :
    d.order k o = .ok r ↔ ⟨r.p, r.timeBound, r.probability⟩ = o ∧ d.Relates r := by
  obtain ⟨p, s, constraint, b, pr⟩ := r
  simp only [order, bind_eq_ok, pure_eq_ok, needed_eq_ok]
  constructor
  · rintro ⟨e, he, h⟩
    cases h
    refine ⟨rfl, ?_, rfl⟩
    rw [he]
    rfl
  · rintro ⟨rfl, hs, rfl⟩
    obtain ⟨e, he, rfl⟩ := Option.map_eq_some_iff.mp hs
    exact ⟨e, he, rfl⟩

theorem complete_occurrence (k : OccurrenceKind) :
    d.complete (.occurrence k) o = .ok (.occurrence k o) := rfl

theorem complete_boundedExistence :
    d.complete .boundedExistence o =
      needed .boundedExistence "frequency" d.frequency >>= fun n =>
        (Pattern.counted n o).mapError .construction := rfl

theorem complete_order (k : OrderKind) :
    d.complete (.order k) o = d.order (.order k) o >>= fun r => pure (.order k r) := rfl

theorem complete_chain (k : ChainKind) :
    d.complete (.chain k) o = d.order (.chain k) o >>= fun r =>
      d.chainEvents.mapM (·.link) >>= fun ls =>
        (Chain.ofList ls).mapError .construction >>= fun c => pure (.chain k r c) := rfl

theorem complete_eq_ok_iff :
    d.complete k o = .ok x ↔ x.kind = k ∧ x.occurrencePart = o ∧ d.Completes x := by
  cases k with
  | occurrence k =>
    rw [complete_occurrence]
    constructor
    · rintro ⟨⟩
      exact ⟨rfl, rfl, trivial⟩
    · rintro ⟨hk, rfl, -⟩
      cases x <;> cases hk
      rfl
  | boundedExistence =>
    simp only [complete_boundedExistence, bind_eq_ok, needed_eq_ok, mapError_eq_ok,
      Pattern.counted_eq_ok]
    constructor
    · rintro ⟨n, hn, f, rfl, rfl⟩
      exact ⟨rfl, rfl, hn⟩
    · rintro ⟨hk, rfl, hx⟩
      cases x <;> cases hk
      exact ⟨_, hx, _, rfl, rfl⟩
  | order k =>
    simp only [complete_order, bind_eq_ok, pure_eq_ok, order_eq_ok_iff]
    constructor
    · rintro ⟨r, ⟨rfl, hr⟩, rfl⟩
      exact ⟨rfl, rfl, hr⟩
    · rintro ⟨hk, rfl, hx⟩
      cases x <;> cases hk
      exact ⟨_, ⟨rfl, hx⟩, rfl⟩
  | chain k =>
    simp only [complete_chain, bind_eq_ok, pure_eq_ok, order_eq_ok_iff, mapError_eq_ok,
      Chain.ofList_eq_ok, mapM_list_eq_ok, LinkDocument.link_eq_ok_iff]
    constructor
    · rintro ⟨r, ⟨rfl, hr⟩, ls, hls, c, rfl, rfl⟩
      exact ⟨rfl, rfl, hr, hls⟩
    · rintro ⟨hk, rfl, hx⟩
      cases x <;> cases hk
      exact ⟨_, ⟨rfl, hx.1⟩, _, hx.2, _, rfl, rfl⟩

theorem pattern_eq_ok_iff : d.pattern = .ok x ↔ d.Describes x := by
  simp only [pattern, bind_eq_ok, mapError_eq_ok, PatternKind.ofTag_eq_ok, needed_eq_ok,
    mapM_option_eq_ok, TimeBoundDocument.timeBound_eq_ok_iff,
    ProbabilityDocument.bound_eq_ok_iff, complete_eq_ok_iff]
  constructor
  · rintro ⟨k, hk, p, hp, b, hb, pr, hpr, rfl, hpart, hx⟩
    obtain ⟨hevent, rfl, rfl⟩ := Occurrence.mk.inj hpart
    refine ⟨hk, ?_, hb, hpr, hx⟩
    rw [hp, hevent]
    rfl
  · intro h
    obtain ⟨p, hp, hevent⟩ := Option.map_eq_some_iff.mp h.p
    refine ⟨x.kind, h.kind, p, hp, _, h.timeBound, _, h.probability, rfl, ?_, h.completes⟩
    rw [hevent]
    rfl

theorem blames_needed {α : Type} (k : PatternKind) (field : String) (o : Option α) :
    Blames (missing k field o) (needed k field o) :=
  .elim_ok o _ id

theorem blames_order (d : PatternDocument) (k : PatternKind) (o : Occurrence) :
    Blames (missing k "s_event" d.sEvent) (d.order k o) :=
  (blames_needed k "s_event" d.sEvent).bind_pure _

theorem blames_complete (d : PatternDocument) (k : PatternKind) (o : Occurrence) :
    Blames (d.partFaults k) (d.complete k o) := by
  cases k with
  | occurrence k => exact Blames.ok (Pattern.occurrence k o)
  | boundedExistence =>
    rw [complete_boundedExistence]
    apply (blames_needed _ _ _).bind
    intro n hn
    simpa [needed_eq_ok.mp hn, apply_ite (List.map Error.construction)] using
      (Pattern.blames_counted n o).mapError Error.construction
  | order k =>
    rw [complete_order]
    exact (d.blames_order (.order k) o).bind_pure _
  | chain k =>
    rw [complete_chain, partFaults, List.append_assoc]
    apply (d.blames_order (.chain k) o).bind
    intro r _
    apply (Blames.mapM_list LinkDocument.blames_link d.chainEvents).bind
    intro ls hls
    have hlength : d.chainEvents.length = ls.length := (mapM_list_eq_ok.mp hls).length_eq
    have hnil : d.chainEvents = [] ↔ ls = [] := by
      rw [← List.length_eq_zero_iff, hlength, List.length_eq_zero_iff]
    simpa [hnil, apply_ite (List.map Error.construction)] using
      ((Chain.blames_ofList ls).mapError Error.construction).bind_pure (Pattern.chain k r)

theorem pattern_of_ofTag? (hk : PatternKind.ofTag? d.type = some k) :
    d.pattern = needed k "p_event" d.pEvent >>= fun p =>
      d.timeBound.mapM (·.timeBound) >>= fun b =>
        d.probabilityBound.mapM (·.bound) >>= fun pr => d.complete k ⟨p.event, b, pr⟩ := by
  rw [pattern, PatternKind.ofTag, hk]
  rfl

theorem blames_pattern (d : PatternDocument) : Blames d.faults d.pattern := by
  cases hk : PatternKind.ofTag? d.type with
  | none =>
    rw [pattern, PatternKind.ofTag, faults, hk]
    exact .error _ []
  | some k =>
    simp only [pattern_of_ofTag? hk, faults, hk, List.append_assoc]
    apply (blames_needed k "p_event" d.pEvent).bind
    intro p _
    apply (Blames.mapM_option TimeBoundDocument.blames_timeBound d.timeBound).bind
    intro b _
    apply (Blames.mapM_option ProbabilityDocument.blames_bound d.probabilityBound).bind
    intro pr _
    exact d.blames_complete k ⟨p.event, b, pr⟩

theorem describes_ofPattern (x : Pattern) : (ofPattern x).Describes x where
  kind := rfl
  p := rfl
  timeBound := rel_map_self TimeBoundDocument.describes_ofBound
  probability := rel_map_self ProbabilityDocument.describes_ofBound
  completes := by
    cases x with
    | occurrence k o => trivial
    | boundedExistence f o => rfl
    | order k r => exact ⟨rfl, map_event_ofEvent r.constraint⟩
    | chain k r c =>
      refine ⟨⟨rfl, map_event_ofEvent r.constraint⟩, List.forall₂_map_left_iff.mpr ?_⟩
      exact List.forall₂_same.mpr fun l _ => LinkDocument.describes_ofLink l

theorem wrongFamily_notMem_partFaults {k' : PatternKind} {e : PatternFamily} :
    Error.construction (.wrongFamily k e) ∉ d.partFaults k' := by
  cases k' <;>
    simp [partFaults, missing, LinkDocument.faults, TimeBoundDocument.wrongFamily_notMem_faults]

theorem wrongFamily_notMem_faults {e : PatternFamily} :
    Error.construction (.wrongFamily k e) ∉ d.faults := by
  unfold faults
  split
  · simp
  · simp [missing, wrongFamily_notMem_partFaults, TimeBoundDocument.wrongFamily_notMem_faults,
      ProbabilityDocument.wrongFamily_notMem_faults]

/-- A document gives the pattern that it describes, or else the first of its faults, which is never
that a kind and its parts are of different families. Every pattern has a document. -/
theorem pattern_describes_or_first_fault :
    (∀ d : PatternDocument,
      (∀ e, d.pattern = .error e ↔ d.faults.head? = some e) ∧
      (∀ x, d.pattern = .ok x ↔ d.Describes x) ∧
      ((∃ x, d.pattern = .ok x) ↔ d.faults = []) ∧
      ∀ k f, d.pattern ≠ .error (.construction (.wrongFamily k f))) ∧
    ∀ x : Pattern, (ofPattern x).pattern = .ok x := by
  constructor
  · intro d
    have herror (e : Error) := d.blames_pattern.eq_error_iff (e := e)
    refine ⟨herror, fun x => pattern_eq_ok_iff, d.blames_pattern.exists_eq_ok_iff, ?_⟩
    intro k f h
    exact wrongFamily_notMem_faults (List.mem_of_mem_head? ((herror _).mp h))
  · intro x
    exact pattern_eq_ok_iff.mpr (describes_ofPattern x)

/-- A missing event comes ahead of a chain without links. -/
example :
    (⟨"ResponseChain1N", some ⟨"p", ""⟩, none, none, none, none, none, []⟩ :
      PatternDocument).pattern = .error (.missingField .pattern "ResponseChain1N" "s_event") := by
  rfl

end PatternDocument

end Request

end PropertyPatterns
