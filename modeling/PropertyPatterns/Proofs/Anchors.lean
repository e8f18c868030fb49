import PropertyPatterns.Request.Property

namespace PropertyPatterns

namespace ScopeKind

def opens : ScopeKind → Bool
  | globally | before => false
  | after | between | afterUntil => true

def closes : ScopeKind → Bool
  | globally | after => false
  | before | between | afterUntil => true

theorem arity_eq (k : ScopeKind) : k.arity = k.opens.toNat + k.closes.toNat := by
  cases k <;> rfl

end ScopeKind

theorem length_toList_eq_toNat {α : Type} (o : Option α) : o.toList.length = o.isSome.toNat := by
  cases o <;> rfl

theorem eq_of_toList_eq {α : Type} {o o' : Option α} (h : o.toList = o'.toList) : o = o' := by
  have hhead := congrArg List.head? h
  rwa [Option.head?_toList, Option.head?_toList] at hhead

namespace Scope

variable {k : ScopeKind} {es : List Event} {s : Scope} {o c : Option Event}

theorem isSome_opening? (s : Scope) : s.opening?.isSome = s.kind.opens := by
  cases s <;> rfl

theorem kind_of_ofAnchors? (h : ofAnchors? k es = some s) : s.kind = k ∧ s.anchors = es := by
  unfold ofAnchors? at h
  split at h <;> cases h <;> exact ⟨rfl, rfl⟩

theorem ofAnchors_eq_ok_iff : ofAnchors k es = .ok s ↔ s.kind = k ∧ s.anchors = es := by
  constructor
  · intro h
    apply kind_of_ofAnchors?
    unfold ofAnchors at h
    cases hs : ofAnchors? k es with
    | none => rw [hs] at h; cases h
    | some s' => rw [hs] at h; cases h; rfl
  · rintro ⟨rfl, rfl⟩
    rw [ofAnchors, ofAnchors?_anchors]
    rfl

theorem exists_anchors (h : es.length = k.arity) : ∃ s : Scope, s.kind = k ∧ s.anchors = es := by
  match k, es, h with
  | .globally, [], _ => exact ⟨globally, rfl, rfl⟩
  | .before, [r], _ => exact ⟨before r, rfl, rfl⟩
  | .after, [q], _ => exact ⟨after q, rfl, rfl⟩
  | .between, [q, r], _ => exact ⟨between q r, rfl, rfl⟩
  | .afterUntil, [q, r], _ => exact ⟨afterUntil q r, rfl, rfl⟩

theorem ofAnchors_of_length_ne (h : es.length ≠ k.arity) :
    ofAnchors k es = .error (.wrongArity k es.length) := by
  have hnone : ofAnchors? k es = none := by
    rw [Option.eq_none_iff_forall_not_mem]
    intro s hs
    obtain ⟨rfl, rfl⟩ := kind_of_ofAnchors? hs
    exact h s.length_anchors
  rw [ofAnchors, hnone]
  rfl

theorem opening?_of_anchors (h : s.anchors = o.toList ++ c.toList) (ho : o.isSome = s.kind.opens) :
    s.opening? = o ∧ s.closing? = c := by
  have hlength : s.opening?.toList.length = o.toList.length := by
    rw [length_toList_eq_toNat, length_toList_eq_toNat, s.isSome_opening?, ho]
  obtain ⟨hopening, hclosing⟩ := List.append_inj h hlength
  exact ⟨eq_of_toList_eq hopening, eq_of_toList_eq hclosing⟩

end Scope

namespace Request.ScopeDocument

variable {d : ScopeDocument} {k : ScopeKind} {s : Scope}

def anchors (d : ScopeDocument) : List Event :=
  (d.qEvent.map (·.event)).toList ++ (d.rEvent.map (·.event)).toList

/-- The document has exactly the events that scopes of the kind take. -/
def Names (d : ScopeDocument) (k : ScopeKind) : Prop :=
  d.qEvent.isSome = k.opens ∧ d.rEvent.isSome = k.closes

/-- The document has just one event, and it is the one that scopes of the kind do not take, although
they take the other. -/
def Swaps (d : ScopeDocument) (k : ScopeKind) : Prop :=
  k.opens ≠ k.closes ∧ d.qEvent.isSome = k.closes ∧ d.rEvent.isSome = k.opens

/-- The document makes a scope of the kind, opened by `o` and closed by `c`. -/
def Makes (d : ScopeDocument) (k : ScopeKind) (o c : Option EventDocument) : Prop :=
  ∃ s, d.scope = .ok s ∧ s.kind = k ∧ s.opening? = o.map (·.event) ∧ s.closing? = c.map (·.event)

/-- A document with the events of its kind makes a scope in which each event has the part it is
named for, and any other document is refused. -/
def Respects (d : ScopeDocument) (k : ScopeKind) : Prop :=
  (d.Names k → d.Makes k d.qEvent d.rEvent) ∧
    (¬d.Names k → ∃ n, d.scope = .error (.construction (.wrongArity k n)))

theorem length_anchors (d : ScopeDocument) :
    d.anchors.length = d.qEvent.isSome.toNat + d.rEvent.isSome.toNat := by
  simp only [anchors, List.length_append, length_toList_eq_toNat, Option.isSome_map]

theorem length_anchors_eq_arity_iff (d : ScopeDocument) (k : ScopeKind) :
    d.anchors.length = k.arity ↔ d.Names k ∨ d.Swaps k := by
  rw [d.length_anchors, k.arity_eq, Names, Swaps]
  generalize d.qEvent.isSome = q, d.rEvent.isSome = r, k.opens = o, k.closes = c
  revert q r o c
  decide

theorem scope_eq (hk : ScopeKind.ofTag? d.type = some k) :
    d.scope = (Scope.ofAnchors k d.anchors).mapError .construction := by
  have hanchors : (d.qEvent.toList ++ d.rEvent.toList).map (·.event) = d.anchors := by
    rw [List.map_append, ← Option.toList_map, ← Option.toList_map, anchors]
  unfold scope
  rw [ScopeKind.ofTag, hk, hanchors]
  rfl

theorem scope_of_length_ne (hk : ScopeKind.ofTag? d.type = some k)
    (h : d.anchors.length ≠ k.arity) :
    d.scope = .error (.construction (.wrongArity k d.anchors.length)) := by
  rw [scope_eq hk, Scope.ofAnchors_of_length_ne h]
  rfl

theorem exists_scope (hk : ScopeKind.ofTag? d.type = some k) (h : d.anchors.length = k.arity) :
    ∃ s, d.scope = .ok s ∧ s.kind = k ∧ s.anchors = d.anchors := by
  obtain ⟨s, hs⟩ := Scope.exists_anchors h
  refine ⟨s, ?_, hs⟩
  rw [scope_eq hk, Scope.ofAnchors_eq_ok_iff.mpr hs]
  rfl

theorem makes_of_anchors {o c : Option EventDocument} (hk : ScopeKind.ofTag? d.type = some k)
    (h : d.anchors.length = k.arity) (ho : o.isSome = k.opens)
    (hanchors : d.anchors = (o.map (·.event)).toList ++ (c.map (·.event)).toList) :
    d.Makes k o c := by
  obtain ⟨s, hs, rfl, hevents⟩ := exists_scope hk h
  refine ⟨s, hs, rfl, ?_⟩
  apply Scope.opening?_of_anchors (hevents.trans hanchors)
  rw [Option.isSome_map, ho]

theorem makes_of_names (hk : ScopeKind.ofTag? d.type = some k) (h : d.Names k) :
    d.Makes k d.qEvent d.rEvent :=
  makes_of_anchors hk ((d.length_anchors_eq_arity_iff k).mpr (.inl h)) h.1 rfl

theorem makes_of_swaps (hk : ScopeKind.ofTag? d.type = some k) (h : d.Swaps k) :
    d.Makes k d.rEvent d.qEvent := by
  apply makes_of_anchors hk ((d.length_anchors_eq_arity_iff k).mpr (.inr h)) h.2.2
  obtain ⟨hne, hq, hr⟩ := h
  -- one of the two lists is empty, so their order is immaterial
  rw [anchors]
  cases hd : d.qEvent with
  | none => simp
  | some q =>
    have : d.rEvent = none := by
      rw [← Option.not_isSome_iff_eq_none, hr]
      intro hopens
      rw [hd] at hq
      exact hne (hopens.trans hq)
    simp [this]

theorem Swaps.not_names (h : d.Swaps k) : ¬d.Names k := by
  rintro ⟨hq, -⟩
  exact h.1 (hq.symm.trans h.2.1)

/-- Scopes have the anchors that the document names for them, unless its one event is named for the
other anchor: then it is taken all the same. -/
theorem respects_iff (hk : ScopeKind.ofTag? d.type = some k) :
    (d.Respects k ↔ ¬d.Swaps k) ∧ (¬d.Respects k → d.Makes k d.rEvent d.qEvent) := by
  have hiff : d.Respects k ↔ ¬d.Swaps k := by
    constructor
    · intro h hswaps
      obtain ⟨s, hs, -⟩ := makes_of_swaps hk hswaps
      obtain ⟨n, hn⟩ := h.2 hswaps.not_names
      rw [hn] at hs
      cases hs
    · intro hswaps
      refine ⟨makes_of_names hk, ?_⟩
      intro hnames
      refine ⟨_, scope_of_length_ne hk ?_⟩
      rw [Ne, length_anchors_eq_arity_iff]
      rintro (h | h)
      · exact hnames h
      · exact hswaps h
  refine ⟨hiff, ?_⟩
  intro h
  exact makes_of_swaps hk (Classical.not_not.mp (mt hiff.mpr h))

theorem respects_iff_between :
    let d : ScopeDocument := ⟨"BetweenQandR", some ⟨"q", ""⟩, some ⟨"r", ""⟩⟩
    ScopeKind.ofTag? d.type = some .between ∧ ¬d.Swaps .between ∧ d.Respects .between := by
  intro d
  have hswaps : ¬d.Swaps .between := fun h => h.1 rfl
  exact ⟨by decide, hswaps, (respects_iff (by decide)).1.mpr hswaps⟩

/-- A document for a scope that only `r` closes has just a `q`. It is accepted, and `q` closes the
scope. -/
theorem not_respects_before :
    let d : ScopeDocument := ⟨"BeforeR", some ⟨"q", ""⟩, none⟩
    ScopeKind.ofTag? d.type = some .before ∧ ¬d.Names .before ∧
      d.scope = .ok (.before ⟨"q", ""⟩) ∧ ¬d.Respects .before := by
  intro d
  have hnames : ¬d.Names .before := by
    rintro ⟨h, -⟩
    cases h
  refine ⟨by decide, hnames, rfl, ?_⟩
  intro h
  obtain ⟨n, hn⟩ := h.2 hnames
  cases hn

end Request.ScopeDocument

end PropertyPatterns
