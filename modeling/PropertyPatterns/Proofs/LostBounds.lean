import PropertyPatterns.Proofs.BoundPlacement

namespace PropertyPatterns

section General

variable {ε α β : Type}

theorem any_toList (p : α → Bool) (o : Option α) : o.toList.any p = o.any p := by
  cases o with
  | none => rfl
  | some a => exact Bool.or_false _

theorem any_congr_of_mem {p q : α → Bool} {as : List α} (h : ∀ a ∈ as, p a = q a) :
    as.any p = as.any q := by
  have hmap : (as.map p).any id = (as.map q).any id := by
    rw [List.map_congr_left h]
  rwa [List.any_map, List.any_map] at hmap

theorem isOk_map (f : α → β) (x : Except ε α) : (x.map f).isOk = x.isOk := by
  cases x <;> rfl

theorem exists_of_map {f : α → β} {x : Except ε α} {b : β} (h : x.map f = .ok b) :
    ∃ a, x = .ok a ∧ f a = b := by
  cases x with
  | error e => cases h
  | ok a => exact ⟨a, rfl, Except.ok.inj h⟩

end General

namespace Bound

/-- There is only a reason why there is no interval. -/
def isLost (b : Bound) : Bool :=
  b.reason?.isSome

theorem isLost_ofInterval (i : Except ShapeError Interval) : (ofInterval i).isLost = !i.isOk := by
  cases i <;> rfl

end Bound

namespace TimeBound

def misfits (b : TimeBound) : Shape → Bool
  | .asWritten => b.isReversed
  | .untilLower => !b.namesLower
  | .exactly | .lessThan | .atMost | .atLeast => b.upper.isUnbounded || b.isReversed

theorem isOk_written (b : TimeBound) : b.written.isOk = !b.isReversed := by
  obtain ⟨limits, unit⟩ := b
  rcases limits with u | l | ⟨l, u | _⟩
  · rfl
  · rfl
  · by_cases h : u < l <;> simp [written, isReversed, h, Except.isOk, Except.toBool]
  · rfl

theorem isOk_width (b : TimeBound) (s : Shape) :
    (b.width s).isOk = !(b.upper.isUnbounded || b.isReversed) := by
  obtain ⟨limits, unit⟩ := b
  rcases limits with (u | _) | l | ⟨l, u | _⟩
  · have h : ¬u < 0 := Nat.not_lt_zero u.toNat
    simp [width, upper, lower, isReversed, Limit.isUnbounded, h, Except.isOk, Except.toBool]
  · rfl
  · rfl
  · by_cases h : u < l <;>
      simp [width, upper, lower, isReversed, Limit.isUnbounded, h, Except.isOk, Except.toBool]
  · rfl

theorem isOk_interval (b : TimeBound) (s : Shape) : (b.interval s).isOk = !b.misfits s := by
  cases s with
  | asWritten => exact b.isOk_written
  | untilLower =>
    rw [interval, misfits]
    cases b.namesLower <;> rfl
  | exactly | lessThan | atMost | atLeast =>
    rw [interval, isOk_map, isOk_width]
    rfl

theorem isLost_ofInterval (b : TimeBound) (s : Shape) :
    (Bound.ofInterval (b.interval s)).isLost = b.misfits s := by
  rw [Bound.isLost_ofInterval, isOk_interval, Bool.not_not]

end TimeBound

def Link.isReversed (l : Link) : Bool :=
  l.timeBound.any (·.isReversed)

def Link.lacksInterval (l : Link) : Bool :=
  l.timeBound.isNone || l.isReversed

/-- The shape cannot do without a bound, or not with this one. -/
def Shape.misfits (s : Shape) (b : Option TimeBound) : Bool :=
  b.elim s.isRequired (·.misfits s)

theorem Shape.misfits_asWritten (b : Option TimeBound) :
    asWritten.misfits b = b.any (·.isReversed) := by
  cases b <;> rfl

namespace Chain

theorem isSome_upperSum? (ls : List Link) :
    (upperSum? ls).isSome = ls.all (·.timeBound.isSome) := by
  induction ls with
  | nil => rfl
  | cons l ls ih =>
    rw [upperSum?, List.all_cons, ← ih]
    cases l.timeBound with
    | none => rfl
    | some b => cases upperSum? ls <;> rfl

theorem isOk_sum (x y : Except ShapeError UInt64) :
    (do let a ← x; let b ← y; return addClamped a b).isOk = (x.isOk && y.isOk) := by
  cases x with
  | error e => rfl
  | ok a => cases y <;> rfl

theorem isOk_lowerSum (ls : List Link) : (lowerSum ls).isOk = !ls.any (·.isReversed) := by
  induction ls with
  | nil => rfl
  | cons l ls ih =>
    obtain ⟨e, z, b⟩ := l
    rw [List.any_cons, Bool.not_or, ← ih]
    cases b with
    | none => exact isOk_sum (.ok 0) (lowerSum ls)
    | some b =>
      have hfirst : (b.written.map (·.lower)).isOk = !b.isReversed := by
        rw [isOk_map, b.isOk_written]
      exact (isOk_sum _ _).trans (congrArg (· && (lowerSum ls).isOk) hfirst)

theorem isOk_outerInterval (outer : Option TimeBound) :
    (outerInterval outer).isOk = !outer.any (·.isReversed) := by
  cases outer with
  | none => rfl
  | some b => exact b.isOk_written

theorem any_lacksInterval (ls : List Link) :
    ls.any (·.lacksInterval) = (!(upperSum? ls).isSome || !(lowerSum ls).isOk) := by
  rw [isSome_upperSum?, isOk_lowerSum, Bool.not_not]
  induction ls with
  | nil => rfl
  | cons l ls ih =>
    rw [List.any_cons, List.any_cons, List.all_cons, ih, Link.lacksInterval, Bool.not_and,
      Option.not_isSome]
    ac_rfl

/-- A window is lost with any bound that it is summed from, and with any bound that is missing. -/
theorem isLost_ofWindow (outer : Option TimeBound) (ls : List Link) :
    (Bound.ofWindow (window? outer ls)).isLost =
      (outer.any (·.isReversed) || ls.any (·.lacksInterval)) := by
  have houter : outer.any (·.isReversed) = !(outerInterval outer).isOk := by
    rw [isOk_outerInterval, Bool.not_not]
  rw [any_lacksInterval, houter, window?]
  cases upperSum? ls with
  | none => cases outerInterval outer <;> rfl
  | some upper =>
    cases lowerSum ls with
    | error e => cases outerInterval outer <;> rfl
    | ok lower => cases outerInterval outer <;> rfl

end Chain

namespace Timing

variable {t : Timing}

theorem any_isLost_principalBound (ht : t ≠ .untimed) (k : PatternKind) (s : Shape)
    (b : Option TimeBound) : (t.principalBound k s b).any Bound.isLost = s.misfits b := by
  cases b with
  | some b =>
    cases t with
    | untimed => exact absurd rfl ht
    | nested | collapsed => exact b.isLost_ofInterval s
  | none =>
    cases t with
    | untimed => exact absurd rfl ht
    | nested | collapsed => cases s <;> rfl

theorem any_isLost_linkBounds_nested (c : Chain) :
    (nested.linkBounds c).any Bound.isLost = c.toList.any (·.isReversed) := by
  rw [linkBounds, List.any_filterMap]
  congr 1
  funext l
  obtain ⟨e, z, b⟩ := l
  cases b with
  | none => rfl
  | some b => exact b.isLost_ofInterval .asWritten

theorem precedenceBound_nested (k : PatternKind) (outer : Option TimeBound) (c : Chain) :
    nested.precedenceBound k outer c = nested.principalBound k .asWritten outer := by
  simp [precedenceBound]

theorem any_isLost_precedenceBound_collapsed (k : PatternKind) (outer : Option TimeBound)
    (c : Chain) :
    (collapsed.precedenceBound k outer c).any Bound.isLost =
      (c.isTimed || outer.any (·.isReversed)) := by
  unfold precedenceBound
  cases hc : c.isTimed with
  | true => rfl
  | false =>
    rw [if_neg (by simp), any_isLost_principalBound (by simp), Shape.misfits_asWritten,
      Bool.false_or]

theorem any_isLost_windowBound_collapsed (outer : Option TimeBound) (c : Chain) :
    (collapsed.windowBound outer c).any Bound.isLost =
      (c.isTimed && (outer.any (·.isReversed) || c.toList.any (·.lacksInterval))) := by
  unfold windowBound
  cases c.isTimed with
  | true => exact Chain.isLost_ofWindow outer c.toList
  | false => rfl

end Timing

namespace Pattern

/-- The pattern's own bound is missing where its kind needs one, or has limits that its kind cannot
use. -/
def misfits (x : Pattern) : Bool :=
  match x.kind, x.timeBound? with
  | .occurrence .transientState, none | .occurrence .minimumDuration, none
  | .occurrence .maximumDuration, none => true
  | _, none => false
  | .occurrence .transientState, some b | .occurrence .steadyState, some b
  | .occurrence .maximumDuration, some b | .occurrence .recurrence, some b =>
    b.upper.isUnbounded || b.isReversed
  | .occurrence .minimumDuration, some b => !b.namesLower
  | _, some b => b.isReversed

/-- A bound of the pattern is lost where links lend their bounds to one window. -/
def misfitsCollapsed : Pattern → Bool
  | chain .precedenceOneMany o c | chain .precedenceManyOne o c =>
    c.isTimed || o.timeBound.any (·.isReversed)
  | chain .responseOneMany o c | chain .responseManyOne o c =>
    o.timeBound.any (·.isReversed) || c.isTimed && c.toList.any (·.lacksInterval)
  | x => x.misfits

theorem misfits_eq (x : Pattern) : x.misfits = x.shape.misfits x.timeBound? := by
  cases x with
  | occurrence k o =>
    obtain ⟨p, b, pr⟩ := o
    cases k with
    | universality | absence | existence | transientState | steadyState | minimumDuration
    | maximumDuration | recurrence => cases b <;> rfl
  | boundedExistence n o =>
    obtain ⟨p, b, pr⟩ := o
    cases b <;> rfl
  | order k o | chain k o c =>
    obtain ⟨p, s, z, b, pr⟩ := o
    cases b <;> rfl

theorem any_isLost_principal {t : Timing} (ht : t ≠ .untimed) (x : Pattern) :
    (x.principal t).any Bound.isLost = x.misfits := by
  rw [misfits_eq]
  exact Timing.any_isLost_principalBound ht _ _ _

theorem any_isLost_annotations_nested (x : Pattern) :
    (x.annotations .nested).any Bound.isLost = (x.misfits || x.links.any (·.isReversed)) := by
  have hprincipal := x.any_isLost_principal (t := .nested) (by simp)
  have hlinks := Timing.any_isLost_linkBounds_nested
  cases x with
  | occurrence | boundedExistence | order =>
    rw [annotations, any_toList, hprincipal]
    exact (Bool.or_false _).symm
  | chain k o c =>
    cases k with
    | precedenceOneMany | precedenceManyOne =>
      rw [annotations, Timing.precedenceBound_nested, List.any_append, any_toList, hlinks]
      exact congrArg (· || _) hprincipal
    | responseOneMany =>
      rw [annotations, List.any_append, List.any_append, any_toList, hprincipal, hlinks]
      exact congrArg _ (Bool.or_false _)
    | responseManyOne =>
      rw [annotations, List.any_append, any_toList, hlinks, Bool.or_comm]
      exact congrArg (· || _) hprincipal

theorem any_isLost_annotations_collapsed (x : Pattern) :
    (x.annotations .collapsed).any Bound.isLost = x.misfitsCollapsed := by
  have hprincipal := x.any_isLost_principal (t := .collapsed) (by simp)
  have hlinks := Timing.linkBounds_of_ne_nested (t := .collapsed) (by simp)
  cases x with
  | occurrence | boundedExistence | order =>
    rw [annotations, any_toList, hprincipal]
    rfl
  | chain k o c =>
    have hmisfits : (chain k o c).misfits = o.timeBound.any (·.isReversed) := by
      rw [misfits_eq]
      exact Shape.misfits_asWritten o.timeBound
    rw [hmisfits] at hprincipal
    cases k with
    | precedenceOneMany | precedenceManyOne =>
      rw [annotations, hlinks, List.append_nil, any_toList,
        Timing.any_isLost_precedenceBound_collapsed]
      rfl
    | responseOneMany =>
      have habsorb (a b c : Bool) : (a || b && (a || c)) = (a || b && c) := by
        revert a b c
        decide
      rw [annotations, hlinks, List.nil_append, List.any_append, any_toList, any_toList, hprincipal,
        Timing.any_isLost_windowBound_collapsed]
      exact habsorb _ _ _
    | responseManyOne =>
      rw [annotations, hlinks, List.nil_append, any_toList, misfitsCollapsed, Timing.windowBound]
      cases c.isTimed with
      | true => exact Chain.isLost_ofWindow o.timeBound c.toList
      | false => exact hprincipal.trans (Bool.or_false _).symm

end Pattern

end PropertyPatterns
