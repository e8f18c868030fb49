import PropertyPatterns.Catalogue.Cell
import PropertyPatterns.Proofs.DerivedBounds

namespace PropertyPatterns

namespace Formula

@[simp] theorem bounds_event (e : Event) : (event e).bounds = [] := rfl

@[simp] theorem bounds_absent (e : Event) : (absent e).bounds = [] := rfl

@[simp] theorem bounds_neg (f : Formula) : (neg f).bounds = f.bounds := rfl

@[simp] theorem bounds_connect (c : Connective) (f g : Formula) :
    (connect c f g).bounds = f.bounds ++ g.bounds := rfl

@[simp] theorem bounds_modal (m : Modality) (b : Option Bound) (f : Formula) :
    (modal m b f).bounds = b.toList ++ f.bounds := rfl

@[simp] theorem bounds_wait (s : Strength) (b : Option Bound) (f g : Formula) :
    (wait s b f g).bounds = b.toList ++ f.bounds ++ g.bounds := rfl

@[simp] theorem bounds_conjunction (f : Formula) (fs : List Formula) :
    (conjunction f fs).bounds = f.bounds ++ fs.flatMap bounds := by
  induction fs generalizing f with
  | nil => exact (List.append_nil _).symm
  | cons g gs ih =>
    rw [List.flatMap_cons, ← List.append_assoc]
    exact ih (and f g)

@[simp] theorem bounds_withGuard (f : Formula) (g : Option Formula) :
    (withGuard f g).bounds = f.bounds ++ g.toList.flatMap bounds := by
  cases g with
  | none | some => simp [withGuard]

@[simp] theorem bounds_reach (g : Option Formula) (b : Option Bound) (f : Formula) :
    (reach g b f).bounds = b.toList ++ g.toList.flatMap bounds ++ f.bounds := by
  cases g with
  | none | some => simp [reach]

@[simp] theorem bounds_closedWindow (q r : Event) : (closedWindow q r).bounds = [] := rfl

@[simp] theorem bounds_openWindow (q r : Event) : (openWindow q r).bounds = [] := rfl

@[simp] theorem bounds_atFirst (q : Event) (f : Formula) : (atFirst q f).bounds = f.bounds := rfl

end Formula

open Formula

namespace Scope

@[simp] theorem bounds_throughout (scope : Scope) (b : Option Bound) (f : Formula) :
    (scope.throughout b f).bounds = b.toList ++ f.bounds := by
  cases scope with
  | globally | before | after | between | afterUntil => simp [throughout]

theorem bounds_answering (scope : Scope) {free : Formula} {bounded : Event → Formula}
    {bs : List Bound} (hfree : free.bounds = bs) (hbounded : ∀ r, (bounded r).bounds = bs) :
    (scope.answering free bounded).bounds = bs := by
  cases scope with
  | globally | before | after | between | afterUntil => simp [answering, hfree, hbounded]

end Scope

namespace Occurrence

theorem bounds_existence (scope : Scope) (p : Event) (i : Option Bound) :
    (existence scope p i).bounds = i.toList := by
  cases scope with
  | globally | before | after | between | afterUntil => simp [existence, inside]

theorem bounds_boundedStretches (p : Event) (n : Nat) : (boundedStretches p n).bounds = [] := by
  induction n with
  | zero => rfl
  | succ n ih => simp [boundedStretches, ih]

theorem bounds_boundedStretchesBefore (s : Strength) (p r : Event) (n : Nat) :
    (boundedStretchesBefore s p r n).bounds = [] := by
  induction n with
  | zero => rfl
  | succ n ih => simp [boundedStretchesBefore, inside, ih]

theorem bounds_setBound_boundedStretches (p : Event) (n : Nat) (i : Option Bound) :
    ((boundedStretches p n).setBound i).bounds = i.toList := by
  cases n with
  | zero | succ => simp [boundedStretches, setBound, bounds_boundedStretches]

theorem bounds_setBound_boundedStretchesBefore (s : Strength) (p r : Event) (n : Nat)
    (i : Option Bound) : ((boundedStretchesBefore s p r n).setBound i).bounds = i.toList := by
  cases n with
  | zero | succ =>
    simp [boundedStretchesBefore, inside, setBound, bounds_boundedStretchesBefore]

theorem bounds_boundedExistence (scope : Scope) (p : Event) (n : Nat) (i : Option Bound) :
    (boundedExistence scope p n i).bounds = i.toList := by
  cases scope with
  | globally | before | after | between | afterUntil =>
    simp [boundedExistence, bounds_setBound_boundedStretches,
      bounds_setBound_boundedStretchesBefore]

theorem bounds_transientState (scope : Scope) (p : Event) (i : Option Bound) :
    (transientState scope p i).bounds = i.toList := by
  cases scope with
  | globally | before | after | between | afterUntil => simp [transientState, inside]

theorem bounds_steadyState (scope : Scope) (p : Event) (i : Option Bound) :
    (steadyState scope p i).bounds = i.toList := by
  cases scope with
  | globally | before | after | between | afterUntil => simp [steadyState, settles]

theorem bounds_recurrence (scope : Scope) (p : Event) (i : Option Bound) :
    (recurrence scope p i).bounds = i.toList :=
  scope.bounds_answering (by simp) (by simp)

theorem bounds_formula (t : Timing) (scope : Scope) (k : OccurrenceKind) (o : Occurrence) :
    (o.formula t scope k).bounds =
      (t.principalBound (.occurrence k) (shape k) o.timeBound).toList := by
  cases k with
  | universality | absence => simp [formula]
  | existence => exact bounds_existence _ _ _
  | transientState => exact bounds_transientState _ _ _
  | steadyState => exact bounds_steadyState _ _ _
  | minimumDuration => simp [formula, minimumDuration, onset]
  | maximumDuration => simp [formula, maximumDuration, onset]
  | recurrence => exact bounds_recurrence _ _ _

end Occurrence

namespace Course

variable {c : Course}

/-- The annotations of the waits, from a link on. -/
def annotations (c : Course) : Link → List Link → List Bound
  | l, [] => (c.closing <|> c.linkBound l).toList
  | l, m :: ms => (c.linkBound l).toList ++ annotations c m ms

theorem bounds_waitGuard (hguard : c.guard.toList.flatMap bounds = []) (l : Link) :
    (c.waitGuard l).toList.flatMap bounds = [] := by
  unfold waitGuard
  cases hg : c.guard with
  | none => cases l.constraint <;> simp
  | some g =>
    rw [hg] at hguard
    cases l.constraint <;> simpa using hguard

theorem bounds_step (hguard : c.guard.toList.flatMap bounds = []) (b : Option Bound) (l : Link)
    (continuation : Option Formula) :
    (c.step b l continuation).bounds = b.toList ++ continuation.toList.flatMap bounds := by
  unfold step
  rw [bounds_reach, bounds_waitGuard hguard]
  cases continuation with
  | none => simp
  | some f => simp [hguard]

theorem bounds_along (hguard : c.guard.toList.flatMap bounds = []) (tail : Option Formula)
    (l : Link) (ls : List Link) :
    (c.along tail l ls).bounds = c.annotations l ls ++ tail.toList.flatMap bounds := by
  induction ls generalizing l with
  | nil => exact bounds_step hguard _ l tail
  | cons m ms ih =>
    rw [along, bounds_step hguard, annotations, List.append_assoc, ← ih m]
    simp

theorem annotations_of_linkBound_eq_none (h : ∀ l, c.linkBound l = none) (l : Link)
    (ls : List Link) : c.annotations l ls = c.closing.toList := by
  induction ls generalizing l with
  | nil =>
    rw [annotations, h l]
    cases c.closing <;> rfl
  | cons m ms ih => rw [annotations, h l, ih m]; rfl

theorem annotations_of_closing_eq_none (h : c.closing = none) (l : Link) (ls : List Link) :
    c.annotations l ls = (l :: ls).filterMap c.linkBound := by
  induction ls generalizing l with
  | nil =>
    rw [annotations, h]
    cases hl : c.linkBound l <;> simp [hl]
  | cons m ms ih =>
    rw [annotations, ih m]
    cases hl : c.linkBound l <;> simp [hl]

end Course

namespace Order

variable {t : Timing} {g tail : Option Formula} {links : Chain}

theorem bounds_guard (o : Order) : o.guard.toList.flatMap bounds = [] := by
  rw [Order.guard]
  cases o.constraint <;> rfl

theorem bounds_awaiting (scope : Scope) (free : Strength) (i : Option Bound) {left : Formula}
    (hleft : left.bounds = []) (s : Event) :
    (awaiting scope free i left s).bounds = i.toList := by
  cases scope with
  | globally | before | after | between | afterUntil => simp [awaiting, hleft]

theorem bounds_formula (t : Timing) (scope : Scope) (k : OrderKind) (o : Order) :
    (o.formula t scope k).bounds = (t.principalBound (.order k) .asWritten o.timeBound).toList := by
  cases k with
  | precedence | holdUntil => exact bounds_awaiting _ _ _ (by simp [bounds_guard]) _
  | response | responseInvariance =>
    exact scope.bounds_answering (by simp [bounds_guard]) (by simp [bounds_guard])

theorem bounds_follow (hg : g.toList.flatMap bounds = []) (outer : Option TimeBound) :
    ((Course.mk g t.linkBound (t.windowBound outer links)).follow links tail).bounds =
      t.linkBounds links ++ (t.windowBound outer links).toList ++ tail.toList.flatMap bounds := by
  -- Windows close chains only where links have no annotations.
  rw [Course.follow, bounds_modal, Course.bounds_along hg]
  by_cases ht : t = .nested
  · subst ht
    rw [Course.annotations_of_closing_eq_none rfl]
    simp [Timing.linkBounds, Timing.windowBound, Chain.toList]
  · rw [Course.annotations_of_linkBound_eq_none (Timing.linkBound_of_ne_nested ht),
      Timing.linkBounds_of_ne_nested ht]
    rfl

theorem bounds_annotated (hg : g.toList.flatMap bounds = []) :
    ((annotated t g).follow links tail).bounds =
      t.linkBounds links ++ tail.toList.flatMap bounds := by
  rw [Course.follow, bounds_modal, Course.bounds_along hg,
    Course.annotations_of_closing_eq_none rfl]
  rfl

theorem bounds_unannotated (hg : g.toList.flatMap bounds = []) :
    ((unannotated g).follow links none).bounds = [] := by
  rw [Course.follow, bounds_modal, Course.bounds_along hg,
    Course.annotations_of_linkBound_eq_none fun _ => rfl]
  rfl

theorem bounds_precedenceOneMany (t : Timing) (scope : Scope) (o : Order) (links : Chain) :
    (precedenceOneMany t scope o links).bounds.Perm
      ((t.precedenceBound (.chain .precedenceOneMany) o.timeBound links).toList ++
        t.linkBounds links) := by
  cases scope with
  | globally | after =>
    simp only [precedenceOneMany, bounds_atFirst, bounds_connect, bounds_modal, bounds_wait,
      bounds_event, bounds_absent, bounds_withGuard, bounds_guard,
      bounds_annotated (g := none) rfl, Option.toList_none, List.flatMap_nil, List.append_nil,
      List.nil_append]
    exact List.perm_append_comm
  | before | between | afterUntil =>
    simp [precedenceOneMany, bounds_guard, bounds_annotated]

theorem bounds_precedenceManyOne (t : Timing) (scope : Scope) (o : Order) (links : Chain) :
    (precedenceManyOne t scope o links).bounds =
      (t.precedenceBound (.chain .precedenceManyOne) o.timeBound links).toList ++
        t.linkBounds links := by
  cases scope with
  | globally | before | after | between | afterUntil =>
    simp [precedenceManyOne, bounds_guard, bounds_annotated]

theorem bounds_responseOneMany (t : Timing) (scope : Scope) (o : Order) (links : Chain) :
    (responseOneMany t scope o links).bounds =
      (t.principalBound (.chain .responseOneMany) .asWritten o.timeBound).toList ++
        (t.linkBounds links ++ (t.windowBound o.timeBound links).toList) :=
  scope.bounds_answering (by simp [bounds_guard, bounds_follow])
    (by simp [bounds_guard, bounds_follow])

theorem bounds_responseManyOne (t : Timing) (scope : Scope) (o : Order) (links : Chain) :
    (responseManyOne t scope o links).bounds =
      t.linkBounds links ++
        (t.windowBound o.timeBound links <|>
          t.principalBound (.chain .responseManyOne) .asWritten o.timeBound).toList :=
  scope.bounds_answering (by simp [bounds_guard, bounds_unannotated, bounds_annotated])
    (by simp [bounds_guard, bounds_unannotated, bounds_annotated])

end Order

namespace Pattern

def shape : Pattern → Shape
  | occurrence k _ => Occurrence.shape k
  | boundedExistence _ _ | order _ _ | chain _ _ _ => .asWritten

def principal (x : Pattern) (t : Timing) : Option Bound :=
  t.principalBound x.kind x.shape x.timeBound?

/-- The annotations of the pattern, its links and the window of a chain of responses. In a chain that
ends with its response the window takes the place of the principal annotation. -/
def annotations (x : Pattern) (t : Timing) : List Bound :=
  match x with
  | occurrence _ _ | boundedExistence _ _ | order _ _ => (x.principal t).toList
  | chain .precedenceOneMany o links | chain .precedenceManyOne o links =>
    (t.precedenceBound x.kind o.timeBound links).toList ++ t.linkBounds links
  | chain .responseOneMany o links =>
    (x.principal t).toList ++ (t.linkBounds links ++ (t.windowBound o.timeBound links).toList)
  | chain .responseManyOne o links =>
    t.linkBounds links ++ (t.windowBound o.timeBound links <|> x.principal t).toList

theorem derived_of_mem_annotations {t : Timing} {b : Bound} (x : Pattern)
    (h : b ∈ x.annotations t) : b.Derived := by
  have hlinks {c : Chain} (hb : b ∈ t.linkBounds c) : b.Derived := by
    obtain ⟨l, -, hl⟩ := List.mem_filterMap.mp hb
    exact Timing.derived_of_linkBound hl
  cases x with
  | occurrence | boundedExistence | order =>
    exact Timing.derived_of_principalBound (Option.mem_toList.mp h)
  | chain k o c =>
    cases k with
    | precedenceOneMany | precedenceManyOne =>
      rcases List.mem_append.mp h with h | h
      · exact Timing.derived_of_precedenceBound (Option.mem_toList.mp h)
      · exact hlinks h
    | responseOneMany =>
      rcases List.mem_append.mp h with h | h
      · exact Timing.derived_of_principalBound (Option.mem_toList.mp h)
      rcases List.mem_append.mp h with h | h
      · exact hlinks h
      · exact Timing.derived_of_windowBound (Option.mem_toList.mp h)
    | responseManyOne =>
      rcases List.mem_append.mp h with h | h
      · exact hlinks h
      rw [Option.mem_toList, Option.orElse_eq_orElse, Option.orElse_eq_or,
        Option.or_eq_some_iff] at h
      rcases h with h | ⟨-, h⟩
      · exact Timing.derived_of_windowBound h
      · exact Timing.derived_of_principalBound h

theorem bounds_formula (x : Pattern) (scope : Scope) (t : Timing) :
    (x.formula scope t).bounds.Perm (x.annotations t) := by
  cases x with
  | occurrence k o => exact .of_eq (o.bounds_formula t scope k)
  | boundedExistence n o => exact .of_eq (Occurrence.bounds_boundedExistence _ _ _ _)
  | order k o => exact .of_eq (o.bounds_formula t scope k)
  | chain k o links =>
    cases k with
    | precedenceOneMany => exact o.bounds_precedenceOneMany t scope links
    | precedenceManyOne => exact .of_eq (o.bounds_precedenceManyOne t scope links)
    | responseOneMany => exact .of_eq (o.bounds_responseOneMany t scope links)
    | responseManyOne => exact .of_eq (o.bounds_responseManyOne t scope links)

end Pattern

end PropertyPatterns
