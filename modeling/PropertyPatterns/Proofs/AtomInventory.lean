import PropertyPatterns.Catalogue.Cell

namespace PropertyPatterns

namespace Formula

@[simp] theorem atoms_event (e : Event) : (event e).atoms = [e.name] := rfl

@[simp] theorem atoms_absent (e : Event) : (absent e).atoms = [e.name] := rfl

@[simp] theorem atoms_neg (f : Formula) : (neg f).atoms = f.atoms := rfl

@[simp] theorem atoms_connect (c : Connective) (f g : Formula) :
    (connect c f g).atoms = f.atoms ++ g.atoms := rfl

@[simp] theorem atoms_modal (m : Modality) (b : Option Bound) (f : Formula) :
    (modal m b f).atoms = f.atoms := rfl

@[simp] theorem atoms_wait (s : Strength) (b : Option Bound) (f g : Formula) :
    (wait s b f g).atoms = f.atoms ++ g.atoms := rfl

@[simp] theorem atoms_setBound (f : Formula) (b : Option Bound) : (f.setBound b).atoms = f.atoms := by
  cases f with
  | atom | neg | connect | modal | wait => rfl

@[simp] theorem atoms_conjunction (f : Formula) (fs : List Formula) :
    (conjunction f fs).atoms = f.atoms ++ fs.flatMap atoms := by
  induction fs generalizing f with
  | nil => exact (List.append_nil _).symm
  | cons g gs ih =>
    rw [List.flatMap_cons, ← List.append_assoc]
    exact ih (and f g)

def atomsOf (f : Option Formula) : List String :=
  f.elim [] atoms

@[simp] theorem atomsOf_none : atomsOf none = [] := rfl

@[simp] theorem atomsOf_some (f : Formula) : atomsOf (some f) = f.atoms := rfl

@[simp] theorem flatMap_atoms_toList (f : Option Formula) : f.toList.flatMap atoms = atomsOf f := by
  cases f with
  | none | some => simp

@[simp] theorem atoms_withGuard (f : Formula) (g : Option Formula) :
    (withGuard f g).atoms = f.atoms ++ atomsOf g := by
  cases g with
  | none | some => simp [withGuard]

@[simp] theorem atoms_reach (g : Option Formula) (b : Option Bound) (f : Formula) :
    (reach g b f).atoms = atomsOf g ++ f.atoms := by
  cases g with
  | none | some => simp [reach]

@[simp] theorem atoms_closedWindow (q r : Event) :
    (closedWindow q r).atoms = [q.name, r.name, r.name] := rfl

@[simp] theorem atoms_openWindow (q r : Event) : (openWindow q r).atoms = [q.name, r.name] := rfl

@[simp] theorem atoms_atFirst (q : Event) (f : Formula) :
    (atFirst q f).atoms = q.name :: q.name :: f.atoms := rfl

end Formula

def Link.events (l : Link) : List Event :=
  l.event :: l.constraint.toList

/-- The events of a pattern: `p`, `s`, the constraint and those of each link. -/
def Pattern.events (x : Pattern) : List Event :=
  x.p :: x.s?.toList ++ x.constraint?.toList ++ x.links.flatMap Link.events

/-- One of the events has the name. -/
def Named (es : List Event) (a : String) : Prop :=
  ∃ e ∈ es, e.name = a

variable {a : String}

section Named

variable {e : Event} {es fs : List Event}

@[simp] theorem named_nil : ¬Named [] a := by
  simp [Named]

@[simp] theorem named_cons : Named (e :: es) a ↔ a = e.name ∨ Named es a := by
  simp [Named, eq_comm]

@[simp] theorem named_append : Named (es ++ fs) a ↔ Named es a ∨ Named fs a := by
  simp [Named, or_and_right, exists_or]

end Named

open Formula

namespace Scope

@[simp] theorem anchors_globally : globally.anchors = [] := rfl

@[simp] theorem anchors_before (r : Event) : (before r).anchors = [r] := rfl

@[simp] theorem anchors_after (q : Event) : (after q).anchors = [q] := rfl

@[simp] theorem anchors_between (q r : Event) : (between q r).anchors = [q, r] := rfl

@[simp] theorem anchors_afterUntil (q r : Event) : (afterUntil q r).anchors = [q, r] := rfl

theorem mem_atoms_throughout (scope : Scope) (b : Option Bound) (f : Formula) :
    a ∈ (scope.throughout b f).atoms ↔ Named scope.anchors a ∨ a ∈ f.atoms := by
  cases scope with
  | globally | before | after | between | afterUntil => simp [throughout, or_assoc, or_comm]

theorem mem_atoms_answering (scope : Scope) {free : Formula} {bounded : Event → Formula} {P : Prop}
    (hfree : a ∈ free.atoms ↔ P) (hbounded : ∀ r, a ∈ (bounded r).atoms ↔ a = r.name ∨ P) :
    a ∈ (scope.answering free bounded).atoms ↔ Named scope.anchors a ∨ P := by
  cases scope with
  | globally | before | after | between | afterUntil =>
    simp [answering, hfree, hbounded, or_comm, or_left_comm]

end Scope

namespace Occurrence

theorem mem_atoms_existence (scope : Scope) (p : Event) (i : Option Bound) :
    a ∈ (existence scope p i).atoms ↔ Named scope.anchors a ∨ a = p.name := by
  cases scope with
  | globally | before | after | between | afterUntil =>
    simp [existence, inside, or_comm, or_left_comm]

theorem mem_atoms_boundedStretches (p : Event) (n : Nat) :
    a ∈ (boundedStretches p n).atoms ↔ a = p.name := by
  induction n with
  | zero => simp [boundedStretches]
  | succ n ih => simp [boundedStretches, ih]

theorem mem_atoms_boundedStretchesBefore (s : Strength) (p r : Event) (n : Nat) :
    a ∈ (boundedStretchesBefore s p r n).atoms ↔ a = r.name ∨ a = p.name := by
  induction n with
  | zero => simp [boundedStretchesBefore, or_comm]
  | succ n ih => simp [boundedStretchesBefore, inside, ih, or_comm, or_left_comm]

theorem mem_atoms_boundedExistence (scope : Scope) (p : Event) (n : Nat) (i : Option Bound) :
    a ∈ (boundedExistence scope p n i).atoms ↔ Named scope.anchors a ∨ a = p.name := by
  cases scope with
  | globally | before | after | between | afterUntil =>
    simp [boundedExistence, mem_atoms_boundedStretches, mem_atoms_boundedStretchesBefore, or_comm,
      or_left_comm]

theorem mem_atoms_transientState (scope : Scope) (p : Event) (i : Option Bound) :
    a ∈ (transientState scope p i).atoms ↔ Named scope.anchors a ∨ a = p.name := by
  cases scope with
  | globally | before | after | between | afterUntil =>
    simp [transientState, inside, or_comm, or_left_comm]

theorem mem_atoms_steadyState (scope : Scope) (p : Event) (i : Option Bound) :
    a ∈ (steadyState scope p i).atoms ↔ Named scope.anchors a ∨ a = p.name := by
  cases scope with
  | globally | before | after | between | afterUntil =>
    simp [steadyState, settles, or_comm, or_left_comm]

theorem mem_atoms_recurrence (scope : Scope) (p : Event) (i : Option Bound) :
    a ∈ (recurrence scope p i).atoms ↔ Named scope.anchors a ∨ a = p.name :=
  scope.mem_atoms_answering (by simp) (by simp [or_comm])

theorem mem_atoms_formula (t : Timing) (scope : Scope) (k : OccurrenceKind) (o : Occurrence) :
    a ∈ (o.formula t scope k).atoms ↔ Named scope.anchors a ∨ a = o.p.name := by
  cases k with
  | universality | absence => simp [formula, scope.mem_atoms_throughout]
  | existence => exact mem_atoms_existence _ _ _
  | transientState => exact mem_atoms_transientState _ _ _
  | steadyState => exact mem_atoms_steadyState _ _ _
  | minimumDuration => simp [formula, scope.mem_atoms_throughout, minimumDuration, onset]
  | maximumDuration => simp [formula, scope.mem_atoms_throughout, maximumDuration, onset]
  | recurrence => exact mem_atoms_recurrence _ _ _

end Occurrence

namespace Course

variable {c : Course}

theorem mem_atomsOf_waitGuard (c : Course) (l : Link) :
    a ∈ atomsOf (c.waitGuard l) ↔ a ∈ atomsOf c.guard ∨ Named l.constraint.toList a := by
  unfold waitGuard
  cases c.guard <;> cases l.constraint <;> simp

theorem mem_atoms_step (c : Course) (b : Option Bound) (l : Link) (continuation : Option Formula) :
    a ∈ (c.step b l continuation).atoms ↔
      a ∈ atomsOf c.guard ∨ Named l.events a ∨ a ∈ atomsOf continuation := by
  -- The guard is mentioned even where nothing follows the link: the wait for the link carries it.
  unfold step
  rw [atoms_reach, List.mem_append, mem_atomsOf_waitGuard]
  cases continuation with
  | none | some => simp [Link.events, or_assoc, or_comm, or_left_comm]

theorem mem_atoms_along (c : Course) (tail : Option Formula) (l : Link) (ls : List Link) :
    a ∈ (c.along tail l ls).atoms ↔
      a ∈ atomsOf c.guard ∨ Named ((l :: ls).flatMap Link.events) a ∨ a ∈ atomsOf tail := by
  induction ls generalizing l with
  | nil => simp [along, mem_atoms_step]
  | cons m ms ih =>
    rw [along, mem_atoms_step, atomsOf_some, atoms_modal, ih m]
    simp [or_assoc, or_comm, or_left_comm]

theorem mem_atoms_follow (c : Course) (links : Chain) (tail : Option Formula) :
    a ∈ (c.follow links tail).atoms ↔
      a ∈ atomsOf c.guard ∨ Named (links.toList.flatMap Link.events) a ∨ a ∈ atomsOf tail :=
  c.mem_atoms_along tail links.first links.rest

end Course

namespace Order

def Mentions (o : Order) (links : List Link) (a : String) : Prop :=
  a = o.p.name ∨ a = o.s.name ∨ Named o.constraint.toList a ∨ Named (links.flatMap Link.events) a

@[simp] theorem mem_atomsOf_guard (o : Order) :
    a ∈ atomsOf o.guard ↔ Named o.constraint.toList a := by
  rw [guard]
  cases o.constraint <;> simp

theorem mem_atoms_awaiting (scope : Scope) (free : Strength) (i : Option Bound) (left : Formula)
    (s : Event) :
    a ∈ (awaiting scope free i left s).atoms ↔
      Named scope.anchors a ∨ a ∈ left.atoms ∨ a = s.name := by
  cases scope with
  | globally | before | after | between | afterUntil =>
    simp [awaiting, or_assoc, or_comm, or_left_comm]

theorem mem_atoms_formula (t : Timing) (scope : Scope) (k : OrderKind) (o : Order) :
    a ∈ (o.formula t scope k).atoms ↔ Named scope.anchors a ∨ o.Mentions [] a := by
  cases k with
  | precedence | holdUntil =>
    refine (mem_atoms_awaiting _ _ _ _ _).trans ?_
    simp [Mentions, or_comm, or_left_comm]
  | response =>
    apply scope.mem_atoms_answering
    · simp [Mentions, or_comm]
    · simp [Mentions, or_assoc, or_comm, or_left_comm]
  | responseInvariance =>
    apply scope.mem_atoms_answering
    · simp [Mentions]
    · simp [Mentions, or_comm, or_left_comm]

theorem mem_atoms_chainFormula (t : Timing) (scope : Scope) (k : ChainKind) (o : Order)
    (links : Chain) :
    a ∈ (o.chainFormula t scope k links).atoms ↔
      Named scope.anchors a ∨ o.Mentions links.toList a := by
  cases k with
  | precedenceOneMany =>
    cases scope with
    | globally | before | after | between | afterUntil =>
      simp [chainFormula, precedenceOneMany, Course.mem_atoms_follow, annotated, Mentions, or_assoc,
        or_comm, or_left_comm]
  | precedenceManyOne =>
    cases scope with
    | globally | before | after | between | afterUntil =>
      simp [chainFormula, precedenceManyOne, Course.mem_atoms_follow, annotated, Mentions, or_assoc,
        or_comm, or_left_comm]
  | responseOneMany =>
    apply scope.mem_atoms_answering
    · simp [Course.mem_atoms_follow, Mentions, or_comm, or_left_comm]
    · simp [Course.mem_atoms_follow, Mentions, or_comm, or_left_comm]
  | responseManyOne =>
    apply scope.mem_atoms_answering
    · simp [Course.mem_atoms_follow, annotated, unannotated, Mentions, or_assoc, or_comm,
        or_left_comm]
    · simp [Course.mem_atoms_follow, annotated, unannotated, Mentions, or_assoc, or_comm,
        or_left_comm]

theorem mentions_iff (o : Order) (links : List Link) :
    o.Mentions links a ↔
      Named (o.p :: o.s :: o.constraint.toList ++ links.flatMap Link.events) a := by
  simp [Mentions]

end Order

/-- The names in the formula of a pattern are those of the anchors of its scope and of its own events,
links and their constraints included: none is dropped and none is made up, however the formula is
timed. -/
theorem Pattern.mem_atoms_formula_iff (x : Pattern) (scope : Scope) (t : Timing) (a : String) :
    a ∈ (x.formula scope t).atoms ↔ Named (scope.anchors ++ x.events) a := by
  rw [named_append]
  cases x with
  | occurrence k o =>
    rw [formula, Occurrence.mem_atoms_formula]
    simp [events, p, s?, constraint?, links, chain?]
  | boundedExistence n o =>
    rw [formula, Occurrence.countedFormula, Occurrence.mem_atoms_boundedExistence]
    simp [events, p, s?, constraint?, links, chain?]
  | order k o =>
    rw [formula, Order.mem_atoms_formula, Order.mentions_iff]
    rfl
  | chain k o c =>
    rw [formula, Order.mem_atoms_chainFormula, Order.mentions_iff]
    rfl

end PropertyPatterns
