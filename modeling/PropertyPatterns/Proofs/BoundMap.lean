import PropertyPatterns.Catalogue.Cell

namespace PropertyPatterns

namespace Formula

/-- Replaces each bound by its image, and removes the bounds that have none. -/
def mapBounds (φ : Bound → Option Bound) : Formula → Formula
  | atom a => atom a
  | neg f => neg (f.mapBounds φ)
  | connect c f g => connect c (f.mapBounds φ) (g.mapBounds φ)
  | modal m b f => modal m (b.bind φ) (f.mapBounds φ)
  | wait s b f g => wait s (b.bind φ) (f.mapBounds φ) (g.mapBounds φ)

theorem mapBounds_some (f : Formula) : f.mapBounds some = f := by
  induction f with
  | atom => rfl
  | neg f ih | modal m b f ih => simp [mapBounds, ih]
  | connect c f g ihf ihg | wait s b f g ihf ihg => simp [mapBounds, ihf, ihg]

theorem mapBounds_none (f : Formula) : f.mapBounds (fun _ => none) = f.eraseBounds := by
  induction f with
  | atom => rfl
  | neg f ih | modal m b f ih => simp [mapBounds, eraseBounds, ih]
  | connect c f g ihf ihg | wait s b f g ihf ihg => simp [mapBounds, eraseBounds, ihf, ihg]

section

variable {φ : Bound → Option Bound}

@[simp] theorem mapBounds_event (e : Event) : (event e).mapBounds φ = event e := rfl

@[simp] theorem mapBounds_absent (e : Event) : (absent e).mapBounds φ = absent e := rfl

@[simp] theorem mapBounds_neg (f : Formula) : (neg f).mapBounds φ = neg (f.mapBounds φ) := rfl

@[simp] theorem mapBounds_connect (c : Connective) (f g : Formula) :
    (connect c f g).mapBounds φ = connect c (f.mapBounds φ) (g.mapBounds φ) := rfl

@[simp] theorem mapBounds_modal (m : Modality) (b : Option Bound) (f : Formula) :
    (modal m b f).mapBounds φ = modal m (b.bind φ) (f.mapBounds φ) := rfl

@[simp] theorem mapBounds_wait (s : Strength) (b : Option Bound) (f g : Formula) :
    (wait s b f g).mapBounds φ = wait s (b.bind φ) (f.mapBounds φ) (g.mapBounds φ) := rfl

@[simp] theorem mapBounds_conjunction (f : Formula) (fs : List Formula) :
    (conjunction f fs).mapBounds φ = conjunction (f.mapBounds φ) (fs.map (mapBounds φ)) := by
  induction fs generalizing f with
  | nil => rfl
  | cons g gs ih => exact ih (and f g)

theorem mapBounds_setBound (f : Formula) (b : Option Bound) :
    (f.setBound b).mapBounds φ = (f.mapBounds φ).setBound (b.bind φ) := by
  cases f with
  | atom | neg | connect | modal | wait => rfl

@[simp] theorem mapBounds_withGuard (f : Formula) (g : Option Formula) :
    (withGuard f g).mapBounds φ = withGuard (f.mapBounds φ) (g.map (mapBounds φ)) := by
  cases g with
  | none | some => rfl

@[simp] theorem mapBounds_reach (g : Option Formula) (b : Option Bound) (f : Formula) :
    (reach g b f).mapBounds φ = reach (g.map (mapBounds φ)) (b.bind φ) (f.mapBounds φ) := by
  cases g with
  | none | some => rfl

@[simp] theorem mapBounds_openWindow (q r : Event) :
    (openWindow q r).mapBounds φ = openWindow q r := rfl

@[simp] theorem mapBounds_atFirst (q : Event) (f : Formula) :
    (atFirst q f).mapBounds φ = atFirst q (f.mapBounds φ) := rfl

end

end Formula

open Formula

variable {φ : Bound → Option Bound}

namespace Scope

theorem mapBounds_throughout (scope : Scope) (b : Option Bound) (body : Formula) :
    (scope.throughout b body).mapBounds φ = scope.throughout (b.bind φ) (body.mapBounds φ) := by
  cases scope with
  | globally | before | after | between | afterUntil => rfl

theorem mapBounds_answering (scope : Scope) (free : Formula) (bounded : Event → Formula) :
    (scope.answering free bounded).mapBounds φ =
      scope.answering (free.mapBounds φ) fun r => (bounded r).mapBounds φ := by
  cases scope with
  | globally | before | after | between | afterUntil => rfl

end Scope

namespace Occurrence

theorem mapBounds_existence (scope : Scope) (p : Event) (i : Option Bound) :
    (existence scope p i).mapBounds φ = existence scope p (i.bind φ) := by
  cases scope with
  | globally | before | after | between | afterUntil => rfl

theorem mapBounds_boundedStretches (p : Event) (n : Nat) :
    (boundedStretches p n).mapBounds φ = boundedStretches p n := by
  induction n with
  | zero => rfl
  | succ n ih =>
    rw [boundedStretches]
    simp only [mapBounds_wait, mapBounds_absent, mapBounds_event, ih, Option.bind_none]

theorem mapBounds_boundedStretchesBefore (s : Strength) (p r : Event) (n : Nat) :
    (boundedStretchesBefore s p r n).mapBounds φ = boundedStretchesBefore s p r n := by
  induction n with
  | zero => rfl
  | succ n ih =>
    rw [boundedStretchesBefore, inside]
    simp only [mapBounds_wait, mapBounds_connect, mapBounds_absent, mapBounds_event, ih,
      Option.bind_none]

theorem mapBounds_boundedExistence (scope : Scope) (p : Event) (n : Nat) (i : Option Bound) :
    (boundedExistence scope p n i).mapBounds φ = boundedExistence scope p n (i.bind φ) := by
  cases scope with
  | globally | before | after | between | afterUntil =>
    simp only [boundedExistence, mapBounds_connect, mapBounds_modal, mapBounds_wait,
      mapBounds_event, mapBounds_absent, mapBounds_setBound, mapBounds_boundedStretches,
      mapBounds_boundedStretchesBefore, Option.bind_none]

theorem mapBounds_transientState (scope : Scope) (p : Event) (i : Option Bound) :
    (transientState scope p i).mapBounds φ = transientState scope p (i.bind φ) := by
  cases scope with
  | globally | before | after | between | afterUntil => rfl

theorem mapBounds_steadyState (scope : Scope) (p : Event) (i : Option Bound) :
    (steadyState scope p i).mapBounds φ = steadyState scope p (i.bind φ) := by
  cases scope with
  | globally | before | after | between | afterUntil => rfl

theorem mapBounds_minimumDuration (p : Event) (i : Option Bound) :
    (minimumDuration p i).mapBounds φ = minimumDuration p (i.bind φ) := rfl

theorem mapBounds_maximumDuration (p : Event) (i : Option Bound) :
    (maximumDuration p i).mapBounds φ = maximumDuration p (i.bind φ) := rfl

theorem mapBounds_recurrence (scope : Scope) (p : Event) (i : Option Bound) :
    (recurrence scope p i).mapBounds φ = recurrence scope p (i.bind φ) :=
  scope.mapBounds_answering _ _

end Occurrence

namespace Order

@[simp] theorem map_mapBounds_guard (o : Order) : o.guard.map (mapBounds φ) = o.guard := by
  rw [guard]
  cases o.constraint with
  | none | some => rfl

theorem mapBounds_awaiting (scope : Scope) (free : Strength) (i : Option Bound) (left : Formula)
    (s : Event) :
    (awaiting scope free i left s).mapBounds φ =
      awaiting scope free (i.bind φ) (left.mapBounds φ) s := by
  cases scope with
  | globally | before | after | between | afterUntil => rfl

theorem mapBounds_precedence (scope : Scope) (o : Order) (i : Option Bound) :
    (precedence scope o i).mapBounds φ = precedence scope o (i.bind φ) := by
  simp only [precedence, mapBounds_awaiting, mapBounds_withGuard, mapBounds_absent,
    map_mapBounds_guard]

theorem mapBounds_holdUntil (scope : Scope) (o : Order) (i : Option Bound) :
    (holdUntil scope o i).mapBounds φ = holdUntil scope o (i.bind φ) := by
  simp only [holdUntil, mapBounds_awaiting, mapBounds_withGuard, mapBounds_event,
    map_mapBounds_guard]

theorem mapBounds_response (scope : Scope) (o : Order) (i : Option Bound) :
    (response scope o i).mapBounds φ = response scope o (i.bind φ) := by
  simp only [response, Scope.mapBounds_answering, mapBounds_connect, mapBounds_reach,
    mapBounds_withGuard, mapBounds_event, mapBounds_absent, map_mapBounds_guard, Option.map_some]

theorem mapBounds_responseInvariance (scope : Scope) (o : Order) (i : Option Bound) :
    (responseInvariance scope o i).mapBounds φ = responseInvariance scope o (i.bind φ) := by
  simp only [responseInvariance, Scope.mapBounds_answering, mapBounds_connect, mapBounds_modal,
    mapBounds_wait, mapBounds_withGuard, mapBounds_event, map_mapBounds_guard]

end Order

end PropertyPatterns
