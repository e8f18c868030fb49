import PropertyPatterns.Event
import PropertyPatterns.Time.Bound

namespace PropertyPatterns

/-- One link of a chain. The constraint event must not hold on the way from the previous link, and
the time bound is relative to that link. -/
structure Link where
  event : Event
  constraint : Option Event
  timeBound : Option TimeBound
deriving DecidableEq

def Link.decorations (l : Link) : String :=
  (l.timeBound.map (" " ++ ·.phrase)).getD "" ++
    (l.constraint.map (" " ++ ·.absencePhrase)).getD ""

structure Chain where
  first : Link
  rest : List Link
deriving DecidableEq

namespace Chain

def ofList? : List Link → Option Chain
  | [] => none
  | l :: ls => some ⟨l, ls⟩

def toList (c : Chain) : List Link :=
  c.first :: c.rest

def length (c : Chain) : Nat :=
  c.toList.length

def last (c : Chain) : Link :=
  c.rest.getLastD c.first

def isTimed (c : Chain) : Bool :=
  c.toList.any (·.timeBound.isSome)

/-- The phrase of all links, each behind `joiner` and followed by `verb`. -/
def phrase (c : Chain) (joiner verb : String) : String :=
  String.join (c.toList.map fun l => joiner ++ l.event.phrase ++ verb ++ l.decorations)

theorem ofList?_eq_some_iff {ls : List Link} {c : Chain} : ofList? ls = some c ↔ ls = c.toList := by
  constructor
  · intro h
    cases ls with
    | nil => simp [ofList?] at h
    | cons l ls =>
      obtain rfl := Option.some.inj h
      rfl
  · rintro rfl
    rfl

end Chain

end PropertyPatterns
