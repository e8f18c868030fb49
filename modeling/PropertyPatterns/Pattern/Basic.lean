import PropertyPatterns.Pattern.Chain
import PropertyPatterns.Pattern.Kind
import PropertyPatterns.Probability

namespace PropertyPatterns

/-- What an occurrence pattern says about its event `p`. -/
structure Occurrence where
  p : Event
  timeBound : Option TimeBound
  probability : Option ProbabilityBound
deriving DecidableEq

/-- What an order or chain pattern says about its events `p` and `s`. -/
structure Order where
  p : Event
  s : Event
  constraint : Option Event
  timeBound : Option TimeBound
  probability : Option ProbabilityBound
deriving DecidableEq

/-- How often a counted event may happen: at least once. -/
structure Frequency where
  times : UInt32
  positive : times ≠ 0
deriving DecidableEq

def Frequency.ofWord? (n : UInt32) : Option Frequency :=
  if h : n = 0 then none else some ⟨n, h⟩

inductive Pattern
  | occurrence (kind : OccurrenceKind) (o : Occurrence)
  | boundedExistence (frequency : Frequency) (o : Occurrence)
  | order (kind : OrderKind) (o : Order)
  | chain (kind : ChainKind) (o : Order) (links : Chain)
deriving DecidableEq

namespace Pattern

def kind : Pattern → PatternKind
  | occurrence k _ => .occurrence k
  | boundedExistence _ _ => .boundedExistence
  | order k _ => .order k
  | chain k _ _ => .chain k

def p : Pattern → Event
  | occurrence _ o | boundedExistence _ o => o.p
  | order _ o | chain _ o _ => o.p

def s? : Pattern → Option Event
  | occurrence _ _ | boundedExistence _ _ => none
  | order _ o | chain _ o _ => some o.s

def constraint? : Pattern → Option Event
  | occurrence _ _ | boundedExistence _ _ => none
  | order _ o | chain _ o _ => o.constraint

def timeBound? : Pattern → Option TimeBound
  | occurrence _ o | boundedExistence _ o => o.timeBound
  | order _ o | chain _ o _ => o.timeBound

def probability? : Pattern → Option ProbabilityBound
  | occurrence _ o | boundedExistence _ o => o.probability
  | order _ o | chain _ o _ => o.probability

def chain? : Pattern → Option Chain
  | chain _ _ c => some c
  | _ => none

def links (x : Pattern) : List Link :=
  match x.chain? with
  | some c => c.toList
  | none => []

def isTimed (x : Pattern) : Bool :=
  x.timeBound?.isSome || x.links.any (·.timeBound.isSome)

end Pattern

end PropertyPatterns
