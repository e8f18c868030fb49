import PropertyPatterns.Pattern.Chain
import PropertyPatterns.Time.Interval

namespace PropertyPatterns

namespace Chain

/-- The sum of the upper limits; none if a link has no bound. -/
def upperSum? : List Link → Option Limit
  | [] => some (.finite 0)
  | l :: ls => do
    let b ← l.timeBound
    let rest ← upperSum? ls
    return b.upper.add rest

/-- The sum of the lower limits, unless a bound is reversed. The first such bound is reported. -/
def lowerSum : List Link → Except ShapeError UInt64
  | [] => .ok 0
  | l :: ls => do
    let first ← match l.timeBound with
      | some b => b.written.map (·.lower)
      | none => .ok 0
    let rest ← lowerSum ls
    return addClamped first rest

/-- The bound at the other end of the chain; any delay if there is none. -/
def outerInterval : Option TimeBound → Except ShapeError Interval
  | some b => b.written
  | none => .ok .everything

/-- The end-to-end window over some links; none if a link has no bound, which counts ahead of
reversed bounds. -/
def window? (outer : Option TimeBound) (ls : List Link) : Except ShapeError (Option Interval) :=
  match upperSum? ls with
  | none => .ok none
  | some upper => do
    let lower ← lowerSum ls
    let i ← outerInterval outer
    return some (.between (addClamped lower i.lower) (upper.add i.upper))

def incompleteReason : String :=
  "chain window is incomplete: a chain event has no time bound"

end Chain

end PropertyPatterns
