import PropertyPatterns.Formula.Basic
import PropertyPatterns.Pattern.Basic
import PropertyPatterns.Pattern.Window

/-!
Timing: which bound a pattern puts on its principal operator and on the waits for its links.
-/

namespace PropertyPatterns

/-- Where a logic takes bounds: nowhere; on the principal operator and on every link, a missing
bound counting as `[0,∞)`; or on the principal operator only, a timed chain of responses getting
one window from end to end. -/
inductive Timing
  | untimed
  | nested
  | collapsed
deriving DecidableEq

/-- The shapes of patterns that mean nothing without a bound. -/
def Shape.isRequired : Shape → Bool
  | exactly | untilLower | lessThan => true
  | asWritten | atMost | atLeast => false

namespace Bound

def everything : Bound :=
  interval .everything

def ofInterval : Except ShapeError Interval → Bound
  | .ok i => interval i
  | .error e => inexpressible e.message

def ofWindow : Except ShapeError (Option Interval) → Bound
  | .ok (some i) => interval i
  | .ok none => inexpressible Chain.incompleteReason
  | .error e => inexpressible e.message

end Bound

namespace Timing

def principalBound (t : Timing) (k : PatternKind) (s : Shape) (b : Option TimeBound) :
    Option Bound :=
  match t, b with
  | .untimed, _ => none
  | _, some b => some (.ofInterval (b.interval s))
  | .nested, none => some (if s.isRequired then missing k else .everything)
  | .collapsed, none => if s.isRequired then some (missing k) else none
where
  missing (k : PatternKind) : Bound :=
    .inexpressible (k.tag ++ " needs a time bound in a timed logic")

def linkBound (t : Timing) (l : Link) : Option Bound :=
  match t, l.timeBound with
  | .nested, some b => some (.ofInterval b.written)
  | .nested, none => some .everything
  | _, _ => none

/-- The window of a timed chain, which closes the chain where links carry no bounds themselves. -/
def windowBound (t : Timing) (outer : Option TimeBound) (c : Chain) : Option Bound :=
  match t with
  | .collapsed => if c.isTimed then some (.ofWindow (Chain.window? outer c.toList)) else none
  | _ => none

/-- The annotation of the principal operator of a precedence chain. No single window describes a
precedence, so the bounds of links are lost where links carry none. -/
def precedenceBound (t : Timing) (k : PatternKind) (outer : Option TimeBound) (c : Chain) :
    Option Bound :=
  if t = .collapsed ∧ c.isTimed then
    some (.inexpressible
      (k.tag ++ ": chain event time bounds cannot be collapsed into one window"))
  else t.principalBound k .asWritten outer

end Timing

end PropertyPatterns
