import PropertyPatterns.Time.Bound

namespace PropertyPatterns

/-- The delays from `lower` to `upper`, the upper end included if it is closed. -/
structure Interval where
  lower : UInt64
  upper : Limit
  includesUpper : Bool
deriving DecidableEq

namespace Interval

def closed (l u : UInt64) : Interval :=
  ⟨l, .finite u, true⟩

def halfOpen (l : UInt64) (u : Limit) : Interval :=
  ⟨l, u, false⟩

def atLeast (l : UInt64) : Interval :=
  halfOpen l .unbounded

/-- Closed at a finite upper end; an infinite one is open. -/
def between (l : UInt64) : Limit → Interval
  | .finite u => closed l u
  | .unbounded => atLeast l

def everything : Interval :=
  atLeast 0

def isEverything (i : Interval) : Bool :=
  i.lower == 0 && i.upper.isUnbounded

def closingMark (i : Interval) : String :=
  if i.includesUpper then "]" else ")"

def toText (i : Interval) : String :=
  "[" ++ toString i.lower.toNat ++ "," ++ i.upper.toText ++ i.closingMark

/-- A delay lies in the interval. -/
def Contains (i : Interval) (d : Nat) : Prop :=
  i.lower.toNat ≤ d ∧
    match i.upper with
    | .finite u => if i.includesUpper then d ≤ u.toNat else d < u.toNat
    | .unbounded => True

end Interval

/-- The ways in which a pattern reads its time bound. With `d` for the upper limit less the lower:
as written; up to the lower limit; exactly `d`; less than `d`; at most `d`; at least `d`. -/
inductive Shape
  | asWritten
  | untilLower
  | exactly
  | lessThan
  | atMost
  | atLeast
deriving DecidableEq

def Shape.name : Shape → String
  | asWritten => "time"
  | untilLower => "umintime"
  | exactly => "trigger"
  | lessThan => "gap"
  | atMost => "maxgap"
  | atLeast => "elapsed"

inductive ShapeError
  | unboundedUpper (shape : Shape)
  | reversed (shape : Shape) (lower upper : UInt64)
  | noLower (shape : Shape)
deriving DecidableEq

def ShapeError.message : ShapeError → String
  | unboundedUpper s => s.name ++ " needs a finite upper time limit"
  | reversed s l u =>
    s.name ++ ": lower time limit " ++ toString l.toNat ++ " exceeds upper time limit " ++
      toString u.toNat
  | noLower s => s.name ++ " needs a lower time limit"

namespace TimeBound

def onward (b : TimeBound) : Interval :=
  .atLeast b.lower

def toUpper (b : TimeBound) : Interval :=
  .between 0 b.upper

/-- The upper limit less the lower one. A missing upper limit is reported before reversed ones. -/
def width (b : TimeBound) (s : Shape) : Except ShapeError UInt64 :=
  match b.upper with
  | .unbounded => .error (.unboundedUpper s)
  | .finite u => if u < b.lower then .error (.reversed s b.lower u) else .ok (u - b.lower)

/-- The bound as written, unless it is reversed. -/
def written (b : TimeBound) : Except ShapeError Interval :=
  match b.limits with
  | .upper _ => .ok b.toUpper
  | .lower _ => .ok b.onward
  | .interval l (.finite u) =>
    if u < l then .error (.reversed .asWritten l u) else .ok (.closed l u)
  | .interval l .unbounded => .ok (.atLeast l)

def interval (b : TimeBound) : Shape → Except ShapeError Interval
  | .asWritten => b.written
  | .untilLower => if b.namesLower then .ok (.closed 0 b.lower) else .error (.noLower .untilLower)
  | .exactly => (b.width .exactly).map fun d => .closed d d
  | .lessThan => (b.width .lessThan).map fun d => .halfOpen 0 (.finite d)
  | .atMost => (b.width .atMost).map fun d => .closed 0 d
  | .atLeast => (b.width .atLeast).map .atLeast

end TimeBound

end PropertyPatterns
