import PropertyPatterns.Time.Limit

namespace PropertyPatterns

inductive Limits
  | upper (limit : Limit)
  | lower (limit : UInt64)
  | interval (lower : UInt64) (upper : Limit)
deriving DecidableEq

structure TimeBound where
  limits : Limits
  unit : String
deriving DecidableEq

namespace TimeBound

def defaultUnit : String := "time units"

/-- The lower limit; zero if only an upper one is named. -/
def lower (b : TimeBound) : UInt64 :=
  match b.limits with
  | .upper _ => 0
  | .lower l | .interval l _ => l

/-- The upper limit; unbounded if only a lower one is named. -/
def upper (b : TimeBound) : Limit :=
  match b.limits with
  | .upper u | .interval _ u => u
  | .lower _ => .unbounded

def namesLower (b : TimeBound) : Bool :=
  match b.limits with
  | .upper _ => false
  | .lower _ | .interval _ _ => true

/-- An interval whose finite upper limit lies below its lower limit. -/
def isReversed (b : TimeBound) : Bool :=
  match b.limits with
  | .interval l (.finite u) => u < l
  | _ => false

def amount (n : UInt64) (unit : String) : String :=
  toString n.toNat ++ " " ++ unit

def range (l u : UInt64) (unit : String) : String :=
  "between " ++ toString l.toNat ++ " and " ++ amount u unit

def phrase (b : TimeBound) : String :=
  match b.limits with
  | .upper (.finite u) => "within " ++ amount u b.unit
  | .upper .unbounded => "without a time limit"
  | .lower l | .interval l .unbounded => "after " ++ amount l b.unit
  | .interval l (.finite u) => range l u b.unit

def magnitude (b : TimeBound) : String :=
  match b.limits with
  | .upper (.finite u) => amount u b.unit
  | .upper .unbounded => "an unbounded number of " ++ b.unit
  | .lower l | .interval l .unbounded => amount l b.unit
  | .interval l (.finite u) => range l u b.unit

end TimeBound

end PropertyPatterns
