namespace PropertyPatterns

inductive Limit
  | finite (units : UInt64)
  | unbounded
deriving DecidableEq

namespace Limit

def isUnbounded : Limit → Bool
  | finite _ => false
  | unbounded => true

def finite? : Limit → Option UInt64
  | finite n => some n
  | unbounded => none

/-- The sum of two limits; unbounded where it does not fit the word. -/
def add : Limit → Limit → Limit
  | finite a, finite b =>
    if a.toNat + b.toNat < UInt64.size then finite (a + b) else unbounded
  | _, _ => unbounded

def order : Limit → Limit → Ordering
  | finite a, finite b => compare a b
  | finite _, unbounded => .lt
  | unbounded, finite _ => .gt
  | unbounded, unbounded => .eq

def toText : Limit → String
  | finite n => toString n.toNat
  | unbounded => "infinity"

@[simp] theorem add_unbounded (a : Limit) : a.add unbounded = unbounded := by
  cases a <;> rfl

@[simp] theorem unbounded_add (a : Limit) : unbounded.add a = unbounded := by
  cases a <;> rfl

end Limit

/-- The sum of two lower limits; the largest word where it does not fit. -/
def addClamped (a b : UInt64) : UInt64 :=
  if a.toNat + b.toNat < UInt64.size then a + b else UInt64.ofNat (UInt64.size - 1)

theorem toNat_addClamped (a b : UInt64) :
    (addClamped a b).toNat = min (a.toNat + b.toNat) (UInt64.size - 1) := by
  have size : UInt64.size = 2 ^ 64 := rfl
  unfold addClamped
  split
  · rw [UInt64.toNat_add]
    omega
  · rw [UInt64.toNat_ofNat']
    omega

end PropertyPatterns
