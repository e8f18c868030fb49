import PropertyPatterns.Number.Decimal

namespace PropertyPatterns.Json

inductive Number
  | whole (n : Int)
  | float (x : Binary64)
  /-- Beyond the largest floating-point number. -/
  | tooLarge
deriving DecidableEq

structure Numeral where
  negative : Bool
  whole : List Nat
  fraction : Option (List Nat)
  exponent : Option Int

namespace Number

/-- Appends digits to a number while it fits a 64-bit word. -/
def takeFitting (n : Nat) : List Nat → Nat × List Nat
  | [] => (n, [])
  | d :: ds => if n * 10 + d < UInt64.size then takeFitting (n * 10 + d) ds else (n, d :: ds)

def largestStep : Nat := 308

/-- Division by a power of ten, in steps that are rounded one by one. -/
def divideByPower (x : Binary64) (k : Nat) : Binary64 :=
  if _h : k ≤ largestStep then x.div (.powerOfTen k)
  else if x.magnitudeBits = 0 then x
  else divideByPower (x.div (.powerOfTen largestStep)) (k - largestStep)
termination_by k
decreasing_by
  have : 0 < largestStep := by decide
  omega

/-- `significand * 10 ^ exponent`: the significand is rounded first, and then its product with, or
its quotient by, the rounded power of ten. -/
def ofScaled (significand : Nat) (exponent : Int) : Option Binary64 :=
  let x := Binary64.ofRatio false significand 1
  if exponent < 0 then some (divideByPower x exponent.natAbs)
  else if x.magnitudeBits = 0 then some x
  else if exponent.toNat ≤ largestStep then
    let y := x.mul (.powerOfTen exponent.toNat)
    if y.magnitudeBits < Binary64.infinityBits then some y else none
  else none

/-- The digits that do not fit the significand only count for the size of the number. -/
def ofNumeral (n : Numeral) : Number :=
  let (first, beyond) := takeFitting 0 n.whole
  let fraction := n.fraction.getD []
  let (significand, lost) := takeFitting first fraction
  let isWhole := n.fraction.isNone && n.exponent.isNone && beyond.isEmpty
  if isWhole && !n.negative then .whole first
  else if isWhole && 0 < first && first ≤ Nat.pow 2 63 then .whole (-first)
  else
    let exponent : Int :=
      beyond.length - (fraction.length - lost.length : Nat) + n.exponent.getD 0
    match ofScaled significand exponent with
    | some x => .float (if n.negative then x.neg else x)
    | none => .tooLarge

/-- Numbers from `10 ^ -5` to below `10 ^ 16` are written positionally and always show a point, so
that they cannot be taken for whole ones; all others have an exponent. Ties go to the even digit. -/
def floatFormat : Decimal.Format where
  tie := .even
  pointed := true
  limits := some (-5, 16)

end Number

end PropertyPatterns.Json
