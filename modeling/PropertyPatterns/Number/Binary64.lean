namespace PropertyPatterns

structure Binary64 where
  bits : UInt64
deriving DecidableEq

namespace Binary64

/-- A number without its sign. A finite one is `mantissa * 2 ^ exponent`. -/
inductive Magnitude
  | finite (mantissa : Nat) (exponent : Int)
  | infinite
  | nan
deriving DecidableEq

def signBit : Nat := Nat.pow 2 63

def mantissaRange : Nat := Nat.pow 2 52

def leastExponent : Int := -1074

/-- The magnitude bits of infinity. Larger ones are no numbers. -/
def infinityBits : Nat := 2047 * mantissaRange

def isNegative (x : Binary64) : Bool :=
  signBit ≤ x.bits.toNat

def magnitudeBits (x : Binary64) : Nat :=
  x.bits.toNat % signBit

def magnitude (x : Binary64) : Magnitude :=
  let e := x.magnitudeBits / mantissaRange
  let f := x.magnitudeBits % mantissaRange
  if x.magnitudeBits < infinityBits then
    if e = 0 then .finite f leastExponent
    else .finite (mantissaRange + f) (leastExponent + (e - 1 : Nat))
  else if f = 0 then .infinite
  else .nan

def ofBits (negative : Bool) (magnitudeBits : Nat) : Binary64 :=
  ⟨UInt64.ofNat (magnitudeBits + if negative then signBit else 0)⟩

def infinity (negative : Bool) : Binary64 :=
  ofBits negative infinityBits

def nan : Binary64 :=
  ofBits false (infinityBits + mantissaRange / 2)

/-- The exponent `e` with `base ^ e ≤ num / den < base ^ (e + 1)`, for positive `num` and `den`. -/
def exponentOf (base num den : Nat) : Int :=
  let e : Int := (Nat.toDigits base num).length - (Nat.toDigits base den).length
  if den * Nat.pow base e.toNat ≤ num * Nat.pow base (-e).toNat then e else e - 1

/-- The quotient rounded to the nearest natural, halfway cases to the even one. -/
def roundHalfEven (num den : Nat) : Nat :=
  let whole := num / den
  match compare (2 * (num % den)) den with
  | .lt => whole
  | .eq => whole + whole % 2
  | .gt => whole + 1

/-- The nearest number to `num / den`. A ratio beyond the largest number gives infinity. A mantissa
that rounds up to the next power of two carries into the exponent bits by itself. -/
def ofRatio (negative : Bool) (num den : Nat) : Binary64 :=
  if num = 0 then ofBits negative 0
  else
    let e := max (exponentOf 2 num den - 52) leastExponent
    let mantissa := roundHalfEven (num * Nat.pow 2 (-e).toNat) (den * Nat.pow 2 e.toNat)
    ofBits negative
      (min ((e - leastExponent).toNat * mantissaRange + mantissa) infinityBits)

def ratio? (x : Binary64) : Option (Nat × Nat) :=
  match x.magnitude with
  | .finite m e => some (m * Nat.pow 2 e.toNat, Nat.pow 2 (-e).toNat)
  | .infinite | .nan => none

def powerOfTen (k : Nat) : Binary64 :=
  ofRatio false (Nat.pow 10 k) 1

def mul (x y : Binary64) : Binary64 :=
  match x.ratio?, y.ratio? with
  | some (a, b), some (c, d) => ofRatio false (a * c) (b * d)
  | _, _ => infinity false

def div (x y : Binary64) : Binary64 :=
  match x.ratio?, y.ratio? with
  | some (a, b), some (c, d) => ofRatio false (a * d) (b * c)
  | _, _ => infinity false

def neg (x : Binary64) : Binary64 :=
  ofBits (!x.isNegative) x.magnitudeBits

/-- The number lies in `[0, 1]`. Negative zero does. -/
def isProbability (x : Binary64) : Bool :=
  x.magnitudeBits ≤ 1023 * mantissaRange && (!x.isNegative || x.magnitudeBits = 0)

end Binary64

end PropertyPatterns
