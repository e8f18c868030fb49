import PropertyPatterns.Number.Binary64

/-!
Decimal text of binary numbers: the fewest digits that only the number itself rounds to, and of
those the nearest. A format says which of two equally near decimals is taken, and which numbers are
written positionally and which with an exponent.
-/

namespace PropertyPatterns

/-- `digits * 10 ^ exponent`. -/
structure Decimal where
  digits : Nat
  exponent : Int
deriving DecidableEq

namespace Decimal

/-- Which of two equally near decimals is taken: the one further from zero, or the one whose last
digit is even. -/
inductive Tie
  | away
  | even
deriving DecidableEq

/-- The reals that round to one number: from `low / den` to `high / den`, around `mid / den`, the
ends included if `closed`. -/
structure Rounding where
  low : Nat
  mid : Nat
  high : Nat
  den : Nat
  closed : Bool

namespace Rounding

/-- Halfway to the neighbours on both sides. Below a power of two the numbers lie twice as dense. -/
def ofFinite (mantissa : Nat) (exponent : Int) : Rounding :=
  let e := exponent - 2
  let unit := Nat.pow 2 e.toNat
  let dense := mantissa = Binary64.mantissaRange ∧ Binary64.leastExponent < exponent
  { low := (4 * mantissa - if dense then 1 else 2) * unit
    mid := 4 * mantissa * unit
    high := (4 * mantissa + 2) * unit
    den := Nat.pow 2 (-e).toNat
    closed := mantissa % 2 = 0 }

def holds (r : Rounding) (d : Decimal) : Bool :=
  let num := d.digits * Nat.pow 10 d.exponent.toNat * r.den
  let scale := Nat.pow 10 (-d.exponent).toNat
  if r.closed then r.low * scale ≤ num && num ≤ r.high * scale
  else r.low * scale < num && num < r.high * scale

/-- The decimals with this exponent on either side of the middle, the nearer one ahead. -/
def neighbours (r : Rounding) (tie : Tie) (exponent : Int) : List Decimal :=
  let num := r.mid * Nat.pow 10 (-exponent).toNat
  let den := r.den * Nat.pow 10 exponent.toNat
  let below : Decimal := ⟨num / den, exponent⟩
  let above : Decimal := ⟨num / den + 1, exponent⟩
  match compare (2 * (num % den)) den, tie with
  | .lt, _ => [below, above]
  | .eq, .even => if below.digits % 2 = 0 then [below, above] else [above, below]
  | .eq, .away | .gt, _ => [above, below]

/-- The first decimal within reach, the exponent falling by one for each further digit. -/
def search (r : Rounding) (tie : Tie) : (further : Nat) → (exponent : Int) → Decimal
  | 0, e => (r.neighbours tie e).headD ⟨0, 0⟩
  | n + 1, e => ((r.neighbours tie e).find? r.holds).getD (r.search tie n (e - 1))

end Rounding

/-- Sixteen digits after the first tell any two numbers apart. -/
def shortest (tie : Tie) (mantissa : Nat) (exponent : Int) : Decimal :=
  if mantissa = 0 then ⟨0, 0⟩
  else
    let r := Rounding.ofFinite mantissa exponent
    r.search tie 16 (Binary64.exponentOf 10 r.mid r.den)

def zeros (n : Nat) : List Char :=
  List.replicate n '0'

def dropTrailingZeros (digits : List Char) : List Char :=
  (digits.reverse.dropWhile (· == '0')).reverse

def wholePart (d : Decimal) : Nat :=
  d.digits * Nat.pow 10 d.exponent.toNat / Nat.pow 10 (-d.exponent).toNat

/-- The digits behind the point, without trailing zeros. -/
def fraction (d : Decimal) : List Char :=
  let places := (-d.exponent).toNat
  let rest := Nat.toDigits 10 (d.digits % Nat.pow 10 places)
  dropTrailingZeros (zeros (places - rest.length) ++ rest)

def leadingExponent (d : Decimal) : Int :=
  d.exponent + (Nat.toDigits 10 d.digits).tail.length

/-- All digits up to the units, and from there on behind a point. A whole number has a point only if
`pointed`, and then a zero behind it. -/
def positional (pointed : Bool) (d : Decimal) : String :=
  match d.fraction with
  | [] => toString d.wholePart ++ if pointed then ".0" else ""
  | ds => toString d.wholePart ++ "." ++ String.ofList ds

/-- The first digit, the others behind a point, and the exponent of the first with its sign. A
single digit has no point. -/
def scientific (d : Decimal) : String :=
  let ds := Nat.toDigits 10 d.digits
  let e := d.leadingExponent
  let point := match dropTrailingZeros ds.tail with
    | [] => []
    | rest => '.' :: rest
  String.ofList (ds.take 1 ++ point) ++ "e" ++ (if e < 0 then "-" else "+") ++ toString e.natAbs

structure Format where
  tie : Tie
  /-- Whole numbers that are written positionally show a point. -/
  pointed : Bool
  /-- The exponents of the first digit that are written positionally, from the first of the two to
  below the second; without limits all are. -/
  limits : Option (Int × Int)

namespace Format

def plain : Format where
  tie := .away
  pointed := false
  limits := none

def isPositional (f : Format) (d : Decimal) : Bool :=
  f.limits.all fun r => r.1 ≤ d.leadingExponent && d.leadingExponent < r.2

def write (f : Format) (d : Decimal) : String :=
  if f.isPositional d then d.positional f.pointed else d.scientific

end Format

end Decimal

namespace Binary64

def textIn (x : Binary64) (f : Decimal.Format) : String :=
  let sign := if x.isNegative then "-" else ""
  match x.magnitude with
  | .finite m e => sign ++ f.write (Decimal.shortest f.tie m e)
  | .infinite => sign ++ "inf"
  | .nan => "NaN"

/-- Never with an exponent; whole numbers without a point. -/
def toText (x : Binary64) : String :=
  x.textIn .plain

end Binary64

end PropertyPatterns
