import PropertyPatterns.Json.Number

namespace PropertyPatterns.Json

inductive Lexeme
  | null
  | bool (b : Bool)
  | number (n : Number)
  /-- A string; none if an escaped surrogate in it has no partner. -/
  | string (s : Option String)
  | openArray
  | closeArray
  | openObject
  | closeObject
  | comma
  | colon
  | broken
deriving DecidableEq

namespace Lexeme

def isSpace (c : Char) : Bool :=
  c = ' ' || c = '\t' || c = '\n' || c = '\r'

def digit? (c : Char) : Option Nat :=
  if c.isDigit then some (c.toNat - '0'.toNat) else none

def hexDigit? (c : Char) : Option Nat :=
  if c.isDigit then some (c.toNat - '0'.toNat)
  else if 'a' ≤ c ∧ c ≤ 'f' then some (c.toNat - 'a'.toNat + 10)
  else if 'A' ≤ c ∧ c ≤ 'F' then some (c.toNat - 'A'.toNat + 10)
  else none

def unit? (a b c d : Char) : Option Nat := do
  let a ← hexDigit? a
  let b ← hexDigit? b
  let c ← hexDigit? c
  let d ← hexDigit? d
  return ((a * 16 + b) * 16 + c) * 16 + d

def simpleEscape? : Char → Option Char
  | '"' => some '"'
  | '\\' => some '\\'
  | '/' => some '/'
  | 'b' => some '\x08'
  | 'f' => some '\x0c'
  | 'n' => some '\n'
  | 'r' => some '\r'
  | 't' => some '\t'
  | _ => none

/-- A string is a row of characters and of 16-bit units from escapes. -/
inductive Piece
  | char (c : Char)
  | unit (n : Nat)

/-- The pieces of a string up to its closing quote, and the rest of the text; none if the string is
broken. -/
def pieces : List Char → Option (List Piece × List Char)
  | '"' :: cs => some ([], cs)
  | '\\' :: 'u' :: a :: b :: c :: d :: cs => do
    let n ← unit? a b c d
    let (ps, cs) ← pieces cs
    return (.unit n :: ps, cs)
  | '\\' :: e :: cs => do
    let c ← simpleEscape? e
    let (ps, cs) ← pieces cs
    return (.char c :: ps, cs)
  | c :: cs =>
    if c = '\\' || c.toNat < 0x20 then none
    else do
      let (ps, cs) ← pieces cs
      return (.char c :: ps, cs)
  | [] => none

def isHighSurrogate (n : Nat) : Bool := 0xd800 ≤ n && n ≤ 0xdbff

def isLowSurrogate (n : Nat) : Bool := 0xdc00 ≤ n && n ≤ 0xdfff

/-- The characters of a string. Surrogates have to come in pairs, both of them escaped. -/
def characters? : List Piece → Option (List Char)
  | [] => some []
  | .char c :: ps => (characters? ps).map (c :: ·)
  | .unit high :: .unit low :: ps =>
    if isHighSurrogate high then
      if isLowSurrogate low then
        (characters? ps).map
          (Char.ofNat (0x10000 + (high - 0xd800) * 0x400 + (low - 0xdc00)) :: ·)
      else none
    else if isLowSurrogate high then none
    else (characters? (.unit low :: ps)).map (Char.ofNat high :: ·)
  | .unit n :: ps =>
    if isHighSurrogate n || isLowSurrogate n then none
    else (characters? ps).map (Char.ofNat n :: ·)

def digits (cs : List Char) : List Nat × List Char :=
  ((cs.takeWhile Char.isDigit).filterMap digit?, cs.dropWhile Char.isDigit)

/-- A whole part has no zero ahead of other digits. -/
def wholePart (cs : List Char) : Option (List Nat × List Char) :=
  match digits cs with
  | ([], _) => none
  | (0 :: _ :: _, _) => none
  | r => some r

def fractionPart : List Char → Option (Option (List Nat) × List Char)
  | '.' :: cs =>
    match digits cs with
    | ([], _) => none
    | (ds, rest) => some (some ds, rest)
  | cs => some (none, cs)

def exponentSign : List Char → Bool × List Char
  | '+' :: cs => (false, cs)
  | '-' :: cs => (true, cs)
  | cs => (false, cs)

def exponentPart (cs : List Char) : Option (Option Int × List Char) :=
  match cs with
  | c :: rest =>
    if c = 'e' || c = 'E' then
      let (negative, rest) := exponentSign rest
      match digits rest with
      | ([], _) => none
      | (ds, rest) =>
        let n : Int := (ds.foldl (fun n d => n * 10 + d) 0 : Nat)
        some (some (if negative then -n else n), rest)
    else some (none, cs)
  | [] => some (none, [])

def unsignedNumber (negative : Bool) (cs : List Char) : Option (Number × List Char) := do
  let (whole, cs) ← wholePart cs
  let (fraction, cs) ← fractionPart cs
  let (exponent, cs) ← exponentPart cs
  return (.ofNumeral ⟨negative, whole, fraction, exponent⟩, cs)

/-- The first lexeme of a text that starts with no space, and the rest of the text; none if there
is no lexeme. -/
def first? : List Char → Option (Lexeme × List Char)
  | '[' :: cs => some (openArray, cs)
  | ']' :: cs => some (closeArray, cs)
  | '\x7b' :: cs => some (openObject, cs)
  | '\x7d' :: cs => some (closeObject, cs)
  | ',' :: cs => some (comma, cs)
  | ':' :: cs => some (colon, cs)
  | 'n' :: 'u' :: 'l' :: 'l' :: cs => some (null, cs)
  | 't' :: 'r' :: 'u' :: 'e' :: cs => some (bool true, cs)
  | 'f' :: 'a' :: 'l' :: 's' :: 'e' :: cs => some (bool false, cs)
  | '"' :: cs => (pieces cs).map fun r => (string ((characters? r.1).map String.ofList), r.2)
  | '-' :: cs => (unsignedNumber true cs).map fun r => (number r.1, r.2)
  | cs => (unsignedNumber false cs).map fun r => (number r.1, r.2)

def firstOf : (count : Nat) → List Char → List Lexeme
  | 0, _ => []
  | n + 1, cs =>
    match cs.dropWhile isSpace with
    | [] => []
    | cs =>
      match first? cs with
      | none => [broken]
      | some (l, rest) => l :: firstOf n rest

/-- The lexemes of a text. Each takes at least one character. -/
def ofText (s : String) : List Lexeme :=
  let cs := s.toList
  firstOf cs.length cs

end Lexeme

end PropertyPatterns.Json
