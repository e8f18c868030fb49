import PropertyPatterns.Text.Hex

namespace PropertyPatterns.Json

inductive Value
  | string (s : String)
  | array (items : List Value)
  | object (members : List (String × Value))

namespace Value

/-- The escape of a character inside a string: short forms where there are any, otherwise four
digits for control characters. -/
def escape (c : Char) : List Char :=
  match c with
  | '"' => ['\\', '"']
  | '\\' => ['\\', '\\']
  | '\x08' => ['\\', 'b']
  | '\x0c' => ['\\', 'f']
  | '\n' => ['\\', 'n']
  | '\r' => ['\\', 'r']
  | '\t' => ['\\', 't']
  | c =>
    if c.toNat < 0x20 then
      let digits := hexText c.toNat
      ['\\', 'u'] ++ List.replicate (4 - digits.length) '0' ++ digits
    else [c]

def quote (s : String) : String :=
  String.ofList ('"' :: s.toList.flatMap escape ++ ['"'])

def lineStart (level : Nat) : String :=
  String.ofList ('\n' :: List.replicate (2 * level) ' ')

def enclose (opens closes : String) (level : Nat) (entries : List String) : String :=
  if entries.isEmpty then opens ++ closes
  else
    opens ++ String.intercalate "," (entries.map (lineStart (level + 1) ++ ·)) ++
      lineStart level ++ closes

mutual

def prettyAt (level : Nat) : Value → String
  | string s => quote s
  | array vs => enclose "[" "]" level (prettyItems (level + 1) vs)
  | object ms => enclose "\x7b" "\x7d" level (prettyMembers (level + 1) ms)

def prettyItems (level : Nat) : List Value → List String
  | [] => []
  | v :: vs => v.prettyAt level :: prettyItems level vs

def prettyMembers (level : Nat) : List (String × Value) → List String
  | [] => []
  | (k, v) :: ms => (quote k ++ ": " ++ v.prettyAt level) :: prettyMembers level ms

end

def pretty (v : Value) : String :=
  v.prettyAt 0

end Value

end PropertyPatterns.Json
