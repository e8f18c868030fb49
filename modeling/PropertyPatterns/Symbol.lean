import PropertyPatterns.Formula.Basic

namespace PropertyPatterns

inductive Operator
  | not
  | connective (c : Connective)
  | modality (m : Modality)
  | wait (s : Strength)
deriving DecidableEq

namespace Operator

def isModality : Operator → Bool
  | modality _ => true
  | _ => false

def isPropositional : Operator → Bool
  | not | connective _ => true
  | _ => false

end Operator

/-- What a logic may have a text for. -/
inductive Symbol
  | operator (o : Operator)
  | infinity
deriving DecidableEq

namespace Symbol

def name : Symbol → String
  | operator (.modality .always) => "always"
  | operator (.modality .eventually) => "eventually"
  | operator (.modality .next) => "next"
  | operator (.connective .implies) => "implication"
  | operator .not => "not"
  | operator (.connective .and) => "and"
  | operator (.connective .or) => "or"
  | operator (.wait .strong) => "until"
  | operator (.wait .weak) => "weak-until"
  | infinity => "infinity"

def all : List Symbol :=
  [operator (.modality .always), operator (.modality .eventually), operator (.modality .next),
    operator (.connective .implies), operator .not, operator (.connective .and),
    operator (.connective .or), operator (.wait .strong), operator (.wait .weak), infinity]

end Symbol

/-- The texts that a logic has for symbols. -/
structure SymbolTable where
  logic : String
  text? : Symbol → Option String

structure MissingSymbol where
  logic : String
  symbol : Symbol
deriving DecidableEq

def MissingSymbol.message (e : MissingSymbol) : String :=
  e.logic ++ " has no symbol for '" ++ e.symbol.name ++ "'"

namespace SymbolTable

def empty (logic : String) : SymbolTable :=
  ⟨logic, fun _ => none⟩

/-- The table with a text for one more symbol, in place of any it had. -/
def define (t : SymbolTable) (s : Symbol) (text : String) : SymbolTable :=
  ⟨t.logic, fun x => if x = s then some text else t.text? x⟩

def ofList (logic : String) (entries : List (Symbol × String)) : SymbolTable :=
  entries.foldl (fun t e => t.define e.1 e.2) (empty logic)

def has (t : SymbolTable) (s : Symbol) : Bool :=
  (t.text? s).isSome

def lookup (t : SymbolTable) (s : Symbol) : Except MissingSymbol String :=
  (t.text? s).elim (.error ⟨t.logic, s⟩) .ok

def upperText (t : SymbolTable) : Limit → Except MissingSymbol String
  | .finite n => .ok (toString n.toNat)
  | .unbounded => t.lookup .infinity

end SymbolTable

inductive Charset
  | unicode
  | ascii
deriving DecidableEq

namespace Charset

/-- The charset of a name in any mixture of ASCII cases. -/
def ofName? (s : String) : Option Charset :=
  match String.ofList (s.toList.map Char.toLower) with
  | "unicode" => some unicode
  | "ascii" => some ascii
  | _ => none

def unknownMessage (s : String) : String :=
  "unknown notation '" ++ String.ofList (s.toList.map Char.toLower) ++ "'"

end Charset

namespace SymbolTable

def texts (always eventually next implies not and or until_ weakUntil : String) :
    List (Symbol × String) :=
  [(.operator (.modality .always), always), (.operator (.modality .eventually), eventually),
    (.operator (.modality .next), next), (.operator (.connective .implies), implies),
    (.operator .not, not), (.operator (.connective .and), and),
    (.operator (.connective .or), or), (.operator (.wait .strong), until_),
    (.operator (.wait .weak), weakUntil)]

def temporal : Charset → List (Symbol × String)
  | .unicode => texts "☐" "◇" "○" "→" "¬" "∧" "∨" "U" "W"
  | .ascii => texts "[]" "<>" "X" "->" "!" "&&" "||" "U" "W"

def infinitySign : Charset → String
  | .unicode => "∞"
  | .ascii => "inf"

/-- Linear temporal logic writes no intervals and has no sign for infinity. -/
def ltl (c : Charset) : SymbolTable :=
  ofList "LTL" (temporal c)

def mtl (c : Charset) : SymbolTable :=
  (ofList "MTL" (temporal c)).define .infinity (infinitySign c)

def tbv : SymbolTable :=
  (ofList "TBV" (texts "G" "F" "X" "->" "!" "&&" "||" "U" "W")).define .infinity "inf"

/-- Probabilistic logic writes intervals as comparisons, so it needs no sign for infinity. -/
def prism : SymbolTable :=
  ofList "Prism" (texts "G" "F" "X" "=>" "!" "&" "|" "U" "W")

end SymbolTable

end PropertyPatterns
