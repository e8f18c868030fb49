import PropertyPatterns.Token.Basic

namespace PropertyPatterns

/-- How a logic writes intervals: not at all, as `[l,u]`, or as comparisons. -/
inductive IntervalStyle
  | unsupported
  | bracketed
  | relational
deriving DecidableEq

structure IntervalFormat where
  style : IntervalStyle
  /-- Intervals that allow every delay are left out. -/
  omitsEverything : Bool
deriving DecidableEq

namespace IntervalFormat

def untimed : IntervalFormat := ⟨.unsupported, false⟩

def mtl : IntervalFormat := ⟨.bracketed, false⟩

def tbv : IntervalFormat := ⟨.bracketed, true⟩

def prism : IntervalFormat := ⟨.relational, true⟩

end IntervalFormat

structure Vocabulary where
  symbols : SymbolTable
  intervals : IntervalFormat

namespace Vocabulary

def inexpressible (v : Vocabulary) (what : String) (i : Interval) : Token :=
  .error (v.symbols.logic ++ " cannot express the " ++ what ++ " " ++ i.toText)

/-- Comparisons have no form for an open finite end above a lower limit. -/
def relationalToken (v : Vocabulary) (i : Interval) : Token :=
  let l := toString i.lower.toNat
  match i.upper with
  | .unbounded => .timeBound (">=" ++ l)
  | .finite u =>
    let u := toString u.toNat
    if i.lower = 0 then .timeBound ((if i.includesUpper then "<=" else "<") ++ u)
    else if i.includesUpper then .timeBound ("[" ++ l ++ "," ++ u ++ "]")
    else v.inexpressible "half-open time interval" i

def intervalTokens (v : Vocabulary) (i : Interval) : Except MissingSymbol (List Token) :=
  if i.isEverything && v.intervals.omitsEverything then .ok []
  else
    match v.intervals.style with
    | .unsupported => .ok [v.inexpressible "time interval" i]
    | .bracketed => do
      let upper ← v.symbols.upperText i.upper
      return [.timeBound
        ("[" ++ toString i.lower.toNat ++ "," ++ upper ++ i.closingMark)]
    | .relational => .ok [v.relationalToken i]

def boundTokens (v : Vocabulary) : Option Bound → Except MissingSymbol (List Token)
  | none => .ok []
  | some (.inexpressible reason) => .ok [.error reason]
  | some (.interval i) => v.intervalTokens i

def operatorToken (v : Vocabulary) (o : Operator) : Except MissingSymbol Token := do
  let text ← v.symbols.lookup (.operator o)
  return .operator o text

def annotated (v : Vocabulary) (o : Operator) (b : Option Bound) :
    Except MissingSymbol (List Token) := do
  let op ← v.operatorToken o
  let bound ← v.boundTokens b
  return op :: bound

end Vocabulary

namespace Token

def group (ts : List Token) : List Token :=
  opening :: ts ++ [closing]

end Token

namespace Formula

/-- The formula needs no brackets as an operand of the operator. -/
def isBareIn (o : Operator) (f : Formula) : Bool :=
  f.isLiteral ||
    match o, f with
    | .connective .and, and _ _ | .connective .or, or _ _ => true
    | _, _ => false

def operandTokens (o : Operator) (f : Formula) (ts : List Token) : List Token :=
  if f.isBareIn o then ts else Token.group ts

/-- The token stream of a formula. The first missing symbol is that of the leftmost token. -/
def render (v : Vocabulary) : Formula → Except MissingSymbol (List Token)
  | atom a => .ok [.event a]
  | neg f => do
    let op ← v.operatorToken .not
    let ts ← f.render v
    return op :: if f.isAtom then ts else Token.group ts
  | connect c f g => do
    let left ← f.render v
    let op ← v.operatorToken (.connective c)
    let right ← g.render v
    return f.operandTokens (.connective c) left ++ .space :: op :: .space ::
      g.operandTokens (.connective c) right
  | modal m b f => do
    let op ← v.annotated (.modality m) b
    let ts ← f.render v
    return op ++ .space :: Token.group ts
  | wait s b f g => do
    let left ← f.render v
    let op ← v.annotated (.wait s) b
    let right ← g.render v
    return f.operandTokens (.wait s) left ++ .space :: op ++ .space ::
      g.operandTokens (.wait s) right

end Formula

end PropertyPatterns
