import PropertyPatterns.Catalogue.Cell
import PropertyPatterns.Pattern.Phrase
import PropertyPatterns.Token.Pass
import PropertyPatterns.Token.Rendering

namespace PropertyPatterns

inductive Logic
  | structuredEnglish
  | ltl
  | mtl
  | tbv
  | prism
  | quantitativePrism
deriving DecidableEq

namespace Logic

/-- Every logic, in the order in which reports list them. -/
def all : List Logic :=
  [structuredEnglish, ltl, mtl, tbv, prism, quantitativePrism]

def key : Logic → String
  | structuredEnglish => "SEL"
  | ltl => "LTL"
  | mtl => "MTL"
  | tbv => "TBV"
  | prism => "Prism"
  | quantitativePrism => "QuantitativePrism"

def name : Logic → String
  | structuredEnglish => "SEL"
  | ltl => "LTL"
  | mtl => "MTL"
  | tbv => "TBV"
  | prism => "Prism"
  | quantitativePrism => "Quantitative Prism"

def ofKey? (s : String) : Option Logic :=
  all.find? (·.key == s)

def supportsPattern : Logic → PatternKind → Bool
  | ltl, .boundedExistence => false
  | ltl, .occurrence .transientState => false
  | ltl, .occurrence .steadyState => false
  | ltl, .occurrence .minimumDuration => false
  | ltl, .occurrence .maximumDuration => false
  | prism, .boundedExistence => false
  | quantitativePrism, .boundedExistence => false
  | _, _ => true

/-- Every scope occurs in some supported cell. -/
def supportsScope (_ : Logic) (_ : ScopeKind) : Bool :=
  true

/-- The probabilistic logics have a steady state operator, but only for whole traces. -/
def supports (l : Logic) (s : ScopeKind) (p : PatternKind) : Bool :=
  match l with
  | prism | quantitativePrism =>
    l.supportsPattern p && (p ≠ .occurrence .steadyState || s = .globally)
  | structuredEnglish | ltl | mtl | tbv => l.supportsScope s && l.supportsPattern p

def unsupportedMessage (l : Logic) : String :=
  "Mapping not supported for " ++ l.name ++ " Property Specification."

/-- The scopes that the logic supports with each pattern, in the order of the catalogue. -/
def matrix (l : Logic) : List (PatternKind × List ScopeKind) :=
  PatternKind.all.map fun p => (p, ScopeKind.all.filter fun s => l.supports s p)

def vocabulary (l : Logic) (c : Charset) : Vocabulary :=
  match l with
  | structuredEnglish => ⟨.empty l.name, .untimed⟩
  | ltl => ⟨.ltl c, .untimed⟩
  | mtl => ⟨.mtl c, .mtl⟩
  | tbv => ⟨.tbv, .tbv⟩
  | prism | quantitativePrism => ⟨.prism, .prism⟩

def timing : Logic → Timing
  | structuredEnglish | ltl => .untimed
  | mtl | tbv => .nested
  | prism | quantitativePrism => .collapsed

def body (l : Logic) (c : Charset) (scope : Scope) (x : Pattern) :
    Except MissingSymbol (List Token) :=
  (x.formula scope l.timing).render (l.vocabulary c)

def cannotExpress (l : Logic) (what : String) : Token :=
  .error (l.name ++ " cannot express " ++ what)

def timeBoundErrors (l : Logic) (x : Pattern) : List Token :=
  if x.isTimed then [l.cannotExpress "time bounds"] else []

def probabilityErrors (l : Logic) (x : Pattern) : List Token :=
  if x.probability?.isSome then [l.cannotExpress "probability bounds"] else []

/-- What a probabilistic logic asks about a formula: whether the bound holds, or, when quantitative,
the probability itself. Without a bound the formula has to hold almost surely. -/
def query (l : Logic) (operator : String) (x : Pattern) : String :=
  match l, x.probability? with
  | quantitativePrism, _ => operator ++ "=?"
  | _, some b => operator ++ b.comparison.sign ++ b.threshold.toText
  | _, none => operator ++ ">=1"

def steadyStateBody (l : Logic) (x : Pattern) : List Token :=
  .event x.p.name ::
    if x.timeBound?.isSome then [l.cannotExpress ("a time bound on " ++ x.kind.tag)] else []

def queryTokens (query : String) (body : List Token) : List Token :=
  [.text query, .space, .text "[", .space] ++ body ++ [.space, .text "]"]

def probabilisticTokens (l : Logic) (c : Charset) (scope : Scope) (x : Pattern) :
    Except MissingSymbol (List Token) :=
  if x.kind = .occurrence .steadyState then
    .ok (queryTokens (l.query "S" x) (l.steadyStateBody x))
  else do
    let body ← l.body c scope x
    return queryTokens (l.query "P" x) body

/-- The token stream of a cell before any pass. A cell that the logic does not support has
none. -/
def tokens (l : Logic) (c : Charset) (scope : Scope) (x : Pattern) :
    Except MissingSymbol (List Token) :=
  if l.supports scope.kind x.kind then
    match l with
    | structuredEnglish =>
      .ok [.text scope.phrase, .text ", ", .text x.phrase, .text "."]
    | ltl => do
      let body ← l.body c scope x
      return body ++ l.timeBoundErrors x ++ l.probabilityErrors x
    | mtl | tbv => do
      let body ← l.body c scope x
      return body ++ l.probabilityErrors x
    | prism | quantitativePrism => l.probabilisticTokens c scope x
  else .ok []

def passes (l : Logic) (c : Charset) : Except MissingSymbol (List Pass) :=
  match l with
  | structuredEnglish => .ok []
  | ltl | mtl => .ok [.collapseSpacing]
  | tbv | prism | quantitativePrism => do
    let s ← Token.Substitution.ofTable (l.vocabulary c).symbols
    return [.eliminateWeakUntil s, .collapseSpacing]

end Logic

end PropertyPatterns
