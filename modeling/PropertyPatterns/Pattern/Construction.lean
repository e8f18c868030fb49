import PropertyPatterns.Diagnostic
import PropertyPatterns.Pattern.Basic
import PropertyPatterns.Scope

namespace PropertyPatterns

inductive TagFamily
  | scope
  | pattern
  | timeBound
  | probabilityBound
deriving DecidableEq

def TagFamily.name : TagFamily → String
  | scope => "scope"
  | pattern => "pattern"
  | timeBound => "time bound"
  | probabilityBound => "probability bound"

inductive ConstructionError
  | unknownTag (family : TagFamily) (tag : String)
  | wrongArity (kind : ScopeKind) (found : Nat)
  | notAProbability (x : Binary64)
  | emptyChain
  | zeroFrequency
  | wrongFamily (kind : PatternKind) (expected : PatternFamily)
deriving DecidableEq

namespace ConstructionError

def payload : PatternFamily → String
  | .occurrence => "an occurrence payload"
  | .order => "an order payload"
  | .chain => "a chain payload"

def message : ConstructionError → String
  | unknownTag f t => "Unsupported " ++ f.name ++ " type '" ++ t ++ "'"
  | wrongArity k n =>
    "Scope '" ++ k.tag ++ "' takes " ++ toString k.arity ++ " anchor event(s), found " ++ toString n
  | notAProbability x => "Probability " ++ x.toText ++ " is outside [0, 1]"
  | emptyChain => "Chain patterns need at least one chain event"
  | zeroFrequency => "Bounded existence frequency must be at least 1"
  | wrongFamily k f => "Pattern '" ++ k.tag ++ "' expects " ++ payload f

def code : ConstructionError → String
  | unknownTag _ _ => "psp::model::unsupported_type"
  | wrongArity _ _ => "psp::model::scope_arity"
  | notAProbability _ => "psp::model::probability"
  | emptyChain => "psp::model::empty_chain"
  | zeroFrequency => "psp::model::frequency"
  | wrongFamily _ _ => "psp::model::pattern_shape"

def diagnostic (e : ConstructionError) : Diagnostic :=
  match e with
  | unknownTag _ _ =>
    ⟨e.message, e.code, some "check the type tag against the pattern catalogue", true⟩
  | _ => ⟨e.message, e.code, none, false⟩

end ConstructionError

def ScopeKind.ofTag (s : String) : Except ConstructionError ScopeKind :=
  (ScopeKind.ofTag? s).elim (.error (.unknownTag .scope s)) .ok

def PatternKind.ofTag (s : String) : Except ConstructionError PatternKind :=
  (PatternKind.ofTag? s).elim (.error (.unknownTag .pattern s)) .ok

def Comparison.ofTag (s : String) : Except ConstructionError Comparison :=
  (Comparison.ofTag? s).elim (.error (.unknownTag .probabilityBound s)) .ok

/-- The scope of a kind with the given anchors, `q` ahead of `r`. -/
def Scope.ofAnchors (k : ScopeKind) (anchors : List Event) : Except ConstructionError Scope :=
  (Scope.ofAnchors? k anchors).elim (.error (.wrongArity k anchors.length)) .ok

def ProbabilityBound.ofThreshold (c : Comparison) (x : Binary64) :
    Except ConstructionError ProbabilityBound :=
  if h : x.isProbability = true then .ok ⟨c, x, h⟩ else .error (.notAProbability x)

def Chain.ofList (ls : List Link) : Except ConstructionError Chain :=
  (Chain.ofList? ls).elim (.error .emptyChain) .ok

namespace Pattern

def counted (n : UInt32) (o : Occurrence) : Except ConstructionError Pattern :=
  (Frequency.ofWord? n).elim (.error .zeroFrequency) fun f => .ok (.boundedExistence f o)

/-- An occurrence pattern of a given kind. The counted kind lacks its frequency here, so it is
refused as well. -/
def ofOccurrence (k : PatternKind) (o : Occurrence) : Except ConstructionError Pattern :=
  match k with
  | .occurrence k => .ok (.occurrence k o)
  | k => .error (.wrongFamily k .occurrence)

def ofOrder (k : PatternKind) (o : Order) : Except ConstructionError Pattern :=
  match k with
  | .order k => .ok (.order k o)
  | k => .error (.wrongFamily k .order)

def ofChain (k : PatternKind) (o : Order) (links : Chain) : Except ConstructionError Pattern :=
  match k with
  | .chain k => .ok (.chain k o links)
  | k => .error (.wrongFamily k .chain)

end Pattern

end PropertyPatterns
