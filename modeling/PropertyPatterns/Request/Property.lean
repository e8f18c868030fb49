import PropertyPatterns.Json.Fault
import PropertyPatterns.Logic
import PropertyPatterns.Pattern.Construction
import PropertyPatterns.Request.Reading

namespace PropertyPatterns.Request

inductive Owner
  | pattern
  | timeBound
deriving DecidableEq

def Owner.name : Owner → String
  | pattern => "pattern"
  | timeBound => "time bound"

inductive Error
  | malformed (f : Json.Fault)
  | missingField (owner : Owner) (tag field : String)
  | construction (e : ConstructionError)
  | unknownLogic (key : String)
deriving DecidableEq

namespace Error

def diagnostic : Error → Diagnostic
  | malformed f =>
    ⟨"Malformed request: " ++ f.message?.getD "not a JSON text", "psp::request::json", none, false⟩
  | missingField o t f =>
    ⟨o.name ++ " '" ++ t ++ "' needs the field '" ++ f ++ "'", "psp::request::missing_field", none,
      false⟩
  | construction e => e.diagnostic
  | unknownLogic k =>
    ⟨"Unsupported target logic '" ++ k ++ "'", "psp::mapping::unsupported_target",
      some "run `psp targets` to list the available target logics", true⟩

end Error

def logicOfKey (k : String) : Except Error Logic :=
  (Logic.ofKey? k).elim (.error (.unknownLogic k)) .ok

def EventDocument.event (d : EventDocument) : Event :=
  ⟨d.name, d.specification⟩

/-- The anchors count by their number only: one event serves as either anchor of a scope that takes
one. -/
def ScopeDocument.scope (d : ScopeDocument) : Except Error Scope := do
  let k ← (ScopeKind.ofTag d.type).mapError .construction
  let anchors := (d.qEvent.toList ++ d.rEvent.toList).map (·.event)
  (Scope.ofAnchors k anchors).mapError .construction

namespace TimeBoundDocument

def limits (d : TimeBoundDocument) : Except Error Limits :=
  let upper := d.upperLimit.elim Limit.unbounded .finite
  let withLower (make : UInt64 → Limits) : Except Error Limits :=
    d.lowerLimit.elim (.error (.missingField .timeBound d.type "lower_limit")) (.ok ∘ make)
  match d.type with
  | "Upper" => .ok (.upper upper)
  | "Lower" => withLower .lower
  | "Interval" => withLower (.interval · upper)
  | tag => .error (.construction (.unknownTag .timeBound tag))

def timeBound (d : TimeBoundDocument) : Except Error TimeBound := do
  let limits ← d.limits
  return ⟨limits, d.unit.getD TimeBound.defaultUnit⟩

end TimeBoundDocument

def ProbabilityDocument.bound (d : ProbabilityDocument) : Except Error ProbabilityBound := do
  let c ← (Comparison.ofTag d.type).mapError .construction
  (ProbabilityBound.ofThreshold c d.probability).mapError .construction

def LinkDocument.link (d : LinkDocument) : Except Error Link := do
  let b ← d.timeBound.mapM (·.timeBound)
  return ⟨d.event.event, d.constraintEvent.map (·.event), b⟩

namespace PatternDocument

def needed {α : Type} (k : PatternKind) (field : String) (x : Option α) : Except Error α :=
  x.elim (.error (.missingField .pattern k.tag field)) .ok

def order (d : PatternDocument) (k : PatternKind) (o : Occurrence) : Except Error Order := do
  let s ← needed k "s_event" d.sEvent
  return ⟨o.p, s.event, d.constraintEvent.map (·.event), o.timeBound, o.probability⟩

/-- The pattern of the kind that says `o` about its event `p`. Fields that patterns of the kind do
not use are not looked at. -/
def complete (d : PatternDocument) (k : PatternKind) (o : Occurrence) : Except Error Pattern :=
  match k.family with
  | .occurrence =>
    if k = .boundedExistence then do
      let n ← needed k "frequency" d.frequency
      (Pattern.counted n o).mapError .construction
    else
      (Pattern.ofOccurrence k o).mapError .construction
  | .order => do
    let order ← d.order k o
    (Pattern.ofOrder k order).mapError .construction
  | .chain => do
    let order ← d.order k o
    let links ← d.chainEvents.mapM (·.link)
    let c ← (Chain.ofList links).mapError .construction
    (Pattern.ofChain k order c).mapError .construction

def pattern (d : PatternDocument) : Except Error Pattern := do
  let k ← (PatternKind.ofTag d.type).mapError .construction
  let p ← needed k "p_event" d.pEvent
  let b ← d.timeBound.mapM (·.timeBound)
  let pr ← d.probabilityBound.mapM (·.bound)
  d.complete k ⟨p.event, b, pr⟩

end PatternDocument

structure Query where
  logic : Logic
  scope : Scope
  pattern : Pattern

/-- The logic is looked up ahead of the scope, and the scope is built ahead of the pattern. -/
def Document.query (d : Document) : Except Error Query := do
  let logic ← logicOfKey d.targetLogic
  let scope ← d.scope.scope
  let pattern ← d.pattern.pattern
  return ⟨logic, scope, pattern⟩

def Query.ofText (s : String) : Except Error Query := do
  let d ← (Document.ofText s).mapError .malformed
  d.query

end PropertyPatterns.Request
