import PropertyPatterns.Json.Record
import PropertyPatterns.Request.Document

namespace PropertyPatterns.Request

open Json (Tree Fault Layout)

namespace EventDocument

inductive Field
  | name
  | specification
deriving DecidableEq

def Field.Value : Field → Type
  | name => String
  | specification => String

def layout : Layout Field where
  name := "EventDoc"
  fields := [.name, .specification]
  key
    | .name => "name"
    | .specification => "specification"
  mayEnd i := i = .specification

def readField : (i : Field) → Tree → Except Fault i.Value
  | .name => Tree.readText
  | .specification => Tree.readText

/-- The specification may be missing. -/
def read (t : Tree) : Except Fault EventDocument := do
  let v ← layout.read readField t
  let name ← layout.require v .name
  return ⟨name, (v .specification).getD ""⟩

end EventDocument

namespace ScopeDocument

inductive Field
  | type
  | qEvent
  | rEvent
deriving DecidableEq

def Field.Value : Field → Type
  | type => String
  | qEvent => Option EventDocument
  | rEvent => Option EventDocument

def layout : Layout Field where
  name := "ScopeDoc"
  fields := [.type, .qEvent, .rEvent]
  key
    | .type => "type"
    | .qEvent => "q_event"
    | .rEvent => "r_event"
  mayEnd _ := false

def readField : (i : Field) → Tree → Except Fault i.Value
  | .type => Tree.readText
  | .qEvent => Tree.readOptional EventDocument.read
  | .rEvent => Tree.readOptional EventDocument.read

def read (t : Tree) : Except Fault ScopeDocument := do
  let v ← layout.read readField t
  let type ← layout.require v .type
  return ⟨type, (v .qEvent).getD none, (v .rEvent).getD none⟩

end ScopeDocument

namespace TimeBoundDocument

inductive Field
  | type
  | lowerLimit
  | upperLimit
  | unit
deriving DecidableEq

def Field.Value : Field → Type
  | type => String
  | lowerLimit => Option UInt64
  | upperLimit => Option UInt64
  | unit => Option String

def layout : Layout Field where
  name := "TimeBoundDoc"
  fields := [.type, .lowerLimit, .upperLimit, .unit]
  key
    | .type => "type"
    | .lowerLimit => "lower_limit"
    | .upperLimit => "upper_limit"
    | .unit => "unit"
  mayEnd _ := false

def readField : (i : Field) → Tree → Except Fault i.Value
  | .type => Tree.readText
  | .lowerLimit => Tree.readOptional Tree.readUInt64
  | .upperLimit => Tree.readOptional Tree.readUInt64
  | .unit => Tree.readOptional Tree.readText

def read (t : Tree) : Except Fault TimeBoundDocument := do
  let v ← layout.read readField t
  let type ← layout.require v .type
  return ⟨type, (v .lowerLimit).getD none, (v .upperLimit).getD none, (v .unit).getD none⟩

end TimeBoundDocument

namespace ProbabilityDocument

inductive Field
  | type
  | probability
deriving DecidableEq

def Field.Value : Field → Type
  | type => String
  | probability => Binary64

def layout : Layout Field where
  name := "ProbabilityDoc"
  fields := [.type, .probability]
  key
    | .type => "type"
    | .probability => "probability"
  mayEnd _ := false

def readField : (i : Field) → Tree → Except Fault i.Value
  | .type => Tree.readText
  | .probability => Tree.readFloat

def read (t : Tree) : Except Fault ProbabilityDocument := do
  let v ← layout.read readField t
  let type ← layout.require v .type
  let probability ← layout.require v .probability
  return ⟨type, probability⟩

end ProbabilityDocument

namespace LinkDocument

inductive Field
  | event
  | constraintEvent
  | timeBound
deriving DecidableEq

def Field.Value : Field → Type
  | event => EventDocument
  | constraintEvent => Option EventDocument
  | timeBound => Option TimeBoundDocument

def layout : Layout Field where
  name := "ChainEventDoc"
  fields := [.event, .constraintEvent, .timeBound]
  key
    | .event => "event"
    | .constraintEvent => "constraint_event"
    | .timeBound => "time_bound"
  mayEnd _ := false

def readField : (i : Field) → Tree → Except Fault i.Value
  | .event => EventDocument.read
  | .constraintEvent => Tree.readOptional EventDocument.read
  | .timeBound => Tree.readOptional TimeBoundDocument.read

def read (t : Tree) : Except Fault LinkDocument := do
  let v ← layout.read readField t
  let event ← layout.require v .event
  return ⟨event, (v .constraintEvent).getD none, (v .timeBound).getD none⟩

end LinkDocument

namespace PatternDocument

inductive Field
  | type
  | pEvent
  | sEvent
  | constraintEvent
  | timeBound
  | probabilityBound
  | frequency
  | chainEvents
deriving DecidableEq

def Field.Value : Field → Type
  | type => String
  | pEvent => Option EventDocument
  | sEvent => Option EventDocument
  | constraintEvent => Option EventDocument
  | timeBound => Option TimeBoundDocument
  | probabilityBound => Option ProbabilityDocument
  | frequency => Option UInt32
  | chainEvents => List LinkDocument

def layout : Layout Field where
  name := "PatternDoc"
  fields := [.type, .pEvent, .sEvent, .constraintEvent, .timeBound, .probabilityBound, .frequency,
    .chainEvents]
  key
    | .type => "type"
    | .pEvent => "p_event"
    | .sEvent => "s_event"
    | .constraintEvent => "constraint_event"
    | .timeBound => "time_bound"
    | .probabilityBound => "probability_bound"
    | .frequency => "frequency"
    | .chainEvents => "chain_events"
  mayEnd i := i = .chainEvents

def readField : (i : Field) → Tree → Except Fault i.Value
  | .type => Tree.readText
  | .pEvent => Tree.readOptional EventDocument.read
  | .sEvent => Tree.readOptional EventDocument.read
  | .constraintEvent => Tree.readOptional EventDocument.read
  | .timeBound => Tree.readOptional TimeBoundDocument.read
  | .probabilityBound => Tree.readOptional ProbabilityDocument.read
  | .frequency => Tree.readOptional Tree.readUInt32
  | .chainEvents => Tree.readList LinkDocument.read

/-- The chain may be missing, and is then empty. -/
def read (t : Tree) : Except Fault PatternDocument := do
  let v ← layout.read readField t
  let type ← layout.require v .type
  return {
    type
    pEvent := (v .pEvent).getD none
    sEvent := (v .sEvent).getD none
    constraintEvent := (v .constraintEvent).getD none
    timeBound := (v .timeBound).getD none
    probabilityBound := (v .probabilityBound).getD none
    frequency := (v .frequency).getD none
    chainEvents := (v .chainEvents).getD []
  }

end PatternDocument

namespace Document

inductive Field
  | scope
  | pattern
  | targetLogic
deriving DecidableEq

def Field.Value : Field → Type
  | scope => ScopeDocument
  | pattern => PatternDocument
  | targetLogic => String

def layout : Layout Field where
  name := "TranslateRequest"
  fields := [.scope, .pattern, .targetLogic]
  key
    | .scope => "scope"
    | .pattern => "pattern"
    | .targetLogic => "target_logic"
  mayEnd _ := false

def readField : (i : Field) → Tree → Except Fault i.Value
  | .scope => ScopeDocument.read
  | .pattern => PatternDocument.read
  | .targetLogic => Tree.readText

def read (t : Tree) : Except Fault Document := do
  let v ← layout.read readField t
  let scope ← layout.require v .scope
  let pattern ← layout.require v .pattern
  let targetLogic ← layout.require v .targetLogic
  return ⟨scope, pattern, targetLogic⟩

/-- The document of a text. Nothing but space may follow it. -/
def ofText (s : String) : Except Fault Document := do
  let d := Json.Document.ofText s
  let r ← read d.tree
  if d.complete then return r else throw .notJson

end Document

end PropertyPatterns.Request
