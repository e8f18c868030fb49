import PropertyPatterns.Number.Binary64

namespace PropertyPatterns.Request

structure EventDocument where
  name : String
  specification : String
deriving DecidableEq

structure ScopeDocument where
  type : String
  qEvent : Option EventDocument
  rEvent : Option EventDocument
deriving DecidableEq

structure TimeBoundDocument where
  type : String
  lowerLimit : Option UInt64
  /-- Absent means unbounded. -/
  upperLimit : Option UInt64
  unit : Option String
deriving DecidableEq

structure ProbabilityDocument where
  type : String
  probability : Binary64
deriving DecidableEq

structure LinkDocument where
  event : EventDocument
  constraintEvent : Option EventDocument
  timeBound : Option TimeBoundDocument
deriving DecidableEq

structure PatternDocument where
  type : String
  pEvent : Option EventDocument
  sEvent : Option EventDocument
  constraintEvent : Option EventDocument
  timeBound : Option TimeBoundDocument
  probabilityBound : Option ProbabilityDocument
  frequency : Option UInt32
  chainEvents : List LinkDocument
deriving DecidableEq

structure Document where
  scope : ScopeDocument
  pattern : PatternDocument
  targetLogic : String
deriving DecidableEq

end PropertyPatterns.Request
