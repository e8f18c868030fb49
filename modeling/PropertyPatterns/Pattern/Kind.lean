namespace PropertyPatterns

/-- Patterns over one event `p`, apart from the counted one. -/
inductive OccurrenceKind
  | universality
  | absence
  | existence
  | transientState
  | steadyState
  | minimumDuration
  | maximumDuration
  | recurrence
deriving DecidableEq

/-- Patterns that relate an event `p` with an event `s`. -/
inductive OrderKind
  | precedence
  | holdUntil
  | response
  | responseInvariance
deriving DecidableEq

/-- Patterns that relate an event `p` with the chain of `s` and its links: `p` comes ahead of the
chain in `precedenceOneMany` and `responseOneMany`, and after it in the other two. -/
inductive ChainKind
  | precedenceOneMany
  | precedenceManyOne
  | responseOneMany
  | responseManyOne
deriving DecidableEq

inductive PatternKind
  | occurrence (kind : OccurrenceKind)
  | boundedExistence
  | order (kind : OrderKind)
  | chain (kind : ChainKind)
deriving DecidableEq

inductive PatternFamily
  | occurrence
  | order
  | chain
deriving DecidableEq

def PatternFamily.name : PatternFamily → String
  | occurrence => "Occurrence"
  | order => "Order"
  | chain => "Chain"

namespace PatternKind

/-- Every kind, in the order of the catalogue. -/
def all : List PatternKind :=
  [occurrence .universality, occurrence .absence, occurrence .existence, boundedExistence,
    occurrence .transientState, occurrence .steadyState, occurrence .minimumDuration,
    occurrence .maximumDuration, occurrence .recurrence, order .precedence,
    chain .precedenceOneMany, chain .precedenceManyOne, order .holdUntil, order .response,
    chain .responseOneMany, chain .responseManyOne, order .responseInvariance]

theorem mem_all (k : PatternKind) : k ∈ all := by
  rcases k with k | _ | k | k
  · cases k <;> decide
  · decide
  · cases k <;> decide
  · cases k <;> decide

def tag : PatternKind → String
  | occurrence .universality => "Universality"
  | occurrence .absence => "Absence"
  | occurrence .existence => "Existence"
  | boundedExistence => "BoundedExistence"
  | occurrence .transientState => "TransientState"
  | occurrence .steadyState => "SteadyState"
  | occurrence .minimumDuration => "MinimumDuration"
  | occurrence .maximumDuration => "MaximumDuration"
  | occurrence .recurrence => "Recurrence"
  | order .precedence => "Precedence"
  | chain .precedenceOneMany => "PrecedenceChain1N"
  | chain .precedenceManyOne => "PrecedenceChainN1"
  | order .holdUntil => "Until"
  | order .response => "Response"
  | chain .responseOneMany => "ResponseChain1N"
  | chain .responseManyOne => "ResponseChainN1"
  | order .responseInvariance => "ResponseInvariance"

def ofTag? (s : String) : Option PatternKind :=
  all.find? (·.tag == s)

theorem ofTag?_eq_some_iff {s : String} {k : PatternKind} : ofTag? s = some k ↔ k.tag = s := by
  constructor
  · intro h
    simpa using List.find?_some h
  · rintro rfl
    rcases k with k | _ | k | k
    · cases k <;> decide
    · decide
    · cases k <;> decide
    · cases k <;> decide

def family : PatternKind → PatternFamily
  | occurrence _ | boundedExistence => .occurrence
  | order _ => .order
  | chain _ => .chain

end PatternKind

end PropertyPatterns
