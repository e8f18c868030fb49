import PropertyPatterns.Pattern.Basic

namespace PropertyPatterns

def appendPhrase (sentence : String) : Option String → String
  | some x => sentence ++ " " ++ x
  | none => sentence

/-- How long a state lasts, for sentences that have to name a length of time. -/
def lengthOfTime (b : Option TimeBound) : String :=
  (b.map (·.magnitude)).getD "some time"

/-- The gap of a recurrence. A bound without a finite upper limit does not show. -/
def everyPhrase (b : TimeBound) : Option String :=
  b.upper.finite?.map fun u => "every " ++ toString u.toNat ++ " " ++ b.unit

namespace Occurrence

def timed (o : Occurrence) (sentence : String) : String :=
  appendPhrase sentence (o.timeBound.map (·.phrase))

/-- The sentence with its time bound, which some kinds work into the sentence. -/
def sentence (o : Occurrence) : OccurrenceKind → String
  | .universality =>
    o.timed ("it is always the case that " ++ o.p.phrase ++ " [holds]")
  | .absence =>
    o.timed ("it is never the case that " ++ o.p.phrase ++ " [holds]")
  | .existence =>
    o.timed (o.p.phrase ++ " [holds] eventually")
  | .transientState =>
    o.p.phrase ++ " [holds] after " ++ lengthOfTime o.timeBound
  | .steadyState =>
    o.timed (o.p.phrase ++ " [holds] in the long run")
  | .minimumDuration =>
    "once " ++ o.p.phrase ++ " [becomes satisfied] it remains so for at least " ++
      lengthOfTime o.timeBound
  | .maximumDuration =>
    "once " ++ o.p.phrase ++ " [becomes satisfied] it remains so for less than " ++
      lengthOfTime o.timeBound
  | .recurrence =>
    appendPhrase (o.p.phrase ++ " [holds] repeatedly") (o.timeBound.bind everyPhrase)

def countedSentence (o : Occurrence) (n : Frequency) : String :=
  o.timed (o.p.phrase ++ " [holds] at most " ++ toString n.times.toNat ++ " times")

end Occurrence

namespace Order

def sentence (o : Order) : OrderKind → String
  | .precedence =>
    "if " ++ o.p.phrase ++ " [holds] then it must have been the case that " ++ o.s.phrase ++
      " [has occurred] before " ++ o.p.phrase ++ " [holds]"
  | .holdUntil =>
    o.p.phrase ++ " [holds] without interruption until " ++ o.s.phrase ++ " [holds]"
  | .response =>
    "if " ++ o.p.phrase ++ " [has occurred] then in response " ++ o.s.phrase ++
      " [eventually holds]"
  | .responseInvariance =>
    "if " ++ o.p.phrase ++ " [has occurred] then in response " ++ o.s.phrase ++
      " [holds] continually"

def chainSentence (o : Order) (c : Chain) : ChainKind → String
  | .precedenceOneMany =>
    "if " ++ o.s.phrase ++ " [has occurred]" ++ c.phrase " and afterwards " " [holds]" ++
      " then it must have been the case that " ++ o.p.phrase ++ " [has occurred] before " ++
      o.s.phrase ++ " [holds]"
  | .precedenceManyOne =>
    "if " ++ o.p.phrase ++ " [holds] then it must have been the case that " ++ o.s.phrase ++
      " [has occurred]" ++ c.phrase " and afterwards " " [has occurred]" ++ " before " ++
      o.p.phrase ++ " [holds]"
  | .responseOneMany =>
    "if " ++ o.p.phrase ++ " [has occurred] then in response " ++ o.s.phrase ++
      " [eventually holds]" ++ c.phrase " followed by " ""
  | .responseManyOne =>
    "if " ++ o.s.phrase ++ c.phrase " followed by " "" ++
      " [have occurred] then in response " ++ o.p.phrase ++ " [eventually holds]"

def decorate (o : Order) (sentence : String) : String :=
  appendPhrase (appendPhrase sentence (o.timeBound.map (·.phrase)))
    (o.constraint.map (·.absencePhrase))

end Order

namespace Pattern

def sentence : Pattern → String
  | occurrence k o => o.sentence k
  | boundedExistence n o => o.countedSentence n
  | order k o => o.decorate (o.sentence k)
  | chain k o c => o.decorate (o.chainSentence c k)

def phrase (x : Pattern) : String :=
  appendPhrase x.sentence (x.probability?.map (·.phrase))

end Pattern

end PropertyPatterns
