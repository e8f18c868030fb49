import PropertyPatterns.Catalogue.Timing
import PropertyPatterns.Catalogue.Window

namespace PropertyPatterns.Occurrence

open Formula

/-- `p` holds and the scope is still open. -/
def inside (p r : Event) : Formula :=
  and (event p) (absent r)

/-- `p` becomes true at the next position. -/
def onset (p : Event) : Formula :=
  and (absent p) (next (event p))

def existence (scope : Scope) (p : Event) (i : Option Bound) : Formula :=
  match scope with
  | .globally => modal .eventually i (event p)
  | .before r => Formula.wait .weak i (absent r) (inside p r)
  | .after q => atFirst q (modal .eventually i (event p))
  | .between q r =>
    always (implies (openWindow q r) (Formula.wait .weak i (absent r) (inside p r)))
  | .afterUntil q r =>
    always (implies (openWindow q r) (Formula.wait .strong i (absent r) (inside p r)))

/-- From here on there are at most `k` stretches of positions at which `p` holds. -/
def boundedStretches (p : Event) : Nat → Formula
  | 0 => always (absent p)
  | k + 1 => weakUntil (absent p) (weakUntil (event p) (boundedStretches p k))

/-- Ahead of the next `r` there are at most `k` stretches of positions at which `p` holds. -/
def boundedStretchesBefore (s : Strength) (p r : Event) : Nat → Formula
  | 0 => Formula.wait s none (absent p) (event r)
  | k + 1 =>
    Formula.wait s none (and (absent p) (absent r))
      (or (event r)
        (Formula.wait s none (inside p r) (or (event r) (boundedStretchesBefore s p r k))))

def boundedExistence (scope : Scope) (p : Event) (n : Nat) (i : Option Bound) : Formula :=
  match scope with
  | .globally => (boundedStretches p n).setBound i
  | .before r => implies (eventually (event r)) ((boundedStretchesBefore .strong p r n).setBound i)
  | .after q =>
    implies (eventually (event q))
      (strongUntil (absent q) (and (event q) ((boundedStretches p n).setBound i)))
  | .between q r =>
    always (implies (and (event q) (eventually (event r)))
      ((boundedStretchesBefore .strong p r n).setBound i))
  | .afterUntil q r =>
    always (implies (event q) ((boundedStretchesBefore .weak p r n).setBound i))

def transientState (scope : Scope) (p : Event) (i : Option Bound) : Formula :=
  match scope with
  | .globally => modal .eventually i (event p)
  | .before r =>
    implies (eventually (event r)) (Formula.wait .strong i (absent r) (inside p r))
  | .after q => atFirst q (modal .eventually i (event p))
  | .between q r =>
    always (implies (closedWindow q r) (Formula.wait .strong i (absent r) (inside p r)))
  | .afterUntil q r =>
    always (implies (openWindow q r) (Formula.wait .strong i (absent r) (inside p r)))

/-- Ahead of `r` a stretch begins that holds `p` until `r`. -/
def settles (s : Strength) (p r : Event) (i : Option Bound) : Formula :=
  strongUntil (absent r) (Formula.wait s i (event p) (event r))

def steadyState (scope : Scope) (p : Event) (i : Option Bound) : Formula :=
  let forGood := eventually (modal .always i (event p))
  match scope with
  | .globally => forGood
  | .before r => implies (eventually (event r)) (settles .strong p r i)
  | .after q => always (implies (event q) forGood)
  | .between q r => always (implies (closedWindow q r) (settles .strong p r i))
  | .afterUntil q r => always (implies (openWindow q r) (settles .weak p r i))

def minimumDuration (p : Event) (i : Option Bound) : Formula :=
  implies (onset p) (next (modal .always i (event p)))

def maximumDuration (p : Event) (i : Option Bound) : Formula :=
  implies (onset p) (next (modal .eventually i (absent p)))

def recurrence (scope : Scope) (p : Event) (i : Option Bound) : Formula :=
  scope.answering (modal .eventually i (event p))
    fun r => modal .eventually i (or (event p) (event r))

def shape : OccurrenceKind → Shape
  | .universality | .absence | .existence => .asWritten
  | .transientState => .exactly
  | .steadyState => .atLeast
  | .minimumDuration => .untilLower
  | .maximumDuration => .lessThan
  | .recurrence => .atMost

def formula (t : Timing) (scope : Scope) (k : OccurrenceKind) (o : Occurrence) : Formula :=
  let i := t.principalBound (.occurrence k) (shape k) o.timeBound
  match k with
  | .universality => scope.throughout i (event o.p)
  | .absence => scope.throughout i (absent o.p)
  | .existence => existence scope o.p i
  | .transientState => transientState scope o.p i
  | .steadyState => steadyState scope o.p i
  | .minimumDuration => scope.throughout none (minimumDuration o.p i)
  | .maximumDuration => scope.throughout none (maximumDuration o.p i)
  | .recurrence => recurrence scope o.p i

def countedFormula (t : Timing) (scope : Scope) (n : Frequency) (o : Occurrence) : Formula :=
  boundedExistence scope o.p n.times.toNat
    (t.principalBound .boundedExistence .asWritten o.timeBound)

end PropertyPatterns.Occurrence
