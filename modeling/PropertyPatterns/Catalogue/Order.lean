import PropertyPatterns.Catalogue.Timing
import PropertyPatterns.Catalogue.Window

namespace PropertyPatterns.Order

open Formula

def guard (o : Order) : Option Formula :=
  o.constraint.map absent

/-- `left` holds until `s`, or until the scope closes. The strength is that of scopes without a
closing event. -/
def awaiting (scope : Scope) (free : Strength) (i : Option Bound) (left : Formula) (s : Event) :
    Formula :=
  let closed (strength : Strength) (r : Event) :=
    Formula.wait strength i left (or (event s) (event r))
  match scope with
  | .globally => Formula.wait free i left (event s)
  | .before r => implies (eventually (event r)) (closed .strong r)
  | .after q => atFirst q (Formula.wait free i left (event s))
  | .between q r => always (implies (closedWindow q r) (closed .strong r))
  | .afterUntil q r => always (implies (openWindow q r) (closed .weak r))

def precedence (scope : Scope) (o : Order) (i : Option Bound) : Formula :=
  awaiting scope .weak i (withGuard (absent o.p) o.guard) o.s

def holdUntil (scope : Scope) (o : Order) (i : Option Bound) : Formula :=
  awaiting scope .strong i (withGuard (event o.p) o.guard) o.s

def response (scope : Scope) (o : Order) (i : Option Bound) : Formula :=
  scope.answering (implies (event o.p) (reach o.guard i (event o.s)))
    fun r =>
      implies (event o.p)
        (reach (some (withGuard (absent r) o.guard)) i (and (event o.s) (absent r)))

def responseInvariance (scope : Scope) (o : Order) (i : Option Bound) : Formula :=
  let held := withGuard (event o.s) o.guard
  scope.answering (implies (event o.p) (modal .always i held))
    fun r => implies (event o.p) (Formula.wait .strong i held (event r))

def formula (t : Timing) (scope : Scope) (k : OrderKind) (o : Order) : Formula :=
  let i := t.principalBound (.order k) .asWritten o.timeBound
  match k with
  | .precedence => precedence scope o i
  | .holdUntil => holdUntil scope o i
  | .response => response scope o i
  | .responseInvariance => responseInvariance scope o i

end PropertyPatterns.Order
