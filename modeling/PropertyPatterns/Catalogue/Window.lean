import PropertyPatterns.Formula.Basic
import PropertyPatterns.Scope

namespace PropertyPatterns

namespace Formula

def withGuard (f : Formula) : Option Formula → Formula
  | some g => and f g
  | none => f

/-- `target` comes true within the bound, and the guard holds until then. -/
def reach (guard : Option Formula) (bound : Option Bound) (target : Formula) : Formula :=
  match guard with
  | some g => wait .strong bound g target
  | none => modal .eventually bound target

/-- A window from `q` to `r` opens here: `r` is still to come. -/
def closedWindow (q r : Event) : Formula :=
  conjunction (event q) [absent r, eventually (event r)]

/-- A window from `q` opens here, whether or not `r` will close it. -/
def openWindow (q r : Event) : Formula :=
  and (event q) (absent r)

/-- The body holds at the first `q`, if there is one. -/
def atFirst (q : Event) (body : Formula) : Formula :=
  or (always (absent q)) (eventually (and (event q) body))

end Formula

namespace Scope

open Formula

def throughout (scope : Scope) (bound : Option Bound) (body : Formula) : Formula :=
  match scope with
  | .globally => modal .always bound body
  | .before r => implies (eventually (event r)) (Formula.wait .strong bound body (event r))
  | .after q => always (implies (event q) (modal .always bound body))
  | .between q r =>
    always (implies (closedWindow q r) (Formula.wait .strong bound body (event r)))
  | .afterUntil q r =>
    always (implies (openWindow q r) (Formula.wait .weak bound body (event r)))

/-- The answer is given at every position of the scope: `free` where the scope never closes,
`bounded r` ahead of a closing event `r`. -/
def answering (scope : Scope) (free : Formula) (bounded : Event → Formula) : Formula :=
  match scope with
  | .globally => always free
  | .before r => implies (eventually (event r)) (strongUntil (bounded r) (event r))
  | .after q => always (implies (event q) (always free))
  | .between q r => always (implies (closedWindow q r) (strongUntil (bounded r) (event r)))
  | .afterUntil q r => always (implies (openWindow q r) (weakUntil (bounded r) (event r)))

end Scope

end PropertyPatterns
