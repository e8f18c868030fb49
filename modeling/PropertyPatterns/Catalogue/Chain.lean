import PropertyPatterns.Catalogue.Order

namespace PropertyPatterns

open Formula

/-- How a chain is followed: what has to hold all along, the bound of the wait for each link, and a
bound that replaces the one of the last link. -/
structure Course where
  guard : Option Formula
  linkBound : Link → Option Bound
  closing : Option Bound

namespace Course

def waitGuard (c : Course) (l : Link) : Option Formula :=
  match c.guard, l.constraint with
  | some g, some z => some (and g (absent z))
  | some g, none => some g
  | none, some z => some (absent z)
  | none, none => none

def step (c : Course) (bound : Option Bound) (l : Link) (continuation : Option Formula) : Formula :=
  reach (c.waitGuard l) bound
    (match continuation with
      | some f => conjunction (event l.event) (c.guard.toList ++ [f])
      | none => event l.event)

/-- The waits for a link and the ones after it, and then for what follows the chain. -/
def along (c : Course) (tail : Option Formula) : Link → List Link → Formula
  | l, [] => c.step (c.closing <|> c.linkBound l) l tail
  | l, m :: ms => c.step (c.linkBound l) l (some (next (along c tail m ms)))

def follow (c : Course) (links : Chain) (tail : Option Formula) : Formula :=
  next (c.along tail links.first links.rest)

end Course

namespace Order

/-- The course of a chain whose links carry their own bounds where the logic takes them. -/
def annotated (t : Timing) (guard : Option Formula) : Course :=
  ⟨guard, t.linkBound, none⟩

def unannotated (guard : Option Formula) : Course :=
  ⟨guard, fun _ => none, none⟩

def precedenceOneMany (t : Timing) (scope : Scope) (o : Order) (links : Chain) : Formula :=
  let i := t.precedenceBound (.chain .precedenceOneMany) o.timeBound links
  let free :=
    implies (eventually (and (event o.s) ((annotated t none).follow links none)))
      (Formula.wait .strong i (withGuard (absent o.s) o.guard) (event o.p))
  let bounded (r : Event) :=
    conjunction (event o.s) [absent r, (annotated t (some (absent r))).follow links none]
  let closed (strength : Strength) (r : Event) :=
    Formula.wait strength i (withGuard (neg (bounded r)) o.guard) (or (event r) (event o.p))
  match scope with
  | .globally => free
  | .before r => implies (eventually (event r)) (closed .strong r)
  | .after q => atFirst q free
  | .between q r => always (implies (and (event q) (eventually (event r))) (closed .strong r))
  | .afterUntil q r => always (implies (openWindow q r) (closed .weak r))

def precedenceManyOne (t : Timing) (scope : Scope) (o : Order) (links : Chain) : Formula :=
  let i := t.precedenceBound (.chain .precedenceManyOne) o.timeBound links
  let before := withGuard (absent o.p) o.guard
  let course := annotated t (some (absent o.p))
  let causes := conjunction (event o.s) [absent o.p, course.follow links none]
  let free := implies (eventually (event o.p)) (Formula.wait .strong i before causes)
  let closed (strength : Strength) (r : Event) :=
    Formula.wait strength i before (or (event r) causes)
  match scope with
  | .globally => free
  | .before r => implies (eventually (event r)) (closed .strong r)
  | .after q => atFirst q free
  | .between q r => always (implies (and (event q) (eventually (event r))) (closed .strong r))
  | .afterUntil q r => always (implies (openWindow q r) (closed .weak r))

def responseOneMany (t : Timing) (scope : Scope) (o : Order) (links : Chain) : Formula :=
  let i := t.principalBound (.chain .responseOneMany) .asWritten o.timeBound
  let course (guard : Option Formula) : Course :=
    ⟨guard, t.linkBound, t.windowBound o.timeBound links⟩
  scope.answering
    (implies (event o.p)
      (reach o.guard i (and (event o.s) ((course none).follow links none))))
    fun r =>
      implies (event o.p)
        (reach (some (withGuard (absent r) o.guard)) i
          (conjunction (event o.s) [absent r, (course (some (absent r))).follow links none]))

def responseManyOne (t : Timing) (scope : Scope) (o : Order) (links : Chain) : Formula :=
  let i :=
    t.windowBound o.timeBound links <|>
      t.principalBound (.chain .responseManyOne) .asWritten o.timeBound
  let answer (guard : Option Formula) :=
    let effectGuard :=
      match guard with
      | some g => some (withGuard g o.guard)
      | none => o.guard
    implies (and (event o.s) ((unannotated guard).follow links none))
      ((annotated t guard).follow links (some (reach effectGuard i (event o.p))))
  scope.answering (answer none) fun r => answer (some (absent r))

def chainFormula (t : Timing) (scope : Scope) (k : ChainKind) (o : Order) (links : Chain) :
    Formula :=
  match k with
  | .precedenceOneMany => precedenceOneMany t scope o links
  | .precedenceManyOne => precedenceManyOne t scope o links
  | .responseOneMany => responseOneMany t scope o links
  | .responseManyOne => responseManyOne t scope o links

end Order

end PropertyPatterns
