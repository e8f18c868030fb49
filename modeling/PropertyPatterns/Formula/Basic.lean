import PropertyPatterns.Event
import PropertyPatterns.Time.Interval

namespace PropertyPatterns

inductive Connective
  | and
  | or
  | implies
deriving DecidableEq

inductive Modality
  | next
  | always
  | eventually
deriving DecidableEq

/-- A strong until demands that its right operand comes true, a weak one does not. -/
inductive Strength
  | strong
  | weak
deriving DecidableEq

/-- The annotation of a temporal operator: an interval, or the reason why there is none. -/
inductive Bound
  | interval (i : Interval)
  | inexpressible (reason : String)
deriving DecidableEq

def Bound.reason? : Bound → Option String
  | interval _ => none
  | inexpressible r => some r

/-- The constructor `wait` is the until: the left operand holds while the right one is awaited. -/
inductive Formula
  | atom (name : String)
  | neg (body : Formula)
  | connect (c : Connective) (left right : Formula)
  | modal (m : Modality) (bound : Option Bound) (body : Formula)
  | wait (s : Strength) (bound : Option Bound) (left right : Formula)
deriving DecidableEq

namespace Formula

@[match_pattern] abbrev and (left right : Formula) : Formula := connect .and left right

@[match_pattern] abbrev or (left right : Formula) : Formula := connect .or left right

@[match_pattern] abbrev implies (left right : Formula) : Formula := connect .implies left right

@[match_pattern] abbrev next (body : Formula) : Formula := modal .next none body

@[match_pattern] abbrev always (body : Formula) : Formula := modal .always none body

@[match_pattern] abbrev eventually (body : Formula) : Formula := modal .eventually none body

@[match_pattern] abbrev strongUntil (left right : Formula) : Formula := wait .strong none left right

@[match_pattern] abbrev weakUntil (left right : Formula) : Formula := wait .weak none left right

def event (e : Event) : Formula :=
  atom e.name

def absent (e : Event) : Formula :=
  neg (event e)

/-- The conjunction of `first` with each further formula, nested to the left. -/
def conjunction (first : Formula) (more : List Formula) : Formula :=
  more.foldl and first

/-- Puts the bound on the outermost operator, in place of the one it has, if it is temporal. -/
def setBound : Formula → Option Bound → Formula
  | modal m _ f, b => modal m b f
  | wait s _ f g, b => wait s b f g
  | f, _ => f

def isAtom : Formula → Bool
  | atom _ => true
  | _ => false

def isLiteral : Formula → Bool
  | atom _ => true
  | neg f => f.isAtom
  | _ => false

def atoms : Formula → List String
  | atom a => [a]
  | neg f | modal _ _ f => f.atoms
  | connect _ f g | wait _ _ f g => f.atoms ++ g.atoms

/-- The bounds, each operator ahead of its operands. -/
def bounds : Formula → List Bound
  | atom _ => []
  | neg f => f.bounds
  | connect _ f g => f.bounds ++ g.bounds
  | modal _ b f => b.toList ++ f.bounds
  | wait _ b f g => b.toList ++ f.bounds ++ g.bounds

/-- Why bounds could not be expressed, each operator ahead of its operands. -/
def reasons (f : Formula) : List String :=
  f.bounds.filterMap Bound.reason?

def eraseBounds : Formula → Formula
  | atom a => atom a
  | neg f => neg f.eraseBounds
  | connect c f g => connect c f.eraseBounds g.eraseBounds
  | modal m _ f => modal m none f.eraseBounds
  | wait s _ f g => wait s none f.eraseBounds g.eraseBounds

theorem bounds_eraseBounds (f : Formula) : f.eraseBounds.bounds = [] := by
  induction f with
  | atom => rfl
  | neg f ih | modal m b f ih => simpa [eraseBounds, bounds] using ih
  | connect c f g ihf ihg | wait s b f g ihf ihg => simp [eraseBounds, bounds, ihf, ihg]

end Formula

end PropertyPatterns
