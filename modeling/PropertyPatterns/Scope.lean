import PropertyPatterns.Event

namespace PropertyPatterns

inductive ScopeKind
  | globally
  | before
  | after
  | between
  | afterUntil
deriving DecidableEq

namespace ScopeKind

def all : List ScopeKind :=
  [globally, before, after, between, afterUntil]

theorem mem_all (k : ScopeKind) : k ∈ all := by
  cases k <;> decide

def tag : ScopeKind → String
  | globally => "Globally"
  | before => "BeforeR"
  | after => "AfterQ"
  | between => "BetweenQandR"
  | afterUntil => "AfterQUntilR"

def ofTag? (s : String) : Option ScopeKind :=
  all.find? (·.tag == s)

def arity : ScopeKind → Nat
  | globally => 0
  | before | after => 1
  | between | afterUntil => 2

end ScopeKind

inductive Scope
  | globally
  | before (r : Event)
  | after (q : Event)
  | between (q r : Event)
  | afterUntil (q r : Event)
deriving DecidableEq

namespace Scope

def kind : Scope → ScopeKind
  | globally => .globally
  | before _ => .before
  | after _ => .after
  | between _ _ => .between
  | afterUntil _ _ => .afterUntil

/-- The scope of a kind with the given anchors, `q` ahead of `r`; none unless there are exactly as
many anchors as the kind takes. -/
def ofAnchors? : ScopeKind → List Event → Option Scope
  | .globally, [] => some globally
  | .before, [r] => some (before r)
  | .after, [q] => some (after q)
  | .between, [q, r] => some (between q r)
  | .afterUntil, [q, r] => some (afterUntil q r)
  | _, _ => none

def opening? : Scope → Option Event
  | globally | before _ => none
  | after q | between q _ | afterUntil q _ => some q

def closing? : Scope → Option Event
  | globally | after _ => none
  | before r | between _ r | afterUntil _ r => some r

/-- The anchors, `q` ahead of `r`. -/
def anchors (s : Scope) : List Event :=
  s.opening?.toList ++ s.closing?.toList

def phrase : Scope → String
  | globally => "Globally"
  | before r => "Before " ++ r.phrase
  | after q => "After " ++ q.phrase
  | between q r => "Between " ++ q.phrase ++ " and " ++ r.phrase
  | afterUntil q r => "After " ++ q.phrase ++ " until " ++ r.phrase

@[simp] theorem ofAnchors?_anchors (s : Scope) : ofAnchors? s.kind s.anchors = some s := by
  cases s <;> rfl

theorem length_anchors (s : Scope) : s.anchors.length = s.kind.arity := by
  cases s <;> rfl

end Scope

end PropertyPatterns
