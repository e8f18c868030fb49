import PropertyPatterns.Token.Spacing
import PropertyPatterns.Token.WeakUntil

namespace PropertyPatterns

inductive Pass
  | eliminateWeakUntil (s : Token.Substitution)
  | collapseSpacing
deriving DecidableEq

namespace Pass

def name : Pass → String
  | eliminateWeakUntil _ => PassError.eliminationName
  | collapseSpacing => Token.spacingName

def apply : Pass → List Token → Except PassError (List Token)
  | eliminateWeakUntil s, ts => s.eliminate ts
  | collapseSpacing, ts => .ok (Token.collapseSpacing false ts)

def applyAll (ps : List Pass) (ts : List Token) : Except PassError (List Token) :=
  ps.foldlM (fun ts p => p.apply ts) ts

end Pass

end PropertyPatterns
