import PropertyPatterns.Catalogue.Chain
import PropertyPatterns.Catalogue.Occurrence

namespace PropertyPatterns.Pattern

/-- The formula of a pattern in a scope, bounds placed as the timing asks. -/
def formula (x : Pattern) (scope : Scope) (t : Timing) : Formula :=
  match x with
  | occurrence k o => o.formula t scope k
  | boundedExistence n o => o.countedFormula t scope n
  | order k o => o.formula t scope k
  | chain k o links => o.chainFormula t scope k links

end PropertyPatterns.Pattern
