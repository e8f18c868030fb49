import PropertyPatterns.Number.Decimal

namespace PropertyPatterns

inductive Comparison
  | lower
  | lowerEqual
  | greater
  | greaterEqual
deriving DecidableEq

namespace Comparison

def all : List Comparison :=
  [lower, lowerEqual, greater, greaterEqual]

def tag : Comparison → String
  | lower => "Lower"
  | lowerEqual => "LowerEqual"
  | greater => "Greater"
  | greaterEqual => "GreaterEqual"

def ofTag? (s : String) : Option Comparison :=
  all.find? (·.tag == s)

theorem ofTag?_eq_some_iff {s : String} {c : Comparison} : ofTag? s = some c ↔ c.tag = s := by
  constructor
  · intro h
    simpa using List.find?_some h
  · rintro rfl
    cases c <;> decide

def sign : Comparison → String
  | lower => "<"
  | lowerEqual => "<="
  | greater => ">"
  | greaterEqual => ">="

def phrase : Comparison → String
  | lower => "lower than"
  | lowerEqual => "lower than or equal to"
  | greater => "greater than"
  | greaterEqual => "greater than or equal to"

end Comparison

structure ProbabilityBound where
  comparison : Comparison
  threshold : Binary64
  isProbability : threshold.isProbability = true
deriving DecidableEq

namespace ProbabilityBound

def phrase (b : ProbabilityBound) : String :=
  "with a probability " ++ b.comparison.phrase ++ " " ++ b.threshold.toText

end ProbabilityBound

end PropertyPatterns
