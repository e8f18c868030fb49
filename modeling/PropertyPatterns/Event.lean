namespace PropertyPatterns

/-- An atomic proposition. Formulas and phrases print its `name`; the `specification` is the
description it was elicited from and never reaches any output. -/
structure Event where
  name : String
  specification : String
deriving DecidableEq

namespace Event

def phrase (e : Event) : String :=
  "\x7b" ++ e.name ++ "\x7d"

/-- The phrase of an event that must not hold while a pattern waits for its next event. -/
def absencePhrase (e : Event) : String :=
  "without " ++ e.phrase ++ " [holding] in between"

end Event

end PropertyPatterns
