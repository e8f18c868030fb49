import PropertyPatterns.Json.Value
import PropertyPatterns.Outcome

namespace PropertyPatterns

def padRight (width : Nat) (s : String) : String :=
  s ++ String.ofList (List.replicate (width - s.length) ' ')

namespace Outcome

def text : Outcome → String
  | mapped english formula error =>
    "SEG:     " ++ english ++ "\nMapping: " ++ formula ++ "\n" ++
      (error.map fun e => "Warning: " ++ e ++ "\n").getD ""
  | unsupported english reason =>
    "SEG:     " ++ english ++ "\nError:   " ++ reason ++ "\n"

/-- The error of a mapping is left out if there is none. -/
def json : Outcome → Json.Value
  | mapped english formula error =>
    .object ([("seg", .string english), ("mapping", .string formula)] ++
      (error.map fun e => ("mapping_error", .string e)).toList)
  | unsupported english reason =>
    .object [("error", .string reason), ("seg", .string english)]

end Outcome

namespace Logic

def listText (ls : List Logic) : String :=
  String.join (ls.map fun l => padRight 18 l.key ++ " " ++ l.name ++ "\n")

def listJson (ls : List Logic) : Json.Value :=
  .array (ls.map fun l => .object [("key", .string l.key), ("name", .string l.name)])

/-- One line for each pattern, with a dash where no scope is supported. -/
def matrixText (l : Logic) : String :=
  "Supported scopes per pattern in " ++ l.key ++ ":\n" ++
    String.join (l.matrix.map fun (p, ss) =>
      "  " ++ padRight 20 p.tag ++ " " ++
        (if ss.isEmpty then "-" else String.intercalate ", " (ss.map (·.tag))) ++ "\n")

def matrixJson (l : Logic) : Json.Value :=
  .object (l.matrix.map fun (p, ss) => (p.tag, .array (ss.map fun s => .string s.tag)))

end Logic

end PropertyPatterns
