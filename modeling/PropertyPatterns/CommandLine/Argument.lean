namespace PropertyPatterns.CommandLine

inductive Argument
  /-- Two dashes by themselves end the options. -/
  | terminator
  /-- Two dashes and a name, with a value if one is attached to it by an equals sign. -/
  | long (name : String) (attached : Option String)
  /-- One dash and letters, of which the first one counts. -/
  | short (letter : Char)
  | word (s : String)
deriving DecidableEq

namespace Argument

def ofLong (cs : List Char) : Argument :=
  let name := String.ofList (cs.takeWhile (· ≠ '='))
  match cs.dropWhile (· ≠ '=') with
  | [] => long name none
  | _ :: value => long name (some (String.ofList value))

/-- A single dash is a word, by custom the standard input. -/
def ofText (s : String) : Argument :=
  match s.toList with
  | ['-', '-'] => terminator
  | '-' :: '-' :: cs => ofLong cs
  | '-' :: c :: _ => short c
  | _ => word s

def isWord : Argument → Bool
  | word _ => true
  | _ => false

end Argument

inductive Setting
  | request
  | target
  | format
  | charset
deriving DecidableEq

def Setting.name : Setting → String
  | request => "request"
  | target => "target"
  | format => "format"
  | charset => "notation"

inductive Command
  | translate
  | matrix
  | targets
deriving DecidableEq

namespace Command

def all : List Command :=
  [translate, matrix, targets]

def name : Command → String
  | translate => "translate"
  | matrix => "matrix"
  | targets => "targets"

def ofName? (s : String) : Option Command :=
  all.find? (·.name == s)

end Command

inductive Level
  | program
  | command (c : Command)
deriving DecidableEq

namespace Level

/-- The options of a level. The character set may be named at each of them. -/
def settings : Level → List Setting
  | program => [.charset]
  | command .translate => [.request, .format, .charset]
  | command .matrix => [.target, .format, .charset]
  | command .targets => [.format, .charset]

def setting? (l : Level) (name : String) : Option Setting :=
  l.settings.find? (·.name == name)

def command? : Level → String → Option Command
  | program, s => Command.ofName? s
  | command _, _ => none

end Level

end PropertyPatterns.CommandLine
