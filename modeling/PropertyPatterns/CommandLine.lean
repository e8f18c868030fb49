import PropertyPatterns.CommandLine.Argument
import PropertyPatterns.Report
import PropertyPatterns.Request.Property

namespace PropertyPatterns.CommandLine

structure Result where
  exitCode : Nat
  stdout : String
  stderr : String
deriving DecidableEq

namespace Result

def success (text : String) : Result :=
  ⟨0, text, ""⟩

def failure (message : String) : Result :=
  ⟨1, "", "Error: " ++ message ++ "\n"⟩

def usage : Result :=
  ⟨2, "", "Usage: psp [--notation <NOTATION>] <COMMAND>\n"⟩

def version : Result :=
  success "psp 0.1.0\n"

def help : Result :=
  success
    ("Translate property specification patterns into temporal logics\n\n" ++
      "Usage: psp [OPTIONS] <COMMAND>\n\n" ++
      "Commands:\n" ++
      "  translate  Translate one request: --request <FILE or -> [--format text|json]\n" ++
      "  matrix     List the scopes each pattern supports: --target <KEY> [--format text|json]\n" ++
      "  targets    List the target logic keys: [--format text|json]\n\n" ++
      "Options:\n" ++
      "      --notation <NOTATION>  Symbol set of the LTL and MTL output: unicode | ascii\n" ++
      "  -h, --help                 Print help\n" ++
      "  -V, --version              Print version\n")

end Result

abbrev Settings : Type := List (Setting × String)

/-- The answer to a flag, by its long name. Only the program itself has a version. -/
def Level.longFlag? : Level → String → Option Result
  | _, "help" => some .help
  | program, "version" => some .version
  | _, _ => none

def Level.shortFlag? : Level → Char → Option Result
  | _, 'h' => some .help
  | program, 'V' => some .version
  | _, _ => none

def helpWord : String := "help"

/-- Help is given on the program or on one command, and reads the same for all. -/
def helpOn : List String → Result
  | [] => .help
  | [arg] => if arg = helpWord || (Command.ofName? arg).isSome then .help else .usage
  | _ => .usage

/-- Reads the arguments of a level up to a command, with the arguments behind it. Each option may be
given once. -/
def readLevel (l : Level) (given : Settings) :
    List String → Except Result (Settings × Option (Command × List String))
  | [] => .ok (given, none)
  | arg :: args =>
    match Argument.ofText arg with
    | .terminator => if args.isEmpty then .ok (given, none) else .error .usage
    | .short c => .error ((l.shortFlag? c).getD .usage)
    | .word s =>
      if l = .program ∧ s = helpWord then .error (helpOn args)
      else
        match l.command? s with
        | some c => .ok (given, some (c, args))
        | none => .error .usage
    | .long name attached =>
      match l.setting? name, attached, args with
      | none, some _, _ => .error .usage
      | none, none, _ => .error ((l.longFlag? name).getD .usage)
      | some s, some value, args =>
        if (given.lookup s).isSome then .error .usage
        else readLevel l ((s, value) :: given) args
      | some s, none, value :: args =>
        if (given.lookup s).isSome || !(Argument.ofText value).isWord then .error .usage
        else readLevel l ((s, value) :: given) args
      | some _, none, [] => .error .usage

inductive OutputFormat
  | text
  | json
deriving DecidableEq

inductive Step
  | finished (r : Result)
  | reading (source : String) (next : Option String → Result)

def formatOfName (s : String) : Except Result OutputFormat :=
  match s with
  | "text" => .ok .text
  | "json" => .ok .json
  | s => .error (.failure ("Unknown output format: " ++ s ++ ". Use 'text' or 'json'."))

def charsetOfName (s : String) : Except Result Charset :=
  (Charset.ofName? s).elim
    (.error (.failure (Charset.unknownMessage s ++ ". Use 'unicode' or 'ascii'."))) .ok

def answer (f : OutputFormat) (text : String) (json : Json.Value) : Result :=
  match f with
  | .text => .success text
  | .json => .success (json.pretty ++ "\n")

def answerRequest (c : Charset) (f : OutputFormat) (source : String) : Option String → Result
  | none => .failure ("Failed to read request '" ++ source ++ "'")
  | some text =>
    match Request.Query.ofText text with
    | .error e => .failure e.diagnostic.message
    | .ok q =>
      match q.logic.outcome c q.scope q.pattern with
      | .error e => .failure e.diagnostic.message
      | .ok outcome => answer f outcome.text outcome.json

def required (given : Settings) (s : Setting) : Except Result String :=
  (given.lookup s).elim (.error .usage) .ok

/-- A command with its options. The character set named behind the command counts ahead of the one
named before it. -/
def runCommand (outer inner : Settings) (c : Command) : Except Result Step := do
  let charsetName := (inner.lookup .charset <|> outer.lookup .charset).getD "unicode"
  match c with
  | .translate =>
    let source ← required inner .request
    let charset ← charsetOfName charsetName
    let f ← formatOfName ((inner.lookup .format).getD "json")
    return .reading source (answerRequest charset f source)
  | .matrix =>
    let key ← required inner .target
    let _ ← charsetOfName charsetName
    let f ← formatOfName ((inner.lookup .format).getD "text")
    let l ← (Request.logicOfKey key).mapError fun e => .failure e.diagnostic.message
    return .finished (answer f l.matrixText l.matrixJson)
  | .targets =>
    let _ ← charsetOfName charsetName
    let f ← formatOfName ((inner.lookup .format).getD "text")
    return .finished (answer f (Logic.listText Logic.all) (Logic.listJson Logic.all))

def steps (args : List String) : Except Result Step := do
  let (outer, command) ← readLevel .program [] args
  match command with
  | none => throw .usage
  | some (c, args) =>
    let (inner, _) ← readLevel (.command c) [] args
    runCommand outer inner c

def run (args : List String) : Step :=
  match steps args with
  | .ok s => s
  | .error r => .finished r

end PropertyPatterns.CommandLine
