import PropertyPatterns.Json.Lexeme

namespace PropertyPatterns.Json

/-- Arrays and objects that are not `closed` end where the text stops being JSON. -/
inductive Tree
  | null
  | bool (b : Bool)
  | number (n : Number)
  | string (s : Option String)
  | array (items : List Tree) (closed : Bool)
  | object (members : List (Option String × Tree)) (closed : Bool)
  | broken

/-- A text as a tree; it is `complete` if nothing follows the tree. -/
structure Document where
  tree : Tree
  complete : Bool

namespace Tree

mutual

/-- The value at the start of some lexemes, and the rest of them. Nothing is left behind the place
where they stop being JSON. -/
def value : (fuel : Nat) → List Lexeme → Tree × List Lexeme
  | 0, _ => (broken, [])
  | n + 1, ls =>
    match ls with
    | .null :: ls => (null, ls)
    | .bool b :: ls => (bool b, ls)
    | .number x :: ls => (number x, ls)
    | .string s :: ls => (string s, ls)
    | .openArray :: .closeArray :: ls => (array [] true, ls)
    | .openArray :: ls =>
      let (ts, closed, rest) := items n ls
      (array ts closed, rest)
    | .openObject :: .closeObject :: ls => (object [] true, ls)
    | .openObject :: ls =>
      let (ms, closed, rest) := members n ls
      (object ms closed, rest)
    | _ => (broken, [])

def items : (fuel : Nat) → List Lexeme → List Tree × Bool × List Lexeme
  | 0, _ => ([], false, [])
  | n + 1, ls =>
    let (t, rest) := value n ls
    match rest with
    | .closeArray :: rest => ([t], true, rest)
    | .comma :: rest =>
      let (ts, closed, rest) := items n rest
      (t :: ts, closed, rest)
    | _ => ([t], false, [])

def members : (fuel : Nat) → List Lexeme → List (Option String × Tree) × Bool × List Lexeme
  | 0, _ => ([], false, [])
  | n + 1, ls =>
    match ls with
    | .string key :: .colon :: ls =>
      let (t, rest) := value n ls
      match rest with
      | .closeObject :: rest => ([(key, t)], true, rest)
      | .comma :: rest =>
        let (ms, closed, rest) := members n rest
        ((key, t) :: ms, closed, rest)
      | _ => ([(key, t)], false, [])
    | .string key :: _ => ([(key, broken)], false, [])
    | _ => ([], false, [])

end

mutual

def isWhole : Tree → Bool
  | null | bool _ | number _ | string _ => true
  | array ts closed => closed && areWhole ts
  | object ms closed => closed && membersAreWhole ms
  | broken => false

def areWhole : List Tree → Bool
  | [] => true
  | t :: ts => t.isWhole && areWhole ts

def membersAreWhole : List (Option String × Tree) → Bool
  | [] => true
  | (_, t) :: ms => t.isWhole && membersAreWhole ms

end

end Tree

namespace Document

/-- Each value takes a lexeme or a bracket, so twice their number is more than any depth. -/
def ofText (s : String) : Document :=
  let ls := Lexeme.ofText s
  let (t, rest) := Tree.value (2 * ls.length + 1) ls
  ⟨t, rest.isEmpty⟩

end Document

end PropertyPatterns.Json
