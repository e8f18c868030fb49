import PropertyPatterns.Symbol

namespace PropertyPatterns

inductive Token
  | event (name : String)
  | operator (o : Operator) (text : String)
  | opening
  | closing
  | space
  | timeBound (text : String)
  | text (s : String)
  /-- Something that the logic cannot express. It prints nothing. -/
  | error (message : String)
deriving DecidableEq

namespace Token

def content : Token → String
  | event s | timeBound s | text s | operator _ s => s
  | opening => "("
  | closing => ")"
  | space => " "
  | error _ => ""

def operator? : Token → Option Operator
  | operator o _ => some o
  | _ => none

def isOperator (o : Operator) (t : Token) : Bool :=
  t.operator? = some o

/-- Intervals and errors follow the operator that they belong to. -/
def isBound : Token → Bool
  | timeBound _ | error _ => true
  | _ => false

def message? : Token → Option String
  | error m => some m
  | _ => none

def isWeakUntil : Token → Bool :=
  isOperator (.wait .weak)

def printed (ts : List Token) : String :=
  String.join (ts.map content)

@[simp] theorem printed_nil : printed [] = "" := rfl

@[simp] theorem printed_cons (t : Token) (ts : List Token) :
    printed (t :: ts) = t.content ++ printed ts := by
  simp [printed]

@[simp] theorem printed_append (ts us : List Token) :
    printed (ts ++ us) = printed ts ++ printed us := by
  simp [printed]

@[simp] theorem message?_opening : opening.message? = none := rfl

@[simp] theorem message?_closing : closing.message? = none := rfl

@[simp] theorem message?_space : space.message? = none := rfl

@[simp] theorem message?_operator (o : Operator) (s : String) : (operator o s).message? = none := rfl

@[simp] theorem message?_text (s : String) : (text s).message? = none := rfl

/-- Each message once, in the order of first appearance. -/
def distinct : List String → List String
  | [] => []
  | m :: ms => m :: (distinct ms).filter (· ≠ m)

def messages (ts : List Token) : List String :=
  distinct (ts.filterMap message?)

end Token

end PropertyPatterns
