import PropertyPatterns.Token.Basic

/-!
Elimination of weak untils from token streams, for logics without one. The weak until at the
greatest bracket depth is replaced first, the earliest of several; its operands are then free of
weak untils. Operands are found by their shape: an event, a negated event or a group in brackets,
and behind the operator also one temporal operator and one connective ahead of them.
-/

namespace PropertyPatterns

/-- Why a pass over a token stream fails, with the position of the token in question. -/
inductive PassError
  | unrecognizedOperand (position : Nat) (found : String)
  | unbalancedBrackets (position : Nat)
deriving DecidableEq

namespace PassError

def eliminationName : String := "WeakUntilSubstituter"

def message : PassError → String
  | unrecognizedOperand i found =>
    eliminationName ++ ": unrecognized operand at token " ++ toString i ++ ": " ++ found
  | unbalancedBrackets i => eliminationName ++ ": unbalanced brackets at token " ++ toString i

def code : PassError → String
  | unrecognizedOperand _ _ => "psp::postprocess::operand"
  | unbalancedBrackets _ => "psp::postprocess::brackets"

end PassError

namespace Token

/-- The position of the weak until to replace next, if there is one. The scan stands at `position`
inside `depth` open brackets and has met `best`, a position with its depth. -/
def nextWeakUntilFrom (position depth : Nat) (best : Option (Nat × Nat)) :
    List Token → Except PassError (Option Nat)
  | [] => if depth = 0 then .ok (best.map (·.1)) else .error (.unbalancedBrackets position)
  | t :: ts =>
    match t with
    | opening => nextWeakUntilFrom (position + 1) (depth + 1) best ts
    | closing =>
      if depth = 0 then .error (.unbalancedBrackets position)
      else nextWeakUntilFrom (position + 1) (depth - 1) best ts
    | t =>
      let best :=
        if t.isWeakUntil && best.all (·.2 < depth) then some (position, depth) else best
      nextWeakUntilFrom (position + 1) depth best ts

def nextWeakUntil (ts : List Token) : Except PassError (Option Nat) :=
  nextWeakUntilFrom 0 0 none ts

/-- The group at the start of the stream, up to the bracket that matches the first one, and what
follows it. Reading backwards, the two brackets change roles. `depth` brackets are open. -/
def takeGroup (opens closes : Token) (depth : Nat) : List Token → Option (List Token × List Token)
  | [] => none
  | t :: ts =>
    if t = opens then (takeGroup opens closes (depth + 1) ts).map fun r => (t :: r.1, r.2)
    else if t = closes then
      match depth with
      | 0 => none
      | 1 => some ([t], ts)
      | d + 2 => (takeGroup opens closes (d + 1) ts).map fun r => (t :: r.1, r.2)
    else (takeGroup opens closes depth ts).map fun r => (t :: r.1, r.2)

theorem append_of_takeGroup {opens closes : Token} {depth : Nat} {ts group rest : List Token}
    (h : takeGroup opens closes depth ts = some (group, rest)) : group ++ rest = ts := by
  induction ts generalizing depth group with
  | nil => simp [takeGroup] at h
  | cons t ts ih =>
    have hmap {d : Nat}
        (hd : (takeGroup opens closes d ts).map (fun r => (t :: r.1, r.2)) = some (group, rest)) :
        group ++ rest = t :: ts := by
      obtain ⟨⟨g, r⟩, hr, heq⟩ := Option.map_eq_some_iff.mp hd
      obtain ⟨rfl, rfl⟩ := Prod.mk.inj heq
      rw [List.cons_append, ih hr]
    unfold takeGroup at h
    split at h
    · exact hmap h
    · split at h
      · rcases depth with _ | _ | d
        · simp at h
        · obtain ⟨rfl, rfl⟩ := Prod.mk.inj (Option.some.inj h)
          rfl
        · exact hmap h
      · exact hmap h

/-- The operand that ends a stream, and what is ahead of it. The stream is given backwards and so
are both parts. -/
def leftOperand (reversed : List Token) : Except PassError (List Token × List Token) :=
  match reversed.dropWhile (· = space) with
  | [] => .error (.unrecognizedOperand reversed.length "start of formula")
  | closing :: ts =>
    (takeGroup closing opening 0 (closing :: ts)).elim (.error (.unbalancedBrackets ts.length)) .ok
  | event e :: ts =>
    match ts with
    | operator .not s :: us => .ok ([event e, operator .not s], us)
    | _ => .ok ([event e], ts)
  | t :: ts => .error (.unrecognizedOperand ts.length t.content)

def splitSpaces (ts : List Token) : List Token × List Token :=
  (ts.takeWhile (· = space), ts.dropWhile (· = space))

theorem splitSpaces_append (ts : List Token) : (splitSpaces ts).1 ++ (splitSpaces ts).2 = ts :=
  List.takeWhile_append_dropWhile

def splitBound : List Token → List Token × List Token
  | [] => ([], [])
  | t :: ts => if t.isBound then ([t], ts) else ([], t :: ts)

theorem splitBound_append (ts : List Token) : (splitBound ts).1 ++ (splitBound ts).2 = ts := by
  cases ts with
  | nil => rfl
  | cons t ts =>
    rw [splitBound]
    split <;> rfl

/-- One temporal operator at the start of the stream, with its bound and spaces, and what
follows it. -/
def splitTemporal : List Token → List Token × List Token
  | [] => ([], [])
  | t :: ts =>
    if t.operator?.any (·.isModality) then
      let (bound, ts) := splitBound ts
      let (spaces, ts) := splitSpaces ts
      (t :: bound ++ spaces, ts)
    else ([], t :: ts)

theorem splitTemporal_append (ts : List Token) :
    (splitTemporal ts).1 ++ (splitTemporal ts).2 = ts := by
  cases ts with
  | nil => rfl
  | cons t ts =>
    rw [splitTemporal]
    split
    · simp [splitSpaces_append, splitBound_append]
    · rfl

/-- One connective at the start of the stream, with its spaces, and what follows it. -/
def splitConnective : List Token → List Token × List Token
  | [] => ([], [])
  | t :: ts =>
    if t.operator?.any (·.isPropositional) then
      let (spaces, ts) := splitSpaces ts
      (t :: spaces, ts)
    else ([], t :: ts)

theorem splitConnective_append (ts : List Token) :
    (splitConnective ts).1 ++ (splitConnective ts).2 = ts := by
  cases ts with
  | nil => rfl
  | cons t ts =>
    rw [splitConnective]
    split
    · simp [splitSpaces_append]
    · rfl

/-- The operand at the start of a stream that begins at `position`, and what follows it. -/
def rightOperand (position : Nat) (ts : List Token) :
    Except PassError (List Token × List Token) :=
  let (temporal, ts) := splitTemporal ts
  let (connective, ts) := splitConnective ts
  let lead := temporal ++ connective
  let position := position + lead.length
  match ts with
  | [] => .error (.unrecognizedOperand position "end of formula")
  | event e :: ts => .ok (lead ++ [event e], ts)
  | opening :: ts =>
    match takeGroup opening closing 0 (opening :: ts) with
    | some (group, ts) => .ok (lead ++ group, ts)
    | none => .error (.unbalancedBrackets position)
  | t :: _ => .error (.unrecognizedOperand position t.content)

structure Substitution where
  untilText : String
  orText : String
  alwaysText : String
deriving DecidableEq

namespace Substitution

def ofTable (t : SymbolTable) : Except MissingSymbol Substitution := do
  let untilText ← t.lookup (.operator (.wait .strong))
  let orText ← t.lookup (.operator (.connective .or))
  let alwaysText ← t.lookup (.operator (.modality .always))
  return ⟨untilText, orText, alwaysText⟩

/-- Either the strong until in brackets, or the left operand throughout. Both keep the
bound. -/
def replacement (s : Substitution) (left bound right : List Token) : List Token :=
  opening :: left ++ space :: operator (.wait .strong) s.untilText :: bound ++
    space :: right ++ [closing, space, operator (.connective .or) s.orText, space,
      operator (.modality .always) s.alwaysText] ++ bound ++ space :: left

def replaceAt (s : Substitution) (ts : List Token) (w : Nat) :
    Except PassError (List Token) := do
  let (left, ahead) ← leftOperand (ts.take w).reverse
  let (bound, rest) := splitBound (ts.drop (w + 1))
  let (spaces, rest) := splitSpaces rest
  let (right, rest) ← rightOperand (w + 1 + bound.length + spaces.length) rest
  return ahead.reverse ++ s.replacement left.reverse bound right ++ rest

/-- At most `rounds` replacements, and a last look at the brackets. -/
def eliminateWithin (s : Substitution) : (rounds : Nat) → List Token →
    Except PassError (List Token)
  | 0, ts => do
    let _ ← nextWeakUntil ts
    return ts
  | n + 1, ts => do
    match ← nextWeakUntil ts with
    | none => return ts
    | some w =>
      let ts ← s.replaceAt ts w
      s.eliminateWithin n ts

/-- The stream without weak untils. Each round replaces one and copies none, so there are as many
rounds as there are weak untils. -/
def eliminate (s : Substitution) (ts : List Token) : Except PassError (List Token) :=
  s.eliminateWithin (ts.countP isWeakUntil) ts

end Substitution

end Token

end PropertyPatterns
