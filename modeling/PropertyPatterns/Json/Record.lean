import PropertyPatterns.Json.Fault

namespace PropertyPatterns.Json

/-- The fields of a record, indexed by `ι`. -/
structure Layout (ι : Type) where
  name : String
  fields : List ι
  key : ι → String
  /-- The field may be missing at the end of an array. -/
  mayEnd : ι → Bool

namespace Layout

variable {ι : Type} [DecidableEq ι] {β : ι → Type}

def expected (l : Layout ι) : String :=
  "struct " ++ l.name

def field? (l : Layout ι) (key : String) : Option ι :=
  l.fields.find? (l.key · = key)

def Values (β : ι → Type) : Type :=
  ∀ i, Option (β i)

def Values.insert (v : Values β) (i : ι) (x : β i) : Values β :=
  fun j => if h : i = j then some (h ▸ x) else v j

/-- Reads members in order. A second value for a field is refused before it is looked at. -/
def readMembers (l : Layout ι) (read : ∀ i, Tree → Except Fault (β i)) (closed : Bool)
    (v : Values β) : List (Option String × Tree) → Except Fault (Values β)
  | [] => if closed then .ok v else .error .notJson
  | (none, _) :: _ => .error .notJson
  | (some key, t) :: ms =>
    match l.field? key with
    | none => if t.isWhole then l.readMembers read closed v ms else .error .notJson
    | some i =>
      if (v i).isSome then .error (.duplicateField key)
      else do
        let x ← read i t
        l.readMembers read closed (v.insert i x) ms

/-- Reads items in order, the first for the first of the fields. -/
def readItems (l : Layout ι) (read : ∀ i, Tree → Except Fault (β i)) (closed : Bool) (seen : Nat)
    (v : Values β) : List ι → List Tree → Except Fault (Values β)
  | [], ts => if closed && ts.isEmpty then .ok v else .error .notJson
  | i :: is, [] =>
    if !closed then .error .notJson
    else if l.mayEnd i then l.readItems read closed seen v is []
    else
      .error (.invalidLength seen
        (l.expected ++ " with " ++ toString l.fields.length ++ " elements"))
  | i :: is, t :: ts => do
    let x ← read i t
    l.readItems read closed (seen + 1) (v.insert i x) is ts

def read (l : Layout ι) (read : ∀ i, Tree → Except Fault (β i)) : Tree → Except Fault (Values β)
  | .object ms closed => l.readMembers read closed (fun _ => none) ms
  | .array ts closed => l.readItems read closed 0 (fun _ => none) l.fields ts
  | t => .error (t.mismatch l.expected)

def require (l : Layout ι) (v : Values β) (i : ι) : Except Fault (β i) :=
  match v i with
  | some x => .ok x
  | none => .error (.missingField (l.key i))

end Layout

end PropertyPatterns.Json
