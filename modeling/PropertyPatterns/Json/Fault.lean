import PropertyPatterns.Json.Tree
import PropertyPatterns.Text.Quoted

namespace PropertyPatterns.Json

inductive Found
  | null
  | bool (b : Bool)
  | whole (n : Int)
  | float (x : Binary64)
  | string (s : String)
  | sequence
  | map
deriving DecidableEq

inductive Fault
  | notJson
  | missingField (name : String)
  | duplicateField (name : String)
  | invalidType (found : Found) (expected : String)
  | invalidValue (n : Int) (expected : String)
  | invalidLength (found : Nat) (expected : String)
deriving DecidableEq

namespace Found

def text : Found → String
  | null => "null"
  | bool b => "boolean `" ++ (if b then "true" else "false") ++ "`"
  | whole n => "integer `" ++ toString n ++ "`"
  | float x => "floating point `" ++ x.textIn Number.floatFormat ++ "`"
  | string s => "string " ++ Quoted.quote s
  | sequence => "sequence"
  | map => "map"

end Found

namespace Fault

/-- The report of a fault; texts that are no JSON at all have none. -/
def message? : Fault → Option String
  | notJson => none
  | missingField f => some ("missing field `" ++ f ++ "`")
  | duplicateField f => some ("duplicate field `" ++ f ++ "`")
  | invalidType x expected => some ("invalid type: " ++ x.text ++ ", expected " ++ expected)
  | invalidValue n expected =>
    some ("invalid value: " ++ (Found.whole n).text ++ ", expected " ++ expected)
  | invalidLength n expected =>
    some ("invalid length " ++ toString n ++ ", expected " ++ expected)

end Fault

namespace Tree

/-- The fault of a value of another type than the expected one. A value that cannot be read at all
is no JSON. -/
def mismatch (t : Tree) (expected : String) : Fault :=
  match t with
  | null => .invalidType .null expected
  | bool b => .invalidType (.bool b) expected
  | number (.whole n) => .invalidType (.whole n) expected
  | number (.float x) => .invalidType (.float x) expected
  | string (some s) => .invalidType (.string s) expected
  | array _ _ => .invalidType .sequence expected
  | object _ _ => .invalidType .map expected
  | number .tooLarge | string none | broken => .notJson

def readText : Tree → Except Fault String
  | string (some s) => .ok s
  | t => .error (t.mismatch "a string")

def readWord (bits : Nat) : Tree → Except Fault Nat
  | number (.whole n) =>
    if 0 ≤ n ∧ n < Nat.pow 2 bits then .ok n.toNat else .error (.invalidValue n ("u" ++ toString bits))
  | t => .error (t.mismatch ("u" ++ toString bits))

def readUInt32 (t : Tree) : Except Fault UInt32 :=
  (t.readWord 32).map UInt32.ofNat

def readUInt64 (t : Tree) : Except Fault UInt64 :=
  (t.readWord 64).map UInt64.ofNat

/-- Whole numbers are rounded. -/
def readFloat : Tree → Except Fault Binary64
  | number (.whole n) => .ok (.ofRatio (n < 0) n.natAbs 1)
  | number (.float x) => .ok x
  | t => .error (t.mismatch "f64")

def readOptional {α : Type} (read : Tree → Except Fault α) : Tree → Except Fault (Option α)
  | null => .ok none
  | t => (read t).map some

def readList {α : Type} (read : Tree → Except Fault α) : Tree → Except Fault (List α)
  | array ts closed => do
    let xs ← ts.mapM read
    if closed then return xs else throw .notJson
  | t => .error (t.mismatch "a sequence")

end Tree

end PropertyPatterns.Json
