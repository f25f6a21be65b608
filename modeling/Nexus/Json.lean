import Nexus.Runtime
import Nexus.Binary64

namespace Nexus

/-- A `Json::Value`. The members of an object are in the order of their names. -/
inductive Json
  | null
  | int (v : Int)
  | real (v : Binary64)
  | string (s : String)
  | boolean (b : Bool)
  | array (elements : List Json)
  | object (members : List (String × Json))

/-- What the code uses of the library that reads and writes such values. -/
structure Jsoncpp where
  parse : String → Option Json
  writeString : Json → String
  realToString : Binary64 → String

namespace Json

def lookup (key : String) : List (String × Json) → Option Json
  | [] => none
  | (name, v) :: rest => if name = key then some v else lookup key rest

def insertMember (key : String) (v : Json) : List (String × Json) → List (String × Json)
  | [] => [(key, v)]
  | (name, w) :: rest =>
    if name = key then (key, v) :: rest
    else if key < name then (key, v) :: (name, w) :: rest
    else (name, w) :: insertMember key v rest

/-- `root[key]`; a member that is missing reads as null. -/
def member (root : Json) (key : String) : Except Fault Json :=
  match root with
  | null => .ok null
  | object members => .ok ((lookup key members).getD null)
  | _ => .error (.thrown "in Json::Value::resolveReference(): requires objectValue")

/-- `root[key] = v`. -/
def set (root : Json) (key : String) (v : Json) : Except Fault Json :=
  match root with
  | null => .ok (object [(key, v)])
  | object members => .ok (object (insertMember key v members))
  | _ => .error (.thrown "in Json::Value::resolveReference(): requires objectValue")

/-- `root.append(v)`. -/
def append (root v : Json) : Except Fault Json :=
  match root with
  | null => .ok (array [v])
  | array elements => .ok (array (elements ++ [v]))
  | _ => .error (.thrown "in Json::Value::append: requires arrayValue")

def asString (lib : Jsoncpp) : Json → Except Fault String
  | null => .ok ""
  | int v => .ok (toString v)
  | real v => .ok (lib.realToString v)
  | string s => .ok s
  | boolean b => .ok (if b then "true" else "false")
  | _ => .error (.thrown "Type is not convertible to string")

def asInt : Json → Except Fault Int
  | null => .ok 0
  | int v => if INT_MIN ≤ v ∧ v ≤ INT_MAX then .ok v else .error (.thrown "LargestInt out of Int range")
  | real v =>
    match v with
    | .finite q =>
      if (INT_MIN : ℚ) ≤ q ∧ q ≤ INT_MAX then .ok (if 0 ≤ q then ⌊q⌋ else ⌈q⌉)
      else .error (.thrown "double out of Int range")
    | _ => .error (.thrown "double out of Int range")
  | boolean b => .ok (if b then 1 else 0)
  | _ => .error (.thrown "Value is not convertible to Int.")

def asDouble : Json → Except Fault Binary64
  | null => .ok (.finite 0)
  | int v => .ok (Binary64.ofRat v)
  | real v => .ok v
  | boolean b => .ok (.finite (if b then 1 else 0))
  | _ => .error (.thrown "Value is not convertible to double.")

/-- The entries that iteration goes through. -/
def elements : Json → List Json
  | array elements => elements
  | _ => []

end Json
end Nexus
