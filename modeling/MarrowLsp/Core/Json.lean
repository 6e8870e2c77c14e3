-- SUMMARY: JSON values as `serde_json` holds them, and the accessors the repository uses on them.
import Mathlib.Algebra.Group.Nat.Defs

/-!
# JSON values
-/
namespace MarrowLsp

/-- A number: an unsigned or negative integer, or any other number by its spelling. -/
inductive JsonNumber where
  | posInt (n : Nat)
  | negInt (n : Int)
  | float (spelling : String)
  deriving DecidableEq, Repr

inductive Json where
  | null
  | bool (value : Bool)
  | number (value : JsonNumber)
  | string (value : String)
  | array (values : List Json)
  | object (members : List (String × Json))
  deriving Repr

namespace Json

/-- `Value::get` by key: the member of an object. -/
def get : Json → String → Option Json
  | .object members, key => (members.find? fun member => member.1 == key).map (·.2)
  | _, _ => none

def asStr : Json → Option String
  | .string value => some value
  | _ => none

def asU64 : Json → Option Nat
  | .number (.posInt n) => if n < 2 ^ 64 then some n else none
  | _ => none

def asBool : Json → Option Bool
  | .bool value => some value
  | _ => none

def asArray : Json → Option (List Json)
  | .array values => some values
  | _ => none

/-- `Map::remove` on an object, nothing on another value. -/
def remove : Json → String → Json
  | .object members, key => .object (members.filter fun member => !(member.1 == key))
  | value, _ => value

end Json

end MarrowLsp
