/-! JSON values as the messages of the runtime carry them. -/

namespace Hane.Ai

/-- `serde_json::Value`. A number is kept by its value as a `u64`, if it has one; the fields of an
object are in the order the map gives them.
-/
inductive Value where
  | null
  | bool (value : Bool)
  | number (unsigned : Option Nat)
  | string (text : String)
  | array (values : List Value)
  | object (fields : List (String × Value))

namespace Value

/-- A field of an object; other values have none. -/
def get (value : Value) (key : String) : Option Value :=
  match value with
  | .object fields => (fields.find? fun field => field.1 == key).map Prod.snd
  | _ => none

def asStr : Value → Option String
  | .string text => some text
  | _ => none

def asU64 : Value → Option Nat
  | .number unsigned => unsigned
  | _ => none

def isNull : Value → Bool
  | .null => true
  | _ => false

def getStr (value : Value) (key : String) : Option String := (value.get key).bind asStr

end Value

end Hane.Ai
