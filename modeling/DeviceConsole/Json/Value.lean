/-!
JSON values, with the members of an object in the order in which they were given.
-/
namespace DeviceConsole.Json

inductive Value where
  | null
  | bool (b : Bool)
  | integer (i : Int)
  | real (x : Float)
  | text (s : String)
  | list (items : List Value)
  | object (members : List (String × Value))

namespace Value

def natural (n : Nat) : Value := .integer n

end Value

/-- The values of all members with the given name. -/
def valuesOf (name : String) (members : List (String × Value)) : List Value :=
  (members.filter fun m => m.1 == name).map (·.2)

end DeviceConsole.Json
