/-!
JSON values, and the two layouts of their texts. Whole numbers are kept apart from all other
numbers, which keep their text: a field that has to be a whole number takes no other.
-/
namespace StagedAnalysis

inductive Json where
  | null
  | bool (value : Bool)
  | int (value : Int)
  | real (text : String)
  | string (value : String)
  | array (items : List Json)
  | object (members : List (String × Json))

namespace Json

def nat (value : Nat) : Json :=
  .int value

def strings (values : List String) : Json :=
  .array (values.map .string)

def ofOption {α : Type} (write : α → Json) (value? : Option α) : Json :=
  (value?.map write).getD .null

/-- The value of a member. Values that were parsed have no two members with one key. -/
def get? (json : Json) (key : String) : Option Json :=
  match json with
  | object members => members.lookup key
  | _ => none

def asBool? : Json → Option Bool
  | bool value => some value
  | _ => none

def asString? : Json → Option String
  | string value => some value
  | _ => none

def asArray? : Json → Option (List Json)
  | array items => some items
  | _ => none

def asNatBelow? (bound : Nat) : Json → Option Nat
  | int value => if 0 ≤ value ∧ value.toNat < bound then some value.toNat else none
  | _ => none

inductive Layout where
  | compact
  | indented (level : Nat)

namespace Layout

def deeper : Layout → Layout
  | compact => compact
  | indented level => indented (level + 1)

/-- What stands between a bracket or comma and an item. -/
def lineBreak : Layout → List Char
  | compact => []
  | indented level => '\n' :: List.replicate (2 * level) ' '

def colon : Layout → List Char
  | compact => [':']
  | indented _ => [':', ' ']

end Layout

end Json

end StagedAnalysis
