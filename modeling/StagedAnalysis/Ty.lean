/-!
The types of values. `error` is the type of an expression that already failed to check; it goes with
every other type, so that one mistake is reported once.
-/
namespace StagedAnalysis

inductive Ty where
  | int
  | float
  | bool
  | string
  | error
  deriving DecidableEq

namespace Ty

def text : Ty → String
  | int => "int"
  | float => "float"
  | bool => "bool"
  | string => "string"
  | error => "<error>"

def isNumeric : Ty → Bool
  | int | float => true
  | _ => false

def isError (ty : Ty) : Bool :=
  ty == error

/-- Whether a value of type `value` may be stored where `target` is wanted. With `widening` an int
may go where a float is wanted; a float never goes where an int is wanted. -/
def accepts (target value : Ty) (widening : Bool) : Bool :=
  if target.isError || value.isError then true
  else if target = float ∧ value = int then widening
  else target == value

/-- The common numeric type of two operands. With `widening` an int and a float meet in float. -/
def numericJoin? (left right : Ty) (widening : Bool) : Option Ty :=
  match left, right with
  | int, int => some int
  | float, float => some float
  | int, float | float, int => if widening then some float else none
  | _, _ => none

theorem accepts_self (ty : Ty) (widening : Bool) : ty.accepts ty widening = true := by
  cases ty <;> cases widening <;> rfl

theorem numericJoin?_comm (left right : Ty) (widening : Bool) :
    left.numericJoin? right widening = right.numericJoin? left widening := by
  cases left <;> cases right <;> rfl

end Ty

end StagedAnalysis
