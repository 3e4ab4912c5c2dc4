import StagedAnalysis.AnalysisError
import StagedAnalysis.Operator
/-!
Which operand types an operator takes, and the type of the result. An operand that already failed
to check makes the result fail without a further report.
-/
namespace StagedAnalysis

namespace BinaryOp

def result? (op : BinaryOp) (left right : Ty) (widening : Bool) : Option Ty :=
  match op with
  | add =>
    if left = .string ∧ right = .string then some .string else left.numericJoin? right widening
  | sub | mul | div => left.numericJoin? right widening
  | mod => if left = .int ∧ right = .int then some .int else none
  | lt | le | gt | ge => (left.numericJoin? right widening).map fun _ => .bool
  | eq | ne =>
    if left = right ∨ (left.numericJoin? right widening).isSome then some .bool else none
  | and | or => if left = .bool ∧ right = .bool then some .bool else none

def wanted : BinaryOp → String
  | add => "numeric or string"
  | sub | mul | div => "numeric"
  | mod => "int"
  | lt | le | gt | ge => "numeric"
  | eq | ne => "comparable"
  | and | or => "bool"

def check (op : BinaryOp) (left right : Ty) (widening : Bool) (span : Span) :
    Ty × List AnalysisError :=
  if left.isError || right.isError then (.error, [])
  else
    match op.result? left right widening with
    | some ty => (ty, [])
    | none =>
      (.error, [.typeMismatch s!"{op.wanted} operands for '{op.symbol}'"
        s!"{left.text} and {right.text}" span])

end BinaryOp

namespace UnaryOp

/-- Whether the operator takes an operand of this type; the result has the same type. -/
def takes (op : UnaryOp) (operand : Ty) : Bool :=
  match op with
  | neg => operand.isNumeric
  | not => operand == .bool

def wanted : UnaryOp → String
  | neg => "numeric"
  | not => "bool"

def check (op : UnaryOp) (operand : Ty) (span : Span) : Ty × List AnalysisError :=
  if operand.isError || op.takes operand then (operand, [])
  else
    (.error, [.typeMismatch s!"{op.wanted} operand for '{op.symbol}'" operand.text span])

end UnaryOp

end StagedAnalysis
