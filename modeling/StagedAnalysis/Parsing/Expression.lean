import StagedAnalysis.Parsing.State
import StagedAnalysis.Program
/-!
Reading expressions. The six levels of binary operators are one rule at six precedences, wrapped
around each other from the tightest to the loosest; inside of them are the operators in front of
an operand, and then the operand itself, which may be an expression in parentheses.

An expression in parentheses is one level further in. Operators in front of an operand count as
levels only while they are collected. Recursion goes down on `levels`: where the depth leaves no
more than that many levels, the number never decides anything, since at `0` the depth has run out
as well.
-/
namespace StagedAnalysis

def Expression.ofToken? (token : Token) : Option Expression :=
  match token.kind with
  | .int value => some (literal (.int value) token.span)
  | .float value => some (literal (.float value) token.span)
  | .string value => some (literal (.string value) token.span)
  | .keyword .trueWord => some (literal (.bool true) token.span)
  | .keyword .falseWord => some (literal (.bool false) token.span)
  | .identifier name => some (identifier ⟨name, token.span⟩)
  | _ => none

namespace Parse

def operatorAt (precedence : Precedence) (token : Token) : Option BinaryOp :=
  token.kind.binaryOp?.filter (·.precedence = precedence)

def primary (inner : Parse Expression) : Parse Expression := do
  let token ← current
  match Expression.ofToken? token with
  | some operand =>
    let _ ← advance
    return operand
  | none =>
    if token.kind = .symbol .leftParen then
      let _ ← advance
      let operand ← inner
      let _ ← expect .rightParen
      return operand
    else
      throw (.expectedExpression token.description token.span)

/-- Collects the operators in front of an operand, each one a level further in. -/
def operatorRun : Nat → Parse (List (UnaryOp × Span))
  | 0 => do
    match (← current).kind.unaryOp? with
    | none => return []
    | some _ => tooDeep
  | levels + 1 => do
    let token ← current
    match token.kind.unaryOp? with
    | none => return []
    | some op =>
      enter
      let _ ← advance
      let inner ← operatorRun levels
      return (op, token.span) :: inner

def unary (operand : Parse Expression) : Parse Expression := do
  let operators ← operatorRun maxDepth
  leave operators.length
  let innermost ← operand
  return operators.foldr (fun (op, place) expression => expression.apply op place) innermost

/-- Reads on behind a left operand while operators of one precedence follow. -/
def chain (operand : Parse Expression) (precedence : Precedence) :
    Nat → Expression → Parse Expression
  | 0, left => do
    match operatorAt precedence (← current) with
    | none => return left
    | some _ => tooLong
  | budget + 1, left => do
    match operatorAt precedence (← current) with
    | none => return left
    | some op =>
      countOperator
      let _ ← advance
      let right ← operand
      chain operand precedence budget (.join op left right)

/-- Reads operands that are joined to the left by operators of one precedence. -/
def binary (operand : Parse Expression) (precedence : Precedence) : Parse Expression := do
  let left ← operand
  chain operand precedence maxOperators left

/-- Reads an expression of all precedences, given how to read one in parentheses. -/
def expressionBody (inner : Parse Expression) : Parse Expression :=
  Precedence.all.foldr (fun precedence tighter => binary tighter precedence) (unary (primary inner))

def nestedExpression : Nat → Parse Expression
  | 0 => tooDeep
  | levels + 1 => fun state => nested (expressionBody (nestedExpression levels)) state

/-- Reads a complete expression of a statement, which has a count of operators of its own. -/
def expression (levels : Nat) : Parse Expression := do
  resetOperators
  nestedExpression levels

end Parse

end StagedAnalysis
