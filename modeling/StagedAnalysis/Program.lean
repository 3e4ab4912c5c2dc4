import StagedAnalysis.Token
/-!
Programs as trees. Every node keeps the range of the source that it stands for; the expression in
a pair of parentheses is the expression itself, with the range of what is inside.
-/
namespace StagedAnalysis

structure Identifier where
  name : String
  span : Span
  deriving DecidableEq

inductive Literal where
  | int (value : Int)
  | float (value : Binary64)
  | string (value : String)
  | bool (value : Bool)
  deriving DecidableEq

namespace Literal

def ty : Literal → Ty
  | int _ => .int
  | float _ => .float
  | string _ => .string
  | bool _ => .bool

end Literal

inductive Expression where
  | literal (value : Literal) (span : Span)
  | identifier (name : Identifier)
  | binary (op : BinaryOp) (left right : Expression) (span : Span)
  | unary (op : UnaryOp) (operand : Expression) (span : Span)
  deriving DecidableEq

namespace Expression

def span : Expression → Span
  | literal _ span => span
  | identifier name => name.span
  | binary _ _ _ span => span
  | unary _ _ span => span

/-- Joins two operands; the range runs over both. -/
def join (op : BinaryOp) (left right : Expression) : Expression :=
  binary op left right (left.span.merge right.span)

def apply (operand : Expression) (op : UnaryOp) (place : Span) : Expression :=
  unary op operand (place.merge operand.span)

end Expression

structure Declaration where
  ty : Ty
  name : Identifier
  value? : Option Expression
  span : Span
  deriving DecidableEq

structure Assignment where
  target : Identifier
  op : AssignOp
  value : Expression
  span : Span
  deriving DecidableEq

/-- What the header of a counting loop begins with. Only the headers that the parser builds are
trees here: no other statement begins one, and only an assignment ends one. -/
inductive LoopStart where
  | nothing
  | declaration (declaration : Declaration)
  | assignment (assignment : Assignment)
  deriving DecidableEq

/-- The header of a `forLoop` has the shapes that the parser builds (see `LoopStart`). -/
inductive Statement where
  | declaration (declaration : Declaration)
  | assignment (assignment : Assignment)
  | ifThen (condition : Expression) (branch : Statement) (span : Span)
  | ifElse (condition : Expression) (branch otherwise : Statement) (span : Span)
  | whileLoop (condition : Expression) (body : Statement) (span : Span)
  | forLoop (start : LoopStart) (condition? : Option Expression) (update? : Option Assignment)
      (body : Statement) (span : Span)
  | print (value : Expression) (span : Span)
  | block (body : List Statement) (span : Span)
  | empty (span : Span)

namespace Statement

def span : Statement → Span
  | declaration declared => declared.span
  | assignment stored => stored.span
  | ifThen _ _ span
  | ifElse _ _ _ span
  | whileLoop _ _ span
  | forLoop _ _ _ _ span
  | print _ span
  | block _ span
  | empty span => span

end Statement

structure Program where
  statements : List Statement

end StagedAnalysis
