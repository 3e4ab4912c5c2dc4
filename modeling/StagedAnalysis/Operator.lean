import StagedAnalysis.Ty
/-!
The operators of the language: how they are spelled and how tightly they bind.
-/
namespace StagedAnalysis

inductive BinaryOp where
  | add
  | sub
  | mul
  | div
  | mod
  | eq
  | ne
  | lt
  | le
  | gt
  | ge
  | and
  | or
  deriving DecidableEq

inductive Precedence where
  | disjunction
  | conjunction
  | equality
  | relation
  | sum
  | product
  deriving DecidableEq

def Precedence.all : List Precedence :=
  [disjunction, conjunction, equality, relation, sum, product]

namespace BinaryOp

def symbol : BinaryOp → String
  | add => "+"
  | sub => "-"
  | mul => "*"
  | div => "/"
  | mod => "%"
  | eq => "=="
  | ne => "!="
  | lt => "<"
  | le => "<="
  | gt => ">"
  | ge => ">="
  | and => "&&"
  | or => "||"

def precedence : BinaryOp → Precedence
  | or => .disjunction
  | and => .conjunction
  | eq | ne => .equality
  | lt | le | gt | ge => .relation
  | add | sub => .sum
  | mul | div | mod => .product

end BinaryOp

inductive UnaryOp where
  | neg
  | not
  deriving DecidableEq

namespace UnaryOp

def symbol : UnaryOp → String
  | neg => "-"
  | not => "!"

end UnaryOp

inductive AssignOp where
  | set
  | add
  | sub
  | mul
  | div
  deriving DecidableEq

namespace AssignOp

def step? : AssignOp → Option BinaryOp
  | set => none
  | add => some .add
  | sub => some .sub
  | mul => some .mul
  | div => some .div

end AssignOp

end StagedAnalysis
