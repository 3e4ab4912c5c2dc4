import StagedAnalysis.Parsing.State
import StagedAnalysis.Program
/-!
The grammar of the language, as rules that say which words of token kinds stand for which trees.

A rule gives the tree of a phrase without its ranges. Every statement and every expression has a
level: a statement of the program itself has level one, and going into a block, a branch, a body
or a pair of parentheses adds one. The rules refuse what goes beyond given limits, so that one
relation describes the language both with the limits that a reader of tokens keeps and with any
others.

No machine, no state and no order of reading occurs here.
-/
namespace StagedAnalysis

/-! ### Trees without ranges -/

def Identifier.unplaced (name : Identifier) : Identifier :=
  ⟨name.name, .origin⟩

namespace Expression

def unplaced : Expression → Expression
  | literal value _ => literal value .origin
  | identifier name => identifier name.unplaced
  | binary op left right _ => binary op left.unplaced right.unplaced .origin
  | unary op operand _ => unary op operand.unplaced .origin

/-- The number of binary operators, those in parentheses included. -/
def operatorCount : Expression → Nat
  | literal _ _ => 0
  | identifier _ => 0
  | binary _ left right _ => left.operatorCount + right.operatorCount + 1
  | unary _ operand _ => operand.operatorCount

theorem operatorCount_unplaced (expression : Expression) :
    expression.unplaced.operatorCount = expression.operatorCount := by
  induction expression with
  | literal value span => rfl
  | identifier name => rfl
  | binary op left right span leftSame rightSame =>
      simp only [unplaced, operatorCount, leftSame, rightSame]
  | unary op operand span same =>
      simp only [unplaced, operatorCount, same]

end Expression

def Declaration.unplaced (declared : Declaration) : Declaration :=
  ⟨declared.ty, declared.name.unplaced, declared.value?.map (·.unplaced), .origin⟩

def Assignment.unplaced (stored : Assignment) : Assignment :=
  ⟨stored.target.unplaced, stored.op, stored.value.unplaced, .origin⟩

def LoopStart.unplaced : LoopStart → LoopStart
  | nothing => nothing
  | declaration declared => declaration declared.unplaced
  | assignment stored => assignment stored.unplaced

namespace Statement

mutual

def unplaced : Statement → Statement
  | declaration declared => declaration declared.unplaced
  | assignment stored => assignment stored.unplaced
  | ifThen condition branch _ => ifThen condition.unplaced branch.unplaced .origin
  | ifElse condition branch otherwise _ =>
      ifElse condition.unplaced branch.unplaced otherwise.unplaced .origin
  | whileLoop condition body _ => whileLoop condition.unplaced body.unplaced .origin
  | forLoop start condition? update? body _ =>
      forLoop start.unplaced (condition?.map (·.unplaced)) (update?.map (·.unplaced))
        body.unplaced .origin
  | print value _ => print value.unplaced .origin
  | block body _ => block (unplacedAll body) .origin
  | empty _ => empty .origin

def unplacedAll : List Statement → List Statement
  | [] => []
  | statement :: statements => statement.unplaced :: unplacedAll statements

end

/-- Whether an `else` behind the statement would belong to an `if` inside of it. -/
def endsOpen : Statement → Bool
  | ifThen _ _ _ => true
  | ifElse _ _ otherwise _ => otherwise.endsOpen
  | whileLoop _ body _ => body.endsOpen
  | forLoop _ _ _ body _ => body.endsOpen
  | _ => false

end Statement

def Program.unplaced (program : Program) : Program :=
  ⟨Statement.unplacedAll program.statements⟩

/-! ### The tokens of operators -/

def BinaryOp.sign : BinaryOp → Symbol
  | add => .plus
  | sub => .minus
  | mul => .star
  | div => .slash
  | mod => .percent
  | eq => .equal
  | ne => .notEqual
  | lt => .less
  | le => .lessEqual
  | gt => .greater
  | ge => .greaterEqual
  | and => .andAnd
  | or => .orOr

def UnaryOp.sign : UnaryOp → Symbol
  | neg => .minus
  | not => .bang

def AssignOp.sign : AssignOp → Symbol
  | set => .assign
  | add => .plusAssign
  | sub => .minusAssign
  | mul => .starAssign
  | div => .slashAssign

namespace Grammar

open Token (Kind)

structure Limits where
  depth : Nat
  operators : Nat

def Limits.kept : Limits := ⟨maxDepth, maxOperators⟩

/-! ### Expressions -/

inductive Phrase where
  /-- An expression that is a level of its own. -/
  | expression
  /-- Operands joined by operators of one precedence or of a tighter one. -/
  | joined (precedence : Precedence)
  /-- An operand behind any number of operators. -/
  | prefixed
  | operand
  deriving DecidableEq

/-- What the operators of a precedence join: phrases of the next tighter kind. -/
def operandOf : Precedence → Phrase
  | .disjunction => .joined .conjunction
  | .conjunction => .joined .equality
  | .equality => .joined .relation
  | .relation => .joined .sum
  | .sum => .joined .product
  | .product => .prefixed

inductive Atom : Kind → Expression → Prop
  | int (value : Int) : Atom (.int value) (.literal (.int value) .origin)
  | float (value : Binary64) : Atom (.float value) (.literal (.float value) .origin)
  | string (value : String) : Atom (.string value) (.literal (.string value) .origin)
  | trueWord : Atom (.keyword .trueWord) (.literal (.bool true) .origin)
  | falseWord : Atom (.keyword .falseWord) (.literal (.bool false) .origin)
  | identifier (name : String) : Atom (.identifier name) (.identifier ⟨name, .origin⟩)

/-- The expressions of a level. Operators of one precedence join to the left. -/
inductive Expresses (limits : Limits) : Phrase → Nat → List Kind → Expression → Prop
  | expression {level : Nat} {word : List Kind} {tree : Expression}
      (fits : level ≤ limits.depth)
      (derived : Expresses limits (.joined .disjunction) level word tree) :
      Expresses limits .expression level word tree
  | single {precedence : Precedence} {level : Nat} {word : List Kind} {tree : Expression}
      (derived : Expresses limits (operandOf precedence) level word tree) :
      Expresses limits (.joined precedence) level word tree
  | join {precedence : Precedence} {level : Nat} {first second : List Kind}
      {left right : Expression} {op : BinaryOp}
      (binds : op.precedence = precedence)
      (leftDerived : Expresses limits (.joined precedence) level first left)
      (rightDerived : Expresses limits (operandOf precedence) level second right) :
      Expresses limits (.joined precedence) level (first ++ .symbol op.sign :: second)
        (.binary op left right .origin)
  | prefixed {level : Nat} {word : List Kind} {tree : Expression} (ops : List UnaryOp)
      (fits : level + ops.length ≤ limits.depth)
      (derived : Expresses limits .operand level word tree) :
      Expresses limits .prefixed level (ops.map (fun op => .symbol op.sign) ++ word)
        (ops.foldr (fun op operand => .unary op operand .origin) tree)
  | atom {level : Nat} {kind : Kind} {tree : Expression} (single : Atom kind tree) :
      Expresses limits .operand level [kind] tree
  | parentheses {level : Nat} {word : List Kind} {tree : Expression}
      (derived : Expresses limits .expression (level + 1) word tree) :
      Expresses limits .operand level (.symbol .leftParen :: (word ++ [.symbol .rightParen])) tree

structure Complete (limits : Limits) (level : Nat) (word : List Kind) (tree : Expression) :
    Prop where
  derived : Expresses limits .expression (level + 1) word tree
  fits : tree.operatorCount ≤ limits.operators

/-! ### Statements -/

inductive Declares (limits : Limits) (level : Nat) : List Kind → Declaration → Prop
  | plain {keyword : Keyword} {ty : Ty} (name : String) (names : keyword.type? = some ty) :
      Declares limits level [.keyword keyword, .identifier name, .symbol .semicolon]
        ⟨ty, ⟨name, .origin⟩, none, .origin⟩
  | initialized {keyword : Keyword} {ty : Ty} {word : List Kind} {value : Expression}
      (name : String) (names : keyword.type? = some ty)
      (derived : Complete limits level word value) :
      Declares limits level
        (.keyword keyword :: .identifier name :: .symbol .assign :: (word ++ [.symbol .semicolon]))
        ⟨ty, ⟨name, .origin⟩, some value, .origin⟩

inductive Stores (limits : Limits) (level : Nat) : List Kind → Assignment → Prop
  | store {word : List Kind} {value : Expression} (name : String) (op : AssignOp)
      (derived : Complete limits level word value) :
      Stores limits level (.identifier name :: .symbol op.sign :: word)
        ⟨⟨name, .origin⟩, op, value, .origin⟩

inductive Starts (limits : Limits) (level : Nat) : List Kind → LoopStart → Prop
  | nothing : Starts limits level [.symbol .semicolon] .nothing
  | declaration {word : List Kind} {declared : Declaration}
      (derived : Declares limits level word declared) :
      Starts limits level word (.declaration declared)
  | assignment {word : List Kind} {stored : Assignment}
      (derived : Stores limits level word stored) :
      Starts limits level (word ++ [.symbol .semicolon]) (.assignment stored)

inductive Perhaps {α : Type} (rule : List Kind → α → Prop) : List Kind → Option α → Prop
  | absent : Perhaps rule [] none
  | present {word : List Kind} {tree : α} (derived : rule word tree) :
      Perhaps rule word (some tree)

mutual

/-- The statements of a level. What is behind the condition of an `if` with an `else` may not end
in an `if` that is still open, to which the `else` would belong. -/
inductive States (limits : Limits) : Nat → List Kind → Statement → Prop
  | declaration {level : Nat} {word : List Kind} {declared : Declaration}
      (fits : level ≤ limits.depth) (derived : Declares limits level word declared) :
      States limits level word (.declaration declared)
  | assignment {level : Nat} {word : List Kind} {stored : Assignment}
      (fits : level ≤ limits.depth) (derived : Stores limits level word stored) :
      States limits level (word ++ [.symbol .semicolon]) (.assignment stored)
  | ifThen {level : Nat} {test branchWord : List Kind} {condition : Expression} {branch : Statement}
      (fits : level ≤ limits.depth) (tested : Complete limits level test condition)
      (derived : States limits (level + 1) branchWord branch) :
      States limits level
        (.keyword .ifWord :: .symbol .leftParen :: (test ++ .symbol .rightParen :: branchWord))
        (.ifThen condition branch .origin)
  | ifElse {level : Nat} {test branchWord otherWord : List Kind} {condition : Expression}
      {branch otherwise : Statement}
      (fits : level ≤ limits.depth) (tested : Complete limits level test condition)
      (derived : States limits (level + 1) branchWord branch) (closed : branch.endsOpen = false)
      (otherDerived : States limits (level + 1) otherWord otherwise) :
      States limits level
        (.keyword .ifWord :: .symbol .leftParen ::
          (test ++ .symbol .rightParen :: (branchWord ++ .keyword .elseWord :: otherWord)))
        (.ifElse condition branch otherwise .origin)
  | whileLoop {level : Nat} {test word : List Kind} {condition : Expression} {body : Statement}
      (fits : level ≤ limits.depth) (tested : Complete limits level test condition)
      (derived : States limits (level + 1) word body) :
      States limits level
        (.keyword .whileWord :: .symbol .leftParen :: (test ++ .symbol .rightParen :: word))
        (.whileLoop condition body .origin)
  | forLoop {level : Nat} {first test step word : List Kind} {start : LoopStart}
      {condition? : Option Expression} {update? : Option Assignment} {body : Statement}
      (fits : level ≤ limits.depth) (started : Starts limits level first start)
      (tested : Perhaps (Complete limits level) test condition?)
      (stepped : Perhaps (Stores limits level) step update?)
      (derived : States limits (level + 1) word body) :
      States limits level
        (.keyword .forWord :: .symbol .leftParen ::
          (first ++ (test ++ .symbol .semicolon :: (step ++ .symbol .rightParen :: word))))
        (.forLoop start condition? update? body .origin)
  | print {level : Nat} {word : List Kind} {value : Expression}
      (fits : level ≤ limits.depth) (derived : Complete limits level word value) :
      States limits level
        (.keyword .printWord :: .symbol .leftParen ::
          (word ++ [.symbol .rightParen, .symbol .semicolon]))
        (.print value .origin)
  | block {level : Nat} {word : List Kind} {body : List Statement}
      (fits : level ≤ limits.depth) (derived : StatesAll limits (level + 1) word body) :
      States limits level (.symbol .leftBrace :: (word ++ [.symbol .rightBrace]))
        (.block body .origin)
  | empty {level : Nat} (fits : level ≤ limits.depth) :
      States limits level [.symbol .semicolon] (.empty .origin)

inductive StatesAll (limits : Limits) : Nat → List Kind → List Statement → Prop
  | nil {level : Nat} : StatesAll limits level [] []
  | cons {level : Nat} {word others : List Kind} {statement : Statement}
      {statements : List Statement} (derived : States limits level word statement)
      (othersDerived : StatesAll limits level others statements) :
      StatesAll limits level (word ++ others) (statement :: statements)

end

/-- The programs: statements of level one, and nothing behind them. -/
def Derives (limits : Limits) (word : List Kind) (program : Program) : Prop :=
  StatesAll limits 1 word program.statements

end Grammar

end StagedAnalysis
