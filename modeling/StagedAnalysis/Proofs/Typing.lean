import StagedAnalysis.Program
/-!
The rules of names and types.

A context holds the names of the open scopes with their types, the innermost scope first. A name has
the type of its innermost declaration; a scope declares a name once. Where `widening` is on, an int
may go where a float is wanted, and ints and floats may be mixed in arithmetic, in orderings and in
comparisons for equality.

No scope is numbered here and no error is reported: a program follows the rules or it does not.
-/
namespace StagedAnalysis

namespace Typing

/-- The names of a scope with their types, the latest first. -/
abbrev Bindings := List (String × Ty)

abbrev Context := List Bindings

def Fresh (bindings : Bindings) (name : String) : Prop :=
  bindings.lookup name = none

inductive Resolves : Context → String → Ty → Prop
  | here {bindings : Bindings} {outer : Context} {name : String} {ty : Ty}
      (found : bindings.lookup name = some ty) : Resolves (bindings :: outer) name ty
  | further {bindings : Bindings} {outer : Context} {name : String} {ty : Ty}
      (fresh : Fresh bindings name) (resolved : Resolves outer name ty) :
      Resolves (bindings :: outer) name ty

/-! ### The table of compatible types -/

inductive Meets (widening : Bool) : Ty → Ty → Ty → Prop
  | ints : Meets widening .int .int .int
  | floats : Meets widening .float .float .float
  | intFloat (widened : widening = true) : Meets widening .int .float .float
  | floatInt (widened : widening = true) : Meets widening .float .int .float

inductive Combines (widening : Bool) : BinaryOp → Ty → Ty → Ty → Prop
  | concatenation : Combines widening .add .string .string .string
  | arithmetic {op : BinaryOp} {left right ty : Ty} (among : op ∈ [.add, .sub, .mul, .div])
      (meets : Meets widening left right ty) : Combines widening op left right ty
  | remainder : Combines widening .mod .int .int .int
  | ordering {op : BinaryOp} {left right ty : Ty} (among : op ∈ [.lt, .le, .gt, .ge])
      (meets : Meets widening left right ty) : Combines widening op left right .bool
  | comparison {op : BinaryOp} {left right ty : Ty} (among : op ∈ [.eq, .ne])
      (meets : Meets widening left right ty) : Combines widening op left right .bool
  | comparisonOfOne {op : BinaryOp} {ty : Ty} (among : op ∈ [.eq, .ne]) :
      Combines widening op ty ty .bool
  | logic {op : BinaryOp} (among : op ∈ [.and, .or]) : Combines widening op .bool .bool .bool

inductive Applies : UnaryOp → Ty → Ty → Prop
  | negateInt : Applies .neg .int .int
  | negateFloat : Applies .neg .float .float
  | not : Applies .not .bool .bool

inductive Fits (widening : Bool) : (target value : Ty) → Prop
  | same {ty : Ty} : Fits widening ty ty
  | widened (widened : widening = true) : Fits widening .float .int

/-! ### Expressions -/

inductive HasType (widening : Bool) (context : Context) : Expression → Ty → Prop
  | literal {value : Literal} {span : Span} : HasType widening context (.literal value span) value.ty
  | identifier {name : Identifier} {ty : Ty} (resolved : Resolves context name.name ty) :
      HasType widening context (.identifier name) ty
  | binary {op : BinaryOp} {left right : Expression} {span : Span} {leftTy rightTy ty : Ty}
      (leftTyped : HasType widening context left leftTy)
      (rightTyped : HasType widening context right rightTy)
      (combined : Combines widening op leftTy rightTy ty) :
      HasType widening context (.binary op left right span) ty
  | unary {op : UnaryOp} {operand : Expression} {span : Span} {operandTy ty : Ty}
      (operandTyped : HasType widening context operand operandTy)
      (applied : Applies op operandTy ty) :
      HasType widening context (.unary op operand span) ty

/-! ### Statements -/

/-- The expression of the first value does not see the name that is declared. -/
inductive Declares (widening : Bool) : Context → Declaration → Prop
  | plain {bindings : Bindings} {outer : Context} {ty : Ty} {name : Identifier} {span : Span}
      (fresh : Fresh bindings name.name) :
      Declares widening (bindings :: outer) ⟨ty, name, none, span⟩
  | initialized {bindings : Bindings} {outer : Context} {ty valueTy : Ty} {name : Identifier}
      {value : Expression} {span : Span} (fresh : Fresh bindings name.name)
      (typed : HasType widening (bindings :: outer) value valueTy)
      (fits : Fits widening ty valueTy) :
      Declares widening (bindings :: outer) ⟨ty, name, some value, span⟩

/-- A compound store is its operator, and then the plain store of the result. -/
inductive Stores (widening : Bool) (context : Context) : Assignment → Prop
  | plain {target : Identifier} {value : Expression} {span : Span} {ty valueTy : Ty}
      (resolved : Resolves context target.name ty)
      (typed : HasType widening context value valueTy) (fits : Fits widening ty valueTy) :
      Stores widening context ⟨target, .set, value, span⟩
  | compound {target : Identifier} {op : AssignOp} {step : BinaryOp} {value : Expression}
      {span : Span} {ty valueTy resultTy : Ty} (steps : op.step? = some step)
      (resolved : Resolves context target.name ty)
      (typed : HasType widening context value valueTy)
      (combined : Combines widening step ty valueTy resultTy)
      (fits : Fits widening ty resultTy) :
      Stores widening context ⟨target, op, value, span⟩

inductive Starts (widening : Bool) (context : Context) : LoopStart → Prop
  | nothing : Starts widening context .nothing
  | declaration {declared : Declaration} (declares : Declares widening context declared) :
      Starts widening context (.declaration declared)
  | assignment {stored : Assignment} (stores : Stores widening context stored) :
      Starts widening context (.assignment stored)

def declare (declared : Declaration) : Context → Context
  | [] => []
  | bindings :: outer => ((declared.name.name, declared.ty) :: bindings) :: outer

def behindStart : LoopStart → Context → Context
  | .declaration declared => declare declared
  | _ => id

/-- The context behind a statement. Only a declaration leaves something behind. -/
def behind : Statement → Context → Context
  | .declaration declared => declare declared
  | _ => id

mutual

/-- The statements that follow the rules. The branches of a conditional, the bodies of loops, the
header of a counting loop and blocks have scopes of their own. -/
inductive WellFormed (widening : Bool) : Context → Statement → Prop
  | declaration {context : Context} {declared : Declaration}
      (declares : Declares widening context declared) :
      WellFormed widening context (.declaration declared)
  | assignment {context : Context} {stored : Assignment} (stores : Stores widening context stored) :
      WellFormed widening context (.assignment stored)
  | ifThen {context : Context} {condition : Expression} {branch : Statement} {span : Span}
      (tested : HasType widening context condition .bool)
      (formed : WellFormed widening ([] :: context) branch) :
      WellFormed widening context (.ifThen condition branch span)
  | ifElse {context : Context} {condition : Expression} {branch otherwise : Statement} {span : Span}
      (tested : HasType widening context condition .bool)
      (formed : WellFormed widening ([] :: context) branch)
      (otherFormed : WellFormed widening ([] :: context) otherwise) :
      WellFormed widening context (.ifElse condition branch otherwise span)
  | whileLoop {context : Context} {condition : Expression} {body : Statement} {span : Span}
      (tested : HasType widening context condition .bool)
      (formed : WellFormed widening ([] :: context) body) :
      WellFormed widening context (.whileLoop condition body span)
  | forLoop {context : Context} {start : LoopStart} {condition? : Option Expression}
      {update? : Option Assignment} {body : Statement} {span : Span}
      (started : Starts widening ([] :: context) start)
      (tested : ∀ condition ∈ condition?,
        HasType widening (behindStart start ([] :: context)) condition .bool)
      (stepped : ∀ update ∈ update?, Stores widening (behindStart start ([] :: context)) update)
      (formed : WellFormed widening ([] :: behindStart start ([] :: context)) body) :
      WellFormed widening context (.forLoop start condition? update? body span)
  | print {context : Context} {value : Expression} {span : Span} {ty : Ty}
      (typed : HasType widening context value ty) :
      WellFormed widening context (.print value span)
  | block {context : Context} {body : List Statement} {span : Span}
      (formed : WellFormedAll widening ([] :: context) body) :
      WellFormed widening context (.block body span)
  | empty {context : Context} {span : Span} : WellFormed widening context (.empty span)

inductive WellFormedAll (widening : Bool) : Context → List Statement → Prop
  | nil {context : Context} : WellFormedAll widening context []
  | cons {context : Context} {statement : Statement} {statements : List Statement}
      (formed : WellFormed widening context statement)
      (othersFormed : WellFormedAll widening (behind statement context) statements) :
      WellFormedAll widening context (statement :: statements)

end

/-- The programs that follow the rules. The program itself is the outermost scope. -/
def Follows (widening : Bool) (program : Program) : Prop :=
  WellFormedAll widening [[]] program.statements

end Typing

/-! ### Declared types -/

def LoopStart.declarations : LoopStart → List Declaration
  | declaration declared => [declared]
  | _ => []

namespace Statement

mutual

def declarations : Statement → List Declaration
  | declaration declared => [declared]
  | ifThen _ branch _ => branch.declarations
  | ifElse _ branch otherwise _ => branch.declarations ++ otherwise.declarations
  | whileLoop _ body _ => body.declarations
  | forLoop start _ _ body _ => start.declarations ++ body.declarations
  | block body _ => declarationsAll body
  | assignment _ => []
  | print _ _ => []
  | empty _ => []

def declarationsAll : List Statement → List Declaration
  | [] => []
  | statement :: statements => statement.declarations ++ declarationsAll statements

end

end Statement

/-- No name is declared with the type that only failed expressions have. -/
def Program.Declarable (program : Program) : Prop :=
  ∀ declared ∈ Statement.declarationsAll program.statements, declared.ty ≠ .error

end StagedAnalysis
