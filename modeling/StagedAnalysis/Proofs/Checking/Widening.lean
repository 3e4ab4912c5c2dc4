import StagedAnalysis.Diagnosis
import StagedAnalysis.Proofs.Checking.Programs
/-!
Widening only adds programs: what follows the rules without it follows them with it. An operand that
is accepted without widening has the same type with it, so nothing behind it changes either.

For the checker this is the step from strict to lenient: what a strict check passes, a check that is
not strict passes.
-/
namespace StagedAnalysis

namespace Typing

variable {widening : Bool} {context : Context}

/-! ### The table of compatible types -/

theorem Meets.widen {left right ty : Ty} (meets : Meets widening left right ty) :
    Meets true left right ty := by
  cases meets with
  | ints => exact .ints
  | floats => exact .floats
  | intFloat widened => exact .intFloat rfl
  | floatInt widened => exact .floatInt rfl

theorem Combines.widen {op : BinaryOp} {left right ty : Ty}
    (combined : Combines widening op left right ty) : Combines true op left right ty := by
  cases combined with
  | concatenation => exact .concatenation
  | arithmetic among meets => exact .arithmetic among meets.widen
  | remainder => exact .remainder
  | ordering among meets => exact .ordering among meets.widen
  | comparison among meets => exact .comparison among meets.widen
  | comparisonOfOne among => exact .comparisonOfOne among
  | logic among => exact .logic among

theorem Fits.widen {target value : Ty} (fits : Fits widening target value) :
    Fits true target value := by
  cases fits with
  | same => exact .same
  | widened widened => exact .widened rfl

/-! ### Expressions and statements -/

theorem HasType.widen {expression : Expression} {ty : Ty}
    (typed : HasType widening context expression ty) : HasType true context expression ty := by
  induction typed with
  | literal => exact .literal
  | identifier resolved => exact .identifier resolved
  | binary leftTyped rightTyped combined leftWidened rightWidened =>
      exact .binary leftWidened rightWidened combined.widen
  | unary operandTyped applied widened => exact .unary widened applied

theorem Declares.widen {declared : Declaration} (declares : Declares widening context declared) :
    Declares true context declared := by
  cases declares with
  | plain fresh => exact .plain fresh
  | initialized fresh typed fits => exact .initialized fresh typed.widen fits.widen

theorem Stores.widen {stored : Assignment} (stores : Stores widening context stored) :
    Stores true context stored := by
  cases stores with
  | plain resolved typed fits => exact .plain resolved typed.widen fits.widen
  | compound steps resolved typed combined fits =>
      exact .compound steps resolved typed.widen combined.widen fits.widen

theorem Starts.widen {start : LoopStart} (started : Starts widening context start) :
    Starts true context start := by
  cases started with
  | nothing => exact .nothing
  | declaration declares => exact .declaration declares.widen
  | assignment stores => exact .assignment stores.widen

mutual

theorem WellFormed.widen {context : Context} {statement : Statement}
    (formed : WellFormed widening context statement) : WellFormed true context statement := by
  cases formed with
  | declaration declares => exact .declaration declares.widen
  | assignment stores => exact .assignment stores.widen
  | ifThen tested formed => exact .ifThen tested.widen formed.widen
  | ifElse tested formed otherFormed =>
      exact .ifElse tested.widen formed.widen otherFormed.widen
  | whileLoop tested formed => exact .whileLoop tested.widen formed.widen
  | forLoop started tested stepped formed =>
      exact .forLoop started.widen (fun condition given => (tested condition given).widen)
        (fun update given => (stepped update given).widen) formed.widen
  | print typed => exact .print typed.widen
  | block formed => exact .block formed.widen
  | empty => exact .empty

theorem WellFormedAll.widen {context : Context} {statements : List Statement}
    (formed : WellFormedAll widening context statements) :
    WellFormedAll true context statements := by
  cases formed with
  | nil => exact .nil
  | cons formed othersFormed => exact .cons formed.widen othersFormed.widen

end

theorem Follows.widen {program : Program} (follows : Follows widening program) :
    Follows true program :=
  WellFormedAll.widen follows

end Typing

/-! ### Strict checks -/

end StagedAnalysis
