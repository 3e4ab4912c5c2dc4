import StagedAnalysis.AnalysisError
import StagedAnalysis.Token
/-!
Where a reader of tokens stands. It holds the tokens that are left, the range of the token taken
last, and two counters: how many levels it is inside of, and how many binary operators the
expression at hand has so far. A step keeps the state that it ended in also when it fails, so that
reading can go on from there.

The input ends at the first token that says so, or at the end of the list, where `closing` is
seen. Nothing moves past it.
-/
namespace StagedAnalysis

/-- How deep statements, parentheses and runs of operators in front of an operand may nest. -/
def maxDepth : Nat := 128

/-- How many binary operators an expression may have, parenthesised parts included. -/
def maxOperators : Nat := 1024

structure ParseState where
  rest : List Token
  previous : Span
  depth : Nat
  operators : Nat
  closing : Token
  deriving DecidableEq

abbrev Parse := EStateM AnalysisError ParseState

namespace ParseState

/-- The state in front of a list of tokens. Its end is placed directly behind its last token. -/
def ofTokens (tokens : List Token) : ParseState :=
  let ending :=
    match tokens.getLast? with
    | some last => last.span.behind last.lexeme
    | none => .origin
  ⟨tokens, .origin, 0, 0, .closing ending⟩

def current (state : ParseState) : Token :=
  state.rest.headD state.closing

def isAtEnd (state : ParseState) : Bool :=
  state.current.isEnd

def advance (state : ParseState) : ParseState :=
  match state.rest with
  | token :: rest =>
    if token.isEnd then state else { state with rest := rest, previous := token.span }
  | [] => state

def leave (state : ParseState) (levels : Nat) : ParseState :=
  { state with depth := state.depth - levels }

theorem advance_of_isAtEnd {state : ParseState} (ended : state.isAtEnd = true) :
    state.advance = state := by
  rcases state with ⟨rest, previous, depth, operators, closing⟩
  cases rest with
  | nil => rfl
  | cons token rest =>
    have last : token.isEnd = true := ended
    simp [advance, last]

/-- Where the input goes on, advancing takes one token. -/
theorem advance_rest {state : ParseState} {token : Token} {rest : List Token}
    (shape : state.rest = token :: rest) (goesOn : token.isEnd = false) :
    state.advance.rest = rest := by
  simp [advance, shape, goesOn]

theorem advance_rest_length_le (state : ParseState) :
    state.advance.rest.length ≤ state.rest.length := by
  unfold advance
  split
  · rename_i token rest shape
    split
    · exact Nat.le_refl _
    · rw [shape]
      exact Nat.le_succ _
  · exact Nat.le_refl _

theorem advance_depth (state : ParseState) : state.advance.depth = state.depth := by
  unfold advance
  split
  · split <;> rfl
  · rfl

theorem advance_operators (state : ParseState) : state.advance.operators = state.operators := by
  unfold advance
  split
  · split <;> rfl
  · rfl

end ParseState

namespace Parse

def current : Parse Token := do
  return (← get).current

def advance : Parse Token := fun state =>
  .ok state.current state.advance

def previous : Parse Span := do
  return (← get).previous

def unexpected {α : Type} (expected : String) : Parse α := do
  let token ← current
  throw (.unexpectedToken expected token.description token.span)

/-- Takes a symbol that has to come next; `expected` is what a message says instead. -/
def expectAs (symbol : Symbol) (expected : String) : Parse Token := do
  if (← current).kind = .symbol symbol then advance else unexpected expected

def expect (symbol : Symbol) : Parse Token :=
  expectAs symbol s!"'{symbol.spelling}'"

def accept (kind : Token.Kind) : Parse Bool := do
  if (← current).kind = kind then
    let _ ← advance
    return true
  else
    return false

/-- Fails because no level is left. The level that was asked for stays counted. -/
def tooDeep {α : Type} : Parse α := fun state =>
  .error (.nestingTooDeep maxDepth state.current.span) { state with depth := state.depth + 1 }

def enter : Parse Unit := fun state =>
  if state.depth < maxDepth then .ok () { state with depth := state.depth + 1 } else tooDeep state

def leave (levels : Nat) : Parse Unit :=
  modify (·.leave levels)

/-- Does a step one level further in. The level is left also when the step fails. -/
def nested {α : Type} (step : Parse α) : Parse α := fun state =>
  match enter state with
  | .error error refused => .error error refused
  | .ok _ inside =>
    match step inside with
    | .ok result done => .ok result (done.leave 1)
    | .error error stopped => .error error (stopped.leave 1)

def tooLong {α : Type} : Parse α := fun state =>
  .error (.expressionTooLong maxOperators state.current.span)
    { state with operators := state.operators + 1 }

def countOperator : Parse Unit := fun state =>
  if state.operators < maxOperators then .ok () { state with operators := state.operators + 1 }
  else tooLong state

def resetOperators : Parse Unit :=
  modify fun state => { state with operators := 0 }

def repeatWhile {α : Type} (goesOn : Token → Bool) (step : Parse α) :
    List Token → Parse (List α)
  | [] => return []
  | _ :: budget => do
    if goesOn (← current) then
      let first ← step
      let others ← repeatWhile goesOn step budget
      return first :: others
    else
      return []

/-- Repeats a step while the next token allows it. A step has to take a token, so the tokens that
are left bound how often it runs. -/
def many {α : Type} (goesOn : Token → Bool) (step : Parse α) : Parse (List α) := do
  repeatWhile goesOn step (← get).rest

end Parse

end StagedAnalysis
