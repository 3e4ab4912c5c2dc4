import StagedAnalysis.Parsing.Expression
/-!
Reading statements and programs. The first mismatch ends the reading with an error; there is no
recovery. A statement inside of another one is one level further in, and so is a complete
expression of a statement.
-/
namespace StagedAnalysis

namespace Parse

def identifier : Parse Identifier := do
  let token ← current
  match token.kind with
  | .identifier name =>
    let _ ← advance
    return ⟨name, token.span⟩
  | _ => throw (.expectedIdentifier token.description token.span)

/-- Reads `type name (= value)? ;` from the token that names the type. -/
def declaration (ty : Ty) (expression : Parse Expression) : Parse Declaration := do
  let first ← advance
  let name ← identifier
  if ← accept (.symbol .assign) then
    let value ← expression
    let _ ← expect .semicolon
    return ⟨ty, name, some value, first.span.merge (← previous)⟩
  else
    let _ ← expectAs .semicolon "'=' or ';'"
    return ⟨ty, name, none, first.span.merge (← previous)⟩

/-- Reads `name op value`. -/
def assignment (expression : Parse Expression) : Parse Assignment := do
  let target ← identifier
  match (← current).kind.assignOp? with
  | some op =>
    let _ ← advance
    let value ← expression
    return ⟨target, op, value, target.span.merge value.span⟩
  | none => unexpected "assignment operator"

/-- Reads `( expression )`. -/
def parenthesized (expression : Parse Expression) : Parse Expression := do
  let _ ← expect .leftParen
  let inner ← expression
  let _ ← expect .rightParen
  return inner

/-- Reads a conditional. An `else` belongs to the nearest `if` that is open. -/
def conditional (statement : Parse Statement) (expression : Parse Expression) :
    Parse Statement := do
  let first ← advance
  let condition ← parenthesized expression
  let branch ← statement
  if ← accept (.keyword .elseWord) then
    let otherwise ← statement
    return .ifElse condition branch otherwise (first.span.merge (← previous))
  else
    return .ifThen condition branch (first.span.merge (← previous))

def whileLoop (statement : Parse Statement) (expression : Parse Expression) : Parse Statement := do
  let first ← advance
  let condition ← parenthesized expression
  let body ← statement
  return .whileLoop condition body (first.span.merge (← previous))

def loopStart (expression : Parse Expression) : Parse LoopStart := do
  let kind := (← current).kind
  match kind.type? with
  | some ty => return .declaration (← declaration ty expression)
  | none =>
    match kind with
    | .symbol .semicolon =>
      let _ ← advance
      return .nothing
    | .identifier _ =>
      let first ← assignment expression
      let _ ← expect .semicolon
      return .assignment first
    | _ => unexpected "declaration, assignment or ';'"

def unlessAt {α : Type} (symbol : Symbol) (step : Parse α) : Parse (Option α) := do
  if (← current).kind = .symbol symbol then return none else return some (← step)

def forLoop (statement : Parse Statement) (expression : Parse Expression) : Parse Statement := do
  let first ← advance
  let _ ← expect .leftParen
  let start ← loopStart expression
  let condition? ← unlessAt .semicolon expression
  let _ ← expect .semicolon
  let update? ← unlessAt .rightParen (assignment expression)
  let _ ← expect .rightParen
  let body ← statement
  return .forLoop start condition? update? body (first.span.merge (← previous))

def print (expression : Parse Expression) : Parse Statement := do
  let first ← advance
  let value ← parenthesized expression
  let _ ← expect .semicolon
  return .print value (first.span.merge (← previous))

def block (statement : Parse Statement) : Parse Statement := do
  let first ← expect .leftBrace
  let body ← many (fun token => !(token.kind == .symbol .rightBrace || token.isEnd)) statement
  let _ ← expect .rightBrace
  return .block body (first.span.merge (← previous))

def statementBody (statement : Parse Statement) (expression : Parse Expression) :
    Parse Statement := do
  let token ← current
  match token.kind with
  | .keyword word =>
    match word.type? with
    | some ty => return .declaration (← declaration ty expression)
    | none =>
      match word with
      | .ifWord => conditional statement expression
      | .whileWord => whileLoop statement expression
      | .forWord => forLoop statement expression
      | .printWord => print expression
      | _ => unexpected "statement"
  | .identifier _ =>
    let stored ← assignment expression
    let _ ← expect .semicolon
    return .assignment stored
  | .symbol .leftBrace => block statement
  | .symbol .semicolon =>
    let only ← advance
    return .empty only.span
  | _ => unexpected "statement"

def statement : Nat → Parse Statement
  | 0 => tooDeep
  | levels + 1 => fun state => nested (statementBody (statement levels) (expression levels)) state

/-- Reads a statement of the program itself. What cannot begin one is input behind the program. -/
def outerStatement : Parse Statement := do
  let token ← current
  if token.kind.startsStatement then statement maxDepth
  else throw (.trailingInput token.description token.span)

def program : Parse Program := do
  return ⟨← many (fun token => !token.isEnd) outerStatement⟩

end Parse

namespace ParseState

/-- Reads a program from where the state stands, and says where the reading stopped. -/
def program (state : ParseState) : Except AnalysisError Program × ParseState :=
  match Parse.program state with
  | .ok result done => (.ok result, done)
  | .error error stopped => (.error error, stopped)

end ParseState

namespace Program

def ofTokens (tokens : List Token) : Except AnalysisError Program :=
  (ParseState.ofTokens tokens).program.1

end Program

end StagedAnalysis
