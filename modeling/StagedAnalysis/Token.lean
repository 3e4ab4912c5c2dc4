import StagedAnalysis.Number.Binary64
import StagedAnalysis.Operator
import StagedAnalysis.Source.Position
/-!
Tokens: keywords, identifiers and literals with their values, symbols, the end of the input and what
is none of these. Keywords and symbols are the values of two tables of spellings.
-/
namespace StagedAnalysis

inductive Keyword where
  | intWord
  | floatWord
  | boolWord
  | stringWord
  | ifWord
  | elseWord
  | whileWord
  | forWord
  | printWord
  | trueWord
  | falseWord
  deriving DecidableEq

namespace Keyword

def all : List Keyword :=
  [intWord, floatWord, boolWord, stringWord, ifWord, elseWord, whileWord, forWord, printWord,
    trueWord, falseWord]

def spelling : Keyword → String
  | intWord => "int"
  | floatWord => "float"
  | boolWord => "bool"
  | stringWord => "string"
  | ifWord => "if"
  | elseWord => "else"
  | whileWord => "while"
  | forWord => "for"
  | printWord => "print"
  | trueWord => "true"
  | falseWord => "false"

def ofSpelling? (word : String) : Option Keyword :=
  all.find? (·.spelling == word)

def type? : Keyword → Option Ty
  | intWord => some .int
  | floatWord => some .float
  | boolWord => some .bool
  | stringWord => some .string
  | _ => none

theorem mem_all (keyword : Keyword) : keyword ∈ all := by
  cases keyword <;> decide

theorem ofSpelling?_spelling (keyword : Keyword) : ofSpelling? keyword.spelling = some keyword := by
  cases keyword <;> decide

theorem spelling_of_ofSpelling? {word : String} {keyword : Keyword}
    (found : ofSpelling? word = some keyword) : keyword.spelling = word := by
  simpa using List.find?_some found

end Keyword

inductive Symbol where
  | plus
  | minus
  | star
  | slash
  | percent
  | assign
  | equal
  | notEqual
  | less
  | lessEqual
  | greater
  | greaterEqual
  | andAnd
  | orOr
  | bang
  | plusAssign
  | minusAssign
  | starAssign
  | slashAssign
  | leftParen
  | rightParen
  | leftBrace
  | rightBrace
  | semicolon
  deriving DecidableEq

namespace Symbol

def spelling : Symbol → String
  | plus => "+"
  | minus => "-"
  | star => "*"
  | slash => "/"
  | percent => "%"
  | assign => "="
  | equal => "=="
  | notEqual => "!="
  | less => "<"
  | lessEqual => "<="
  | greater => ">"
  | greaterEqual => ">="
  | andAnd => "&&"
  | orOr => "||"
  | bang => "!"
  | plusAssign => "+="
  | minusAssign => "-="
  | starAssign => "*="
  | slashAssign => "/="
  | leftParen => "("
  | rightParen => ")"
  | leftBrace => "\x7b"
  | rightBrace => "\x7d"
  | semicolon => ";"

/-- Brackets and the semicolon are punctuation; all other symbols are operators. -/
def isPunctuation : Symbol → Bool
  | leftParen | rightParen | leftBrace | rightBrace | semicolon => true
  | _ => false

def binaryOp? : Symbol → Option BinaryOp
  | plus => some .add
  | minus => some .sub
  | star => some .mul
  | slash => some .div
  | percent => some .mod
  | equal => some .eq
  | notEqual => some .ne
  | less => some .lt
  | lessEqual => some .le
  | greater => some .gt
  | greaterEqual => some .ge
  | andAnd => some .and
  | orOr => some .or
  | _ => none

def unaryOp? : Symbol → Option UnaryOp
  | minus => some .neg
  | bang => some .not
  | _ => none

def assignOp? : Symbol → Option AssignOp
  | assign => some .set
  | plusAssign => some .add
  | minusAssign => some .sub
  | starAssign => some .mul
  | slashAssign => some .div
  | _ => none

theorem symbol_of_binaryOp? {written : Symbol} {op : BinaryOp}
    (found : written.binaryOp? = some op) :
    op.symbol = written.spelling := by
  cases written <;> simp_all [binaryOp?] <;> subst found <;> rfl

end Symbol

namespace Token

inductive Kind where
  | keyword (word : Keyword)
  | identifier (name : String)
  | int (value : Int)
  | float (value : Binary64)
  | string (value : String)
  | symbol (symbol : Symbol)
  | endOfInput
  | unknown
  deriving DecidableEq

inductive Category where
  | identifier
  | integerLiteral
  | floatLiteral
  | stringLiteral
  | keyword
  | operator
  | punctuation
  | endOfInput
  | unknown
  deriving DecidableEq

def Category.text : Category → String
  | identifier => "identifier"
  | integerLiteral => "integer literal"
  | floatLiteral => "float literal"
  | stringLiteral => "string literal"
  | keyword => "keyword"
  | operator => "operator"
  | punctuation => "punctuation"
  | endOfInput => "end of input"
  | unknown => "unknown token"

def Category.tag : Category → String
  | identifier => "identifier"
  | integerLiteral => "integer_literal"
  | floatLiteral => "float_literal"
  | stringLiteral => "string_literal"
  | keyword => "keyword"
  | operator => "operator"
  | punctuation => "punctuation"
  | endOfInput => "eof"
  | unknown => "unknown"

namespace Kind

def category : Kind → Category
  | keyword _ => .keyword
  | identifier _ => .identifier
  | int _ => .integerLiteral
  | float _ => .floatLiteral
  | string _ => .stringLiteral
  | symbol sign => if sign.isPunctuation then .punctuation else .operator
  | endOfInput => .endOfInput
  | unknown => .unknown

def type? : Kind → Option Ty
  | keyword word => word.type?
  | _ => none

def startsStatement : Kind → Bool
  | keyword word =>
    match word with
    | .elseWord | .trueWord | .falseWord => false
    | _ => true
  | identifier _ => true
  | symbol sign => sign == .leftBrace || sign == .semicolon
  | _ => false

def binaryOp? : Kind → Option BinaryOp
  | symbol sign => sign.binaryOp?
  | _ => none

def unaryOp? : Kind → Option UnaryOp
  | symbol sign => sign.unaryOp?
  | _ => none

def assignOp? : Kind → Option AssignOp
  | symbol sign => sign.assignOp?
  | _ => none

end Kind

end Token

structure Token where
  kind : Token.Kind
  lexeme : String
  span : Span
  deriving DecidableEq

namespace Token

def closing (span : Span) : Token :=
  ⟨.endOfInput, "", span⟩

instance : Inhabited Token := ⟨closing .origin⟩

def category (token : Token) : Category :=
  token.kind.category

def isEnd (token : Token) : Bool :=
  token.kind == .endOfInput

def isUnknown (token : Token) : Bool :=
  token.kind == .unknown

/-- How messages name the token: its class and its text. -/
def description (token : Token) : String :=
  match token.category with
  | .endOfInput => "end of input"
  | category => s!"{category.text} '{token.lexeme}'"

end Token

end StagedAnalysis
