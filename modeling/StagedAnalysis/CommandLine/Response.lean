import StagedAnalysis.CommandLine.Request
import StagedAnalysis.Report.Json
/-!
What the program answers to a command line: the texts for both outputs and the exit code. The code
is zero if all that was asked for passed, one if a stage failed, and two if there was nothing to
analyze.
-/
namespace StagedAnalysis.CommandLine

inductive ReadFailure where
  | notText
  | system (number : Nat) (reason : String)
  deriving DecidableEq

namespace ReadFailure

def systemReasons : List (Nat × String) :=
  [(1, "Operation not permitted"), (2, "No such file or directory"), (5, "Input/output error"),
    (6, "No such device or address"), (13, "Permission denied"), (20, "Not a directory"),
    (21, "Is a directory"), (22, "Invalid argument"), (23, "Too many open files in system"),
    (24, "Too many open files"), (36, "File name too long"),
    (40, "Too many levels of symbolic links")]

/-- A failure known by its number; `reason` is said of a number that is not in the list. -/
def ofSystem (number : Nat) (reason : String) : ReadFailure :=
  system number ((systemReasons.lookup number).getD reason)

def notFound : ReadFailure := ofSystem 2 ""

def notDirectory : ReadFailure := ofSystem 20 ""

def isDirectory : ReadFailure := ofSystem 21 ""

def nameTooLong : ReadFailure := ofSystem 36 ""

def message : ReadFailure → String
  | notText => "stream did not contain valid UTF-8"
  | system number reason => s!"{reason} (os error {number})"

example : notFound.message = "No such file or directory (os error 2)" := by decide

end ReadFailure

structure Response where
  code : UInt8
  output : String
  errors : String
  deriving DecidableEq

namespace Response

def failure (message : String) : Response :=
  ⟨2, "", s!"error: {message}\n"⟩

end Response

def decode (bytes : ByteArray) : Except ReadFailure String :=
  match String.fromUTF8? bytes with
  | some source => .ok source
  | none => .error .notText

def Input.failureMessage (input : Input) (failure : ReadFailure) : String :=
  match input with
  | .standardInput => s!"failed to read source from stdin: {failure.message}"
  | .file path => s!"failed to read {path}: {failure.message}"

/-! ### Listing tokens -/

def padRight (width : Nat) (text : String) : String :=
  text ++ String.ofList (List.replicate (width - text.length) ' ')

def padLeft (width : Nat) (text : String) : String :=
  String.ofList (List.replicate (width - text.length) ' ') ++ text

def tokenLine (token : Token) : String :=
  let line := padLeft 4 (toString token.span.line)
  let column := padRight 4 (toString token.span.column)
  let category := padRight 16 token.category.text
  s!"{line}:{column} {category} {token.lexeme}\n"

def tokenJson (token : Token) : Json :=
  .object
    [("category", .string token.category.tag), ("lexeme", .string token.lexeme),
      ("line", .nat token.span.line), ("column", .nat token.span.column)]

def renderTokens (format : Format) (tokens : List Token) : String :=
  match format with
  | .text => String.join (tokens.map tokenLine)
  | .json => (Json.array (tokens.map tokenJson)).pretty ++ "\n"

/-! ### Answers -/

def renderReport (format : Format) (report : Report) : String :=
  match format with
  | .text => report.text
  | .json => report.pretty .builtIn ++ "\n"

def respondAnalysis (target : Stage) (options : Options) (format : Format) (source : String) :
    Response :=
  match (((Session.ofSource source).withOptions options).runUntil target).1 with
  | .ok report => ⟨if report.success then 0 else 1, renderReport format report, ""⟩
  | .error error => .failure error.message

def respondTokens (format : Format) (source : String) : Response :=
  let tokens := tokenize source
  ⟨if isValidLexically tokens then 0 else 1, renderTokens format tokens, ""⟩

def versionLine : String := "prismc 0.1.0\n"

def usage : String :=
  "Usage: prismc [-v]... <check|tokens|lex|syntax> <FILE|-> [--format text|json] [--strict]\n"
    ++ "       prismc version\n"

def refusal : Response :=
  ⟨2, "", usage⟩

def respondTo (input : Input) (read : Except ReadFailure ByteArray) (answer : String → Response) :
    Response :=
  match read.bind decode with
  | .ok source => answer source
  | .error failure => .failure (input.failureMessage failure)

def Request.respond (request : Request) (read : Except ReadFailure ByteArray) : Response :=
  match request with
  | analyze target options format input =>
    respondTo input read (respondAnalysis target options format)
  | listTokens format input => respondTo input read (respondTokens format)
  | describeVersion => ⟨0, versionLine ++ "Prism staged analyzer\nLicense: Apache-2.0\n", ""⟩
  | versionNumber => ⟨0, versionLine, ""⟩
  | help => ⟨0, usage, ""⟩

end StagedAnalysis.CommandLine
