import StagedAnalysis.CommandLine.Response
/-!
The program itself: it reads the input that the arguments name, and writes the answer.
-/
namespace StagedAnalysis.CommandLine

partial def readAll (stream : IO.FS.Stream) (bytes : ByteArray) : IO ByteArray := do
  let piece ← stream.read 65536
  if piece.isEmpty then return bytes else readAll stream (bytes ++ piece)

/-- A failure by the number that an error has; some errors carry it as a negative number of 32
bits. -/
def systemFailure (number : UInt32) (reason : String) : ReadFailure :=
  .ofSystem (min number (0 - number)).toNat reason

def readFailure (error : IO.Error) : ReadFailure :=
  match error with
  | .noFileOrDirectory _ number reason
  | .invalidArgument _ number reason
  | .permissionDenied _ number reason
  | .resourceExhausted _ number reason
  | .inappropriateType _ number reason
  | .noSuchThing _ number reason
  | .interrupted _ number reason
  | .otherError number reason
  | .alreadyExists _ number reason
  | .resourceBusy number reason
  | .resourceVanished number reason
  | .unsupportedOperation number reason
  | .hardwareFault number reason
  | .unsatisfiedConstraints number reason
  | .illegalOperation number reason
  | .protocolError number reason
  | .timeExpired number reason => systemFailure number reason
  | .unexpectedEof | .userError _ => .ofSystem 5 ""

def readInput (input : Input) : IO (Except ReadFailure ByteArray) :=
  tryCatch
    (do
      match input with
      | .standardInput => return .ok (← readAll (← IO.getStdin) .empty)
      | .file path => return .ok (← IO.FS.readBinFile path))
    (fun error => return .error (readFailure error))

def answer (response : Response) : IO UInt32 := do
  (← IO.getStdout).putStr response.output
  (← IO.getStderr).putStr response.errors
  return response.code.toUInt32

def run (arguments : List String) : IO UInt32 := do
  match Request.ofArguments? arguments with
  | none => answer refusal
  | some request =>
    match request.input? with
    | none => answer (request.respond (.ok .empty))
    | some input => answer (request.respond (← readInput input))

end StagedAnalysis.CommandLine

def main (arguments : List String) : IO UInt32 :=
  StagedAnalysis.CommandLine.run arguments
