import LinearProgramming.Command.Response
import LinearProgramming.Json.Field

/-!
The program. It reads the file that the command names, prints the response, and
ends with its exit code.
-/

namespace LinearProgramming

/-- The text of a file, or what the system says about it. -/
def readText (path : String) : IO (Except String String) := do
  try
    let bytes ← IO.FS.readBinFile path
    return Json.orReason "stream did not contain valid UTF-8" (String.fromUTF8? bytes)
  catch error =>
    return .error (toString error)

/-- The content of the file that a command line names. -/
def contentFor (arguments : List String) : IO (Except String String) :=
  match Command.ofArguments? arguments with
  | some (.solve file _ _ _) => readText file
  | _ => return .error "no file is named"

/-- The program brings its own library for JSON. -/
def host (readText : String → Except String String) : Host :=
  .withJson Json.Library.standard readText

def answer (arguments : List String) : IO Response := do
  let content ← contentFor arguments
  return respond (host fun _ => content) arguments

end LinearProgramming

open LinearProgramming in
def main (arguments : List String) : IO UInt32 := do
  let response ← answer arguments
  IO.print response.output
  IO.eprint response.errors
  return response.exitCode.toUInt32
