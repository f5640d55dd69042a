import LinearProgramming.Command.Arguments
import LinearProgramming.Command.Report
import LinearProgramming.Examples
import LinearProgramming.Json.Problem
import LinearProgramming.Json.Solution

/-!
What the program does with a command line. Files, and the reading and writing of
JSON, are given, so that the response is a function of the arguments and these.
-/

namespace LinearProgramming

/-- What the program is given from outside. A text or a problem that cannot be had comes
with the reason. -/
structure Host where
  /-- The content of a file. -/
  readText : String → Except String String
  decode : String → Except String (Problem Float)
  encode : Solution Float → String

namespace Host

/-- A library for JSON reads the problems and writes the solutions. -/
def withJson {α : Type} (json : Json.Library α) (readText : String → Except String String) : Host :=
  ⟨readText, Problem.ofText json, fun s => json.pretty (s.toJson json)⟩

/-- The problem in a file, or what there is to complain about. -/
def load (host : Host) (file : String) : Except Complaint (Problem Float) :=
  match host.readText file with
  | .error reason => .error (.unreadableFile reason)
  | .ok text =>
    match host.decode text with
    | .error reason => .error (.unparsableFile reason)
    | .ok p => .ok p

end Host

/-- What a program writes to its two streams and the code it ends with. -/
structure Response where
  exitCode : Nat
  output : String
  complaints : List Complaint

namespace Response

/-- The program ends with code zero exactly if its work was a success. -/
def ofSession (work : Session Bool) : Response :=
  let (success, written) := work.run {}
  ⟨if success then 0 else 1, written.output, written.complaints⟩

/-- A command line that is not understood. -/
def usage : Response :=
  ⟨2, "", [.usage]⟩

/-- The complaints as text, a line for each. -/
def errors (r : Response) : String :=
  String.join (r.complaints.map fun complaint => line complaint.message)

/-- The complaint of a command that makes no more than one. -/
def complaint (r : Response) : Option Complaint :=
  r.complaints.head?

end Response

def separator : String :=
  line (String.ofList (List.replicate 32 '-'))

/-- Reports on named problems, one after the other. A failure does not keep the
later ones from being reported on. -/
def Solver.reportOnAll (s : Solver Float) (showTableau : Bool) :
    List (String × Problem Float) → Session Bool
  | [] => return true
  | (name, p) :: rest => do
    Session.print (line name)
    let first ← s.reportOn p showTableau
    Session.print separator
    let others ← s.reportOnAll showTableau rest
    return first && others

namespace Command

def solver (maxIterations : Option Nat) : Solver Float :=
  match maxIterations with
  | none => .standard
  | some cap => Solver.standard.withMaxIterations cap

/-- What is done with the problem's file. -/
def workOn (host : Host) (file : String) (showTableau : Bool) (maxIterations : Option Nat)
    (format : String) : Session Bool :=
  match host.load file with
  | .error complaint => Session.fail complaint
  | .ok p =>
    let s := solver maxIterations
    if format = "json" then s.encodeAnswer host.encode p else s.reportOn p showTableau

def respond (host : Host) : Command → Response
  | demo showTableau => .ofSession (Solver.standard.reportOnAll showTableau examples)
  | solve file showTableau maxIterations format =>
    .ofSession (workOn host file showTableau maxIterations format)

end Command

/-- The response to a command line. A command line that is not understood reads
no file. -/
def respond (host : Host) (arguments : List String) : Response :=
  match Command.ofArguments? arguments with
  | none => .usage
  | some command => command.respond host

end LinearProgramming
