import LinearProgramming.Log

/-!
What is written about a problem and its solution, and whether the answer is the one
hoped for. Problems with a defect are complained about.
-/

namespace LinearProgramming

def line (text : String) : String :=
  text ++ "\n"

namespace Tableau

def block (t : Tableau Float) (heading : String) : String :=
  line "" ++ line (">>>> " ++ heading) ++ line t.display

end Tableau

namespace Solution

def objectiveLine (s : Solution Float) : String :=
  match s.objectiveValue with
  | none => ""
  | some z => line ("   z = " ++ Layout.prose.text z)

/-- The variables, counted from one. -/
def valueLines (s : Solution Float) : String :=
  String.join (s.values.zipIdx.map fun (value, index) =>
    let number := index + 1
    line (s!"x[{number}] = " ++ Layout.prose.text value))

def violationLines (s : Solution Float) : String :=
  if s.violations.isEmpty then
    ""
  else
    let count := s.violations.length
    line s!"Warning: the solution breaks {count} constraint(s):"
      ++ String.join (s.violations.map fun v => line ("  " ++ v.text))

end Solution

/-- Why a command failed without an answer. -/
inductive Complaint where
  | usage
  | unreadableFile (reason : String)
  | unparsableFile (reason : String)
  | invalidProblem (defect : Defect Float)

/-- The text of a complaint. Why a file or its text cannot be read is said by those who
read them. -/
def Complaint.message : Complaint → String
  | usage => "usage: simplex demo [-t] | simplex solve FILE [-t] [-m COUNT] [-f FORMAT]"
  | unreadableFile reason => "Error reading file: " ++ reason
  | unparsableFile reason => "Parse error: " ++ reason
  | invalidProblem defect => "Invalid problem: " ++ defect.message

/-- What has been written so far: the text for the user, and the complaints apart
from it. -/
structure Transcript where
  output : String := ""
  complaints : List Complaint := []

/-- A piece of work that writes as it goes. -/
abbrev Session := StateM Transcript

namespace Session

def print (text : String) : Session Unit :=
  modify fun written => { written with output := written.output ++ text }

/-- Gives up, with the reason. -/
def fail (complaint : Complaint) : Session Bool := do
  modify fun written => { written with complaints := written.complaints ++ [complaint] }
  return false

end Session

namespace Solution

open Session (print)

/-- Writes what there is to say about a solution. It is a success if an optimum was
found that passes the check. -/
def report (s : Solution Float) : Session Bool := do
  let count := s.iterations
  print (line ("Status: " ++ s.status.title))
  match s.status with
  | .optimal =>
    print (line s!"Solution found in {count} iterations")
    print s.objectiveLine
    print s.valueLines
    print s.violationLines
    return s.violations.isEmpty
  | .unbounded =>
    print (line "The problem has no finite optimal solution.")
    return false
  | .iterationLimit =>
    print (line s!"No optimal solution after {count} iterations (possible cycling).")
    return false
  | .error =>
    print (line "Solver encountered an error.")
    return false

end Solution

namespace Solver

open Session (print fail)

/-- Solves a problem and reports on it. If asked, the first tableau is shown before
the problem is solved, and the last one before the report. -/
def reportOn (s : Solver Float) (p : Problem Float) (showTableau : Bool) : Session Bool := do
  if showTableau then
    match Tableau.ofProblem p with
    | .error defect => return ← fail (.invalidProblem defect)
    | .ok initial => print (initial.block "Initial tableau")
  match s.run p with
  | .error defect => fail (.invalidProblem defect)
  | .ok run =>
    if showTableau then
      print (run.final.block "Final tableau")
    print (line "")
    (s.solutionOf p run).report

/-- Solves a problem and writes the solution for other programs. -/
def encodeAnswer (s : Solver Float) (encode : Solution Float → String) (p : Problem Float) :
    Session Bool := do
  match s.solve p with
  | .error defect => fail (.invalidProblem defect)
  | .ok solution =>
    print (line (encode solution))
    return solution.isCertified

end Solver

end LinearProgramming
