import LinearProgramming.Message
import LinearProgramming.Solver
import LinearProgramming.Table

/-!
The record of a solution in words: the initial tableau, after each pivot the
tableau and what moved, and one closing remark unless the answer is certified.
-/

namespace LinearProgramming

inductive Level where
  | debug
  | trace
  deriving DecidableEq

structure LogEntry where
  level : Level
  message : String

/-- The text of a tableau with two decimals in its cells. -/
def Tableau.display (t : Tableau Float) : String :=
  t.text cellText

namespace LogEntry

def initial (start : Tableau Float) : LogEntry :=
  ⟨.trace, "initial tableau:\n" ++ start.display⟩

/-- The tableau as the pivot at the place has left it. -/
def pivoted (row column : Nat) (after : Tableau Float) : LogEntry :=
  ⟨.trace, s!"tableau after pivot ({row}, {column}):\n" ++ after.display⟩

def iteration (count row column : Nat) (objective : Float) : LogEntry :=
  ⟨.debug, s!"iteration {count}: x[{column}] enters at row {row}, objective "
    ++ Layout.prose.text objective⟩

def limited (cap : Nat) (objective : Float) : LogEntry :=
  ⟨.debug, s!"iteration limit of {cap} reached, objective " ++ Layout.prose.text objective⟩

def unlimited (column : Nat) : LogEntry :=
  ⟨.debug, s!"column {column} has no positive entry, problem is unbounded"⟩

def failed (error : PivotError Float) : LogEntry :=
  ⟨.debug, "pivot failed: " ++ error.message⟩

def violated (violations : List (Violation Float)) : LogEntry :=
  ⟨.debug, "optimal basis violates constraints: [" ++
    ", ".intercalate (violations.map Violation.text) ++ "]"⟩

end LogEntry

def Move.log (move : Move Float) : List LogEntry :=
  [.pivoted move.row move.column move.after,
    .iteration move.after.iterations move.row move.column move.after.objectiveValue]

/-- The remark that closes a run under a cap. -/
def Run.closing (cap : Nat) (run : Run Float) : List LogEntry :=
  match run.outcome with
  | .optimal => []
  | .iterationLimit => [.limited cap run.final.objectiveValue]
  | .unbounded column => [.unlimited column]
  | .failed error => [.failed error]

def Run.log (start : Tableau Float) (cap : Nat) (run : Run Float) : List LogEntry :=
  .initial start :: run.moves.flatMap Move.log ++ run.closing cap

/-- The remark on an answer whose values fail the check. -/
def Solution.remark (s : Solution Float) : List LogEntry :=
  if s.violations.isEmpty then [] else [.violated s.violations]

/-- The log of solving a problem. Nothing is said about a problem with a
defect. -/
def Solver.log (s : Solver Float) (p : Problem Float) : List LogEntry :=
  match s.run p with
  | .error _ => []
  | .ok run =>
    run.log (.initial p) s.maxIterations ++ (s.solutionOf p run).remark

end LinearProgramming
