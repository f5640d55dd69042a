import LinearProgramming.Run
import LinearProgramming.Solution

/-!
Solving a linear program: validate, run from the tableau with every slack
basic, and read the answer off the final tableau. The tolerance plays no part
in the run; it only decides what the check of an optimal answer reports.
-/

namespace LinearProgramming

structure Solver (α : Type) where
  /-- The pivot count at which a run is given up. -/
  maxIterations : Nat
  /-- How far an optimal answer may be on the wrong side of a constraint. -/
  tolerance : α

namespace Solver

/-- Ten thousand pivots and a tolerance of one in a billion. -/
def standard : Solver Float where
  maxIterations := 10000
  tolerance := 1e-9

variable {α : Type}

def withMaxIterations (s : Solver α) (maxIterations : Nat) : Solver α :=
  { s with maxIterations }

def withTolerance (s : Solver α) (tolerance : α) : Solver α :=
  { s with tolerance }

variable [Scalar α]

def run (s : Solver α) (p : Problem α) : Except (Defect α) (Run α) :=
  (Tableau.ofProblem p).map (·.run s.maxIterations)

/-- The answer that a run gives. Only the values of an optimal answer are
checked against the constraints. -/
def solutionOf (s : Solver α) (p : Problem α) (run : Run α) : Solution α :=
  let final := run.final
  match run.outcome with
  | .optimal =>
    let values := final.primalSolution
    .optimal values final.objectiveValue final.iterations (p.violations values s.tolerance)
  | .unbounded _ => .unbounded final.iterations
  | .iterationLimit =>
    .iterationLimit final.primalSolution final.objectiveValue final.iterations
  | .failed _ => .error final.iterations

def solve (s : Solver α) (p : Problem α) : Except (Defect α) (Solution α) :=
  (s.run p).map (s.solutionOf p)

end Solver

end LinearProgramming
