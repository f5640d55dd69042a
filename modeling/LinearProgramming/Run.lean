import LinearProgramming.Pivot

/-!
Runs of the simplex method. A step pivots at the place that the selection rules
choose or ends the run; a run repeats steps until the objective cannot be
improved or the pivot count reaches a cap. A run keeps every move it made, so
that it can be replayed.
-/

namespace LinearProgramming

inductive Outcome (α : Type) where
  | optimal
  /-- The column improves the objective and no row limits it. -/
  | unbounded (column : Nat)
  | iterationLimit
  /-- The chosen place could not be pivoted on. -/
  | failed (error : PivotError α)

/-- A pivot and the tableau it led to. -/
structure Move (α : Type) where
  row : Nat
  column : Nat
  after : Tableau α

/-- A run from some tableau: its moves in order and the tableau it ends in. -/
structure Run (α : Type) where
  outcome : Outcome α
  final : Tableau α
  moves : List (Move α)

inductive Step (α : Type) where
  | stop (outcome : Outcome α)
  | move (move : Move α)

namespace Tableau

variable {α : Type} [Scalar α]

/-- What the selection rules do at a tableau. -/
def step (t : Tableau α) : Step α :=
  match t.enteringColumn? with
  | none => .stop .optimal
  | some column =>
    match t.leavingRow? column with
    | none => .stop (.unbounded column)
    | some row =>
      match t.pivot row column with
      | .error error => .stop (.failed error)
      | .ok after => .move ⟨row, column, after⟩

/-- Continues a run that has made the given moves, latest first, with at most
`budget` more. Optimality is noticed before the budget is. -/
def runFrom (budget : Nat) (t : Tableau α) (moves : List (Move α)) : Run α :=
  if !t.canImprove then
    ⟨.optimal, t, moves.reverse⟩
  else
    match budget with
    | 0 => ⟨.iterationLimit, t, moves.reverse⟩
    | budget + 1 =>
      match t.step with
      | .stop outcome => ⟨outcome, t, moves.reverse⟩
      | .move move => runFrom budget move.after (move :: moves)

/-- Runs until the tableau's pivot count reaches the cap. Pivots made before
the run count too. -/
def run (t : Tableau α) (cap : Nat) : Run α :=
  t.runFrom (cap - t.iterations) []

end Tableau

end LinearProgramming
