import LinearProgramming.Solver
import LinearProgramming.Table
import LinearProgramming.Proofs.Indexing.Access

/-!
A tableau as a matrix with numbered cells, and the whole method on it with every
access by number. The objective row is the last row and the right-hand side the
last column, so a row, a column or a basic variable that is out of range names no
cell, and a computation that asks for it has no result.

The answers are those of the tableau (`Tableau.grid` lays it out), except that
they may be missing; the modules beside this one show that none is.
-/

namespace LinearProgramming

structure Grid (α : Type) where
  numVariables : Nat
  numConstraints : Nat
  /-- The cells row by row, those of the objective last. -/
  rows : List (List α)
  /-- The variable that is basic in each row but the last. -/
  basis : List Nat
  iterations : Nat

namespace Grid

variable {α : Type}

/-- The column of the right-hand sides, behind those of the variables. -/
def rhsColumn (g : Grid α) : Nat := g.numVariables + g.numConstraints

def cell? (g : Grid α) (row column : Nat) : Option α := do
  let cells ← g.rows[row]?
  cells[column]?

/-- The objective row without its right-hand side. -/
def costs? (g : Grid α) : Option (List α) := do
  let cells ← g.rows[g.numConstraints]?
  leading? cells g.rhsColumn

def objectiveValue? (g : Grid α) : Option α :=
  g.cell? g.numConstraints g.rhsColumn

def rhs? (g : Grid α) : Option (List α) := do
  let rows ← leading? g.rows g.numConstraints
  rows.mapM fun cells => cells[g.rhsColumn]?

/-- A line of the table. Every row but the last is named after its basic variable. -/
def line? (write : α → String) (g : Grid α) (cells : List α) (row : Nat) : Option String := do
  let label ← if row < g.numConstraints then (g.basis[row]?).map columnName else some "z"
  return alignRight 6 label ++ " =" ++ Tableau.alignCells (cells.map write)

/-- The table as text. -/
def text? (write : α → String) (g : Grid α) : Option String := do
  let m := g.numConstraints
  let n := g.numVariables
  let size := s!"m = {m}, n = {n}"
  let heads := alignRight 8 "" ++
    Tableau.alignCells ((List.range g.rhsColumn).map columnName ++ ["b"])
  let lines ← g.rows.zipIdx.mapM fun item => g.line? write item.1 item.2
  return "\n".intercalate ([size, heads] ++ lines)

variable [Scalar α]

/-- Fills the row of a constraint with its coefficients, its slack and its bound. -/
def fillConstraint? (p : Problem α) (i : Nat) (coefficients cells : List α) :
    Option (List α) := do
  let cells ← copyOver? cells p.numVariables coefficients
  let cells ← writeAt? cells (p.numVariables + i) 1
  let limit ← p.b[i]?
  writeAt? cells (p.numVariables + p.numConstraints) limit

/-- The blank table with a row for each constraint and one for the objective, then
filled constraint by constraint, and last with the costs. A problem with a defect
is turned down before any access. -/
def ofProblem? (p : Problem α) : Option (Except (Defect α) (Grid α)) :=
  match p.defect? with
  | some defect => some (.error defect)
  | none => do
    let n := p.numVariables
    let m := p.numConstraints
    let blank := List.replicate (m + 1) (List.replicate (n + (m + 1)) 0)
    let constraints ← p.a.zipIdx.foldlM (fun rows (coefficients, i) =>
      changeAt? rows i (fillConstraint? p i coefficients)) blank
    let rows ← p.c.zipIdx.foldlM (fun rows (cost, j) =>
      changeAt? rows m fun cells => writeAt? cells j (-cost)) constraints
    return .ok ⟨n, m, rows, List.range' n m, 0⟩

def canImprove? (g : Grid α) : Option Bool := do
  let costs ← g.costs?
  return costs.any (· < 0)

def enteringColumn? (g : Grid α) : Option (Option Nat) := do
  let costs ← g.costs?
  return firstLeast? (costs.zipIdx.filterMap fun (cost, column) =>
    if cost < 0 then some (column, cost) else none)

/-- The row and its ratio, if its entry in the column is positive. -/
def ratio? (g : Grid α) (column row : Nat) : Option (Option (Nat × α)) := do
  let entry ← g.cell? row column
  if 0 < entry then
    let limit ← g.cell? row g.rhsColumn
    return some (row, limit / entry)
  else
    return none

def ratios? (g : Grid α) (column : Nat) : Option (List (Nat × α)) := do
  let ratios ← (List.range g.numConstraints).mapM (g.ratio? column)
  return ratios.filterMap id

/-- No column, or one that belongs to no variable, has no leaving row. -/
def leavingRow? (g : Grid α) (column : Option Nat) : Option (Option Nat) :=
  match column with
  | none => some none
  | some column =>
    if g.rhsColumn ≤ column then
      some none
    else do
      let ratios ← g.ratios? column
      return firstLeast? ratios

def primalSolution? (g : Grid α) : Option (List α) :=
  g.basis.zipIdx.foldlM (fun values (basic, row) =>
    if basic < g.numVariables then do
      let value ← g.cell? row g.rhsColumn
      writeAt? values basic value
    else
      some values) (List.replicate g.numVariables 0)

/-- Takes from a row the multiple of the pivot row that clears the column. -/
def clear? (column : Nat) (pivotCells cells : List α) : Option (List α) := do
  let factor ← cells[column]?
  if factor == 0 then
    return cells
  else
    return List.zipWith (fun value pivot => value - factor * pivot) cells pivotCells

/-- The rows with the pivot row put in and the column cleared in all others. -/
def eliminate? (g : Grid α) (row column : Nat) (pivotCells : List α) :
    Option (List (List α)) :=
  (g.rows.set row pivotCells).zipIdx.mapM fun item =>
    if item.2 = row then some item.1 else clear? column pivotCells item.1

/-- Makes the column basic in the row and writes the table to the record. -/
def exchange? (write : α → String) (g : Grid α) (row column : Nat) (pivotCells : List α) :
    Option (Grid α) := do
  let rows ← g.eliminate? row column pivotCells
  let basis ← writeAt? g.basis row column
  let after : Grid α := { g with rows, basis, iterations := g.iterations + 1 }
  let _ ← after.text? write
  return after

def pivot? (write : α → String) (g : Grid α) (row column : Nat) :
    Option (Except (PivotError α) (Grid α)) :=
  if g.numConstraints ≤ row then
    some (.error (.rowOutOfRange row g.numConstraints))
  else if g.rhsColumn ≤ column then
    some (.error (.columnOutOfRange column g.rhsColumn))
  else do
    let basic ← g.basis[row]?
    if basic = column then
      return .error (.alreadyBasic row column)
    let cells ← g.rows[row]?
    let value ← cells[column]?
    if value == 0 || !Scalar.isFinite value then
      return .error (.zeroPivot row column value)
    let after ← g.exchange? write row column (cells.map (· / value))
    return .ok after

/-- Moves by the selection rules, with the objective read for the record after
each move and when the run is given up. -/
def runFrom? (write : α → String) (budget : Nat) (g : Grid α) :
    Option (Outcome α × Grid α) := do
  if !(← g.canImprove?) then
    return (.optimal, g)
  match budget with
  | 0 =>
    let _ ← g.objectiveValue?
    return (.iterationLimit, g)
  | budget + 1 =>
    match ← g.enteringColumn? with
    | none => return (.optimal, g)
    | some column =>
      match ← g.leavingRow? (some column) with
      | none => return (.unbounded column, g)
      | some row =>
        match ← g.pivot? write row column with
        | .error error => return (.failed error, g)
        | .ok after =>
          let _ ← after.objectiveValue?
          after.runFrom? write budget

def run? (write : α → String) (cap : Nat) (g : Grid α) : Option (Outcome α × Grid α) := do
  let _ ← g.text? write
  g.runFrom? write (cap - g.iterations)

end Grid

namespace Problem

variable {α : Type} [Scalar α]

/-- What a row breaks, with its bound looked up by its number. -/
def checkRow? (p : Problem α) (x : List α) (tolerance : α) (row : List α) (index : Nat) :
    Option (Option (Violation α)) := do
  let actual := Scalar.dot row x
  let limit ← p.b[index]?
  return if limit + tolerance < actual then
    some (.constraint index limit actual (actual - limit))
  else
    none

def brokenRowsByIndex? (p : Problem α) (x : List α) (tolerance : α) :
    Option (List (Violation α)) := do
  let broken ← p.a.zipIdx.mapM fun item => p.checkRow? x tolerance item.1 item.2
  return broken.filterMap id

def violationsByIndex? (p : Problem α) (x : List α) (tolerance : α) :
    Option (List (Violation α)) := do
  let broken ← p.brokenRowsByIndex? x tolerance
  return (broken ++ negativeValues x tolerance).mergeSort
    fun left right => !decide (left.amount < right.amount)

end Problem

namespace Solver

variable {α : Type} [Scalar α]

/-- The answer read off the final grid. -/
def answer? (s : Solver α) (p : Problem α) (outcome : Outcome α) (final : Grid α) :
    Option (Solution α) :=
  match outcome with
  | .optimal => do
    let values ← final.primalSolution?
    let violations ← p.violationsByIndex? values s.tolerance
    let objective ← final.objectiveValue?
    return .optimal values objective final.iterations violations
  | .unbounded _ => some (.unbounded final.iterations)
  | .iterationLimit => do
    let values ← final.primalSolution?
    let objective ← final.objectiveValue?
    return .iterationLimit values objective final.iterations
  | .failed _ => some (.error final.iterations)

/-- Solving on the grid. -/
def solveByIndex? (write : α → String) (s : Solver α) (p : Problem α) :
    Option (Except (Defect α) (Solution α × Grid α)) := do
  match ← Grid.ofProblem? p with
  | .error defect => return .error defect
  | .ok start =>
    let (outcome, final) ← start.run? write s.maxIterations
    let answer ← s.answer? p outcome final
    return .ok (answer, final)

end Solver

/-- The matrix of a tableau. -/
def Tableau.grid {α : Type} (t : Tableau α) : Grid α where
  numVariables := t.numVariables
  numConstraints := t.numConstraints
  rows := t.rows.map (·.cells)
  basis := t.basis
  iterations := t.iterations

end LinearProgramming
