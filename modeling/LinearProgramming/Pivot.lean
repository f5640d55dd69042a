import LinearProgramming.Tableau

/-!
One exchange step of the simplex method: the choice of the entering column by
the most negative reduced cost, the choice of the leaving row by the smallest
ratio, and the elimination at the chosen place. The elimination may be asked
for at any place; it answers with the reason when the place does not qualify.
-/

namespace LinearProgramming

/-- Why a place of the tableau cannot be pivoted on. -/
inductive PivotError (α : Type) where
  | rowOutOfRange (row rows : Nat)
  | columnOutOfRange (column columns : Nat)
  | alreadyBasic (row column : Nat)
  | zeroPivot (row column : Nat) (value : α)

variable {α : Type} [Scalar α]

/-- Of a candidate kept so far and a new one, the one to go on with. A new
candidate takes the place only with a smaller value. -/
def keepLess (kept candidate : Nat × α) : Nat × α :=
  if candidate.2 < kept.2 then candidate else kept

/-- The first candidate is kept in any case. -/
def keepLeast (best : Option (Nat × α)) (candidate : Nat × α) : Option (Nat × α) :=
  match best with
  | none => some candidate
  | some kept => some (keepLess kept candidate)

/-- The label of the least value. Of equal values the first one counts. -/
def firstLeast? (candidates : List (Nat × α)) : Option Nat :=
  (candidates.foldl keepLeast none).map (·.1)

/-- The value at which the equation's basic variable reaches zero when the
column's variable grows. -/
def Equation.ratio (e : Equation α) (column : Nat) : α :=
  e.row.rhs / e.row.entry column

namespace Tableau

def canImprove (t : Tableau α) : Bool :=
  t.objective.coeffs.any (· < 0)

def isOptimal (t : Tableau α) : Bool :=
  !t.canImprove

def improvingColumns (t : Tableau α) : List (Nat × α) :=
  t.objective.coeffs.zipIdx.filterMap fun (cost, column) =>
    if cost < 0 then some (column, cost) else none

def enteringColumn? (t : Tableau α) : Option Nat :=
  firstLeast? t.improvingColumns

/-- The rows with a positive entry in the column, each with its ratio. -/
def ratios (t : Tableau α) (column : Nat) : List (Nat × α) :=
  t.equations.zipIdx.filterMap fun (e, row) =>
    if 0 < e.row.entry column then some (row, e.ratio column) else none

/-- The row that limits the growth of the column's variable. If there is none,
the variable may grow without end. -/
def leavingRow? (t : Tableau α) (column : Nat) : Option Nat :=
  firstLeast? (t.ratios column)

/-- Makes the column basic in the row: the row is divided by its entry and then
clears the column everywhere else. -/
def exchange (t : Tableau α) (row column : Nat) (pivotRow : Row α) : Tableau α :=
  { t with
    equations := (t.equations.map fun e =>
      { e with row := e.row.eliminate column pivotRow }).set row ⟨column, pivotRow⟩
    objective := t.objective.eliminate column pivotRow
    iterations := t.iterations + 1 }

/-- Pivots at a place. The row is checked first, then the column, then that the
column is not basic there, then that the entry can be divided by. -/
def pivot (t : Tableau α) (row column : Nat) : Except (PivotError α) (Tableau α) :=
  match t.equations[row]? with
  | none => .error (.rowOutOfRange row t.numConstraints)
  | some e =>
    let value := e.row.entry column
    if t.width ≤ column then
      .error (.columnOutOfRange column t.width)
    else if e.basic = column then
      .error (.alreadyBasic row column)
    else if value == 0 || !Scalar.isFinite value then
      .error (.zeroPivot row column value)
    else
      .ok (t.exchange row column (e.row.divide value))

end Tableau

end LinearProgramming
