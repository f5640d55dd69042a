import LinearProgramming.Problem

/-!
Dense simplex tableaux. A tableau holds the equations `A x + s = b` solved for
the variables of a basis, and above which objective they are read. With `n`
decision variables and `m` constraints the columns `0, …, n - 1` belong to the
decision variables and `n, …, n + m - 1` to the slacks.

The objective row holds the reduced costs: a negative entry marks a column
whose entry into the basis increases the objective.
-/

namespace LinearProgramming

/-- The coefficients of all variables and the right-hand side. -/
structure Row (α : Type) where
  coeffs : List α
  rhs : α

/-- A row that expresses its basic variable by the others. -/
structure Equation (α : Type) where
  basic : Nat
  row : Row α

structure Tableau (α : Type) where
  numVariables : Nat
  equations : List (Equation α)
  objective : Row α
  iterations : Nat

namespace Row

variable {α : Type} [Scalar α]

/-- The coefficient of a variable; a variable that does not occur has
coefficient zero. -/
def entry (r : Row α) (column : Nat) : α :=
  r.coeffs.getD column 0

/-- All numbers of the row, the right-hand side last. -/
def cells (r : Row α) : List α :=
  r.coeffs ++ [r.rhs]

def divide (r : Row α) (divisor : α) : Row α :=
  ⟨r.coeffs.map (· / divisor), r.rhs / divisor⟩

/-- Subtracts the multiple of the pivot row that clears the column. A row with
a zero there is left as it is. -/
def eliminate (r : Row α) (column : Nat) (pivotRow : Row α) : Row α :=
  let factor := r.entry column
  if factor == 0 then
    r
  else
    ⟨List.zipWith (fun value pivot => value - factor * pivot) r.coeffs pivotRow.coeffs,
      r.rhs - factor * pivotRow.rhs⟩

end Row

namespace Tableau

variable {α : Type}

def numConstraints (t : Tableau α) : Nat := t.equations.length

/-- The number of columns that belong to variables, slacks included. -/
def width (t : Tableau α) : Nat := t.numVariables + t.numConstraints

def basis (t : Tableau α) : List Nat := t.equations.map (·.basic)

/-- The right-hand side of each equation, which is the value of its basic
variable when the others are zero. -/
def rhs (t : Tableau α) : List α := t.equations.map (·.row.rhs)

def objectiveValue (t : Tableau α) : α := t.objective.rhs

/-- The rows from top to bottom, the objective row last. -/
def rows (t : Tableau α) : List (Row α) := t.equations.map (·.row) ++ [t.objective]

variable [Scalar α]

/-- The unit row of one slack among `m`. -/
def slackCoeffs (m index : Nat) : List α :=
  (List.replicate m 0).set index 1

/-- The tableau of a problem with every slack basic. -/
def initial (p : Problem α) : Tableau α where
  numVariables := p.numVariables
  equations := (p.a.zip p.b).mapIdx fun index (row, limit) =>
    ⟨p.numVariables + index, row ++ slackCoeffs p.numConstraints index, limit⟩
  objective := ⟨p.c.map (- ·) ++ List.replicate p.numConstraints 0, 0⟩
  iterations := 0

/-- The initial tableau, for a problem without a defect. -/
def ofProblem (p : Problem α) : Except (Defect α) (Tableau α) :=
  match p.defect? with
  | some defect => .error defect
  | none => .ok (initial p)

/-- The decision variables at the basic solution: a basic variable has the
value of its equation, all others are zero. -/
def primalSolution (t : Tableau α) : List α :=
  t.equations.foldl (fun values e => values.set e.basic e.row.rhs)
    (List.replicate t.numVariables 0)

end Tableau

end LinearProgramming
