import LinearProgramming.Decimal.Layout
import LinearProgramming.Pivot
import LinearProgramming.Solution

/-!
The wording of defects, pivot errors, violations and statuses.
-/

namespace LinearProgramming

def Place.text : Place → String
  | constraintRow index => s!"constraint row {index}"
  | objective => "objective coefficients"
  | rhs index => s!"right-hand side of row {index}"

def Defect.message : Defect Float → String
  | empty => "Problem has no constraints or no variables"
  | rowLength row expected found =>
    s!"Constraint row {row} has {found} coefficients, expected {expected}"
  | rhsLength expected found => s!"Right-hand side has {found} entries, expected {expected}"
  | negativeRhs row value =>
    let shown := Layout.prose.text value
    s!"Right-hand side of row {row} is negative ({shown}); the all-slack basis is infeasible"
  | nonFinite place => "Non-finite value in " ++ place.text

def PivotError.message : PivotError Float → String
  | rowOutOfRange row rows =>
    s!"Pivot row {row} is out of range (tableau has {rows} constraint rows)"
  | columnOutOfRange column columns =>
    s!"Pivot column {column} is out of range (tableau has {columns} variable columns)"
  | alreadyBasic row column => s!"Column {column} is already basic in row {row}"
  | zeroPivot row column value =>
    let shown := Layout.prose.text value
    s!"Pivot element at ({row}, {column}) is {shown}"

/-- The named parts of a violation, the numbers as in a record. -/
def Violation.text : Violation Float → String
  | constraint row limit actual amount =>
    s!"Constraint(ConstraintViolation \x7b row: {row}, limit: " ++ Layout.record.text limit
      ++ ", actual: " ++ Layout.record.text actual
      ++ ", amount: " ++ Layout.record.text amount ++ " \x7d)"
  | negativeValue index value =>
    s!"NegativeValue \x7b index: {index}, value: " ++ Layout.record.text value ++ " \x7d"

def Status.title : Status → String
  | optimal => "OPTIMAL"
  | unbounded => "UNBOUNDED"
  | iterationLimit => "ITERATION LIMIT"
  | error => "ERROR"

end LinearProgramming
