import LinearProgramming.Problem

/-!
What a candidate point breaks. `Problem.violations` looks at every constraint
and every sign condition with a tolerance, so an empty answer certifies
`A x ≤ b` and `x ≥ 0` up to that tolerance.
-/

namespace LinearProgramming

inductive Violation (α : Type) where
  /-- The left-hand side of a row, its `actual` value, exceeds the `limit` by
  the `amount`. -/
  | constraint (row : Nat) (limit actual amount : α)
  | negativeValue (index : Nat) (value : α)
  deriving BEq

/-- How far the point is on the wrong side. -/
def Violation.amount {α : Type} [Scalar α] : Violation α → α
  | constraint _ _ _ amount => amount
  | negativeValue _ value => -value

namespace Problem

variable {α : Type} [Scalar α]

/-- The rows whose left-hand side exceeds the bound by more than the tolerance,
from top to bottom. -/
def brokenRows (p : Problem α) (x : List α) (tolerance : α) : List (Violation α) :=
  (p.a.zip p.b).zipIdx.filterMap fun ((row, limit), index) =>
    let actual := Scalar.dot row x
    if limit + tolerance < actual then
      some (.constraint index limit actual (actual - limit))
    else
      none

/-- The coordinates that are below zero by more than the tolerance, from left
to right. -/
def negativeValues (x : List α) (tolerance : α) : List (Violation α) :=
  x.zipIdx.filterMap fun (value, index) =>
    if value < -tolerance then some (.negativeValue index value) else none

/-- Everything that `x` breaks, the largest amount first. Equal amounts stay in
the order of the search: rows before coordinates, each in ascending order. -/
def violations (p : Problem α) (x : List α) (tolerance : α) : List (Violation α) :=
  (p.brokenRows x tolerance ++ negativeValues x tolerance).mergeSort
    fun left right => !decide (left.amount < right.amount)

/-- Rows without a bound leave the question open. -/
def violations? (p : Problem α) (x : List α) (tolerance : α) :
    Option (List (Violation α)) :=
  if p.a.length ≤ p.b.length then some (p.violations x tolerance) else none

end Problem

end LinearProgramming
