import LinearProgramming.Scalar

/-!
Linear programs in canonical form: maximise `c · x` subject to `A x ≤ b` and
`x ≥ 0`, where `b ≥ 0` so that `x = 0` is a feasible start. `Problem.defect?`
names the first reason why given data are not of this form.
-/

namespace LinearProgramming

/-- The data of a linear program. The lists may have any lengths; only a
problem without a defect describes a program. -/
structure Problem (α : Type) where
  /-- One list of coefficients for each constraint. -/
  a : List (List α)
  /-- The bound of each constraint. -/
  b : List α
  /-- The coefficients of the objective. -/
  c : List α
  deriving BEq

inductive Place where
  | constraintRow (index : Nat)
  | objective
  | rhs (index : Nat)
  deriving DecidableEq

inductive Defect (α : Type) where
  | empty
  | rowLength (row expected found : Nat)
  | rhsLength (expected found : Nat)
  | negativeRhs (row : Nat) (value : α)
  | nonFinite (place : Place)

namespace Problem

variable {α : Type}

def numConstraints (p : Problem α) : Nat := p.b.length

def numVariables (p : Problem α) : Nat := p.c.length

variable [Scalar α]

/-- The objective at `x`, over the common length of `c` and `x`. -/
def objectiveAt (p : Problem α) (x : List α) : α :=
  Scalar.dot p.c x

/-- The row count has to agree with the number of bounds, and neither the
constraints nor the variables may be missing. -/
def shapeDefect? (p : Problem α) : Option (Defect α) :=
  if p.a.length ≠ p.numConstraints then
    some (.rhsLength p.a.length p.numConstraints)
  else if p.numConstraints = 0 ∨ p.numVariables = 0 then
    some .empty
  else
    none

/-- The length of a row is looked at before its entries. -/
def rowDefect? (expected index : Nat) (row : List α) : Option (Defect α) :=
  if row.length ≠ expected then
    some (.rowLength index expected row.length)
  else if Scalar.allFinite row then
    none
  else
    some (.nonFinite (.constraintRow index))

def objectiveDefect? (p : Problem α) : Option (Defect α) :=
  if Scalar.allFinite p.c then none else some (.nonFinite .objective)

/-- A bound below zero would make the start `x = 0` infeasible. -/
def rhsDefect? (index : Nat) (value : α) : Option (Defect α) :=
  if !Scalar.isFinite value then
    some (.nonFinite (.rhs index))
  else if value < 0 then
    some (.negativeRhs index value)
  else
    none

/-- The first defect, looked for in the shape, then row by row, then in the
objective and last bound by bound. -/
def defect? (p : Problem α) : Option (Defect α) :=
  p.shapeDefect?
    <|> p.a.zipIdx.findSome? (fun (row, index) => rowDefect? p.numVariables index row)
    <|> p.objectiveDefect?
    <|> p.b.zipIdx.findSome? (fun (value, index) => rhsDefect? index value)

/-- A problem in canonical form. -/
def IsValid (p : Problem α) : Prop :=
  p.defect? = none

end Problem

end LinearProgramming
