import LinearProgramming.Violation

/-!
Answers to a linear program. An answer is certified when it is optimal and its
values pass the check of the constraints, which in rounded arithmetic is not a
matter of course.
-/

namespace LinearProgramming

inductive Status where
  | optimal
  | unbounded
  | iterationLimit
  | error
  deriving DecidableEq

structure Solution (α : Type) where
  status : Status
  /-- The decision variables; none when there is no point to show. -/
  values : List α
  objectiveValue : Option α
  iterations : Nat
  /-- What the values break, the worst first. -/
  violations : List (Violation α)
  deriving BEq

namespace Solution

variable {α : Type}

def optimal (values : List α) (objectiveValue : α) (iterations : Nat)
    (violations : List (Violation α)) : Solution α :=
  ⟨.optimal, values, some objectiveValue, iterations, violations⟩

def unbounded (iterations : Nat) : Solution α :=
  ⟨.unbounded, [], none, iterations, []⟩

/-- The last basic solution before the run was given up. -/
def iterationLimit (values : List α) (objectiveValue : α) (iterations : Nat) : Solution α :=
  ⟨.iterationLimit, values, some objectiveValue, iterations, []⟩

def error (iterations : Nat) : Solution α :=
  ⟨.error, [], none, iterations, []⟩

def isOptimal (s : Solution α) : Bool :=
  s.status = .optimal

def isCertified (s : Solution α) : Bool :=
  s.isOptimal && s.violations.isEmpty

end Solution

end LinearProgramming
