import LinearProgramming.Tableau
import Mathlib.Data.List.Nodup

/-!
The decision variables at the basic solution. The values are written one
equation after the other; with a variable in at most one equation no value is
written twice, so the order does not matter.
-/

namespace LinearProgramming

variable {α : Type}

namespace Tableau

/-- Writes the value of each equation's basic variable. -/
def writeBasics (values : List α) (equations : List (Equation α)) : List α :=
  equations.foldl (fun values e => values.set e.basic e.row.rhs) values

@[simp] theorem length_writeBasics (values : List α) (equations : List (Equation α)) :
    (writeBasics values equations).length = values.length := by
  induction equations generalizing values with
  | nil => rfl
  | cons e equations ih =>
    exact (ih (values.set e.basic e.row.rhs)).trans List.length_set

/-- What no equation writes stays. -/
theorem getElem?_writeBasics_of_ne (values : List α) {equations : List (Equation α)} {j : Nat}
    (hne : ∀ e ∈ equations, e.basic ≠ j) : (writeBasics values equations)[j]? = values[j]? := by
  induction equations generalizing values with
  | nil => rfl
  | cons e equations ih =>
    have hrest := ih (values.set e.basic e.row.rhs)
      fun e' he' => hne e' (List.mem_cons_of_mem _ he')
    exact hrest.trans (List.getElem?_set_ne (hne e List.mem_cons_self))

/-- What one equation writes is not written over by another. -/
theorem getElem?_writeBasics_of_mem (values : List α) {equations : List (Equation α)}
    (hnodup : (equations.map (·.basic)).Nodup) {e : Equation α} (he : e ∈ equations)
    (hlt : e.basic < values.length) :
    (writeBasics values equations)[e.basic]? = some e.row.rhs := by
  induction equations generalizing values with
  | nil => cases he
  | cons first equations ih =>
    rw [List.map_cons, List.nodup_cons] at hnodup
    rcases List.mem_cons.mp he with rfl | hrest
    · have hkeep := getElem?_writeBasics_of_ne (values.set e.basic e.row.rhs)
        (j := e.basic) fun e' he' hbasic => hnodup.1 (hbasic ▸ List.mem_map_of_mem he')
      exact hkeep.trans (List.getElem?_set_self hlt)
    · exact ih (values.set first.basic first.row.rhs) hnodup.2 hrest
        (by rwa [List.length_set])

variable [Scalar α]

theorem length_primalSolution (t : Tableau α) : t.primalSolution.length = t.numVariables :=
  (length_writeBasics _ t.equations).trans List.length_replicate

theorem primalSolution_of_not_basic {t : Tableau α} {j : Nat} (hj : j < t.numVariables)
    (hbasic : j ∉ t.basis) : t.primalSolution[j]? = some 0 := by
  have hne : ∀ e ∈ t.equations, e.basic ≠ j :=
    fun e he heq => hbasic (heq ▸ List.mem_map_of_mem he)
  refine (getElem?_writeBasics_of_ne _ hne).trans ?_
  rw [List.getElem?_replicate, if_pos hj]

theorem primalSolution_of_basic {t : Tableau α} (hnodup : t.basis.Nodup) {e : Equation α}
    (he : e ∈ t.equations) (hlt : e.basic < t.numVariables) :
    t.primalSolution[e.basic]? = some e.row.rhs :=
  getElem?_writeBasics_of_mem _ hnodup he (by rwa [List.length_replicate])

end Tableau

end LinearProgramming
