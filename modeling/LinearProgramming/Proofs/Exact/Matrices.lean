import Mathlib
import LinearProgramming.Proofs.Exact.Feasibility

/-!
Problems, points and rows as matrices and vectors. A function on the variables,
be it a point or the entries of a row, splits into its decision part and its
slack part; with these `A x + s = b` and the linear form of a row are read as
statements about vectors.
-/

namespace LinearProgramming

open Finset (range)
open Matrix

namespace Problem

/-- The matrix `A`. -/
def matrix (p : Problem ℚ) : Matrix (Fin p.numConstraints) (Fin p.numVariables) ℚ :=
  .of fun i j => (p.a.getD i []).getD j 0

/-- The vector `b`. -/
def limits (p : Problem ℚ) : Fin p.numConstraints → ℚ :=
  p.b.get

/-- The vector `c`. -/
def costs (p : Problem ℚ) : Fin p.numVariables → ℚ :=
  p.c.get

/-- A column of `[A | I]`. -/
def column (p : Problem ℚ) (j : ℕ) (i : Fin p.numConstraints) : ℚ :=
  if h : j < p.numVariables then p.matrix i ⟨j, h⟩ else if j = p.numVariables + i then 1 else 0

/-- What a function on the variables is on the decision variables. -/
def decisionPart (p : Problem ℚ) (z : ℕ → ℚ) : Fin p.numVariables → ℚ :=
  fun j => z j

/-- What a function on the variables is on the slacks. -/
def slackPart (p : Problem ℚ) (z : ℕ → ℚ) : Fin p.numConstraints → ℚ :=
  fun i => z (p.numVariables + i)

/-- A list of decision values. -/
def vector (p : Problem ℚ) (x : List ℚ) : Fin p.numVariables → ℚ :=
  p.decisionPart fun j => x.getD j 0

variable {p : Problem ℚ}

theorem vector_decisions (z : ℕ → ℚ) : p.vector (p.decisions z) = p.decisionPart z := by
  funext j
  have hj : (j : ℕ) < (p.decisions z).length := by
    rw [length_decisions]
    exact j.isLt
  rw [vector, decisionPart, List.getD_eq_getElem _ _ hj, getElem_decisions z hj]
  rfl

theorem column_decision (j : Fin p.numVariables) : p.column j = p.matrix.col j := by
  funext i
  rw [column, dif_pos j.isLt]
  rfl

theorem column_slack (k : Fin p.numConstraints) :
    p.column (p.numVariables + k) = Pi.single k 1 := by
  funext i
  have hslack : ¬p.numVariables + (k : ℕ) < p.numVariables := by omega
  rw [column, dif_neg hslack, Pi.single_apply]
  refine if_congr ?_ rfl rfl
  rw [Nat.add_left_cancel_iff, Fin.ext_iff]
  exact eq_comm

/-- A constraint of the problem in both readings. -/
theorem mulVec_decisionPart (z : ℕ → ℚ) {i : Fin p.numConstraints} {row : List ℚ}
    (hrow : p.a[(i : ℕ)]? = some row) :
    (p.matrix *ᵥ p.decisionPart z) i = ∑ j ∈ range p.numVariables, row.getD j 0 * z j := by
  have hentries : ∀ j, p.matrix i j = row.getD j 0 := by
    intro j
    rw [matrix, of_apply, List.getD_eq_getElem?_getD (l := p.a), hrow]
    rfl
  rw [mulVec, dotProduct, ← Fin.sum_univ_eq_sum_range fun j => row.getD j 0 * z j]
  apply Finset.sum_congr rfl
  intro j _
  rw [hentries]
  rfl

theorem solvedBy_iff_mulVec (hp : p.IsCanonical) (z : ℕ → ℚ) :
    p.SolvedBy z ↔ p.matrix *ᵥ p.decisionPart z + p.slackPart z = p.limits := by
  rw [funext_iff]
  constructor
  · intro hz i
    have hrow := List.getElem?_eq_getElem (hp.length_rows.symm ▸ i.isLt : (i : ℕ) < p.a.length)
    rw [Pi.add_apply, mulVec_decisionPart z hrow]
    exact hz i _ _ hrow (List.getElem?_eq_getElem i.isLt)
  · intro hz i row limit hrow hlimit
    obtain ⟨hi, rfl⟩ := List.getElem?_eq_some_iff.mp hlimit
    have hconstraint := hz ⟨i, hi⟩
    rw [Pi.add_apply, mulVec_decisionPart z hrow] at hconstraint
    exact hconstraint

theorem valueAt_eq_dotProduct (p : Problem ℚ) (z : ℕ → ℚ) :
    p.valueAt z = p.costs ⬝ᵥ p.decisionPart z := by
  rw [valueAt, dotProduct, ← Fin.sum_univ_eq_sum_range fun j => p.c.getD j 0 * z j]
  apply Finset.sum_congr rfl
  intro j _
  rw [List.getD_eq_getElem _ _ j.isLt]
  rfl

/-! ## Points with given decision values -/

theorem decisionPart_withSlacks (x : Fin p.numVariables → ℚ) :
    p.decisionPart (p.withSlacks (List.ofFn x)) = x := by
  funext j
  rw [decisionPart, withSlacks, if_pos j.isLt, List.getD_eq_getElem _ _ (by simp),
    List.getElem_ofFn]

theorem slackPart_withSlacks (hp : p.IsCanonical) (x : Fin p.numVariables → ℚ) :
    p.slackPart (p.withSlacks (List.ofFn x)) = p.limits - p.matrix *ᵥ x := by
  have hsolved := solvedBy_withSlacks hp (x := List.ofFn x) List.length_ofFn
  rw [solvedBy_iff_mulVec hp, decisionPart_withSlacks] at hsolved
  rw [← hsolved, add_sub_cancel_left]

end Problem

namespace Row

/-- The linear form of a row, taken apart. -/
theorem lhs_eq_dotProduct {p : Problem ℚ} {r : Row ℚ}
    (hlength : r.coeffs.length = p.numVariables + p.numConstraints) (z : ℕ → ℚ) :
    r.lhs z = p.decisionPart r.entry ⬝ᵥ p.decisionPart z +
      p.slackPart r.entry ⬝ᵥ p.slackPart z := by
  rw [lhs, hlength, Finset.sum_range_add, ← Fin.sum_univ_eq_sum_range,
    ← Fin.sum_univ_eq_sum_range (fun k => r.entry (p.numVariables + k) * z (p.numVariables + k))]
  rfl

/-- The linear form of a row where the slacks are what the decision variables
leave of the bounds. -/
theorem lhs_withSlacks {p : Problem ℚ} (hp : p.IsCanonical) {r : Row ℚ}
    (hlength : r.coeffs.length = p.numVariables + p.numConstraints)
    (x : Fin p.numVariables → ℚ) :
    r.lhs (p.withSlacks (List.ofFn x)) =
      (p.decisionPart r.entry - p.slackPart r.entry ᵥ* p.matrix) ⬝ᵥ x +
        p.slackPart r.entry ⬝ᵥ p.limits := by
  rw [lhs_eq_dotProduct hlength, Problem.decisionPart_withSlacks,
    Problem.slackPart_withSlacks hp, dotProduct_sub, dotProduct_mulVec, sub_dotProduct]
  ring

end Row

end LinearProgramming
