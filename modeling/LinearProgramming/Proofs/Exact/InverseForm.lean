import LinearProgramming.Proofs.Exact.Matrices

/-!
A tableau as the inverse of its basis matrix. Whatever pivots lead to it, a
tableau holds `B⁻¹ A`, `B⁻¹` and `B⁻¹ b`, where the columns of `B` are those of
`[A | I]` that belong to the basis, and its objective row is the same
combination of the constraints taken off the costs. The inverse itself stands in
the slack columns.

Nothing of this is an invariant of its own: it is read off the solutions of
`A x + s = b`, of which a tableau keeps all, and off the unit columns.
-/

namespace LinearProgramming

open Matrix

namespace Tableau

/-- The row of a constraint. -/
def constraintRow (t : Tableau ℚ) (i : ℕ) : Row ℚ :=
  (t.equations[i]?.map (·.row)).getD ⟨[], 0⟩

/-- The entries of the constraint rows in the decision columns. -/
def decisionBlock (t : Tableau ℚ) (p : Problem ℚ) :
    Matrix (Fin p.numConstraints) (Fin p.numVariables) ℚ :=
  .of fun i => p.decisionPart (t.constraintRow i).entry

/-- The entries of the constraint rows in the slack columns. -/
def slackBlock (t : Tableau ℚ) (p : Problem ℚ) :
    Matrix (Fin p.numConstraints) (Fin p.numConstraints) ℚ :=
  .of fun i => p.slackPart (t.constraintRow i).entry

/-- The right-hand sides of the constraint rows. -/
def rhsColumn (t : Tableau ℚ) (p : Problem ℚ) : Fin p.numConstraints → ℚ :=
  fun i => (t.constraintRow i).rhs

/-- The objective row in the decision columns. -/
def decisionCosts (t : Tableau ℚ) (p : Problem ℚ) : Fin p.numVariables → ℚ :=
  p.decisionPart t.objective.entry

/-- The objective row in the slack columns. -/
def slackCosts (t : Tableau ℚ) (p : Problem ℚ) : Fin p.numConstraints → ℚ :=
  p.slackPart t.objective.entry

/-- The columns of `[A | I]` that belong to the basis, in its order. -/
def basisMatrix (t : Tableau ℚ) (p : Problem ℚ) :
    Matrix (Fin p.numConstraints) (Fin p.numConstraints) ℚ :=
  .of fun i k => p.column (t.basis.getD k 0) i

/-- The tableau is the inverse of its basis matrix applied to the data of the
problem, and describes the same solutions and the same objective. -/
structure HasInverseForm (t : Tableau ℚ) (p : Problem ℚ) : Prop where
  hasShape : t.HasShape p.numVariables p.numConstraints
  decisionBlock_eq : t.decisionBlock p = t.slackBlock p * p.matrix
  rhsColumn_eq : t.rhsColumn p = t.slackBlock p *ᵥ p.limits
  decisionCosts_eq : t.decisionCosts p = t.slackCosts p ᵥ* p.matrix - p.costs
  objectiveValue_eq : t.objectiveValue = t.slackCosts p ⬝ᵥ p.limits
  slackBlock_mul_basisMatrix : t.slackBlock p * t.basisMatrix p = 1
  basisMatrix_mul_slackBlock : t.basisMatrix p * t.slackBlock p = 1
  holdsAt_iff : ∀ z, t.HoldsAt z ↔ p.SolvedBy z
  valueAt_eq : ∀ z, p.SolvedBy z → p.valueAt z = t.objectiveValue - t.objective.lhs z

variable {t : Tableau ℚ} {p : Problem ℚ}

theorem constraintRow_eq {i : ℕ} {e : Equation ℚ} (he : t.equations[i]? = some e) :
    t.constraintRow i = e.row := by
  rw [constraintRow, he]
  rfl

theorem HasShape.getElem?_equations {n m : ℕ} (h : t.HasShape n m) (i : Fin m) :
    ∃ e, t.equations[(i : ℕ)]? = some e := by
  have hi : (i : ℕ) < t.equations.length := i.isLt.trans_eq h.numConstraints.symm
  exact ⟨_, List.getElem?_eq_getElem hi⟩

/-! ## Rows as combinations of the constraints -/

/-- Two affine forms with the same values have the same coefficients. -/
theorem eq_of_dotProduct_add_eq {n : ℕ} {u v : Fin n → ℚ} {k l : ℚ}
    (h : ∀ x, u ⬝ᵥ x + k = v ⬝ᵥ x + l) : u = v ∧ k = l := by
  have hconstant : k = l := by
    simpa using h 0
  refine ⟨dotProduct_eq u v fun x => ?_, hconstant⟩
  have hx := h x
  rwa [hconstant, add_left_inj] at hx

/-- An equation that all solutions satisfy is the combination of the constraints
whose coefficients it has at the slacks. -/
theorem Represents.equation_eq (hp : p.IsCanonical) (h : t.Represents p) {e : Equation ℚ}
    (he : e ∈ t.equations) :
    p.decisionPart e.row.entry = p.slackPart e.row.entry ᵥ* p.matrix ∧
      e.row.rhs = p.slackPart e.row.entry ⬝ᵥ p.limits := by
  have hforms : ∀ x, (p.decisionPart e.row.entry - p.slackPart e.row.entry ᵥ* p.matrix) ⬝ᵥ x +
      p.slackPart e.row.entry ⬝ᵥ p.limits = 0 ⬝ᵥ x + e.row.rhs := by
    intro x
    have hsolved := Problem.solvedBy_withSlacks hp (x := List.ofFn x) List.length_ofFn
    have hholds : e.row.HoldsAt (p.withSlacks (List.ofFn x)) := (h.holdsAt_iff _).mpr hsolved e he
    rw [← Row.lhs_withSlacks hp (h.hasShape.length_coeffs e he), zero_dotProduct, zero_add]
    exact hholds
  obtain ⟨hcoefficients, hrhs⟩ := eq_of_dotProduct_add_eq hforms
  exact ⟨sub_eq_zero.mp hcoefficients, hrhs.symm⟩

/-- The objective row is such a combination with the costs taken off. -/
theorem Represents.objective_eq (hp : p.IsCanonical) (h : t.Represents p) :
    t.decisionCosts p = t.slackCosts p ᵥ* p.matrix - p.costs ∧
      t.objectiveValue = t.slackCosts p ⬝ᵥ p.limits := by
  have hforms : ∀ x, (t.decisionCosts p - t.slackCosts p ᵥ* p.matrix) ⬝ᵥ x +
      t.slackCosts p ⬝ᵥ p.limits = (-p.costs) ⬝ᵥ x + t.objectiveValue := by
    intro x
    have hsolved := Problem.solvedBy_withSlacks hp (x := List.ofFn x) List.length_ofFn
    have hvalue := h.valueAt_eq _ hsolved
    rw [valueAt, Problem.valueAt_eq_dotProduct, Problem.decisionPart_withSlacks,
      Row.lhs_withSlacks hp h.hasShape.length_costs] at hvalue
    rw [neg_dotProduct, ← hvalue, decisionCosts, slackCosts]
    ring
  obtain ⟨hcoefficients, hvalue⟩ := eq_of_dotProduct_add_eq hforms
  refine ⟨?_, hvalue.symm⟩
  rw [← neg_add_eq_sub, ← hcoefficients, sub_add_cancel]

/-! ## The inverse of the basis matrix -/

/-- The slack part of an equation takes every column of `[A | I]` to the entry
in that column. -/
theorem Represents.slackPart_dotProduct_column (hp : p.IsCanonical) (h : t.Represents p)
    {e : Equation ℚ} (he : e ∈ t.equations) {j : ℕ} (hj : j < p.numVariables + p.numConstraints) :
    p.slackPart e.row.entry ⬝ᵥ p.column j = e.row.entry j := by
  by_cases hdecision : j < p.numVariables
  · have hcolumn := Problem.column_decision ⟨j, hdecision⟩
    rw [hcolumn]
    exact (congrFun (h.equation_eq hp he).1 ⟨j, hdecision⟩).symm
  · obtain ⟨k, rfl⟩ := Nat.exists_eq_add_of_le (Nat.not_lt.mp hdecision)
    have hcolumn := Problem.column_slack (p := p) ⟨k, Nat.lt_of_add_lt_add_left hj⟩
    rw [hcolumn, dotProduct_single_one]
    rfl

theorem Represents.slackBlock_mul_basisMatrix (hp : p.IsCanonical) (h : t.Represents p) :
    t.slackBlock p * t.basisMatrix p = 1 := by
  ext i k
  obtain ⟨e, he⟩ := h.hasShape.getElem?_equations i
  obtain ⟨f, hf⟩ := h.hasShape.getElem?_equations k
  have hbasic : t.basis.getD k 0 = f.basic := by
    rw [List.getD_eq_getElem?_getD, basis, List.getElem?_map, hf]
    rfl
  have hentry : (t.slackBlock p * t.basisMatrix p) i k =
      p.slackPart e.row.entry ⬝ᵥ p.column f.basic := by
    rw [← constraintRow_eq he, ← hbasic]
    rfl
  rw [hentry, h.slackPart_dotProduct_column hp (List.mem_of_getElem? he)
    (h.hasShape.basic_lt f (List.mem_of_getElem? hf)), one_apply]
  split
  case isTrue hik =>
    subst hik
    cases he.symm.trans hf
    exact h.hasUnitColumns.entry_self (List.mem_of_getElem? he)
  case isFalse hik =>
    have hzero := h.hasUnitColumns.zero he hf (Fin.val_ne_of_ne hik)
    exact (Scalar.zeroOrNaN_iff _).mp hzero

theorem Represents.hasInverseForm (hp : p.IsCanonical) (h : t.Represents p) :
    t.HasInverseForm p := by
  have hinverse := h.slackBlock_mul_basisMatrix hp
  obtain ⟨hcosts, hvalue⟩ := h.objective_eq hp
  constructor
  case hasShape => exact h.hasShape
  case decisionBlock_eq =>
    ext i j
    obtain ⟨e, he⟩ := h.hasShape.getElem?_equations i
    calc t.decisionBlock p i j
        = p.decisionPart e.row.entry j := by rw [← constraintRow_eq he]; rfl
      _ = (p.slackPart e.row.entry ᵥ* p.matrix) j := by
        rw [(h.equation_eq hp (List.mem_of_getElem? he)).1]
      _ = (t.slackBlock p * p.matrix) i j := by rw [← constraintRow_eq he]; rfl
  case rhsColumn_eq =>
    funext i
    obtain ⟨e, he⟩ := h.hasShape.getElem?_equations i
    calc t.rhsColumn p i
        = e.row.rhs := by rw [← constraintRow_eq he]; rfl
      _ = p.slackPart e.row.entry ⬝ᵥ p.limits := (h.equation_eq hp (List.mem_of_getElem? he)).2
      _ = (t.slackBlock p *ᵥ p.limits) i := by rw [← constraintRow_eq he]; rfl
  case decisionCosts_eq => exact hcosts
  case objectiveValue_eq => exact hvalue
  case slackBlock_mul_basisMatrix => exact hinverse
  case basisMatrix_mul_slackBlock => exact mul_eq_one_comm.mp hinverse
  case holdsAt_iff => exact h.holdsAt_iff
  case valueAt_eq => exact fun z hz => (h.valueAt_eq z hz).symm

/-- Every tableau that pivots reach is the inverse of its basis matrix applied
to the problem. The places of the pivots do not matter: their entries may be
negative and the basic solutions on the way infeasible. -/
theorem reaches_hasInverseForm (hp : p.IsValid) : ∃ start, ofProblem p = .ok start ∧
    ∀ t, start.Reaches t → t.HasInverseForm p := by
  refine ⟨initial p, hp.ofProblem, ?_⟩
  intro t hreaches
  exact (represents_of_reaches hp.canonical hreaches).hasInverseForm hp.canonical

/-- Two constraints for two variables. -/
def crossing : Problem ℚ :=
  ⟨[[1, 2], [3, 1]], [4, 6], [2, 3]⟩

/-- Pivots against the ratio test, one of them on a negative entry: the basic
solution is not feasible, and the tableau is still in inverse form. -/
theorem reaches_hasInverseForm_crossing : ∃ start t, ofProblem crossing = .ok start ∧
    start.Reaches t ∧ t.basis = [1, 2] ∧ (∃ e ∈ t.equations, e.row.rhs < 0) ∧
      t.HasInverseForm crossing := by
  obtain ⟨start, hstart, hinverse⟩ := reaches_hasInverseForm (p := crossing) (by decide +kernel)
  cases hstart
  have hreaches := reaches_pivotAll (initial crossing) [(0, 0), (1, 2), (0, 1)]
  refine ⟨_, _, rfl, hreaches, ?_, ?_, hinverse _ hreaches⟩
  · decide +kernel
  · decide +kernel

end Tableau

end LinearProgramming
