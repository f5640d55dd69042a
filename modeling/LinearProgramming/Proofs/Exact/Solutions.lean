import LinearProgramming.Proofs.Exact.Rows

/-!
What a tableau in exact arithmetic is about: the points that solve
`A x + s = b`, and the objective at such a point. Pivots change neither, at
whatever places they are made, so every tableau that is reached describes the
problem it was made from.
-/

namespace LinearProgramming

open Finset (range)

namespace Problem

/-- The point solves `A x + s = b`; the slacks follow the decision variables. -/
def SolvedBy (p : Problem ℚ) (z : ℕ → ℚ) : Prop :=
  ∀ (i : ℕ) (row : List ℚ) (limit : ℚ), p.a[i]? = some row → p.b[i]? = some limit →
    ∑ j ∈ range p.numVariables, row.getD j 0 * z j + z (p.numVariables + i) = limit

/-- The objective at a point, over the decision variables. -/
def valueAt (p : Problem ℚ) (z : ℕ → ℚ) : ℚ :=
  ∑ j ∈ range p.numVariables, p.c.getD j 0 * z j

end Problem

namespace Tableau

/-- Every equation of the tableau is true at the point. -/
def HoldsAt (t : Tableau ℚ) (z : ℕ → ℚ) : Prop :=
  ∀ e ∈ t.equations, e.row.HoldsAt z

/-- The objective as the objective row gives it. -/
def valueAt (t : Tableau ℚ) (z : ℕ → ℚ) : ℚ :=
  t.objectiveValue - t.objective.lhs z

variable {t after : Tableau ℚ} {n m row column : ℕ}

/-- A pivot replaces the equations by equivalent ones. -/
theorem holdsAt_pivot_iff (hshape : t.HasShape n m) (hpivot : t.pivot row column = .ok after)
    (z : ℕ → ℚ) : after.HoldsAt z ↔ t.HoldsAt z := by
  obtain ⟨e, hplace, rfl⟩ := pivot_eq_ok_iff.mp hpivot
  have hvalue : e.row.entry column ≠ 0 := by
    simpa using hplace.nonzero
  have he : e ∈ t.equations := List.mem_of_getElem? hplace.equation
  have hlength : ∀ f ∈ t.equations,
      (e.row.divide (e.row.entry column)).coeffs.length = f.row.coeffs.length := by
    intro f hf
    rw [Row.length_divide, hshape.length_coeffs e he, hshape.length_coeffs f hf]
  have hpivotRow := Row.holdsAt_divide_iff (r := e.row) hvalue z
  constructor
  · intro hafter
    have hnew : e.row.HoldsAt z := by
      have hself := exchange_getElem?_self t column
        (e.row.divide (e.row.entry column)) (List.getElem?_eq_some_iff.mp hplace.equation).1
      have hdivided := hafter _ (List.mem_of_getElem? hself)
      exact hpivotRow.mp hdivided
    intro f hf
    obtain ⟨i, hi⟩ := List.mem_iff_getElem?.mp hf
    by_cases hrow : i = row
    · subst hrow
      cases hplace.equation.symm.trans hi
      exact hnew
    · have hother := exchange_getElem?_ne t column
        (e.row.divide (e.row.entry column)) hrow
      rw [hi] at hother
      have hcleared := hafter _ (List.mem_of_getElem? hother)
      exact (Row.holdsAt_eliminate_iff column (hlength f hf) (hpivotRow.mpr hnew)).mp hcleared
  · intro ht f hf
    obtain ⟨i, hi⟩ := List.mem_iff_getElem?.mp hf
    rcases exchange_cases hi with ⟨-, rfl⟩ | ⟨-, old, hold, rfl⟩
    · exact hpivotRow.mpr (ht e he)
    · have hmem := List.mem_of_getElem? hold
      exact (Row.holdsAt_eliminate_iff column (hlength old hmem) (hpivotRow.mpr (ht e he))).mpr
        (ht old hmem)

/-- A pivot gives the same objective to every point that the equations allow. -/
theorem valueAt_pivot (hshape : t.HasShape n m) (hpivot : t.pivot row column = .ok after)
    {z : ℕ → ℚ} (hz : t.HoldsAt z) : after.valueAt z = t.valueAt z := by
  obtain ⟨e, hplace, rfl⟩ := pivot_eq_ok_iff.mp hpivot
  have hvalue : e.row.entry column ≠ 0 := by
    simpa using hplace.nonzero
  have he : e ∈ t.equations := List.mem_of_getElem? hplace.equation
  have hlength : (e.row.divide (e.row.entry column)).coeffs.length =
      t.objective.coeffs.length := by
    rw [Row.length_divide, hshape.length_coeffs e he, hshape.length_costs]
  have hholds : (e.row.divide (e.row.entry column)).HoldsAt z :=
    (Row.holdsAt_divide_iff hvalue z).mpr (hz e he)
  rw [valueAt, valueAt, objectiveValue, objectiveValue, exchange_objective,
    Row.lhs_eliminate column hlength, Row.rhs_eliminate_exact, hholds]
  ring

/-! ## The start -/

/-- The linear form of an initial equation: the constraint's own, and its slack. -/
theorem lhs_initial {p : Problem ℚ} {row : List ℚ} {i : ℕ} (hrow : row.length = p.numVariables)
    (hi : i < p.numConstraints) (limit : ℚ) (z : ℕ → ℚ) :
    (⟨row ++ slackCoeffs p.numConstraints i, limit⟩ : Row ℚ).lhs z =
      ∑ j ∈ range p.numVariables, row.getD j 0 * z j + z (p.numVariables + i) := by
  have hslack : ∑ k ∈ range p.numConstraints,
      (slackCoeffs p.numConstraints i).getD k 0 * z (p.numVariables + k) =
        z (p.numVariables + i) := by
    rw [Finset.sum_eq_single i]
    · rw [getD_slackCoeffs i hi, if_pos rfl]
      exact one_mul _
    · intro k hk hne
      rw [getD_slackCoeffs i (Finset.mem_range.mp hk), if_neg hne.symm]
      exact zero_mul _
    · intro hout
      exact absurd (Finset.mem_range.mpr hi) hout
  rw [Row.lhs_append, hrow, length_slackCoeffs]
  exact congrArg _ hslack

theorem holdsAt_initial_iff {p : Problem ℚ} (hp : p.IsCanonical) (z : ℕ → ℚ) :
    (initial p).HoldsAt z ↔ p.SolvedBy z := by
  have hrow : ∀ (i : ℕ) (row : List ℚ) (limit : ℚ), p.a[i]? = some row → p.b[i]? = some limit →
      ((⟨row ++ slackCoeffs p.numConstraints i, limit⟩ : Row ℚ).HoldsAt z ↔
        ∑ j ∈ range p.numVariables, row.getD j 0 * z j + z (p.numVariables + i) = limit) := by
    intro i row limit hrow hlimit
    rw [Row.HoldsAt, lhs_initial (hp.length_row row (List.mem_of_getElem? hrow))
      (List.getElem?_eq_some_iff.mp hlimit).1]
  constructor
  · intro h i row limit hi hlimit
    have he := initial_getElem?_eq_some_iff.mpr ⟨row, limit, hi, hlimit, rfl⟩
    exact (hrow i row limit hi hlimit).mp (h _ (List.mem_of_getElem? he))
  · intro h e he
    obtain ⟨i, hi⟩ := List.mem_iff_getElem?.mp he
    obtain ⟨row, limit, hmem, hlimit, rfl⟩ := initial_getElem?_eq_some_iff.mp hi
    exact (hrow i row limit hmem hlimit).mpr (h i row limit hmem hlimit)

theorem valueAt_initial (p : Problem ℚ) (z : ℕ → ℚ) : (initial p).valueAt z = p.valueAt z := by
  have hcosts : ∑ j ∈ range (p.c.map (- ·)).length, (p.c.map (- ·)).getD j 0 * z j =
      -p.valueAt z := by
    rw [List.length_map, Problem.valueAt, ← Finset.sum_neg_distrib]
    apply Finset.sum_congr rfl
    intro j hj
    have hj' : j < p.c.length := Finset.mem_range.mp hj
    rw [List.getD_eq_getElem _ _ (by rwa [List.length_map]), List.getElem_map,
      List.getD_eq_getElem _ _ hj', neg_mul]
  have hslacks : ∑ k ∈ range (List.replicate p.numConstraints (0 : ℚ)).length,
      (List.replicate p.numConstraints (0 : ℚ)).getD k 0 * z ((p.c.map (- ·)).length + k) = 0 := by
    apply Finset.sum_eq_zero
    intro k hk
    rw [List.length_replicate, Finset.mem_range] at hk
    rw [List.getD_replicate _ hk, zero_mul]
  have hlhs : (initial p).objective.lhs z = -p.valueAt z := by
    refine (Row.lhs_append _ _ _ z).trans ?_
    rw [hcosts, hslacks, add_zero]
  have hvalue : (initial p).objectiveValue = 0 := rfl
  rw [valueAt, hlhs, hvalue, zero_sub, neg_neg]

end Tableau

end LinearProgramming
