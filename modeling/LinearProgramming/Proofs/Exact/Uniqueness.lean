import LinearProgramming.Proofs.Exact.BasicPoint
import LinearProgramming.Proofs.Tableau.Trajectory
import Mathlib.Tactic.Linarith

/-!
The basis says what the tableau is. Two tableaux of a problem allow the same
points, and a point that one of them allows, with the variables outside the
basis chosen, shows the entries of both: zeros outside the basis show the
right-hand sides, and the ray of a column shows its entries. So tableaux with the
same basic variables have the same row for each of them and the same objective
row, by whatever pivots they were reached.
-/

namespace LinearProgramming

/-- Rows of one length are told apart by their entries and right-hand sides. -/
theorem Row.eq_of_entry_eq {r s : Row ℚ} (hlength : r.coeffs.length = s.coeffs.length)
    (hentry : ∀ j < r.coeffs.length, r.entry j = s.entry j) (hrhs : r.rhs = s.rhs) : r = s := by
  have hcoeffs : r.coeffs = s.coeffs := by
    apply List.ext_getElem hlength
    intro j hj hj'
    rw [← Row.entry_eq_getElem r hj, ← Row.entry_eq_getElem s hj']
    exact hentry j hj
  obtain ⟨coeffs, rhs⟩ := r
  cases hcoeffs
  cases hrhs
  rfl

namespace Tableau

variable {t u : Tableau ℚ} {p : Problem ℚ} {e f : Equation ℚ}

theorem HasUnitColumns.entry_basic (h : t.HasUnitColumns) (he : e ∈ t.equations) {j : ℕ}
    (hj : j ∈ t.basis) : e.row.entry j = if j = e.basic then 1 else 0 := by
  obtain ⟨g, hg, rfl⟩ := List.mem_map.mp hj
  split
  case isTrue heq => rw [heq, h.entry_self he]
  case isFalse hne => exact h.entry_other he hg hne

theorem Represents.nonbasic_eq (ht : t.Represents p) (hu : u.Represents p)
    (hbasis : ∀ j, j ∈ t.basis ↔ j ∈ u.basis) : u.nonbasic = t.nonbasic := by
  rw [nonbasic, nonbasic, ht.hasShape.width, hu.hasShape.width]
  apply Finset.filter_congr
  intro j _
  exact not_congr (hbasis j).symm

/-- The basic point belongs to the basic variables. -/
theorem Represents.basicPoint_eq (ht : t.Represents p) (hu : u.Represents p)
    (hbasis : ∀ j, j ∈ t.basis ↔ j ∈ u.basis) {j : ℕ}
    (hj : j < p.numVariables + p.numConstraints) : u.basicPoint j = t.basicPoint j := by
  have hholds : u.HoldsAt t.basicPoint := by
    rw [hu.holdsAt_iff, ← ht.holdsAt_iff]
    exact holdsAt_basicPoint ht.hasShape ht.hasUnitColumns
  refine basicPoint_eq_of_holdsAt hu.hasShape hu.hasUnitColumns hholds ?_ hj
  intro k hk
  rw [ht.nonbasic_eq hu hbasis] at hk
  exact basicPoint_of_not_basic (mem_nonbasic.mp hk).2

/-- Each basic variable has one row. -/
theorem Represents.row_eq (ht : t.Represents p) (hu : u.Represents p)
    (hbasis : ∀ j, j ∈ t.basis ↔ j ∈ u.basis) (he : e ∈ t.equations) (hf : f ∈ u.equations)
    (hlabel : f.basic = e.basic) : f.row = e.row := by
  have hlength := hu.hasShape.length_coeffs f hf
  have hrhs : f.row.rhs = e.row.rhs := by
    rw [← basicPoint_basic hu.hasUnitColumns hf, ← basicPoint_basic ht.hasUnitColumns he, hlabel]
    exact ht.basicPoint_eq hu hbasis (ht.hasShape.basic_lt e he)
  refine Row.eq_of_entry_eq (hlength.trans (ht.hasShape.length_coeffs e he).symm) ?_ hrhs
  intro j hj
  by_cases hbasic : j ∈ t.basis
  · rw [hu.hasUnitColumns.entry_basic hf ((hbasis j).mp hbasic),
      ht.hasUnitColumns.entry_basic he hbasic, hlabel]
  · -- One step along the ray of the column moves the basic variable by its entry.
    have hcolumn : j ∈ t.nonbasic :=
      mem_nonbasic.mpr ⟨by rwa [ht.hasShape.width, ← hlength], hbasic⟩
    have hholds : u.HoldsAt (t.rayPoint j 1) := by
      rw [hu.holdsAt_iff, ← ht.holdsAt_iff]
      exact holdsAt_rayPoint ht.hasShape ht.hasUnitColumns hcolumn 1
    have hrow := hholds f hf
    rw [Row.HoldsAt, lhs_eq_basic_add hu.hasShape hu.hasUnitColumns hf,
      ht.nonbasic_eq hu hbasis, sum_nonbasic_rayPoint hcolumn, hlabel,
      rayPoint_basic ht.hasUnitColumns hbasic 1 he, hrhs] at hrow
    linarith

theorem Represents.objective_eq_of_basis (ht : t.Represents p) (hu : u.Represents p)
    (hbasis : ∀ j, j ∈ t.basis ↔ j ∈ u.basis) : u.objective = t.objective := by
  have hagree : ∀ z, p.SolvedBy z → u.valueAt z = t.valueAt z := by
    intro z hz
    rw [hu.valueAt_eq z hz, ht.valueAt_eq z hz]
  have hvalue : u.objectiveValue = t.objectiveValue := by
    have hsolved : p.SolvedBy t.basicPoint :=
      (ht.holdsAt_iff _).mp (holdsAt_basicPoint ht.hasShape ht.hasUnitColumns)
    have hpoint := hagree _ hsolved
    rw [valueAt_basicPoint ht.hasShape ht.hasUnitColumns, valueAt,
      objective_lhs_eq hu.hasShape hu.hasUnitColumns, ht.nonbasic_eq hu hbasis,
      sum_nonbasic_basicPoint, sub_zero] at hpoint
    exact hpoint
  have hlength := hu.hasShape.length_costs
  refine Row.eq_of_entry_eq (hlength.trans ht.hasShape.length_costs.symm) ?_ hvalue
  intro j hj
  by_cases hbasic : j ∈ t.basis
  · obtain ⟨e, he, rfl⟩ := List.mem_map.mp hbasic
    obtain ⟨f, hf, hlabel⟩ := List.mem_map.mp ((hbasis e.basic).mp hbasic)
    rw [ht.hasUnitColumns.reduced_cost_eq_zero he, ← hlabel,
      hu.hasUnitColumns.reduced_cost_eq_zero hf]
  · have hcolumn : j ∈ t.nonbasic :=
      mem_nonbasic.mpr ⟨by rwa [ht.hasShape.width, ← hlength], hbasic⟩
    have hsolved : p.SolvedBy (t.rayPoint j 1) :=
      (ht.holdsAt_iff _).mp (holdsAt_rayPoint ht.hasShape ht.hasUnitColumns hcolumn 1)
    have hpoint := hagree _ hsolved
    rw [valueAt_rayPoint ht.hasShape ht.hasUnitColumns hcolumn, valueAt,
      objective_lhs_eq hu.hasShape hu.hasUnitColumns, ht.nonbasic_eq hu hbasis,
      sum_nonbasic_rayPoint hcolumn] at hpoint
    linarith

/-- Tableaux of a problem with the same basis, row by row, have the same data. -/
theorem Represents.sameData (ht : t.Represents p) (hu : u.Represents p)
    (hbasis : t.basis = u.basis) : t.SameData u := by
  have hmem : ∀ j, j ∈ u.basis ↔ j ∈ t.basis := fun j => by rw [hbasis]
  constructor
  case numVariables => rw [ht.hasShape.numVariables, hu.hasShape.numVariables]
  case equations =>
    have hlength : t.equations.length = u.equations.length :=
      ht.hasShape.numConstraints.trans hu.hasShape.numConstraints.symm
    apply List.ext_getElem hlength
    intro i hi hi'
    have hlabel : t.equations[i].basic = u.equations[i].basic := by
      have hi'' := congrArg (·[i]?) hbasis
      simpa [basis, List.getElem?_eq_getElem hi, List.getElem?_eq_getElem hi'] using hi''
    have hrow := hu.row_eq ht hmem (List.getElem_mem hi') (List.getElem_mem hi) hlabel
    generalize t.equations[i] = e at hlabel hrow
    generalize u.equations[i] = f at hlabel hrow
    obtain ⟨basic, row⟩ := e
    cases hlabel
    cases hrow
    rfl
  case objective => exact hu.objective_eq_of_basis ht hmem

end Tableau

end LinearProgramming
