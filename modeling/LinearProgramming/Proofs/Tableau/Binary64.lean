import LinearProgramming.Proofs.Arithmetic.Binary64
import LinearProgramming.Proofs.Tableau.BasicSolution
import LinearProgramming.Proofs.Tableau.UnitColumns

/-!
Tableaux in binary64. Entries may round, overflow and become undefined, yet the
basis stays sound: this is the theory of unit columns read in the arithmetic
that runs.
-/

namespace LinearProgramming

namespace Tableau

/-- What overflow cannot break in a tableau over `n` variables and `m`
constraints. Undefined entries are allowed for; duplicates in the basis, values
written twice, and pivots on a wrong place are not. -/
structure SoundBasis (t : Tableau Float) (n m : Nat) : Prop where
  length_row : ∀ row ∈ t.rows, row.coeffs.length = n + m
  length_basis : t.basis.length = m
  basis_lt : ∀ basic ∈ t.basis, basic < n + m
  nodup_basis : t.basis.Nodup
  own_entry : ∀ e ∈ t.equations,
    e.row.entry e.basic = 1 ∨ (e.row.entry e.basic).isNaN = true
  other_entry : ∀ (i j : Nat) (e f : Equation Float), t.equations[i]? = some e →
    t.equations[j]? = some f → j ≠ i →
      (f.row.entry e.basic == 0) = true ∨ (f.row.entry e.basic).isNaN = true
  reduced_cost : ∀ e ∈ t.equations,
    (t.objective.entry e.basic == 0) = true ∨ (t.objective.entry e.basic).isNaN = true
  basic_value : ∀ e ∈ t.equations, e.basic < n → t.primalSolution[e.basic]? = some e.row.rhs
  other_value : ∀ j < n, j ∉ t.basis → t.primalSolution[j]? = some 0
  /-- A run fails only on an entry that is positive infinity. -/
  run_error : ∀ (cap : Nat) (error : PivotError Float), (t.run cap).outcome = .failed error →
    ∃ row column, error = .zeroPivot row column Float.inf

theorem soundBasis_of_hasUnitColumns {t : Tableau Float} {n m : Nat} (hshape : t.HasShape n m)
    (h : t.HasUnitColumns) : t.SoundBasis n m where
  length_row := by
    intro row hrow
    simp only [rows, List.mem_append, List.mem_map, List.mem_singleton] at hrow
    rcases hrow with ⟨e, he, rfl⟩ | rfl
    · exact hshape.length_coeffs e he
    · exact hshape.length_costs
  length_basis := by
    rw [basis, List.length_map]
    exact hshape.numConstraints
  basis_lt := by
    intro basic hbasic
    obtain ⟨e, he, rfl⟩ := List.mem_map.mp hbasic
    exact hshape.basic_lt e he
  nodup_basis := h.nodup_basis
  own_entry := by
    intro e he
    obtain ⟨i, hi⟩ := List.mem_iff_getElem?.mp he
    exact (h.one hi).imp_right (Binary64.isNaN_iff_isNaN _).mp
  other_entry := by
    intro i j e f hi hj hij
    exact (h.zero hj hi hij).imp_right (Binary64.isNaN_iff_isNaN _).mp
  reduced_cost := by
    intro e he
    exact (h.reduced_cost e he).imp_right (Binary64.isNaN_iff_isNaN _).mp
  basic_value := by
    intro e he hlt
    exact primalSolution_of_basic h.nodup_basis he (hshape.numVariables.symm ▸ hlt)
  other_value := by
    intro j hj hbasic
    exact primalSolution_of_not_basic (hshape.numVariables.symm ▸ hj) hbasic
  run_error := by
    intro cap error hfailed
    have hreaches := (run_visits t cap).reaches
    have hends := run_endsAt t cap
    rw [hfailed] at hends
    obtain ⟨row, column, value, rfl, hpositive, hvalue⟩ :=
      (h.reaches hshape hreaches).of_failed (hshape.reaches hreaches) hends
    exact ⟨row, column, by rw [Binary64.eq_infinity hpositive hvalue]⟩

/-- Whatever places are tried, and whatever calls fail, the basis of a valid
problem's tableau stays sound. -/
theorem soundBasis_pivotAll {p : Problem Float} (hp : p.IsValid) :
    ∃ start, ofProblem p = .ok start ∧ ∀ places : List (Nat × Nat),
      (start.pivotAll places).SoundBasis p.numVariables p.numConstraints := by
  refine ⟨initial p, hp.ofProblem, ?_⟩
  intro places
  have hshape := initial_hasShape hp.canonical
  have hreaches := reaches_pivotAll (initial p) places
  exact soundBasis_of_hasUnitColumns (hshape.reaches hreaches)
    ((initial_hasUnitColumns hp.canonical).reaches hshape hreaches)

/-- A problem whose entries overflow as soon as a pivot is made. -/
def overflowing : Problem Float :=
  ⟨[[1e-200, 1], [1e200, 1]], [1e200, 1], [1, 1]⟩

theorem soundBasis_pivotAll_overflowing : overflowing.IsValid ∧
    ∃ start, ofProblem overflowing = .ok start ∧ ∀ places : List (Nat × Nat),
      (start.pivotAll places).SoundBasis 2 2 :=
  ⟨by decide +kernel, soundBasis_pivotAll (by decide +kernel)⟩

end Tableau

end LinearProgramming
