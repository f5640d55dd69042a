import LinearProgramming.Proofs.Exact.Solutions
import LinearProgramming.Proofs.Tableau.BasicSolution
import LinearProgramming.Proofs.Tableau.UnitColumns

/-!
The basic solution in exact arithmetic. Unit columns are exact there, so every
equation is solved for its basic variable: the variables outside the basis may
take any values, and the equations say what the basic ones are. With zeros
outside the basis this is the basic point, and with one variable growing it is
a ray from the basic point.
-/

namespace LinearProgramming

open Finset (range)

namespace Tableau

variable {t : Tableau ℚ} {n m : ℕ}

theorem HasUnitColumns.entry_self (h : t.HasUnitColumns) {e : Equation ℚ}
    (he : e ∈ t.equations) : e.row.entry e.basic = 1 := by
  obtain ⟨i, hi⟩ := List.mem_iff_getElem?.mp he
  exact (Scalar.oneOrNaN_iff _).mp (h.one hi)

theorem HasUnitColumns.entry_other (h : t.HasUnitColumns) {e f : Equation ℚ}
    (he : e ∈ t.equations) (hf : f ∈ t.equations) (hne : f.basic ≠ e.basic) :
    e.row.entry f.basic = 0 := by
  obtain ⟨i, hi⟩ := List.mem_iff_getElem?.mp he
  obtain ⟨j, hj⟩ := List.mem_iff_getElem?.mp hf
  have hij : i ≠ j := by
    rintro rfl
    cases hi.symm.trans hj
    exact hne rfl
  exact (Scalar.zeroOrNaN_iff _).mp (h.zero hi hj hij)

theorem HasUnitColumns.reduced_cost_eq_zero (h : t.HasUnitColumns) {e : Equation ℚ}
    (he : e ∈ t.equations) : t.objective.entry e.basic = 0 :=
  (Scalar.zeroOrNaN_iff _).mp (h.reduced_cost e he)

/-! ## Equations solved for the basis -/

/-- The columns outside the basis. -/
def nonbasic (t : Tableau ℚ) : Finset ℕ :=
  (range t.width).filter (· ∉ t.basis)

theorem mem_nonbasic {j : ℕ} : j ∈ t.nonbasic ↔ j < t.width ∧ j ∉ t.basis := by
  rw [nonbasic, Finset.mem_filter, Finset.mem_range]

theorem lhs_eq_sum_basis_add (hshape : t.HasShape n m) {r : Row ℚ}
    (hlength : r.coeffs.length = n + m) (z : ℕ → ℚ) :
    r.lhs z = ∑ j ∈ (range t.width).filter (· ∈ t.basis), r.entry j * z j +
      ∑ j ∈ t.nonbasic, r.entry j * z j := by
  rw [Row.lhs, hlength, ← hshape.width, nonbasic, Finset.sum_filter_add_sum_filter_not]

/-- An equation gives its basic variable in terms of those outside the basis. -/
theorem lhs_eq_basic_add (hshape : t.HasShape n m) (h : t.HasUnitColumns) {e : Equation ℚ}
    (he : e ∈ t.equations) (z : ℕ → ℚ) :
    e.row.lhs z = z e.basic + ∑ j ∈ t.nonbasic, e.row.entry j * z j := by
  have hbasic : ∑ j ∈ (range t.width).filter (· ∈ t.basis), e.row.entry j * z j = z e.basic := by
    rw [Finset.sum_eq_single e.basic]
    · rw [h.entry_self he, one_mul]
    · intro j hj hne
      obtain ⟨f, hf, rfl⟩ := List.mem_map.mp (Finset.mem_filter.mp hj).2
      rw [h.entry_other he hf hne, zero_mul]
    · intro hout
      refine absurd (Finset.mem_filter.mpr ⟨?_, List.mem_map_of_mem he⟩) hout
      rw [Finset.mem_range, hshape.width]
      exact hshape.basic_lt e he
  rw [lhs_eq_sum_basis_add hshape (hshape.length_coeffs e he), hbasic]

/-- The objective row knows only variables outside the basis. -/
theorem objective_lhs_eq (hshape : t.HasShape n m) (h : t.HasUnitColumns) (z : ℕ → ℚ) :
    t.objective.lhs z = ∑ j ∈ t.nonbasic, t.objective.entry j * z j := by
  have hbasic : ∑ j ∈ (range t.width).filter (· ∈ t.basis), t.objective.entry j * z j = 0 := by
    apply Finset.sum_eq_zero
    intro j hj
    obtain ⟨e, he, rfl⟩ := List.mem_map.mp (Finset.mem_filter.mp hj).2
    rw [h.reduced_cost_eq_zero he, zero_mul]
  rw [lhs_eq_sum_basis_add hshape hshape.length_costs, hbasic, zero_add]

/-! ## Points given by the equations -/

/-- The value that an equation gives its basic variable, and zero outside the
basis. -/
def spread (t : Tableau ℚ) (value : Equation ℚ → ℚ) (j : ℕ) : ℚ :=
  match t.equations.find? (·.basic == j) with
  | some e => value e
  | none => 0

theorem spread_basic (h : t.HasUnitColumns) (value : Equation ℚ → ℚ) {e : Equation ℚ}
    (he : e ∈ t.equations) : t.spread value e.basic = value e := by
  rw [spread]
  cases hfind : t.equations.find? (·.basic == e.basic) with
  | none => exact absurd (beq_self_eq_true e.basic) (List.find?_eq_none.mp hfind e he)
  | some f =>
    have hbasic : f.basic = e.basic := by
      simpa using List.find?_some hfind
    have hsame : f = e :=
      List.inj_on_of_nodup_map h.nodup_basis (List.mem_of_find?_eq_some hfind) he hbasic
    rw [hsame]

theorem spread_of_not_basic (value : Equation ℚ → ℚ) {j : ℕ} (hj : j ∉ t.basis) :
    t.spread value j = 0 := by
  have hfind : t.equations.find? (·.basic == j) = none := by
    rw [List.find?_eq_none]
    intro e he hbasic
    exact hj (beq_iff_eq.mp hbasic ▸ List.mem_map_of_mem he)
  rw [spread, hfind]

/-- The basic solution over all variables. -/
def basicPoint (t : Tableau ℚ) : ℕ → ℚ :=
  t.spread (·.row.rhs)

/-- The direction in which a variable outside the basis grows by one, the others
outside the basis stay, and the equations remain true. -/
def ray (t : Tableau ℚ) (column : ℕ) (j : ℕ) : ℚ :=
  if j = column then 1 else t.spread (fun e => -e.row.entry column) j

/-- Where the ray from the basic point is after a distance. -/
def rayPoint (t : Tableau ℚ) (column : ℕ) (distance : ℚ) (j : ℕ) : ℚ :=
  t.basicPoint j + distance * t.ray column j

theorem basicPoint_basic (h : t.HasUnitColumns) {e : Equation ℚ} (he : e ∈ t.equations) :
    t.basicPoint e.basic = e.row.rhs :=
  spread_basic h _ he

theorem basicPoint_of_not_basic {j : ℕ} (hj : j ∉ t.basis) : t.basicPoint j = 0 :=
  spread_of_not_basic _ hj

theorem rayPoint_basic (h : t.HasUnitColumns) {column : ℕ} (hcolumn : column ∉ t.basis)
    (distance : ℚ) {e : Equation ℚ} (he : e ∈ t.equations) :
    t.rayPoint column distance e.basic = e.row.rhs - distance * e.row.entry column := by
  have hne : e.basic ≠ column := fun heq => hcolumn (heq ▸ List.mem_map_of_mem he)
  rw [rayPoint, ray, if_neg hne, basicPoint_basic h he, spread_basic h _ he]
  ring

theorem rayPoint_of_not_basic {column j : ℕ} (distance : ℚ) (hj : j ∉ t.basis) :
    t.rayPoint column distance j = if j = column then distance else 0 := by
  rw [rayPoint, ray, basicPoint_of_not_basic hj, spread_of_not_basic _ hj]
  split <;> ring

theorem sum_nonbasic_rayPoint {column : ℕ} (hcolumn : column ∈ t.nonbasic) (distance : ℚ)
    (coefficient : ℕ → ℚ) :
    ∑ j ∈ t.nonbasic, coefficient j * t.rayPoint column distance j =
      coefficient column * distance := by
  rw [Finset.sum_eq_single column]
  · rw [rayPoint_of_not_basic distance (mem_nonbasic.mp hcolumn).2, if_pos rfl]
  · intro j hj hne
    rw [rayPoint_of_not_basic distance (mem_nonbasic.mp hj).2, if_neg hne, mul_zero]
  · exact absurd hcolumn

theorem sum_nonbasic_basicPoint (coefficient : ℕ → ℚ) :
    ∑ j ∈ t.nonbasic, coefficient j * t.basicPoint j = 0 := by
  apply Finset.sum_eq_zero
  intro j hj
  rw [basicPoint_of_not_basic (mem_nonbasic.mp hj).2, mul_zero]

theorem holdsAt_basicPoint (hshape : t.HasShape n m) (h : t.HasUnitColumns) :
    t.HoldsAt t.basicPoint := by
  intro e he
  rw [Row.HoldsAt, lhs_eq_basic_add hshape h he, basicPoint_basic h he,
    sum_nonbasic_basicPoint, add_zero]

/-- With zeros outside the basis the equations leave one point only. -/
theorem basicPoint_eq_of_holdsAt (hshape : t.HasShape n m) (h : t.HasUnitColumns) {z : ℕ → ℚ}
    (hz : t.HoldsAt z) (hzero : ∀ j ∈ t.nonbasic, z j = 0) {j : ℕ} (hj : j < n + m) :
    t.basicPoint j = z j := by
  by_cases hbasic : j ∈ t.basis
  · obtain ⟨e, he, rfl⟩ := List.mem_map.mp hbasic
    have hsum : ∑ k ∈ t.nonbasic, e.row.entry k * z k = 0 := by
      apply Finset.sum_eq_zero
      intro k hk
      rw [hzero k hk, mul_zero]
    have hrow := hz e he
    rw [Row.HoldsAt, lhs_eq_basic_add hshape h he, hsum, add_zero] at hrow
    rw [basicPoint_basic h he, hrow]
  · rw [basicPoint_of_not_basic hbasic, hzero j (mem_nonbasic.mpr ⟨hshape.width.symm ▸ hj, hbasic⟩)]

theorem valueAt_basicPoint (hshape : t.HasShape n m) (h : t.HasUnitColumns) :
    t.valueAt t.basicPoint = t.objectiveValue := by
  rw [valueAt, objective_lhs_eq hshape h, sum_nonbasic_basicPoint, sub_zero]

theorem holdsAt_rayPoint (hshape : t.HasShape n m) (h : t.HasUnitColumns) {column : ℕ}
    (hcolumn : column ∈ t.nonbasic) (distance : ℚ) :
    t.HoldsAt (t.rayPoint column distance) := by
  intro e he
  rw [Row.HoldsAt, lhs_eq_basic_add hshape h he,
    rayPoint_basic h (mem_nonbasic.mp hcolumn).2 distance he,
    sum_nonbasic_rayPoint hcolumn distance]
  ring

theorem valueAt_rayPoint (hshape : t.HasShape n m) (h : t.HasUnitColumns) {column : ℕ}
    (hcolumn : column ∈ t.nonbasic) (distance : ℚ) :
    t.valueAt (t.rayPoint column distance) =
      t.objectiveValue - t.objective.entry column * distance := by
  rw [valueAt, objective_lhs_eq hshape h, sum_nonbasic_rayPoint hcolumn distance]

/-- The values that are returned are those of the basic point. -/
theorem primalSolution_eq_map (hshape : t.HasShape n m) (h : t.HasUnitColumns) :
    t.primalSolution = (List.range n).map t.basicPoint := by
  apply List.ext_getElem?
  intro j
  rcases lt_or_ge j n with hj | hj
  · rw [List.getElem?_map, List.getElem?_range hj, Option.map_some]
    have hj' : j < t.numVariables := hshape.numVariables.symm ▸ hj
    by_cases hbasic : j ∈ t.basis
    · obtain ⟨e, he, rfl⟩ := List.mem_map.mp hbasic
      rw [primalSolution_of_basic h.nodup_basis he hj', basicPoint_basic h he]
    · rw [primalSolution_of_not_basic hj' hbasic, basicPoint_of_not_basic hbasic]
  · rw [List.getElem?_eq_none, List.getElem?_eq_none]
    · rwa [List.length_map, List.length_range]
    · rwa [length_primalSolution, hshape.numVariables]

/-! ## Tableaux of a problem -/

/-- What every tableau that pivots reach keeps of the problem: its shape, unit
columns, the solutions of `A x + s = b` and their objective. -/
structure Represents (t : Tableau ℚ) (p : Problem ℚ) : Prop where
  hasShape : t.HasShape p.numVariables p.numConstraints
  hasUnitColumns : t.HasUnitColumns
  holdsAt_iff : ∀ z, t.HoldsAt z ↔ p.SolvedBy z
  valueAt_eq : ∀ z, p.SolvedBy z → t.valueAt z = p.valueAt z

theorem initial_represents {p : Problem ℚ} (hp : p.IsCanonical) : (initial p).Represents p where
  hasShape := initial_hasShape hp
  hasUnitColumns := initial_hasUnitColumns hp
  holdsAt_iff := holdsAt_initial_iff hp
  valueAt_eq z _ := valueAt_initial p z

theorem Represents.pivot {p : Problem ℚ} (h : t.Represents p) {after : Tableau ℚ}
    {row column : ℕ} (hpivot : t.pivot row column = .ok after) : after.Represents p where
  hasShape := h.hasShape.pivot hpivot
  hasUnitColumns := h.hasUnitColumns.pivot h.hasShape hpivot
  holdsAt_iff z := (holdsAt_pivot_iff h.hasShape hpivot z).trans (h.holdsAt_iff z)
  valueAt_eq z hz :=
    (valueAt_pivot h.hasShape hpivot ((h.holdsAt_iff z).mpr hz)).trans (h.valueAt_eq z hz)

theorem represents_of_reaches {p : Problem ℚ} (hp : p.IsCanonical)
    (hreaches : (initial p).Reaches t) : t.Represents p := by
  induction hreaches with
  | refl => exact initial_represents hp
  | pivot _ hpivot ih => exact ih.pivot hpivot

end Tableau

end LinearProgramming
