import LinearProgramming.Proofs.Exact.Feasibility

/-!
What the ratio test is for. In exact arithmetic a pivot on a positive entry takes
from every right-hand side the ratio of its row, as many times as the entry of the
other row says. Rows with an entry that is zero or negative lose nothing by it, and
a row with a positive entry stays above zero exactly if its own ratio is not the
smaller one. So among the rows in which a column may enter, those with the least
ratio are the ones that keep the tableau feasible, whether the column improves the
objective or not.
-/

namespace LinearProgramming

namespace Tableau

/-- Among the rows that limit the column's variable, none has a smaller ratio. -/
def IsLeastRatio (t : Tableau ℚ) (column : ℕ) (ratio : ℚ) : Prop :=
  ∀ f ∈ t.equations, 0 < f.row.entry column → ratio ≤ f.ratio column

variable {t after : Tableau ℚ} {p : Problem ℚ} {row column : ℕ} {e : Equation ℚ}

/-- Outside the basis every positive entry qualifies for a pivot. -/
theorem pivotsAt_of_pos (he : t.equations[row]? = some e) (hcolumn : column < t.width)
    (hbasic : column ∉ t.basis) (hpositive : 0 < e.row.entry column) :
    t.PivotsAt row column e where
  equation := he
  column_lt := hcolumn
  basic_ne heq := hbasic (heq ▸ List.mem_map_of_mem (List.mem_of_getElem? he))
  nonzero := beq_eq_false_iff_ne.mpr hpositive.ne'
  finite := rfl

/-- The pivot keeps the right-hand sides above zero exactly if its ratio is the
least. -/
theorem HasNonnegRhs.exchange_iff (h : t.HasNonnegRhs) (hplace : t.PivotsAt row column e)
    (hpositive : 0 < e.row.entry column) :
    (t.exchange row column (e.row.divide (e.row.entry column))).HasNonnegRhs ↔
      t.IsLeastRatio column (e.ratio column) := by
  refine ⟨?_, h.pivot_of_ratio_le hplace hpositive⟩
  intro hafter f hf hentry
  obtain ⟨i, hi⟩ := List.mem_iff_getElem?.mp hf
  by_cases hrow : i = row
  · subst hrow
    cases hplace.equation.symm.trans hi
    exact le_rfl
  · have hcleared := exchange_getElem?_ne t column (e.row.divide (e.row.entry column)) hrow
    rw [hi] at hcleared
    have hnonneg : 0 ≤ (f.row.eliminate column (e.row.divide (e.row.entry column))).rhs :=
      hafter _ (List.mem_of_getElem? hcleared)
    have hbound : e.ratio column * f.row.entry column ≤ f.row.rhs := by
      rw [Row.rhs_eliminate_exact] at hnonneg
      rw [mul_comm]
      exact sub_nonneg.mp hnonneg
    exact (le_div_iff₀ hentry).mpr hbound

/-- The row that the test returns has a positive entry and the least ratio. -/
theorem isLeastRatio_of_leavingRow? (h : t.leavingRow? column = some row) :
    ∃ e, t.equations[row]? = some e ∧ 0 < e.row.entry column ∧
      t.IsLeastRatio column (e.ratio column) := by
  obtain ⟨e, he, hpositive, hleast⟩ := leavingRow?_eq_some h
  exact ⟨e, he, hpositive, fun f hf hentry => not_lt.mp (hleast f hf hentry)⟩

/-- After a pivot the entering variable has the ratio of its row as its value. -/
theorem Represents.basicPoint_entering (h : t.Represents p) (hplace : t.PivotsAt row column e) :
    (t.exchange row column (e.row.divide (e.row.entry column))).basicPoint column =
      e.ratio column := by
  have hself := exchange_getElem?_self t column (e.row.divide (e.row.entry column))
    (List.getElem?_eq_some_iff.mp hplace.equation).1
  have hafter := h.pivot (pivot_eq_ok_iff.mpr ⟨e, hplace, rfl⟩)
  exact basicPoint_basic hafter.hasUnitColumns (List.mem_of_getElem? hself)

/-- What a decision variable is at the basic point, the solution shows. -/
theorem Represents.getElem?_primalSolution (h : t.Represents p) {j : ℕ}
    (hj : j < p.numVariables) : t.primalSolution[j]? = some (t.basicPoint j) := by
  rw [primalSolution_eq_map h.hasShape h.hasUnitColumns, List.getElem?_map,
    List.getElem?_range hj, Option.map_some]

/-- The least ratio is exactly what keeps a tableau feasible, at whatever places
pivots have led to it and whatever column enters. The row that the ratio test
returns has it, and the entering variable takes it as its value. -/
theorem pivot_hasNonnegRhs_iff (hp : p.IsValid) : ∃ start, ofProblem p = .ok start ∧
    ∀ t : Tableau ℚ, start.Reaches t → t.HasNonnegRhs → ∀ column < t.width, column ∉ t.basis →
      (∀ (row : ℕ) (e : Equation ℚ), t.equations[row]? = some e → 0 < e.row.entry column →
        ∃ after, t.pivot row column = .ok after ∧
          (after.HasNonnegRhs ↔ t.IsLeastRatio column (e.ratio column))) ∧
      ∀ row, t.leavingRow? column = some row → ∃ e after, t.equations[row]? = some e ∧
        0 < e.row.entry column ∧ t.IsLeastRatio column (e.ratio column) ∧
        t.pivot row column = .ok after ∧ after.HasNonnegRhs ∧
        after.basicPoint column = e.ratio column ∧
        (column < p.numVariables → after.primalSolution[column]? = some (e.ratio column)) := by
  refine ⟨initial p, hp.ofProblem, ?_⟩
  intro t hreaches hrhs column hcolumn hbasic
  have hrepresents := represents_of_reaches hp.canonical hreaches
  constructor
  · intro row e he hpositive
    have hplace := pivotsAt_of_pos he hcolumn hbasic hpositive
    exact ⟨_, pivot_eq_ok_iff.mpr ⟨e, hplace, rfl⟩, hrhs.exchange_iff hplace hpositive⟩
  · intro row hrow
    obtain ⟨e, he, hpositive, hleast⟩ := isLeastRatio_of_leavingRow? hrow
    have hplace := pivotsAt_of_pos he hcolumn hbasic hpositive
    have hpivot := pivot_eq_ok_iff.mpr ⟨e, hplace, rfl⟩
    have hvalue := hrepresents.basicPoint_entering hplace
    refine ⟨e, _, he, hpositive, hleast, hpivot, (hrhs.exchange_iff hplace hpositive).mpr hleast,
      hvalue, ?_⟩
    intro hdecision
    rw [(hrepresents.pivot hpivot).getElem?_primalSolution hdecision, hvalue]

/-- The first variable does not improve the objective, and two rows limit it. -/
def unrewarding : Problem ℚ :=
  ⟨[[1, 0], [0, 2], [3, 2]], [4, 12, 18], [-3, 5]⟩

/-- It may enter all the same: in the first row the tableau stays feasible and the
variable comes to four, in the third row it does not stay feasible. -/
theorem pivot_hasNonnegRhs_unrewarding : ∃ start first third : Tableau ℚ,
    ofProblem unrewarding = .ok start ∧ start.leavingRow? 0 = some 0 ∧
    start.pivot 0 0 = .ok first ∧ first.HasNonnegRhs ∧ first.primalSolution[0]? = some 4 ∧
    start.pivot 2 0 = .ok third ∧ ¬third.HasNonnegRhs := by
  have hp : unrewarding.IsValid := by decide +kernel
  obtain ⟨start, hstart, htest⟩ := pivot_hasNonnegRhs_iff hp
  cases hp.ofProblem.symm.trans hstart
  obtain ⟨hrows, hleaving⟩ := htest _ .refl (initial_hasNonnegRhs hp.canonical) 0
    (by decide +kernel) (by decide +kernel)
  have hrow : (initial unrewarding).leavingRow? 0 = some 0 := by decide +kernel
  obtain ⟨e, first, he, -, -, hfirst, hfeasible, -, hvalue⟩ := hleaving 0 hrow
  obtain ⟨third, hthird, hiff⟩ := hrows 2 ⟨4, ⟨[3, 2, 0, 0, 1], 18⟩⟩ rfl (by decide +kernel)
  cases he
  refine ⟨_, first, third, hstart, hrow, hfirst, hfeasible, ?_, hthird, ?_⟩
  · rw [hvalue (by decide)]
    decide +kernel
  · rw [hiff]
    intro hleast
    have hratio := hleast ⟨2, ⟨[1, 0, 1, 0, 0], 4⟩⟩ List.mem_cons_self (by decide +kernel)
    exact absurd hratio (by decide +kernel)

end Tableau

end LinearProgramming
