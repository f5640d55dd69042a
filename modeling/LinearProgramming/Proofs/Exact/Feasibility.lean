import LinearProgramming.Proofs.Exact.BasicPoint
import LinearProgramming.Solution
import Mathlib.Algebra.Order.BigOperators.Group.Finset
import Mathlib.Tactic.Linarith

/-!
Feasible points in exact arithmetic. A list of decision values is feasible
exactly if slacks complete it to a solution of `A x + s = b` without negative
entries. The basic point of a tableau has none as long as the right-hand sides
are not negative, and the ratio test keeps them so.
-/

namespace LinearProgramming

open Finset (range)

namespace Problem

/-- `A x ≤ b` and `x ≥ 0`. -/
structure IsFeasible (p : Problem ℚ) (x : List ℚ) : Prop where
  length : x.length = p.numVariables
  row_le : ∀ (i : ℕ) (row : List ℚ) (limit : ℚ), p.a[i]? = some row → p.b[i]? = some limit →
    Scalar.dot row x ≤ limit
  nonneg : ∀ value ∈ x, 0 ≤ value

/-- The decision variables of a point. -/
def decisions (p : Problem ℚ) (z : ℕ → ℚ) : List ℚ :=
  (List.range p.numVariables).map z

/-- The point whose slacks are what the values leave of the bounds. -/
def withSlacks (p : Problem ℚ) (x : List ℚ) (j : ℕ) : ℚ :=
  if j < p.numVariables then
    x.getD j 0
  else
    p.b.getD (j - p.numVariables) 0 - Scalar.dot (p.a.getD (j - p.numVariables) []) x

variable {p : Problem ℚ} {x : List ℚ} {z : ℕ → ℚ}

@[simp] theorem length_decisions (p : Problem ℚ) (z : ℕ → ℚ) :
    (p.decisions z).length = p.numVariables := by
  rw [decisions, List.length_map, List.length_range]

theorem getElem_decisions (z : ℕ → ℚ) {j : ℕ} (hj : j < (p.decisions z).length) :
    (p.decisions z)[j] = z j := by
  simp only [decisions, List.getElem_map, List.getElem_range]

theorem dot_decisions {row : List ℚ} (hrow : row.length = p.numVariables) (z : ℕ → ℚ) :
    Scalar.dot row (p.decisions z) = ∑ j ∈ range p.numVariables, row.getD j 0 * z j := by
  rw [Scalar.dot_eq_sum (hrow.trans (length_decisions p z).symm), hrow]
  apply Finset.sum_congr rfl
  intro j hj
  have hj' : j < (p.decisions z).length := by
    rwa [length_decisions, ← Finset.mem_range]
  rw [List.getD_eq_getElem (p.decisions z) 0 hj', getElem_decisions z hj']

theorem objectiveAt_decisions (p : Problem ℚ) (z : ℕ → ℚ) :
    p.objectiveAt (p.decisions z) = p.valueAt z :=
  dot_decisions rfl z

/-- Without negative entries, a solution of the equations is feasible. -/
theorem isFeasible_decisions (hp : p.IsCanonical) (hz : p.SolvedBy z)
    (hnonneg : ∀ j < p.numVariables + p.numConstraints, 0 ≤ z j) :
    p.IsFeasible (p.decisions z) := by
  constructor
  case length => exact length_decisions p z
  case row_le =>
    intro i row limit hrow hlimit
    have hi : i < p.numConstraints := (List.getElem?_eq_some_iff.mp hlimit).1
    have hslack : 0 ≤ z (p.numVariables + i) := hnonneg _ (by omega)
    rw [dot_decisions (hp.length_row row (List.mem_of_getElem? hrow))]
    linarith [hz i row limit hrow hlimit]
  case nonneg =>
    intro value hvalue
    obtain ⟨j, hj, rfl⟩ := List.mem_map.mp hvalue
    exact hnonneg j ((List.mem_range.mp hj).trans_le (Nat.le_add_right _ _))

theorem withSlacks_slack {i : ℕ} {row : List ℚ} {limit : ℚ} (hrow : p.a[i]? = some row)
    (hlimit : p.b[i]? = some limit) (x : List ℚ) :
    p.withSlacks x (p.numVariables + i) = limit - Scalar.dot row x := by
  rw [withSlacks, if_neg (by omega), Nat.add_sub_cancel_left, List.getD_eq_getElem?_getD,
    List.getD_eq_getElem?_getD, hrow, hlimit]
  rfl

theorem decisions_withSlacks (hlength : x.length = p.numVariables) :
    p.decisions (p.withSlacks x) = x := by
  apply List.ext_getElem
  · rw [length_decisions, hlength]
  · intro j hj hj'
    rw [getElem_decisions _ hj, withSlacks, if_pos (hlength ▸ hj'),
      List.getD_eq_getElem _ _ hj']

theorem solvedBy_withSlacks (hp : p.IsCanonical) (hlength : x.length = p.numVariables) :
    p.SolvedBy (p.withSlacks x) := by
  intro i row limit hrow hlimit
  rw [← dot_decisions (hp.length_row row (List.mem_of_getElem? hrow)),
    decisions_withSlacks hlength, withSlacks_slack hrow hlimit]
  ring

theorem IsFeasible.withSlacks_nonneg (hp : p.IsCanonical) (hx : p.IsFeasible x) :
    ∀ j < p.numVariables + p.numConstraints, 0 ≤ p.withSlacks x j := by
  intro j hj
  by_cases hdecision : j < p.numVariables
  · have hj' : j < x.length := hx.length.symm ▸ hdecision
    rw [withSlacks, if_pos hdecision, List.getD_eq_getElem _ _ hj']
    exact hx.nonneg _ (List.getElem_mem hj')
  · obtain ⟨i, rfl⟩ := Nat.exists_eq_add_of_le (Nat.not_lt.mp hdecision)
    have hi : i < p.b.length := Nat.lt_of_add_lt_add_left hj
    have hrow := List.getElem?_eq_getElem (hp.length_rows.symm ▸ hi : i < p.a.length)
    have hlimit := List.getElem?_eq_getElem hi
    rw [withSlacks_slack hrow hlimit, sub_nonneg]
    exact hx.row_le i _ _ hrow hlimit

end Problem

namespace Tableau

variable {t after : Tableau ℚ} {n m row column : ℕ}

/-- No right-hand side is negative. -/
def HasNonnegRhs (t : Tableau ℚ) : Prop :=
  ∀ e ∈ t.equations, 0 ≤ e.row.rhs

/-- The pivot row with the least ratio takes no other row below zero. -/
theorem HasNonnegRhs.pivot_of_ratio_le (h : t.HasNonnegRhs) {e : Equation ℚ}
    (hplace : t.PivotsAt row column e) (hpositive : 0 < e.row.entry column)
    (hratio : ∀ f ∈ t.equations, 0 < f.row.entry column →
      e.ratio column ≤ f.ratio column) :
    (t.exchange row column (e.row.divide (e.row.entry column))).HasNonnegRhs := by
  have hpivot : 0 ≤ e.ratio column :=
    div_nonneg (h e (List.mem_of_getElem? hplace.equation)) hpositive.le
  intro f hf
  obtain ⟨i, hi⟩ := List.mem_iff_getElem?.mp hf
  rcases exchange_cases hi with ⟨-, rfl⟩ | ⟨-, old, hold, rfl⟩
  · exact hpivot
  · have hmem := List.mem_of_getElem? hold
    have hrhs : (old.row.eliminate column (e.row.divide (e.row.entry column))).rhs =
        old.row.rhs - old.row.entry column * e.ratio column :=
      Row.rhs_eliminate_exact _ _ _
    rw [hrhs]
    rcases lt_or_ge 0 (old.row.entry column) with hentry | hentry
    · have hbound : old.row.entry column * e.ratio column ≤ old.row.rhs := by
        rw [mul_comm, ← le_div_iff₀ hentry]
        exact hratio old hmem hentry
      linarith
    · have hbound : old.row.entry column * e.ratio column ≤ 0 :=
        mul_nonpos_of_nonpos_of_nonneg hentry hpivot
      linarith [h old hmem]

theorem HasNonnegRhs.move (h : t.HasNonnegRhs) {move : Move ℚ} (hstep : t.step = .move move) :
    move.after.HasNonnegRhs := by
  obtain ⟨-, hrow, hpivot⟩ := step_eq_move_iff.mp hstep
  obtain ⟨e, he, hpositive, hleast⟩ := leavingRow?_eq_some hrow
  obtain ⟨e', hplace, hafter⟩ := pivot_eq_ok_iff.mp hpivot
  cases he.symm.trans hplace.equation
  rw [← hafter]
  exact h.pivot_of_ratio_le hplace hpositive fun f hf hentry => not_lt.mp (hleast f hf hentry)

theorem HasNonnegRhs.visits (h : t.HasNonnegRhs) (hvisits : t.Visits after) :
    after.HasNonnegRhs := by
  induction hvisits with
  | refl => exact h
  | move _ hstep ih => exact ih.move hstep

theorem initial_hasNonnegRhs {p : Problem ℚ} (hp : p.IsCanonical) :
    (initial p).HasNonnegRhs := by
  intro e he
  obtain ⟨i, hi⟩ := List.mem_iff_getElem?.mp he
  obtain ⟨row, limit, -, hlimit, rfl⟩ := initial_getElem?_eq_some_iff.mp hi
  exact not_lt.mp (hp.limit_not_negative limit (List.mem_of_getElem? hlimit))

/-- The tableaux of a run describe the problem, and their right-hand sides are
not negative. -/
theorem represents_of_visits {p : Problem ℚ} (hp : p.IsCanonical)
    (hvisits : (initial p).Visits t) : t.Represents p ∧ t.HasNonnegRhs :=
  ⟨represents_of_reaches hp hvisits.reaches, (initial_hasNonnegRhs hp).visits hvisits⟩

theorem HasNonnegRhs.basicPoint_nonneg (h : t.HasNonnegRhs) (hunit : t.HasUnitColumns) (j : ℕ) :
    0 ≤ t.basicPoint j := by
  by_cases hbasic : j ∈ t.basis
  · obtain ⟨e, he, rfl⟩ := List.mem_map.mp hbasic
    rw [basicPoint_basic hunit he]
    exact h e he
  · rw [basicPoint_of_not_basic hbasic]

/-- So the basic solution is feasible, and its objective is the tableau's. -/
theorem Represents.primalSolution_feasible {p : Problem ℚ} (hp : p.IsCanonical)
    (h : t.Represents p) (hrhs : t.HasNonnegRhs) :
    p.IsFeasible t.primalSolution ∧ p.objectiveAt t.primalSolution = t.objectiveValue := by
  have hvalues : t.primalSolution = p.decisions t.basicPoint :=
    primalSolution_eq_map h.hasShape h.hasUnitColumns
  have hsolved : p.SolvedBy t.basicPoint :=
    (h.holdsAt_iff _).mp (holdsAt_basicPoint h.hasShape h.hasUnitColumns)
  rw [hvalues]
  constructor
  · exact Problem.isFeasible_decisions hp hsolved
      fun j _ => hrhs.basicPoint_nonneg h.hasUnitColumns j
  · rw [Problem.objectiveAt_decisions, ← h.valueAt_eq _ hsolved,
      valueAt_basicPoint h.hasShape h.hasUnitColumns]

end Tableau

end LinearProgramming
