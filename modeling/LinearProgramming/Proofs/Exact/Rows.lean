import LinearProgramming.Proofs.Tableau.Shape
import Mathlib.Algebra.BigOperators.Field
import Mathlib.Algebra.Order.Field.Rat
import Mathlib.Tactic.Ring

/-!
Rows in exact arithmetic. A row is an equation between a linear form and its
right-hand side; a point assigns a value to every variable, slacks included.
Divisions and eliminations replace a row by a combination of rows, so they act
on linear forms as they act on right-hand sides.
-/

namespace LinearProgramming

open Finset (range)

namespace Scalar

theorem foldl_add (start : ℚ) (terms : List ℚ) :
    terms.foldl (· + ·) start = start + Scalar.sum terms := by
  induction terms generalizing start with
  | nil => exact (add_zero start).symm
  | cons x terms ih =>
    have hcons : Scalar.sum (x :: terms) = 0 + x + Scalar.sum terms := ih (0 + x)
    rw [List.foldl_cons, ih (start + x), hcons]
    ring

theorem sum_cons (x : ℚ) (terms : List ℚ) :
    Scalar.sum (x :: terms) = x + Scalar.sum terms := by
  have hcons : Scalar.sum (x :: terms) = 0 + x + Scalar.sum terms := foldl_add (0 + x) terms
  rw [hcons, zero_add]

/-- The sum of products over two lists runs over their common positions. -/
theorem dot_eq_sum {left right : List ℚ} (hlength : left.length = right.length) :
    dot left right = ∑ j ∈ range left.length, left.getD j 0 * right.getD j 0 := by
  rw [dot]
  induction left generalizing right with
  | nil => rfl
  | cons x left ih =>
    cases right with
    | nil => cases hlength
    | cons y right =>
      rw [List.zipWith_cons_cons, sum_cons, ih (Nat.succ.inj hlength), List.length_cons,
        Finset.sum_range_succ', add_comm]
      rfl

end Scalar

namespace Row

/-- The linear form of a row at a point. -/
def lhs (r : Row ℚ) (z : ℕ → ℚ) : ℚ :=
  ∑ j ∈ range r.coeffs.length, r.entry j * z j

/-- The row, read as an equation, is true at the point. -/
def HoldsAt (r : Row ℚ) (z : ℕ → ℚ) : Prop :=
  r.lhs z = r.rhs

theorem lhs_append (left right : List ℚ) (limit : ℚ) (z : ℕ → ℚ) :
    (⟨left ++ right, limit⟩ : Row ℚ).lhs z = ∑ j ∈ range left.length, left.getD j 0 * z j +
      ∑ k ∈ range right.length, right.getD k 0 * z (left.length + k) := by
  rw [lhs, List.length_append, Finset.sum_range_add]
  congr 1
  · apply Finset.sum_congr rfl
    intro j hj
    rw [entry, List.getD_append _ _ _ _ (Finset.mem_range.mp hj)]
  · apply Finset.sum_congr rfl
    intro k _
    rw [entry, List.getD_append_right _ _ _ _ (Nat.le_add_right _ _), Nat.add_sub_cancel_left]

theorem entry_divide_exact (r : Row ℚ) (divisor : ℚ) (j : ℕ) :
    (r.divide divisor).entry j = r.entry j / divisor := by
  rcases lt_or_ge j r.coeffs.length with hj | hj
  · exact entry_divide r divisor hj
  · rw [entry_eq_zero _ hj, entry_eq_zero _ (by rwa [length_divide])]
    exact (zero_div divisor).symm

/-- In exact arithmetic a row that is skipped is one from which nothing is
subtracted. -/
theorem entry_eliminate_exact {r pivotRow : Row ℚ} (column : ℕ)
    (hlength : pivotRow.coeffs.length = r.coeffs.length) (j : ℕ) :
    (r.eliminate column pivotRow).entry j = r.entry j - r.entry column * pivotRow.entry j := by
  rcases lt_or_ge j r.coeffs.length with hj | hj
  · cases hfactor : r.entry column == 0 with
    | true =>
      have hzero : r.entry column = 0 := beq_iff_eq.mp hfactor
      rw [eliminate_of_zero pivotRow hfactor, hzero, zero_mul, sub_zero]
    | false => exact entry_eliminate hfactor hlength hj
  · rw [entry_eq_zero r hj, entry_eq_zero pivotRow (hlength ▸ hj),
      entry_eq_zero _ (by rwa [length_eliminate column hlength])]
    exact (by ring : (0 : ℚ) = 0 - r.entry column * 0)

theorem rhs_eliminate_exact (r pivotRow : Row ℚ) (column : ℕ) :
    (r.eliminate column pivotRow).rhs = r.rhs - r.entry column * pivotRow.rhs := by
  cases hfactor : r.entry column == 0 with
  | true =>
    have hzero : r.entry column = 0 := beq_iff_eq.mp hfactor
    rw [eliminate_of_zero pivotRow hfactor, hzero, zero_mul, sub_zero]
  | false => exact rhs_eliminate pivotRow hfactor

theorem lhs_divide (r : Row ℚ) (divisor : ℚ) (z : ℕ → ℚ) :
    (r.divide divisor).lhs z = r.lhs z / divisor := by
  rw [lhs, lhs, length_divide, Finset.sum_div]
  apply Finset.sum_congr rfl
  intro j _
  rw [entry_divide_exact]
  ring

theorem lhs_eliminate {r pivotRow : Row ℚ} (column : ℕ)
    (hlength : pivotRow.coeffs.length = r.coeffs.length) (z : ℕ → ℚ) :
    (r.eliminate column pivotRow).lhs z = r.lhs z - r.entry column * pivotRow.lhs z := by
  rw [lhs, lhs, lhs, length_eliminate column hlength, hlength, Finset.mul_sum,
    ← Finset.sum_sub_distrib]
  apply Finset.sum_congr rfl
  intro j _
  rw [entry_eliminate_exact column hlength]
  ring

/-- Dividing an equation by a number other than zero changes nothing. -/
theorem holdsAt_divide_iff {r : Row ℚ} {divisor : ℚ} (hdivisor : divisor ≠ 0) (z : ℕ → ℚ) :
    (r.divide divisor).HoldsAt z ↔ r.HoldsAt z := by
  have hrhs : (r.divide divisor).rhs = r.rhs / divisor := rfl
  rw [HoldsAt, HoldsAt, lhs_divide, hrhs, div_left_inj' hdivisor]

/-- Neither does subtracting a multiple of an equation that is true. -/
theorem holdsAt_eliminate_iff {r pivotRow : Row ℚ} (column : ℕ)
    (hlength : pivotRow.coeffs.length = r.coeffs.length) {z : ℕ → ℚ}
    (hpivotRow : pivotRow.HoldsAt z) :
    (r.eliminate column pivotRow).HoldsAt z ↔ r.HoldsAt z := by
  rw [HoldsAt, HoldsAt, lhs_eliminate column hlength, rhs_eliminate_exact, hpivotRow,
    sub_left_inj]

end Row

end LinearProgramming
