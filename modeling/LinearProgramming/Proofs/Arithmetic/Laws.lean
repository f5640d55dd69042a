import LinearProgramming.Scalar
import Mathlib.Algebra.Order.Ring.Rat
import Mathlib.Tactic.Ring

/-!
The laws of arithmetic that the theory of tableaux rests on. They are weak
enough for binary64, where a zero has two signs, a quotient may overflow and
`inf - inf` is undefined, and they hold in exact rational arithmetic, where
every number is finite and nothing is undefined.

An elimination turns a basic column into a unit column. In rounded arithmetic
its entries are only zero or undefined, and one or undefined: `ZeroOrNaN` and
`OneOrNaN` say so, and the lemmas below are the cases of an elimination.
-/

namespace LinearProgramming

namespace Scalar

variable {α : Type} [Scalar α]

/-- An undefined value does not even equal itself. -/
def IsNaN (x : α) : Prop := (x == x) = false

/-- Zero of either sign, or undefined. -/
def ZeroOrNaN (x : α) : Prop := (x == 0) = true ∨ IsNaN x

/-- One, or undefined. -/
def OneOrNaN (x : α) : Prop := x = 1 ∨ IsNaN x

/-- What exact and binary64 arithmetic have in common. No law speaks of a
rounded result: the operands are zeros, ones, equal numbers, or not finite. -/
class Lawful (α : Type) [Scalar α] : Prop where
  lt_irrefl (x : α) : ¬x < x
  lt_trans {x y z : α} : x < y → y < z → x < z
  not_lt_zero {x : α} : (x == 0) = true → ¬x < 0
  not_zero_lt {x : α} : (x == 0) = true → ¬0 < x
  not_lt_of_isNaN {x y : α} : IsNaN x → ¬x < y
  isFinite_of_isNaN {x : α} : IsNaN x → isFinite x = false
  zero_beq_zero : ((0 : α) == 0) = true
  one_beq_zero : ((1 : α) == 0) = false
  div_self {x : α} : isFinite x = true → (x == 0) = false → x / x = 1
  zero_div {x y : α} : (x == 0) = true → isFinite y = true → (y == 0) = false → (x / y == 0) = true
  nan_div {x y : α} : IsNaN x → IsNaN (x / y)
  mul_one (x : α) : x * 1 = x
  finite_mul_zero {x y : α} : isFinite x = true → (y == 0) = true → (x * y == 0) = true
  infinite_mul_zero {x y : α} : isFinite x = false → (y == 0) = true → IsNaN (x * y)
  mul_nan {x y : α} : IsNaN y → IsNaN (x * y)
  finite_sub_self {x : α} : isFinite x = true → (x - x == 0) = true
  infinite_sub_self {x : α} : isFinite x = false → IsNaN (x - x)
  zero_sub_zero {x y : α} : (x == 0) = true → (y == 0) = true → (x - y == 0) = true
  sub_zero {x y : α} : (x == 0) = false → (y == 0) = true → x - y = x
  nan_sub {x y : α} : IsNaN x → IsNaN (x - y)
  sub_nan {x y : α} : IsNaN y → IsNaN (x - y)

variable [Lawful α]

/-- Whatever the factor is, a multiple of an entry of a unit column is again
zero or undefined: an infinite factor makes it undefined. -/
theorem ZeroOrNaN.mul {y : α} (factor : α) (hy : ZeroOrNaN y) : ZeroOrNaN (factor * y) := by
  rcases hy with hzero | hnan
  · cases hfactor : isFinite factor with
    | true => exact Or.inl (Lawful.finite_mul_zero hfactor hzero)
    | false => exact Or.inr (Lawful.infinite_mul_zero hfactor hzero)
  · exact Or.inr (Lawful.mul_nan hnan)

theorem ZeroOrNaN.sub {x y : α} (hx : ZeroOrNaN x) (hy : ZeroOrNaN y) : ZeroOrNaN (x - y) := by
  rcases hx with hx | hx
  · rcases hy with hy | hy
    · exact Or.inl (Lawful.zero_sub_zero hx hy)
    · exact Or.inr (Lawful.sub_nan hy)
  · exact Or.inr (Lawful.nan_sub hx)

theorem ZeroOrNaN.div {x y : α} (hx : ZeroOrNaN x) (hfinite : isFinite y = true)
    (hy : (y == 0) = false) : ZeroOrNaN (x / y) := by
  rcases hx with hx | hx
  · exact Or.inl (Lawful.zero_div hx hfinite hy)
  · exact Or.inr (Lawful.nan_div hx)

theorem OneOrNaN.sub {x y : α} (hx : OneOrNaN x) (hy : ZeroOrNaN y) : OneOrNaN (x - y) := by
  rcases hx with rfl | hx
  · rcases hy with hy | hy
    · exact Or.inl (Lawful.sub_zero Lawful.one_beq_zero hy)
    · exact Or.inr (Lawful.sub_nan hy)
  · exact Or.inr (Lawful.nan_sub hx)

/-- An elimination clears its own column, or leaves it undefined where the
factor is not finite. -/
theorem zeroOrNaN_sub_mul_one (factor : α) : ZeroOrNaN (factor - factor * 1) := by
  rw [Lawful.mul_one]
  cases hfactor : isFinite factor with
  | true => exact Or.inl (Lawful.finite_sub_self hfactor)
  | false => exact Or.inr (Lawful.infinite_sub_self hfactor)

/-- No pivot is made on an entry that is zero or undefined. -/
theorem ZeroOrNaN.not_pivot {x : α} (hx : ZeroOrNaN x) :
    (x == 0) = true ∨ isFinite x = false := by
  rcases hx with hx | hx
  · exact Or.inl hx
  · exact Or.inr (Lawful.isFinite_of_isNaN hx)

theorem ZeroOrNaN.not_lt_zero {x : α} (hx : ZeroOrNaN x) : ¬x < 0 := by
  rcases hx with hx | hx
  · exact Lawful.not_lt_zero hx
  · exact Lawful.not_lt_of_isNaN hx

end Scalar

namespace Scalar

theorem not_isNaN (x : ℚ) : ¬IsNaN x := by
  simp [IsNaN]

@[simp] theorem zeroOrNaN_iff (x : ℚ) : ZeroOrNaN x ↔ x = 0 := by
  simp [ZeroOrNaN, not_isNaN]

@[simp] theorem oneOrNaN_iff (x : ℚ) : OneOrNaN x ↔ x = 1 := by
  simp [OneOrNaN, not_isNaN]

/-- Exact arithmetic: everything is finite, and nothing is undefined. -/
instance : Lawful ℚ where
  lt_irrefl x := lt_irrefl x
  lt_trans := lt_trans
  not_lt_zero hx := by simp_all
  not_zero_lt hx := by simp_all
  not_lt_of_isNaN hx := absurd hx (not_isNaN _)
  isFinite_of_isNaN hx := absurd hx (not_isNaN _)
  zero_beq_zero := rfl
  one_beq_zero := rfl
  div_self _ hx := by simp_all
  zero_div hx _ _ := by simp_all
  nan_div hx := absurd hx (not_isNaN _)
  mul_one x := by simp
  finite_mul_zero _ hy := by simp_all
  infinite_mul_zero hx := by cases hx
  mul_nan hy := absurd hy (not_isNaN _)
  finite_sub_self _ := by simp
  infinite_sub_self hx := by cases hx
  zero_sub_zero hx hy := by simp_all
  sub_zero _ hy := by simp_all
  nan_sub hx := absurd hx (not_isNaN _)
  sub_nan hy := absurd hy (not_isNaN _)

end Scalar

end LinearProgramming
