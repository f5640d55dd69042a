/-!
The arithmetic a simplex tableau needs. The algorithm is written once over
`Scalar` and is read both in exact rational arithmetic, where the theory of
linear programming holds, and in binary64, where numbers round, overflow and
may be undefined. Nothing below assumes an algebraic law.
-/

namespace LinearProgramming

/-- Numbers with the four operations, an order test and an equality test. The
tests are those of the arithmetic: in binary64 a NaN is neither below nor equal
to anything. -/
class Scalar (α : Type) extends Zero α, One α, Neg α, Add α, Sub α, Mul α, Div α,
    LT α, BEq α where
  decidableLT : DecidableLT α
  isFinite : α → Bool
  /-- The element that leaves every number unchanged when a sum starts from it. -/
  neutral : α

namespace Scalar

variable {α : Type} [Scalar α]

instance : DecidableLT α := decidableLT

/-- Adds from left to right, so that every rounding has its place. -/
def sum (terms : List α) : α :=
  terms.foldl (· + ·) neutral

/-- The sum of products over the common length of the two lists. -/
def dot (left right : List α) : α :=
  sum (List.zipWith (· * ·) left right)

def allFinite (values : List α) : Bool :=
  values.all isFinite

end Scalar

instance : Scalar Rat where
  zero := 0
  one := 1
  decidableLT := inferInstance
  isFinite _ := true
  neutral := 0

/-- In binary64 the neutral element is negative zero: `0 + -0` is `0`, so a sum
that starts from positive zero would turn a negative zero into it. -/
instance : Scalar Float where
  zero := 0
  one := 1
  decidableLT := inferInstance
  isFinite := Float.isFinite
  neutral := -0.0

end LinearProgramming
