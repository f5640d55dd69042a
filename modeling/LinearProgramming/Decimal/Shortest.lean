import LinearProgramming.Decimal.Binary

/-!
The shortest decimal that reads back as a given binary64 number. Every number
between the midpoints to its two neighbours reads back as it, and the midpoints
themselves do so when its significand is even. On the grid of the multiples of
`10^e` it suffices to look at the two points next to the number; the coarsest
grid with a hit has the fewest digits.

All comparisons are made between natural numbers, in quarters of the distance
`2^q` between the number and the next one.
-/

namespace LinearProgramming

/-- The number `coefficient · 10^exponent`. -/
structure Decimal where
  coefficient : Nat
  exponent : Int
  deriving DecidableEq

inductive Tie where
  | up
  | toEven
  deriving DecidableEq

def Tie.choose (tie : Tie) (lower : Nat) : Nat :=
  match tie with
  | .up => lower + 1
  | .toEven => if lower % 2 = 0 then lower else lower + 1

namespace Decimal

/-- The positive number `m · 2^q` and its neighbours, in quarters of `2^q`. -/
structure Neighbourhood where
  exponent : Int
  lower : Nat
  centre : Nat
  upper : Nat
  /-- The midpoints belong to the number. -/
  closed : Bool

/-- Below a power of two the numbers lie twice as dense, except where they are
densest. -/
def neighbourhood (m : Nat) (q : Int) : Neighbourhood :=
  let dense := m = Nat.pow 2 Binary.fractionBits ∧ Binary.minExponent < q
  { exponent := q - 2
    lower := 4 * m - if dense then 1 else 2
    centre := 4 * m
    upper := 4 * m + 2
    closed := m % 2 = 0 }

namespace Neighbourhood

/-- With `binaryUnit`, the common scale on which `x` quarters and `d · 10^e` are
compared: they are in the order of `x * binaryUnit e` and `d * decimalUnit e`. -/
def decimalUnit (v : Neighbourhood) (e : Int) : Nat :=
  Nat.pow 10 e.toNat * Nat.pow 2 (-v.exponent).toNat

def binaryUnit (v : Neighbourhood) (e : Int) : Nat :=
  Nat.pow 2 v.exponent.toNat * Nat.pow 10 (-e).toNat

/-- The decimal `d · 10^e` reads back as the number. -/
def contains (v : Neighbourhood) (e : Int) (d : Nat) : Bool :=
  let point := d * v.decimalUnit e
  let lower := v.lower * v.binaryUnit e
  let upper := v.upper * v.binaryUnit e
  if v.closed then lower ≤ point ∧ point ≤ upper else lower < point ∧ point < upper

/-- The multiple of `10^e` nearest to the number, if one reads back as it. -/
def nearest? (v : Neighbourhood) (tie : Tie) (e : Int) : Option Nat :=
  let centre := v.centre * v.binaryUnit e
  let floor := centre / v.decimalUnit e
  match v.contains e floor, v.contains e (floor + 1) with
  | false, false => none
  | true, false => some floor
  | false, true => some (floor + 1)
  | true, true =>
    let down := centre - floor * v.decimalUnit e
    let up := (floor + 1) * v.decimalUnit e - centre
    if down < up then some floor
    else if up < down then some (floor + 1)
    else some (tie.choose floor)

/-- A power of ten that no coarser grid has to be looked at for. The factor is
just above the decimal logarithm of two. -/
def coarsest (v : Neighbourhood) : Int :=
  ((v.centre.log2 + v.exponent + 1) * 30103).fdiv 100000 + 1

/-- The grids down from the coarsest, ending with one that is finer than the
seventeen digits that always suffice. -/
def grids (v : Neighbourhood) : List Int :=
  (List.range 20).map fun (step : Nat) => v.coarsest - step

end Neighbourhood

/-- The decimal with the fewest digits that reads back as `m · 2^q`, and of
these the nearest one. -/
def shortest (tie : Tie) (m : Nat) (q : Int) : Decimal :=
  if m = 0 then
    ⟨0, 0⟩
  else
    let v := neighbourhood m q
    let hit := v.grids.findSome? fun e => (v.nearest? tie e).map (⟨·, e⟩)
    hit.getD ⟨0, 0⟩

end Decimal

end LinearProgramming
