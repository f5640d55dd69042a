import LinearProgramming.Decimal.Numeral
import LinearProgramming.Decimal.Shortest

/-!
How binary64 numbers are written. All layouts but one write the shortest digits
that read back; they differ in where positional notation ends and in how whole
numbers and powers of ten look. The cells of a tableau show two decimals.
-/

namespace LinearProgramming

/-- A way to write the shortest digits. -/
structure Layout where
  /-- Whether a number is written without a power of ten, by the exponent of its
  leading digit. -/
  positional : Int → Bool
  /-- Whole numbers in positional notation end in `.0`. -/
  pointZero : Bool
  /-- A positive power of ten has a plus sign. -/
  plus : Bool
  tie : Tie

namespace Layout

/-- Inside sentences numbers never have a power of ten. -/
def prose : Layout where
  positional _ := true
  pointZero := false
  plus := false
  tie := .up

/-- In records positional notation reaches from `10^(-4)` up to `10^16`. -/
def record : Layout where
  positional leading := -4 ≤ leading ∧ leading < 16
  pointZero := true
  plus := false
  tie := .up

/-- In data for other programs positional notation starts at `10^(-5)`. -/
def interchange : Layout where
  positional leading := -5 ≤ leading ∧ leading < 16
  pointZero := true
  plus := true
  tie := .toEven

def place (layout : Layout) (negative : Bool) (d : Decimal) : Numeral :=
  let length := (Nat.toDigits 10 d.coefficient).length
  let leading := d.exponent + length - 1
  if layout.positional leading then
    if d.exponent < 0 then
      ⟨negative, d.coefficient, d.exponent.natAbs, none⟩
    else
      let whole := d.coefficient * Nat.pow 10 d.exponent.natAbs
      if layout.pointZero then ⟨negative, whole * 10, 1, none⟩ else ⟨negative, whole, 0, none⟩
  else
    ⟨negative, d.coefficient, length - 1, some leading⟩

end Layout

/-- The quotient rounded to the nearest whole number, a half to the even one. -/
def roundQuotient (numerator denominator : Nat) : Nat :=
  let floor := numerator / denominator
  let rest := 2 * (numerator % denominator)
  if rest < denominator then floor
  else if denominator < rest then floor + 1
  else Tie.choose .toEven floor

/-- The exact value `m · 2^q` rounded to two decimals. -/
def twoDecimals (negative : Bool) (m : Nat) (q : Int) : Numeral :=
  ⟨negative, roundQuotient (m * Nat.pow 2 q.toNat * 100) (Nat.pow 2 (-q).toNat), 2, none⟩

/-- The text of a number, given the numeral of a finite one. -/
def Binary.text (numeral : Bool → Nat → Int → Numeral) (plus : Bool) : Binary → String
  | nan => "NaN"
  | infinite negative => if negative then "-inf" else "inf"
  | finite negative m q => (numeral negative m q).text plus

namespace Layout

/-- The shortest digits of `m · 2^q` in this layout. -/
def numeral (layout : Layout) (negative : Bool) (m : Nat) (q : Int) : Numeral :=
  layout.place negative (.shortest layout.tie m q)

def text (layout : Layout) (x : Float) : String :=
  (Binary.ofFloat x).text layout.numeral layout.plus

def numeral? (layout : Layout) (x : Float) : Option Numeral :=
  match Binary.ofFloat x with
  | .finite negative m q => some (layout.numeral negative m q)
  | _ => none

end Layout

def cellText (x : Float) : String :=
  (Binary.ofFloat x).text twoDecimals false

end LinearProgramming
