/-!
Binary64 numbers taken apart: a finite one is `±significand · 2^exponent` with
whole numbers `significand < 2^53` and `exponent`.
-/

namespace LinearProgramming

inductive Binary where
  | nan
  | infinite (negative : Bool)
  | finite (negative : Bool) (significand : Nat) (exponent : Int)
  deriving DecidableEq

namespace Binary

/-- The number of bits that a significand stores; the one above them is stored
by the exponent. -/
def fractionBits : Nat := 52

def maxBiasedExponent : Nat := 2047

/-- The exponent of the numbers nearest to zero. -/
def minExponent : Int := -1074

def ofBits (bits : Nat) : Binary :=
  let fraction := bits % Nat.pow 2 fractionBits
  let biased := bits / Nat.pow 2 fractionBits % 2048
  let negative := bits / Nat.pow 2 63 = 1
  if biased = maxBiasedExponent then
    if fraction = 0 then infinite negative else nan
  else if biased = 0 then
    finite negative fraction minExponent
  else
    finite negative (Nat.pow 2 fractionBits + fraction) (minExponent + biased - 1)

def ofFloat (x : Float) : Binary :=
  ofBits x.toBits.toNat

end Binary

end LinearProgramming
