/-
LoxLang.Number.Nearest: the double nearest to a fraction.

A decimal numeral denotes a fraction of integers, and its value is the double nearest to that
fraction, a tie going to the even mantissa.  Fractions beyond the largest double give infinity and
those below half the smallest give zero.

* `nearestBits`: the bit pattern, computed in integers.
* `ofDecimal`: the double that `digits * 10 ^ exponent` denotes.
-/
import LoxLang.Number.Magnitude

namespace LoxLang.Number

/-- The place of the leading binary digit of `num / den`, for positive `num` and `den`. -/
def leadingBit (num den : Nat) : Int :=
  let e : Int := (num.log2 : Int) - (den.log2 : Int)
  if den * Nat.pow 2 e.toNat ≤ num * Nat.pow 2 (-e).toNat then e else e - 1

/-- The quotient rounded to the nearest integer, a tie going to the even one. -/
def roundDiv (num den : Nat) : Nat :=
  let q := num / den
  let r := num % den
  if den < 2 * r ∨ (2 * r = den ∧ q % 2 = 1) then q + 1 else q

/-- The bit pattern of the double nearest to `num / den`.  The mantissa has its leading bit just
above the stored fraction, so adding it to the exponent field carries over by itself when rounding
reaches the next power of two. -/
def nearestBits (num den : Nat) : Nat :=
  if num = 0 then 0 else
  let place := max (leadingBit num den - fractionBits) leastExponent
  let mantissa := roundDiv (num * Nat.pow 2 (-place).toNat) (den * Nat.pow 2 place.toNat)
  min (mantissa + (place - leastExponent).toNat * Nat.pow 2 fractionBits) infinityBits

/-- The double nearest to `digits * 10 ^ exponent`. -/
def ofDecimal (digits : Nat) (exponent : Int) : Float :=
  let num := digits * Nat.pow 10 exponent.toNat
  let den := Nat.pow 10 (-exponent).toNat
  Float.ofBits (nearestBits num den).toUInt64

end LoxLang.Number
