/-
LoxLang.Number.Magnitude: a double seen as an exact integer multiple of a power of two.

Every finite binary64 value is `mantissa * 2 ^ exponent` up to its sign.  Printing and reading of
numbers are integer computations on this form; nothing in them rounds except where a rule says so.

* `Magnitude.ofBits`: the mantissa and exponent that a bit pattern holds.
* `isNegative`, `isFinite`, `isNaN`: the class of a double, read off its bits.
-/

namespace LoxLang.Number

/-- The absolute value of a finite double, `mantissa * 2 ^ exponent`. -/
structure Magnitude where
  mantissa : Nat
  exponent : Int
  /-- The next smaller double is only half as far away as the next larger one; so it is exactly
  when the fraction field is empty and a smaller normal exponent exists. -/
  narrowBelow : Bool
  deriving DecidableEq, Repr

/-- The number of bits in the stored fraction. -/
def fractionBits : Nat := 52

/-- The exponent of the least bit of a subnormal double. -/
def leastExponent : Int := -1074

/-- The biased exponent field that marks infinities and NaNs. -/
def specialField : Nat := 2047

/-- The bit pattern of positive infinity. -/
def infinityBits : Nat := specialField * Nat.pow 2 fractionBits

/-- The exponent field of a bit pattern. -/
def exponentField (bits : Nat) : Nat := bits / Nat.pow 2 fractionBits % Nat.pow 2 11

/-- The fraction field of a bit pattern. -/
def fractionField (bits : Nat) : Nat := bits % Nat.pow 2 fractionBits

/-- The magnitude that a finite bit pattern holds; its sign bit is not looked at. -/
def Magnitude.ofBits (bits : Nat) : Magnitude :=
  let field := exponentField bits
  let fraction := fractionField bits
  if field = 0 then
    ⟨fraction, leastExponent, false⟩
  else
    ⟨fraction + Nat.pow 2 fractionBits, leastExponent + (field - 1 : Nat),
      fraction = 0 && 1 < field⟩

/-- The bit pattern of a double. -/
def bitsOf (x : Float) : Nat := x.toBits.toNat

/-- The sign bit is set; this tells `-0.0` from `0.0`. -/
def isNegative (x : Float) : Bool := Nat.pow 2 63 ≤ bitsOf x

/-- Neither an infinity nor a NaN. -/
def isFinite (x : Float) : Bool := exponentField (bitsOf x) ≠ specialField

/-- Not a number. -/
def isNaN (x : Float) : Bool :=
  exponentField (bitsOf x) = specialField ∧ fractionField (bitsOf x) ≠ 0

/-- The magnitude of a finite double. -/
def magnitude (x : Float) : Magnitude := Magnitude.ofBits (bitsOf x)

end LoxLang.Number
