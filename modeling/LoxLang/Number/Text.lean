/-
LoxLang.Number.Text: the written form of a number.

A number is written with the fewest digits that read back as it.  `Layout` holds the decisions of
the format; `layout` is the one that the language uses.

* `text`: the full form, in which an integral number keeps its `.0`.
* `shortText`: the form that programs print, without a final `.0`.
* `ofText?`: reads the full form back.
-/
import LoxLang.Number.Shortest
import LoxLang.Number.Nearest

namespace LoxLang.Number

/-- The decisions of a number format. -/
structure Layout where
  /-- The least place of the leading digit that is still written positionally. -/
  leastPlace : Int
  /-- The least place of the leading digit that is written with an exponent again. -/
  beyondPlace : Int
  /-- What follows the digits of an integral number in positional form. -/
  integralTail : String
  /-- The least number of digits in an exponent. -/
  exponentWidth : Nat

/-- Positional from `0.0001` up to below `10 ^ 16`, an integral number ends in `.0`, and an
exponent carries its sign and at least two digits. -/
def layout : Layout := ⟨-4, 16, ".0", 2⟩

/-- The decimal digits of a natural number. -/
def digitsOf (n : Nat) : List Char := Nat.toDigits 10 n

/-- The digits without the zeros at their end. -/
def dropTrailingZeros (ds : List Char) : List Char := (ds.reverse.dropWhile (· == '0')).reverse

/-- `n` zeros. -/
def zeros (n : Nat) : List Char := List.replicate n '0'

/-- The exponent with its sign, filled with zeros to the format's width. -/
def Layout.exponentText (l : Layout) (e : Int) : List Char :=
  let ds := digitsOf e.natAbs
  (if e < 0 then '-' else '+') :: (zeros (l.exponentWidth - ds.length) ++ ds)

/-- Writes significant digits (without zeros at their end) whose first one stands at `place`. -/
def Layout.write (l : Layout) (ds : List Char) (place : Int) : List Char :=
  if place < l.leastPlace ∨ l.beyondPlace ≤ place then
    let tail := ds.drop 1
    ds.take 1 ++ (if tail.isEmpty then [] else '.' :: tail) ++ 'e' :: l.exponentText place
  else if place < 0 then
    ['0', '.'] ++ zeros (-place - 1).toNat ++ ds
  else
    let whole := place.toNat + 1
    if ds.length ≤ whole then ds ++ zeros (whole - ds.length) ++ l.integralTail.toList
    else ds.take whole ++ '.' :: ds.drop whole

/-- Writes a magnitude; zero has the single digit `0`. -/
def Layout.magnitudeText (l : Layout) (m : Magnitude) : List Char :=
  if m.mantissa = 0 then '0' :: l.integralTail.toList else
  let d := m.shortest
  let ds := digitsOf d.digits
  l.write (dropTrailingZeros ds) (d.exponent + (ds.length - 1 : Nat))

/-- The characters of the full written form. -/
def textChars (x : Float) : List Char :=
  if isNaN x then "nan".toList else
  let sign := if isNegative x then ['-'] else []
  sign ++ (if isFinite x then layout.magnitudeText (magnitude x) else "inf".toList)

/-- The full written form of a number. -/
def text (x : Float) : String := String.ofList (textChars x)

/-- Removes one `.0` from the end, if it stands there. -/
def dropIntegralTail (cs : List Char) : List Char :=
  match cs.reverse with
  | '0' :: '.' :: rest => rest.reverse
  | _ => cs

/-- The written form that programs see: an integral number has no fraction. -/
def shortText (x : Float) : String := String.ofList (dropIntegralTail (textChars x))

/-! ## Reading the written form -/

/-- The value of decimal digits, most significant first. -/
def valueOf (digits : List Nat) : Nat := digits.foldl (fun acc d => 10 * acc + d) 0

/-- The values of the characters `0` to `9`; nothing if another character occurs. -/
def asciiDigits? (cs : List Char) : Option (List Nat) :=
  cs.mapM fun c => if c.isDigit then some (c.toNat - '0'.toNat) else none

/-- Reads an exponent: an optional sign and digits. -/
def exponentOf? : List Char → Option Int
  | '-' :: cs => (asciiDigits? cs).map fun ds => -(valueOf ds : Int)
  | '+' :: cs => (asciiDigits? cs).map fun ds => (valueOf ds : Int)
  | cs => (asciiDigits? cs).map fun ds => (valueOf ds : Int)

/-- Reads an unsigned number: digits, a fraction and an exponent, the last two optional. -/
def unsignedOf? (cs : List Char) : Option Float := do
  let (body, scale) := (cs.takeWhile (· ≠ 'e'), cs.dropWhile (· ≠ 'e'))
  let exponent ← if scale.isEmpty then some 0 else exponentOf? (scale.drop 1)
  let whole ← asciiDigits? (body.takeWhile (· ≠ '.'))
  let fraction ← asciiDigits? ((body.dropWhile (· ≠ '.')).drop 1)
  if whole.isEmpty then none
  else some (ofDecimal (valueOf (whole ++ fraction)) (exponent - fraction.length))

/-- Reads what `text` writes. -/
def ofText? (s : String) : Option Float :=
  if s = "nan" then some (0.0 / 0.0)
  else if s = "inf" then some (1.0 / 0.0)
  else if s = "-inf" then some (-1.0 / 0.0)
  else
    match s.toList with
    | '-' :: cs => (unsignedOf? cs).map fun x => -x
    | cs => unsignedOf? cs

end LoxLang.Number
