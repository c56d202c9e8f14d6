/-
LoxLang.Number.Shortest: the decimal with the fewest digits that reads back as a given double.

A decimal reads back as a double when it lies in the interval of reals that round to it; the ends
of that interval belong to it exactly when the mantissa is even, because reading rounds ties to
even.  For one, two, … seventeen digits the two neighbours of the value on that decimal grid are
tried, and the first grid with a neighbour inside the interval gives the answer.

* `Interval`: the reals that round to a double, over one common denominator.
* `shortest`: the decimal found; of two neighbours on one grid the nearer, and of two equally
  near ones the even.
-/
import LoxLang.Number.Magnitude

namespace LoxLang.Number

/-- The decimal `digits * 10 ^ exponent`. -/
structure Decimal where
  digits : Nat
  exponent : Int
  deriving DecidableEq, Repr

/-- The reals that round to a double: from `low / den` to `high / den`, around `mid / den`. -/
structure Interval where
  low : Nat
  mid : Nat
  high : Nat
  den : Nat
  /-- Both ends round to the double as well. -/
  closed : Bool
  deriving DecidableEq, Repr

/-- The reals that round to a magnitude reach half way to its two neighbours; in quarters of its
last place that is two above and two below, or one below a power of two. -/
def Magnitude.interval (m : Magnitude) : Interval :=
  let up := Nat.pow 2 m.exponent.toNat
  ⟨(4 * m.mantissa - if m.narrowBelow then 1 else 2) * up, 4 * m.mantissa * up,
    (4 * m.mantissa + 2) * up, 4 * Nat.pow 2 (-m.exponent).toNat, m.mantissa % 2 = 0⟩

/-- How often `den` can be multiplied by ten and still not exceed `num`. -/
def tensWithin : Nat → Nat → Nat → Nat
  | 0, _, _ => 0
  | fuel + 1, num, den => if den * 10 ≤ num then tensWithin fuel num (den * 10) + 1 else 0

/-- How often `num` must be multiplied by ten to reach `den`. -/
def tensMissing : Nat → Nat → Nat → Nat
  | 0, _, _ => 0
  | fuel + 1, num, den => if den ≤ num then 0 else tensMissing fuel (num * 10) den + 1

/-- The place of the leading decimal digit of `num / den`, so that `10 ^ e ≤ num / den` and
`num / den < 10 ^ (e + 1)`; four hundred places are more than any double spans. -/
def leadingPlace (num den : Nat) : Int :=
  if den ≤ num then tensWithin 400 num den else -(tensMissing 400 num den : Nat)

/-- The better of the value's two neighbours on the grid of multiples of `10 ^ place`, if one of
them rounds to the double. -/
def Interval.onGrid (i : Interval) (place : Int) : Option Decimal :=
  let up := Nat.pow 10 (-place).toNat
  let unit := i.den * Nat.pow 10 place.toNat
  let below := i.mid * up / unit
  let above := below + 1
  let belowHits := if i.closed then i.low * up ≤ below * unit else i.low * up < below * unit
  let aboveHits := if i.closed then above * unit ≤ i.high * up else above * unit < i.high * up
  let gapBelow := i.mid * up - below * unit
  let gapAbove := above * unit - i.mid * up
  if belowHits ∧ aboveHits then
    let takeBelow := gapBelow < gapAbove ∨ (gapBelow = gapAbove ∧ below % 2 = 0)
    some ⟨if takeBelow then below else above, place⟩
  else if belowHits then some ⟨below, place⟩
  else if aboveHits then some ⟨above, place⟩
  else none

/-- The most digits that any double needs. -/
def maxDigits : Nat := 17

/-- The decimal with the fewest digits that reads back as the magnitude.  Seventeen digits always
suffice, so the fallback is never taken for a double. -/
def Magnitude.shortest (m : Magnitude) : Decimal :=
  let i := m.interval
  let lead := leadingPlace i.mid i.den
  ((List.range maxDigits).findSome? fun n : Nat => i.onGrid (lead - n)).getD ⟨m.mantissa, 0⟩

end LoxLang.Number
