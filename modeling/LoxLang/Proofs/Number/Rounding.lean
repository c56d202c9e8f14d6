/-
LoxLang.Proofs.Number.Rounding: the shortest decimal of a double rounds to it.

On a grid of decimals the value of a double has two neighbours, and one of them is taken only if it
lies in the interval of the double.  A grid of seventeen digits is finer than the intervals are
wide, so there a neighbour does.

* `Decimal.value`: a decimal as a rational.
* `Magnitude.Ordinary`: what is known of the magnitude of a finite double other than zero.

Main statements: `holds_onGrid`, `exists_onGrid` and `Magnitude.Ordinary.holds_shortest`.
-/
import LoxLang.Proofs.Number.Halfway

namespace LoxLang.Number

/-- A decimal as a rational. -/
def Decimal.value (d : Decimal) : ℚ := d.digits * 10 ^ d.exponent

/-! ## Grids -/

/-- The factor by which the places of a grid become integers. -/
def gridScale (place : Int) : Nat := Nat.pow 10 (-place).toNat

/-- The unit of a grid over the denominator of an interval, times the factor. -/
def Interval.gridUnit (i : Interval) (place : Int) : Nat := i.den * Nat.pow 10 place.toNat

/-- The neighbour below on a grid, in units of the grid. -/
def Interval.gridBelow (i : Interval) (place : Int) : Nat :=
  i.mid * gridScale place / i.gridUnit place

/-- The value of an interval lies properly between its ends. -/
structure Interval.Proper (i : Interval) : Prop where
  below : i.low < i.mid
  above : i.mid < i.high
  positive : 0 < i.den

section Grids

variable {i : Interval} {place : Int} {d : Decimal}

theorem gridScale_pos (place : Int) : 0 < gridScale place := Nat.pow_pos (by decide)

/-- A unit of a grid as a rational. -/
theorem gridUnit_eq (i : Interval) (place : Int) :
    (i.gridUnit place : ℚ) = 10 ^ place * i.den * gridScale place := by
  have power : (10 : ℚ) ^ place * 10 ^ ((-place).toNat : ℤ) = 10 ^ (place.toNat : ℤ) := by
    rw [← zpow_add₀ (by norm_num)]
    congr 1
    omega
  simp only [Interval.gridUnit, gridScale, Nat.pow_eq, Nat.cast_mul, Nat.cast_pow, Nat.cast_ofNat]
  rw [← zpow_natCast, ← zpow_natCast, ← power]
  ring

/-- Whether a place of a grid lies in an interval can be told in integers. -/
theorem holds_place (i : Interval) (n : Nat) (place : Int) :
    i.Holds (Decimal.value ⟨n, place⟩) ↔
      if i.closed then
        i.low * gridScale place ≤ n * i.gridUnit place ∧
          n * i.gridUnit place ≤ i.high * gridScale place
      else
        i.low * gridScale place < n * i.gridUnit place ∧
          n * i.gridUnit place < i.high * gridScale place := by
  have scale : (0 : ℚ) < gridScale place := Nat.cast_pos.mpr (gridScale_pos place)
  have scaled : Decimal.value ⟨n, place⟩ * i.den * gridScale place =
      (n * i.gridUnit place : Nat) := by
    rw [Nat.cast_mul, gridUnit_eq, Decimal.value]
    ring
  unfold Interval.Holds
  rw [← mul_le_mul_iff_left₀ scale, ← mul_le_mul_iff_left₀ scale (c := (i.high : ℚ)),
    ← mul_lt_mul_iff_left₀ scale, ← mul_lt_mul_iff_left₀ scale (c := (i.high : ℚ)), scaled]
  norm_cast

theorem Interval.Proper.between (proper : i.Proper) (place : Int) :
    i.gridBelow place * i.gridUnit place ≤ i.mid * gridScale place ∧
      i.mid * gridScale place < (i.gridBelow place + 1) * i.gridUnit place := by
  have unit : 0 < i.gridUnit place := Nat.mul_pos proper.positive (Nat.pow_pos (by decide))
  refine ⟨Nat.div_mul_le_self _ _, ?_⟩
  rw [Nat.succ_mul]
  exact Nat.lt_div_mul_add unit

/-- A neighbour on a grid is in the interval if it does not lie beyond the end on its side. -/
theorem Interval.Proper.holds_neighbours (proper : i.Proper) (place : Int) :
    (i.Holds (Decimal.value ⟨i.gridBelow place, place⟩) ↔
        if i.closed then i.low * gridScale place ≤ i.gridBelow place * i.gridUnit place
        else i.low * gridScale place < i.gridBelow place * i.gridUnit place) ∧
      (i.Holds (Decimal.value ⟨i.gridBelow place + 1, place⟩) ↔
        if i.closed then (i.gridBelow place + 1) * i.gridUnit place ≤ i.high * gridScale place
        else (i.gridBelow place + 1) * i.gridUnit place < i.high * gridScale place) := by
  have lows := Nat.mul_lt_mul_of_pos_right proper.below (gridScale_pos place)
  have highs := Nat.mul_lt_mul_of_pos_right proper.above (gridScale_pos place)
  obtain ⟨floor, ceiling⟩ := proper.between place
  rw [holds_place, holds_place]
  cases i.closed <;> simp only [if_true, if_false, Bool.false_eq_true] <;> omega

/-- A grid yields one of the neighbours on it that are in the interval, if there is one. -/
theorem Interval.Proper.onGrid_cases (proper : i.Proper) (place : Int) :
    (∃ d, i.onGrid place = some d ∧ i.Holds d.value) ∨
      i.onGrid place = none ∧ ¬i.Holds (Decimal.value ⟨i.gridBelow place, place⟩) ∧
        ¬i.Holds (Decimal.value ⟨i.gridBelow place + 1, place⟩) := by
  classical
  obtain ⟨below, above⟩ := proper.holds_neighbours place
  simp only [Interval.gridBelow, Interval.gridUnit, gridScale] at below above ⊢
  unfold Interval.onGrid
  simp only [← below, ← above]
  split
  · rename_i both
    refine .inl ⟨_, rfl, ?_⟩
    split
    · exact both.1
    · exact both.2
  split
  · exact .inl ⟨_, rfl, ‹_›⟩
  split
  · exact .inl ⟨_, rfl, ‹_›⟩
  · exact .inr ⟨rfl, ‹_›, ‹_›⟩

/-- What is taken from a grid is in the interval. -/
theorem Interval.Proper.holds_onGrid (proper : i.Proper) (found : i.onGrid place = some d) :
    i.Holds d.value := by
  rcases proper.onGrid_cases place with ⟨d', found', holds⟩ | ⟨missed, -⟩
  · rw [found] at found'
    cases found'
    exact holds
  · rw [found] at missed
    cases missed

/-- A grid whose unit is smaller than an interval has a place in it. -/
theorem Interval.Proper.exists_onGrid (proper : i.Proper)
    (wide : (i.low : ℚ) + 10 ^ place * i.den < i.high) : ∃ d, i.onGrid place = some d := by
  rcases proper.onGrid_cases place with ⟨d, found, -⟩ | ⟨-, below, above⟩
  · exact ⟨d, found⟩
  · -- The ends would lie between neighbours on the grid, one unit apart.
    exfalso
    obtain ⟨sideBelow, sideAbove⟩ := proper.holds_neighbours place
    rw [sideBelow] at below
    rw [sideAbove, Nat.succ_mul] at above
    have apart : i.low * gridScale place + i.gridUnit place < i.high * gridScale place := by
      have scale : (0 : ℚ) < gridScale place := Nat.cast_pos.mpr (gridScale_pos place)
      have scaled := mul_lt_mul_of_pos_right wide scale
      rw [add_mul, ← gridUnit_eq] at scaled
      exact_mod_cast scaled
    cases closed : i.closed <;>
      simp only [closed, if_true, if_false, Bool.false_eq_true] at below above <;> omega

end Grids

/-! ## The leading place -/

theorem tensWithin_spec (fuel : Nat) {num den : Nat} (within : den ≤ num) :
    den * 10 ^ tensWithin fuel num den ≤ num := by
  induction fuel generalizing den with
  | zero => simpa [tensWithin] using within
  | succ fuel ih =>
    rw [tensWithin]
    split
    · rename_i more
      simpa [pow_succ', mul_assoc] using ih more
    · simpa using within

theorem tensMissing_spec (fuel : Nat) {num den : Nat} (enough : den ≤ num * 10 ^ fuel) :
    den ≤ num * 10 ^ tensMissing fuel num den := by
  induction fuel generalizing num with
  | zero => exact enough
  | succ fuel ih =>
    rw [tensMissing]
    split
    · simpa
    · rw [pow_succ', ← mul_assoc] at enough
      simpa [pow_succ', mul_assoc] using ih enough

/-- The leading place is not too far to the left. -/
theorem leadingPlace_spec {num den : Nat} (enough : den ≤ num * 10 ^ 400) :
    (10 : ℚ) ^ leadingPlace num den * den ≤ num := by
  unfold leadingPlace
  split
  · rename_i within
    have spec := tensWithin_spec 400 within
    rw [zpow_natCast, mul_comm]
    exact_mod_cast spec
  · have spec := tensMissing_spec 400 enough
    rw [zpow_neg, zpow_natCast, inv_mul_le_iff₀ (by positivity), mul_comm]
    exact_mod_cast spec

/-! ## The shortest decimal -/

/-- What is known of the magnitude of a finite double other than zero. -/
structure Magnitude.Ordinary (m : Magnitude) : Prop where
  positive : 0 < m.mantissa
  small : m.mantissa < 2 ^ 53
  narrow : m.narrowBelow = true → m.mantissa = 2 ^ 52
  least : leastExponent ≤ m.exponent

section Shortest

variable {m : Magnitude} {bits : Nat}

theorem Magnitude.ordinary_ofBits (bits : Nat) (nonzero : (Magnitude.ofBits bits).mantissa ≠ 0) :
    (Magnitude.ofBits bits).Ordinary := by
  have fraction : fractionField bits < 2 ^ 52 := Nat.mod_lt _ (by decide)
  refine ⟨Nat.pos_of_ne_zero nonzero, ?_, ?_, least_ofBits bits⟩
  all_goals
    unfold ofBits
    dsimp only
    split
  · exact fraction.trans (by decide)
  · exact Nat.add_lt_add_right fraction _
  · exact nofun
  · intro narrow
    simp only [Bool.and_eq_true, decide_eq_true_eq] at narrow
    simp [narrow.1, fractionBits]

theorem Magnitude.Ordinary.proper (h : m.Ordinary) : m.interval.Proper := by
  have up : 0 < Nat.pow 2 m.exponent.toNat := Nat.two_pow_pos _
  have positive := h.positive
  constructor
  · exact Nat.mul_lt_mul_of_pos_right (by split <;> omega) up
  · exact Nat.mul_lt_mul_of_pos_right (by omega) up
  · exact Nat.mul_pos (by decide) (Nat.two_pow_pos _)

theorem two_pow_le_ten_pow {n k : Nat} (h : n ≤ 3 * k) : 2 ^ n ≤ 10 ^ k :=
  calc 2 ^ n
    _ ≤ 2 ^ (3 * k) := Nat.pow_le_pow_right (by decide) h
    _ = 8 ^ k := pow_mul 2 3 k
    _ ≤ 10 ^ k := Nat.pow_le_pow_left (by decide) k

/-- The digits of a double end within four hundred places. -/
theorem Magnitude.Ordinary.enough (h : m.Ordinary) :
    m.interval.den ≤ m.interval.mid * 10 ^ 400 := by
  have least := h.least
  have exponent : (-m.exponent).toNat ≤ 3 * 400 := by
    unfold leastExponent at least
    omega
  have value : 4 ≤ m.interval.mid :=
    (Nat.le_mul_of_pos_right 4 h.positive).trans
      (Nat.le_mul_of_pos_right _ (Nat.two_pow_pos _))
  exact Nat.mul_le_mul value (two_pow_le_ten_pow exponent)

/-- Seventeen digits are enough for every double. -/
theorem Magnitude.Ordinary.wide (h : m.Ordinary) :
    (m.interval.low : ℚ) +
      10 ^ (leadingPlace m.interval.mid m.interval.den - 16) * m.interval.den <
        m.interval.high := by
  have unit : (10 : ℚ) ^ (leadingPlace m.interval.mid m.interval.den - 16) * m.interval.den ≤
      m.interval.mid / 10 ^ 16 := by
    rw [zpow_sub₀ (by norm_num), div_mul_eq_mul_div]
    exact div_le_div_of_nonneg_right (leadingPlace_spec h.enough) (by positivity)
  have up : (0 : ℚ) < (2 ^ m.exponent.toNat : Nat) := by positivity
  have positive := h.positive
  have small : (m.mantissa : ℚ) < 2 ^ 53 := mod_cast h.small
  -- The interval is as wide as the last place, or three quarters of it.
  have ends : (m.interval.low : ℚ) + m.interval.mid / 10 ^ 16 < m.interval.high := by
    have low : ((4 * m.mantissa - if m.narrowBelow then 1 else 2 : Nat) : ℚ) =
        4 * m.mantissa - if m.narrowBelow then 1 else 2 := by
      rw [Nat.cast_sub (by split <;> omega)]
      push_cast
      rfl
    simp only [interval, Nat.pow_eq, Nat.cast_mul, low]
    rw [mul_div_right_comm, ← add_mul]
    refine mul_lt_mul_of_pos_right ?_ up
    push_cast
    split
    · rename_i narrow
      rw [h.narrow narrow]
      norm_num
    · linarith
  linarith

/-- The shortest decimal of a magnitude rounds to it. -/
theorem Magnitude.Ordinary.holds_shortest (h : m.Ordinary) :
    m.interval.Holds m.shortest.value := by
  obtain ⟨d, found⟩ := h.proper.exists_onGrid h.wide
  unfold shortest
  dsimp only
  cases hit : (List.range maxDigits).findSome? fun n : Nat =>
      m.interval.onGrid (leadingPlace m.interval.mid m.interval.den - n) with
  | some d' =>
    obtain ⟨n, -, found'⟩ := List.exists_of_findSome?_eq_some hit
    exact h.proper.holds_onGrid found'
  | none =>
    have missed := List.findSome?_eq_none_iff.mp hit 16 (by decide)
    rw [Nat.cast_ofNat, found] at missed
    cases missed

end Shortest

end LoxLang.Number
