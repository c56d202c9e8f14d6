/-
LoxLang.Proofs.Number.Halfway: no number rounds to two doubles.

The reals that round to a double reach half way to its neighbours.  Where the interval of one double
ends that of the next one begins, also from one exponent to the next; the end they share belongs to
the one with the even mantissa, and the mantissas of neighbours are not both even.

* `Interval.Holds`: the rationals in an interval.
* `Magnitude.bottom`, `Magnitude.top`: the ends of the interval of a magnitude, in quarters of the
  least positive double.

Main statement: `eq_of_holds`.
-/
import LoxLang.Number.Shortest
import Mathlib

namespace LoxLang.Number

/-- The rationals in an interval, the ends among them if it is closed. -/
def Interval.Holds (i : Interval) (q : ℚ) : Prop :=
  if i.closed then i.low ≤ q * i.den ∧ q * i.den ≤ i.high
  else i.low < q * i.den ∧ q * i.den < i.high

/-! ## One scale for all magnitudes -/

/-- How many quarters of the least positive double there are in one. -/
def quarters : Nat := 4 * 2 ^ (-leastExponent).toNat

/-- How often the last place of a magnitude is the double of the least one. -/
def Magnitude.shift (m : Magnitude) : Nat := (m.exponent - leastExponent).toNat

/-- Half way to the next smaller double. -/
def Magnitude.bottom (m : Magnitude) : Nat :=
  (4 * m.mantissa - if m.narrowBelow then 1 else 2) * 2 ^ m.shift

/-- Half way to the next larger double. -/
def Magnitude.top (m : Magnitude) : Nat := (4 * m.mantissa + 2) * 2 ^ m.shift

section Scale

variable {m : Magnitude} {q : ℚ}

theorem Magnitude.scaled (least : leastExponent ≤ m.exponent) (n : Nat) :
    n * Nat.pow 2 m.exponent.toNat * quarters = n * 2 ^ m.shift * m.interval.den := by
  have exponents : m.exponent.toNat + (-leastExponent).toNat =
      m.shift + (-m.exponent).toNat := by
    unfold shift leastExponent at *
    omega
  have powers : 2 ^ m.exponent.toNat * 2 ^ (-leastExponent).toNat =
      2 ^ m.shift * 2 ^ (-m.exponent).toNat := by
    rw [← pow_add, ← pow_add, exponents]
  simp only [interval, quarters, Nat.pow_eq]
  generalize 2 ^ (-leastExponent).toNat = unit at *
  linear_combination 4 * n * powers

theorem Magnitude.den_pos (m : Magnitude) : 0 < (m.interval.den : ℚ) := by
  simp [interval]

theorem quarters_pos : 0 < (quarters : ℚ) :=
  Nat.cast_pos.mpr (Nat.mul_pos (by decide) (Nat.two_pow_pos _))

/-- The interval of a magnitude on the common scale. -/
theorem Magnitude.holds_iff (least : leastExponent ≤ m.exponent) :
    m.interval.Holds q ↔
      if m.mantissa % 2 = 0 then m.bottom ≤ q * quarters ∧ q * quarters ≤ m.top
      else m.bottom < q * quarters ∧ q * quarters < m.top := by
  have low : (m.interval.low : ℚ) * quarters = m.bottom * m.interval.den :=
    mod_cast m.scaled least _
  have high : (m.interval.high : ℚ) * quarters = m.top * m.interval.den :=
    mod_cast m.scaled least _
  have den := m.den_pos
  have unit := quarters_pos
  have swapped : q * m.interval.den * quarters = q * quarters * m.interval.den := by ring
  have closed : m.interval.closed = decide (m.mantissa % 2 = 0) := rfl
  unfold Interval.Holds
  rw [closed, ← mul_le_mul_iff_left₀ unit, ← mul_le_mul_iff_left₀ unit (b := q * m.interval.den),
    ← mul_lt_mul_iff_left₀ unit, ← mul_lt_mul_iff_left₀ unit (b := q * m.interval.den),
    swapped, low, high]
  simp only [decide_eq_true_eq, mul_le_mul_iff_left₀ den, mul_lt_mul_iff_left₀ den]

end Scale

/-! ## Neighbours -/

section Neighbours

variable {field fraction bits bits' : Nat} {q : ℚ}

theorem Magnitude.ofBits_fields (small : fraction < 2 ^ 52) (ordinary : field < 2 ^ 11) :
    Magnitude.ofBits (field * 2 ^ 52 + fraction) =
      if field = 0 then ⟨fraction, leastExponent, false⟩
      else ⟨fraction + 2 ^ 52, leastExponent + (field - 1 : Nat), fraction = 0 && 1 < field⟩ := by
  have field' : exponentField (field * 2 ^ 52 + fraction) = field := by
    unfold exponentField fractionBits
    simp only [Nat.pow_eq]
    omega
  have fraction' : fractionField (field * 2 ^ 52 + fraction) = fraction := by
    unfold fractionField fractionBits
    simp only [Nat.pow_eq]
    omega
  rw [ofBits, field', fraction']
  rfl

theorem Magnitude.least_ofBits (bits : Nat) : leastExponent ≤ (Magnitude.ofBits bits).exponent := by
  unfold ofBits
  dsimp only
  split
  · exact le_rfl
  · exact Int.le_add_of_nonneg_right (Int.natCast_nonneg _)

/-- The interval of a double ends where that of the next one begins, and one of the two mantissas is
odd. -/
theorem top_eq_bottom_succ (finite : bits < infinityBits) :
    (Magnitude.ofBits bits).top = (Magnitude.ofBits (bits + 1)).bottom ∧
      (Magnitude.ofBits bits).mantissa % 2 ≠ (Magnitude.ofBits (bits + 1)).mantissa % 2 := by
  obtain ⟨field, fraction, small, ordinary, rfl⟩ : ∃ field fraction, fraction < 2 ^ 52 ∧
      field < 2047 ∧ bits = field * 2 ^ 52 + fraction := by
    refine ⟨bits / 2 ^ 52, bits % 2 ^ 52, Nat.mod_lt _ (by decide), ?_, ?_⟩
    · unfold infinityBits specialField fractionBits at finite
      simp only [Nat.pow_eq] at finite
      omega
    · omega
  by_cases last : fraction + 1 = 2 ^ 52
  · -- The next double has the next exponent.
    have next : field * 2 ^ 52 + fraction + 1 = (field + 1) * 2 ^ 52 + 0 := by omega
    rw [next, Magnitude.ofBits_fields small (by omega),
      Magnitude.ofBits_fields (by decide) (by omega)]
    obtain rfl : fraction = 2 ^ 52 - 1 := by omega
    cases field with
    | zero => decide +kernel
    | succ field =>
      simp [Magnitude.top, Magnitude.bottom, Magnitude.shift, pow_succ]
      omega
  · have next : field * 2 ^ 52 + fraction + 1 = field * 2 ^ 52 + (fraction + 1) :=
      Nat.add_assoc _ _ _
    rw [next, Magnitude.ofBits_fields small (by omega),
      Magnitude.ofBits_fields (by omega) (by omega)]
    cases field with
    | zero =>
      simp [Magnitude.top, Magnitude.bottom, Magnitude.shift]
      omega
    | succ field =>
      simp [Magnitude.top, Magnitude.bottom, Magnitude.shift]
      omega

theorem Magnitude.bottom_lt_top (m : Magnitude) : m.bottom < m.top := by
  have positive : 0 < 2 ^ m.shift := Nat.two_pow_pos _
  exact Nat.mul_lt_mul_of_pos_right (by omega) positive

theorem bottom_lt_bottom (less : bits < bits') (finite : bits' ≤ infinityBits) :
    (Magnitude.ofBits bits).bottom < (Magnitude.ofBits bits').bottom := by
  induction bits', less using Nat.le_induction with
  | base => exact (top_eq_bottom_succ finite).1 ▸ Magnitude.bottom_lt_top _
  | succ bits' _ ih =>
    calc (Magnitude.ofBits bits).bottom
      _ < (Magnitude.ofBits bits').bottom := ih (Nat.le_of_succ_le finite)
      _ < (Magnitude.ofBits bits').top := Magnitude.bottom_lt_top _
      _ = (Magnitude.ofBits (bits' + 1)).bottom := (top_eq_bottom_succ finite).1

/-- What rounds to a double does not round to a larger one. -/
theorem not_holds_of_lt (less : bits < bits') (finite : bits' < infinityBits)
    (holds : (Magnitude.ofBits bits).interval.Holds q) :
    ¬(Magnitude.ofBits bits').interval.Holds q := by
  intro holds'
  rw [Magnitude.holds_iff (Magnitude.least_ofBits _)] at holds holds'
  obtain ⟨meet, parity⟩ := top_eq_bottom_succ (less.trans finite)
  have upper : q * quarters ≤ (Magnitude.ofBits (bits + 1)).bottom := by
    rw [← meet]
    split at holds
    · exact holds.2
    · exact holds.2.le
  have lower : ((Magnitude.ofBits bits').bottom : ℚ) ≤ q * quarters := by
    split at holds'
    · exact holds'.1
    · exact holds'.1.le
  rcases Nat.eq_or_lt_of_le (show bits + 1 ≤ bits' from less) with rfl | beyond
  · -- The end that they share belongs to at most one of them.
    rw [meet] at holds
    split at holds <;> split at holds'
    · omega
    · exact absurd (holds'.1.trans_le upper) (lt_irrefl _)
    · exact absurd (holds.2.trans_le lower) (lt_irrefl _)
    · omega
  · have apart : ((Magnitude.ofBits (bits + 1)).bottom : ℚ) < (Magnitude.ofBits bits').bottom :=
      mod_cast bottom_lt_bottom beyond finite.le
    exact absurd (apart.trans_le (lower.trans upper)) (lt_irrefl _)

/-- A number rounds to at most one finite double, up to its sign. -/
theorem eq_of_holds (finite : bits < infinityBits) (finite' : bits' < infinityBits)
    (holds : (Magnitude.ofBits bits).interval.Holds q)
    (holds' : (Magnitude.ofBits bits').interval.Holds q) : bits = bits' := by
  rcases Nat.lt_trichotomy bits bits' with less | same | less
  · exact absurd holds' (not_holds_of_lt less finite' holds)
  · exact same
  · exact absurd holds (not_holds_of_lt less finite holds')

end Neighbours

end LoxLang.Number
