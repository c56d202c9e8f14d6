/-
LoxLang.Proofs.Number.Told: the written form of a finite number tells the number.

A written form is read as a rational: digits with a point among them, or with an exponent behind
them.  The format keeps the value of the digits that it lays out, and so does leaving out a final
`.0`; the value of the shortest digits rounds to no other number.

* `numeralOf`, `rationalOf`: the value of digits, and of a written form without sign.

Main statements: `rationalOf_write` and `shortText_injOn`.
-/
import LoxLang.Proofs.Number.Rounding
import LoxLang.Proofs.Number.Written

namespace LoxLang.Number

/-- The value of decimal digits. -/
def numeralOf (ds : List Char) : Nat := Nat.ofDigitChars 10 ds 0

/-- The value of an exponent behind its `e`; nothing is an exponent of zero. -/
def exponentOf : List Char → Int
  | [] => 0
  | sign :: ds => if sign = '-' then -(numeralOf ds : Int) else numeralOf ds

/-- The value of a written form without sign. -/
def rationalOf (cs : List Char) : ℚ :=
  let body := cs.takeWhile (· ≠ 'e')
  let whole := body.takeWhile (· ≠ '.')
  let fraction := (body.dropWhile (· ≠ '.')).drop 1
  let exponent := exponentOf ((cs.dropWhile (· ≠ 'e')).drop 1)
  numeralOf (whole ++ fraction) * 10 ^ (exponent - fraction.length)

/-! ## Digits -/

section Digits

variable {cs ds es : List Char}

theorem notMem_of_digits {c : Char} (digits : ∀ d ∈ ds, d.isDigit = true)
    (other : c.isDigit = false) : c ∉ ds := by
  intro mem
  rw [digits c mem] at other
  cases other

/-- Zeros in front of digits change nothing. -/
theorem numeralOf_zeros_append (n : Nat) (ds : List Char) :
    numeralOf (zeros n ++ ds) = numeralOf ds := by
  rw [numeralOf, Nat.ofDigitChars_append, zeros, Nat.ofDigitChars_replicate_zero]
  rfl

/-- Zeros behind them multiply by ten each. -/
theorem numeralOf_append_zeros (ds : List Char) (n : Nat) :
    numeralOf (ds ++ zeros n) = numeralOf ds * 10 ^ n := by
  rw [numeralOf, Nat.ofDigitChars_append, zeros, Nat.ofDigitChars_replicate_zero, mul_comm]
  rfl

/-- The digits of a number tell the number. -/
theorem numeralOf_digitsOf (n : Nat) : numeralOf (digitsOf n) = n := Nat.ofDigitChars_ten_toDigits

/-- Only zeros are dropped at the end. -/
theorem exists_zeros (ds : List Char) : ∃ n, ds = dropTrailingZeros ds ++ zeros n := by
  refine ⟨(ds.reverse.takeWhile (· == '0')).reverse.length, ?_⟩
  have run : (ds.reverse.takeWhile (· == '0')).reverse = zeros _ :=
    List.eq_replicate_of_mem fun c mem => by
      simpa using List.mem_takeWhile_imp (List.mem_reverse.mp mem)
  rw [← run, dropTrailingZeros, ← List.reverse_append, List.takeWhile_append_dropWhile,
    List.reverse_reverse]

end Digits

/-! ## Reading what is laid out -/

section Reading

variable {whole fraction scale ds : List Char} {place : Int} {l : Layout}

theorem rationalOf_whole (digits : ∀ d ∈ whole, d.isDigit = true) :
    rationalOf whole = numeralOf whole := by
  have plain := ne_of_notMem (notMem_of_digits digits (c := 'e') rfl)
  have bare := ne_of_notMem (notMem_of_digits digits (c := '.') rfl)
  rw [rationalOf, List.takeWhile_eq_self_iff.mpr plain, List.dropWhile_eq_nil_iff.mpr plain,
    List.takeWhile_eq_self_iff.mpr bare, List.dropWhile_eq_nil_iff.mpr bare]
  simp [exponentOf]

/-- Digits behind a point divide by ten each. -/
theorem rationalOf_point (digits : ∀ d ∈ whole, d.isDigit = true)
    (digits' : ∀ d ∈ fraction, d.isDigit = true) :
    rationalOf (whole ++ '.' :: fraction) =
      numeralOf (whole ++ fraction) * 10 ^ (-(fraction.length : Int)) := by
  have plain : ∀ c ∈ whole ++ '.' :: fraction, (c ≠ 'e' : Bool) :=
    List.forall_mem_append.mpr ⟨ne_of_notMem (notMem_of_digits digits rfl),
      List.forall_mem_cons.mpr ⟨rfl, ne_of_notMem (notMem_of_digits digits' rfl)⟩⟩
  have bare := ne_of_notMem (notMem_of_digits digits (c := '.') rfl)
  rw [rationalOf, List.takeWhile_eq_self_iff.mpr plain, List.dropWhile_eq_nil_iff.mpr plain,
    takeWhile_run bare (by simp), dropWhile_run bare (by simp)]
  simp [exponentOf]

/-- An exponent multiplies by a power of ten. -/
theorem rationalOf_exponent (digits : ∀ d ∈ whole, d.isDigit = true)
    (digits' : ∀ d ∈ fraction, d.isDigit = true) :
    rationalOf (whole ++ (if fraction.isEmpty then [] else '.' :: fraction) ++ 'e' :: scale) =
      numeralOf (whole ++ fraction) * 10 ^ (exponentOf scale - fraction.length) := by
  have bare := ne_of_notMem (notMem_of_digits digits (c := '.') rfl)
  have plain := ne_of_notMem (notMem_of_digits digits (c := 'e') rfl)
  cases fraction with
  | nil =>
    rw [List.isEmpty_nil, if_pos rfl, List.append_nil, rationalOf, takeWhile_run plain (by simp),
      dropWhile_run plain (by simp), List.takeWhile_eq_self_iff.mpr bare,
      List.dropWhile_eq_nil_iff.mpr bare]
    simp
  | cons d ds =>
    have plain : ∀ c ∈ whole ++ '.' :: d :: ds, (c ≠ 'e' : Bool) :=
      List.forall_mem_append.mpr ⟨plain, List.forall_mem_cons.mpr
        ⟨rfl, ne_of_notMem (notMem_of_digits digits' rfl)⟩⟩
    rw [List.isEmpty_cons, if_neg Bool.false_ne_true, rationalOf, takeWhile_run plain (by simp),
      dropWhile_run plain (by simp), takeWhile_run bare (by simp), dropWhile_run bare (by simp)]
    simp

/-- The text of an exponent tells the exponent. -/
theorem exponentOf_exponentText (l : Layout) (e : Int) : exponentOf (l.exponentText e) = e := by
  unfold Layout.exponentText
  dsimp only
  rw [exponentOf, numeralOf_zeros_append, numeralOf_digitsOf]
  by_cases negative : e < 0
  · rw [if_pos negative, if_pos rfl]
    omega
  · rw [if_neg negative, if_neg (by decide)]
    omega

/-- The value of what is laid out is that of the digits at their place. -/
theorem rationalOf_write (l : Layout) (tail : l.integralTail = ".0")
    (digits : ∀ d ∈ ds, d.isDigit = true) (nonempty : ds ≠ []) (place : Int) :
    rationalOf (l.write ds place) = numeralOf ds * 10 ^ (place - (ds.length - 1 : Nat)) := by
  have front (n : Nat) : ∀ d ∈ ds.take n, d.isDigit = true :=
    fun d mem => digits d (List.mem_of_mem_take mem)
  have back (n : Nat) : ∀ d ∈ ds.drop n, d.isDigit = true :=
    fun d mem => digits d (List.mem_of_mem_drop mem)
  have length : 0 < ds.length := List.length_pos_iff.mpr nonempty
  unfold Layout.write
  dsimp only
  split
  · rw [rationalOf_exponent (front 1) (back 1), exponentOf_exponentText, List.take_append_drop,
      List.length_drop]
  split
  · have filled : ∀ d ∈ zeros (-place - 1).toNat ++ ds, d.isDigit = true :=
      List.forall_mem_append.mpr ⟨isDigit_zeros _, digits⟩
    have value := rationalOf_point (isDigit_zeros 1) filled
    rw [numeralOf_zeros_append, numeralOf_zeros_append] at value
    refine value.trans ?_
    congr 2
    rw [List.length_append, zeros, List.length_replicate]
    omega
  split
  · have filled (n : Nat) : ∀ d ∈ ds ++ zeros n, d.isDigit = true :=
      List.forall_mem_append.mpr ⟨digits, isDigit_zeros _⟩
    have value := rationalOf_point (filled (place.toNat + 1 - ds.length)) (isDigit_zeros 1)
    rw [numeralOf_append_zeros, numeralOf_append_zeros] at value
    rw [tail]
    refine value.trans ?_
    have exponent : place - (ds.length - 1 : Nat) = (place.toNat + 1 - ds.length : Nat) := by omega
    rw [exponent, zpow_natCast]
    simp [zeros]
  · rw [rationalOf_point (front _) (back _), List.take_append_drop, List.length_drop]
    congr 2
    omega

end Reading

/-! ## Without a final fraction -/

/-- What is laid out begins with a digit, and has a point between digits or two digits at its
end. -/
structure IsLaidOut (cs : List Char) : Prop where
  begins : ∃ c ∈ cs.head?, c.isDigit = true
  ends : (∃ whole fraction, (∀ d ∈ whole, d.isDigit = true) ∧
      (∀ d ∈ fraction, d.isDigit = true) ∧ cs = whole ++ '.' :: fraction) ∨
    ∃ front c d, c.isDigit = true ∧ cs = front ++ [c, d]

section Tail

variable {cs ds : List Char}

/-- What is dropped is a point with a zero behind it, or nothing. -/
theorem dropIntegralTail_cases (cs : List Char) :
    dropIntegralTail cs = cs ∨ cs = dropIntegralTail cs ++ ['.', '0'] := by
  unfold dropIntegralTail
  split
  · rename_i rest reversed
    exact .inr (by simpa using congrArg List.reverse reversed)
  · exact .inl rfl

theorem dropIntegralTail_sign (cs : List Char) :
    dropIntegralTail ('-' :: cs) = '-' :: dropIntegralTail cs := by
  unfold dropIntegralTail
  rw [List.reverse_cons]
  rcases cs.reverse with _ | ⟨c, _ | ⟨d, rest⟩⟩
  · rfl
  · simp
  · by_cases tail : c = '0' ∧ d = '.'
    · obtain ⟨rfl, rfl⟩ := tail
      simp
    · split
      · simp_all
      · split
        · simp_all
        · rfl

/-- Leaving out a final fraction keeps the value. -/
theorem IsLaidOut.rationalOf_dropIntegralTail (h : IsLaidOut cs) :
    rationalOf (dropIntegralTail cs) = rationalOf cs := by
  rcases dropIntegralTail_cases cs with same | dropped
  · rw [same]
  generalize dropIntegralTail cs = short at *
  rcases h.ends with ⟨whole, fraction, digits, digits', rfl⟩ | ⟨front, c, d, digit, rfl⟩
  · obtain ⟨rfl, -, rfl⟩ := (List.append_cons_inj_of_notMem (notMem_of_digits digits rfl)
      (notMem_of_digits digits' rfl)).mp dropped
    have zero : ['0'] = zeros 1 := rfl
    rw [rationalOf_whole digits, rationalOf_point digits digits', zero, numeralOf_append_zeros]
    simp [zeros]
  · obtain ⟨-, same⟩ := List.append_inj' dropped rfl
    cases same
    cases digit

/-- The exponent has at least two digits, and they come last. -/
theorem exists_last_two (l : Layout) (wide : 2 ≤ l.exponentWidth) (e : Int) :
    ∃ front c d, c.isDigit = true ∧ l.exponentText e = front ++ [c, d] := by
  unfold Layout.exponentText
  dsimp only
  have digits : ∀ d ∈ zeros (l.exponentWidth - (digitsOf e.natAbs).length) ++ digitsOf e.natAbs,
      d.isDigit = true :=
    List.forall_mem_append.mpr ⟨isDigit_zeros _, isDigit_digitsOf _⟩
  have length : 2 ≤ (zeros (l.exponentWidth - (digitsOf e.natAbs).length) ++
      digitsOf e.natAbs).length := by
    rw [List.length_append, zeros, List.length_replicate]
    omega
  generalize zeros _ ++ digitsOf e.natAbs = es at *
  generalize (if e < 0 then '-' else '+') = sign
  obtain rfl | ⟨es, d, rfl⟩ := List.eq_nil_or_concat' es
  · cases length
  obtain rfl | ⟨es, c, rfl⟩ := List.eq_nil_or_concat' es
  · simp at length
  · exact ⟨sign :: es, c, d, digits c (by simp), congrArg _ (List.append_assoc es [c] [d])⟩

/-- What is written is laid out as told. -/
theorem isLaidOut_write (l : Layout) (tail : l.integralTail = ".0") (wide : 2 ≤ l.exponentWidth)
    (digits : ∀ d ∈ ds, d.isDigit = true) (nonempty : ds ≠ []) (place : Int) :
    IsLaidOut (l.write ds place) := by
  have front (n : Nat) : ∀ d ∈ ds.take n, d.isDigit = true :=
    fun d mem => digits d (List.mem_of_mem_take mem)
  have back (n : Nat) : ∀ d ∈ ds.drop n, d.isDigit = true :=
    fun d mem => digits d (List.mem_of_mem_drop mem)
  unfold Layout.write
  dsimp only
  obtain ⟨d, ds, rfl⟩ := List.exists_cons_of_ne_nil nonempty
  split
  · obtain ⟨es, e, e', digit, written⟩ := exists_last_two l wide place
    rw [written]
    exact ⟨⟨d, rfl, digits d List.mem_cons_self⟩,
      .inr ⟨_, e, e', digit, (List.append_assoc _ ('e' :: es) [e, e']).symm⟩⟩
  split
  · exact ⟨⟨'0', rfl, rfl⟩, .inl ⟨zeros 1, _, isDigit_zeros 1,
      List.forall_mem_append.mpr ⟨isDigit_zeros _, digits⟩, rfl⟩⟩
  split
  · rw [tail]
    exact ⟨⟨d, rfl, digits d List.mem_cons_self⟩, .inl ⟨_, zeros 1,
      List.forall_mem_append.mpr ⟨digits, isDigit_zeros _⟩, isDigit_zeros 1, rfl⟩⟩
  · exact ⟨⟨d, rfl, digits d List.mem_cons_self⟩, .inl ⟨_, _, front _, back _, rfl⟩⟩

theorem IsLaidOut.begins_dropIntegralTail (h : IsLaidOut cs) :
    ∃ c ∈ (dropIntegralTail cs).head?, c.isDigit = true := by
  obtain ⟨c, head, digit⟩ := h.begins
  rcases dropIntegralTail_cases cs with same | dropped
  · rw [same]
    exact ⟨c, head, digit⟩
  · generalize dropIntegralTail cs = short at *
    subst dropped
    cases short with
    | nil =>
      cases head
      cases digit
    | cons => exact ⟨c, head, digit⟩

/-- A sign in front of a digit can be told. -/
theorem signed_inj {negative negative' : Bool} (begins : ∃ c ∈ cs.head?, c.isDigit = true)
    (begins' : ∃ c ∈ ds.head?, c.isDigit = true)
    (same : (if negative then ['-'] else []) ++ cs = (if negative' then ['-'] else []) ++ ds) :
    negative = negative' ∧ cs = ds := by
  obtain ⟨c, head, digit⟩ := begins
  obtain ⟨d, head', digit'⟩ := begins'
  obtain ⟨cs, rfl⟩ := List.head?_eq_some_iff.mp head
  obtain ⟨ds, rfl⟩ := List.head?_eq_some_iff.mp head'
  cases negative <;> cases negative' <;>
    simp only [if_true, if_false, Bool.false_eq_true, List.nil_append, List.singleton_append,
      List.cons.injEq] at same
  · exact ⟨rfl, by rw [same.1, same.2]⟩
  · obtain ⟨rfl, -⟩ := same
    cases digit
  · obtain ⟨rfl, -⟩ := same
    cases digit'
  · exact ⟨rfl, by rw [same.2.1, same.2.2]⟩

end Tail

/-! ## Magnitudes -/

section Magnitudes

variable {m : Magnitude}

/-- The shortest digits of what is not zero are not zero. -/
theorem Magnitude.Ordinary.shortest_ne_zero (h : m.Ordinary) : m.shortest.digits ≠ 0 := by
  intro none
  have holds := h.holds_shortest
  have positive := h.positive
  have low : 0 < m.interval.low := Nat.mul_pos (by split <;> omega) (Nat.two_pow_pos _)
  have low : (0 : ℚ) < m.interval.low := Nat.cast_pos.mpr low
  rw [Decimal.value, none, Nat.cast_zero, zero_mul] at holds
  unfold Interval.Holds at holds
  rw [zero_mul] at holds
  split at holds
  · exact absurd (low.trans_le holds.1) (lt_irrefl _)
  · exact absurd (low.trans holds.1) (lt_irrefl _)

/-- What is written of a magnitude is laid out, and its value rounds to the magnitude. -/
theorem Magnitude.Ordinary.magnitudeText_spec (h : m.Ordinary) :
    IsLaidOut (layout.magnitudeText m) ∧
      m.interval.Holds (rationalOf (layout.magnitudeText m)) := by
  have holds := h.holds_shortest
  have digits := isDigit_dropTrailingZeros (isDigit_digitsOf m.shortest.digits)
  obtain ⟨n, whole⟩ := exists_zeros (digitsOf m.shortest.digits)
  have value : m.shortest.digits =
      numeralOf (dropTrailingZeros (digitsOf m.shortest.digits)) * 10 ^ n := by
    rw [← numeralOf_append_zeros, ← whole, numeralOf_digitsOf]
  have length := congrArg List.length whole
  rw [List.length_append, zeros, List.length_replicate] at length
  have nonempty : dropTrailingZeros (digitsOf m.shortest.digits) ≠ [] := by
    intro none
    rw [none] at value
    exact h.shortest_ne_zero (value.trans (Nat.zero_mul _))
  rw [Layout.magnitudeText, if_neg h.positive.ne']
  dsimp only
  refine ⟨isLaidOut_write layout rfl (le_refl 2) digits nonempty _, ?_⟩
  rw [rationalOf_write layout rfl digits nonempty]
  have positive := List.length_pos_iff.mpr nonempty
  generalize dropTrailingZeros (digitsOf m.shortest.digits) = ds at *
  -- The digits that were dropped are made up for by the place of the others.
  have place : m.shortest.exponent + ((digitsOf m.shortest.digits).length - 1 : Nat) -
      (ds.length - 1 : Nat) = m.shortest.exponent + n := by omega
  have same : (numeralOf ds : ℚ) * 10 ^ (m.shortest.exponent + n) = m.shortest.value := by
    rw [Decimal.value, value, zpow_add₀ (by norm_num), zpow_natCast]
    push_cast
    ring
  rwa [place, same]

/-- The same of every magnitude; zero is written with a digit of its own. -/
theorem magnitudeText_spec (bits : Nat) :
    let m := Magnitude.ofBits bits
    IsLaidOut (layout.magnitudeText m) ∧
      m.interval.Holds (rationalOf (layout.magnitudeText m)) := by
  intro m
  by_cases zero : m.mantissa = 0
  · rw [Layout.magnitudeText, if_pos zero]
    have digits := isDigit_zeros 1
    refine ⟨⟨⟨'0', rfl, rfl⟩, .inl ⟨zeros 1, zeros 1, digits, digits, rfl⟩⟩, ?_⟩
    have value : rationalOf (zeros 1 ++ '.' :: zeros 1) = 0 := by
      have none : numeralOf (zeros 1) = 0 := rfl
      rw [rationalOf_point digits digits, numeralOf_append_zeros, none]
      simp
    show m.interval.Holds (rationalOf (zeros 1 ++ '.' :: zeros 1))
    rw [value]
    simp [Interval.Holds, Magnitude.interval, zero]
  · exact (Magnitude.ordinary_ofBits bits zero).magnitudeText_spec

end Magnitudes

/-! ## Numbers -/

section Numbers

variable {x y : Float}

/-- A number is told by its bits. -/
theorem eq_of_bitsOf (same : bitsOf x = bitsOf y) : x = y := by
  obtain ⟨⟨bits, _⟩⟩ := x
  obtain ⟨⟨bits', _⟩⟩ := y
  obtain rfl : bits = bits' := UInt64.toNat_inj.mp same
  rfl

/-- The sign of a double does not show in its magnitude. -/
theorem magnitude_eq (x : Float) : magnitude x = Magnitude.ofBits (bitsOf x % 2 ^ 63) := by
  have field : exponentField (bitsOf x % 2 ^ 63) = exponentField (bitsOf x) := by
    simp only [exponentField, fractionBits, Nat.pow_eq]
    omega
  have fraction : fractionField (bitsOf x % 2 ^ 63) = fractionField (bitsOf x) := by
    simp only [fractionField, fractionBits, Nat.pow_eq]
    omega
  rw [magnitude, Magnitude.ofBits, Magnitude.ofBits, field, fraction]

/-- The bits of a finite number are below those of infinity. -/
theorem lt_infinityBits (finite : isFinite x = true) : bitsOf x % 2 ^ 63 < infinityBits := by
  have ordinary := of_decide_eq_true finite
  simp only [exponentField, specialField, fractionBits, infinityBits, Nat.pow_eq] at ordinary ⊢
  omega

/-- The text of a finite number is its sign and its digits. -/
theorem toList_shortText (finite : isFinite x = true) :
    (shortText x).toList = (if isNegative x then ['-'] else []) ++
      dropIntegralTail (layout.magnitudeText (magnitude x)) := by
  rw [shortText, String.toList_ofList, textChars_of_finite finite]
  split
  · exact dropIntegralTail_sign _
  · rfl

/-- So there is a digit in it. -/
theorem exists_digit_shortText (finite : isFinite x = true) :
    ∃ c ∈ (shortText x).toList, c.isDigit = true := by
  have laidOut : IsLaidOut (layout.magnitudeText (magnitude x)) := by
    rw [magnitude_eq]
    exact (magnitudeText_spec _).1
  obtain ⟨c, head, digit⟩ := laidOut.begins_dropIntegralTail
  rw [toList_shortText finite]
  exact ⟨c, List.mem_append_right _ (List.mem_of_mem_head? head), digit⟩

/-- No two finite numbers are written alike. -/
theorem shortText_injOn : Set.InjOn shortText {x | isFinite x = true} := by
  intro x finite y finite' same
  have texts := congrArg String.toList same
  rw [toList_shortText finite, toList_shortText finite', magnitude_eq x, magnitude_eq y] at texts
  obtain ⟨laidOut, holds⟩ := magnitudeText_spec (bitsOf x % 2 ^ 63)
  obtain ⟨laidOut', holds'⟩ := magnitudeText_spec (bitsOf y % 2 ^ 63)
  rw [← laidOut.rationalOf_dropIntegralTail] at holds
  rw [← laidOut'.rationalOf_dropIntegralTail] at holds'
  have begins := laidOut.begins_dropIntegralTail
  have begins' := laidOut'.begins_dropIntegralTail
  obtain ⟨sign, value⟩ : isNegative x = isNegative y ∧ dropIntegralTail _ = dropIntegralTail _ :=
    signed_inj begins begins' texts
  rw [value] at holds
  have bits := eq_of_holds (lt_infinityBits finite) (lt_infinityBits finite') holds holds'
  refine eq_of_bitsOf ?_
  have bound : bitsOf x < 2 ^ 64 := x.toBits.toNat_lt
  have bound' : bitsOf y < 2 ^ 64 := y.toBits.toNat_lt
  simp only [isNegative, Nat.pow_eq, decide_eq_decide] at sign
  omega

end Numbers

end LoxLang.Number
