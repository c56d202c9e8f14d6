/-
LoxLang.Proofs.Number.Written: what the written form of a finite number looks like.

It consists of digits, a point, signs and an `e`, and there is no word of the language that is
written like it: it begins with a digit or a sign, or with an `e` and the sign of the exponent.

Main statements: `isWritten_shortText` and `IsWritten.not_word`.
-/
import LoxLang.Number.Text
import LoxLang.Proofs.Token.Shapes

namespace LoxLang.Number

/-- The characters of numbers. -/
def isNumeric (c : Char) : Bool := c.isDigit || c == '.' || c == 'e' || c == '+' || c == '-'

theorem isNumeric_of_isDigit {c : Char} (h : c.isDigit = true) : isNumeric c = true := by
  simp [isNumeric, h]

/-- The text begins as no word does, and not with a point. -/
def BeginsApart : List Char → Prop
  | [] => False
  | c :: cs =>
    c ≠ '.' ∧ (isWordStart c = true → ∃ d ds, cs = d :: ds ∧ d ≠ '.' ∧ isWordPart d = false)

/-- Digits, and perhaps other characters of numbers, that begin as no word does. -/
structure IsWritten (cs : List Char) : Prop where
  numeric : ∀ c ∈ cs, isNumeric c = true
  begins : BeginsApart cs

/-! ## Parts -/

theorem isDigit_digitsOf (n : Nat) : ∀ c ∈ digitsOf n, c.isDigit = true :=
  fun _ mem => Nat.isDigit_of_mem_toDigits (by decide) (by decide) mem

theorem isDigit_dropTrailingZeros {ds : List Char} (digits : ∀ c ∈ ds, c.isDigit = true) :
    ∀ c ∈ dropTrailingZeros ds, c.isDigit = true := by
  intro c mem
  rw [dropTrailingZeros, List.mem_reverse] at mem
  exact digits c (List.mem_reverse.mp ((List.dropWhile_sublist _).subset mem))

theorem isDigit_zeros (n : Nat) : ∀ c ∈ zeros n, c.isDigit = true := by
  intro c mem
  rw [List.eq_of_mem_replicate mem]
  rfl

theorem isNumeric_exponentText (l : Layout) (e : Int) :
    ∀ c ∈ l.exponentText e, isNumeric c = true := by
  intro c mem
  rcases List.mem_cons.mp mem with rfl | mem
  · split <;> rfl
  · rcases List.mem_append.mp mem with mem | mem
    · exact isNumeric_of_isDigit (isDigit_zeros _ c mem)
    · exact isNumeric_of_isDigit (isDigit_digitsOf _ c mem)

theorem isNumeric_integralTail : ∀ c ∈ ".0".toList, isNumeric c = true :=
  List.all_eq_true.mp (by decide)

theorem not_isWordStart_of_isDigit {c : Char} (h : c.isDigit = true) : isWordStart c = false := by
  refine Bool.eq_false_iff.mpr fun start => ?_
  have letter := (toNat_of_isWordStart start).1
  have digit : c.toNat ≤ 57 := by
    rw [Char.isDigit, Bool.and_eq_true, decide_eq_true_eq, decide_eq_true_eq] at h
    exact h.2
  omega

theorem beginsApart_of_isDigit {c : Char} (h : c.isDigit = true) (cs : List Char) :
    BeginsApart (c :: cs) := by
  refine ⟨?_, fun start => ?_⟩
  · rintro rfl
    cases h
  · rw [not_isWordStart_of_isDigit h] at start
    cases start

/-! ## The whole -/

/-- Significant digits are written as a number, also if there are none. -/
theorem isWritten_write (l : Layout) (tail : l.integralTail = ".0") {ds : List Char}
    (digits : ∀ c ∈ ds, c.isDigit = true) (place : Int) : IsWritten (l.write ds place) := by
  have numeric {cs : List Char} (h : ∀ c ∈ cs, c.isDigit = true) : ∀ c ∈ cs, isNumeric c = true :=
    fun c mem => isNumeric_of_isDigit (h c mem)
  have part {c : Char} {cs : List Char} (mem : c ∈ cs) (sub : cs ⊆ ds) : isNumeric c = true :=
    numeric digits c (sub mem)
  unfold Layout.write
  dsimp only
  split
  · constructor
    · intro c mem
      simp only [List.mem_append, List.mem_cons] at mem
      rcases mem with (mem | mem) | rfl | mem
      · exact part mem (List.take_subset 1 ds)
      · split at mem
        · cases mem
        · rcases List.mem_cons.mp mem with rfl | mem
          · rfl
          · exact part mem (List.drop_subset 1 ds)
      · rfl
      · exact isNumeric_exponentText l place c mem
    · cases ds with
      | cons d ds => exact beginsApart_of_isDigit (digits d List.mem_cons_self) _
      | nil =>
        refine ⟨by decide, fun _ => ⟨_, _, rfl, ?_⟩⟩
        split <;> decide
  split
  · constructor
    · intro c mem
      simp only [List.cons_append, List.nil_append, List.mem_cons, List.mem_append] at mem
      rcases mem with rfl | rfl | mem | mem
      · rfl
      · rfl
      · exact numeric (isDigit_zeros _) c mem
      · exact numeric digits c mem
    · exact beginsApart_of_isDigit rfl _
  split
  · constructor
    · intro c mem
      simp only [tail, List.mem_append] at mem
      rcases mem with (mem | mem) | mem
      · exact numeric digits c mem
      · exact numeric (isDigit_zeros _) c mem
      · exact isNumeric_integralTail c mem
    · cases ds with
      | cons d ds => exact beginsApart_of_isDigit (digits d List.mem_cons_self) _
      | nil => exact beginsApart_of_isDigit rfl _
  · rename_i long
    constructor
    · intro c mem
      simp only [List.mem_append, List.mem_cons] at mem
      rcases mem with mem | rfl | mem
      · exact part mem (List.take_subset _ ds)
      · rfl
      · exact part mem (List.drop_subset _ ds)
    · cases ds with
      | cons d ds => exact beginsApart_of_isDigit (digits d List.mem_cons_self) _
      | nil => exact absurd (Nat.zero_le _) long

theorem isWritten_magnitudeText (m : Magnitude) : IsWritten (layout.magnitudeText m) := by
  unfold Layout.magnitudeText
  split
  · refine ⟨fun c mem => ?_, beginsApart_of_isDigit rfl _⟩
    rcases List.mem_cons.mp mem with rfl | mem
    · rfl
    · exact isNumeric_integralTail c mem
  · exact isWritten_write layout rfl (isDigit_dropTrailingZeros (isDigit_digitsOf _)) _

/-- A finite number is written as its sign and its magnitude. -/
theorem textChars_of_finite {x : Float} (finite : isFinite x = true) :
    textChars x = (if isNegative x then ['-'] else []) ++ layout.magnitudeText (magnitude x) := by
  have number : isNaN x = false := by
    simp only [isFinite, isNaN, ne_eq, decide_not, Bool.not_eq_true', decide_eq_false_iff_not,
      decide_eq_false_iff_not, not_and] at finite ⊢
    exact fun special => absurd special finite
  rw [textChars, if_neg (by simp [number]), if_pos finite]

theorem isWritten_textChars {x : Float} (finite : isFinite x = true) : IsWritten (textChars x) := by
  have magnitude := isWritten_magnitudeText (magnitude x)
  rw [textChars_of_finite finite]
  split
  · constructor
    · intro c mem
      rcases List.mem_cons.mp mem with rfl | mem
      · rfl
      · exact magnitude.numeric c mem
    · exact ⟨by decide, fun start => absurd start (by decide)⟩
  · exact magnitude

/-- Without a final point and zero a number is still written as one. -/
theorem IsWritten.dropIntegralTail {cs : List Char} (h : IsWritten cs) :
    IsWritten (dropIntegralTail cs) := by
  unfold Number.dropIntegralTail
  split
  · rename_i rest reversed
    obtain rfl : cs = rest.reverse ++ ['.', '0'] := by
      simpa using congrArg List.reverse reversed
    refine ⟨fun c mem => h.numeric c (List.mem_append_left _ mem), ?_⟩
    have begins := h.begins
    cases front : rest.reverse with
    | nil =>
      rw [front] at begins
      exact begins.1 rfl
    | cons c cs =>
      rw [front] at begins
      refine ⟨begins.1, fun start => ?_⟩
      obtain ⟨d, ds, eq, point, other⟩ := begins.2 start
      cases cs with
      | nil =>
        obtain ⟨rfl, -⟩ := List.cons.inj eq
        exact absurd rfl point
      | cons d' ds' =>
        obtain ⟨rfl, -⟩ := List.cons.inj eq
        exact ⟨d', ds', rfl, point, other⟩
  · exact h

/-- A finite number is written with the characters of numbers, and like no word. -/
theorem isWritten_shortText {x : Float} (finite : isFinite x = true) :
    IsWritten (shortText x).toList := by
  rw [shortText, String.toList_ofList]
  exact (isWritten_textChars finite).dropIntegralTail

theorem IsWritten.nonempty {cs : List Char} (h : IsWritten cs) : cs ≠ [] := by
  rintro rfl
  exact h.begins

/-- No word is written as a number is. -/
theorem IsWritten.not_word {c : Char} {cs : List Char} (h : IsWritten (c :: cs))
    (start : isWordStart c = true) (parts : ∀ d ∈ cs, isWordPart d = true) : False := by
  obtain ⟨d, ds, rfl, -, other⟩ := h.begins.2 start
  rw [parts d List.mem_cons_self] at other
  cases other

end LoxLang.Number
