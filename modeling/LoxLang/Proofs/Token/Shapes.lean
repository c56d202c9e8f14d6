/-
LoxLang.Proofs.Token.Shapes: what the segments of a text look like.

The shapes are said without reference to how a text is cut: what a lexeme of each kind is, where a
block comment ends, and that an unexpected character is one that nothing else begins with.

* `CommentMark`, `commentHeight`: the openings and closings in a block comment, and how many of the
  former are left.
* `Lexeme`: the texts of each kind of token.
* `Segment.Regular`, `Segment.Shaped`: the segments that a text can have.

Main statements: `shaped_splitFirst` (what is cut off a text has a shape) and `splitFirst_alone`
(a text that is one segment is cut into it).
-/
import LoxLang.Proofs.Token.Joined
import Mathlib

namespace LoxLang

/-! ## Nested comments -/

/-- What a block comment is read as, from left to right. -/
inductive CommentMark where
  | opening
  | closing
  | plain (c : Char)
  deriving DecidableEq, Repr

/-- The marks of a text inside a block comment; no character belongs to two of them. -/
def commentMarks : List Char → List CommentMark
  | [] => []
  | '/' :: '*' :: cs => .opening :: commentMarks cs
  | '*' :: '/' :: cs => .closing :: commentMarks cs
  | c :: cs => .plain c :: commentMarks cs

/-- How many more openings than closings there are. -/
def commentHeight (marks : List CommentMark) : Int :=
  marks.count .opening - marks.count .closing

/-- Where `depth` comments are open, the marks do not close all of them. -/
def StaysOpen (depth : Nat) (marks : List CommentMark) : Prop :=
  ∀ before, before <+: marks → 0 < depth + commentHeight before

/-- Where `depth` comments are open, all of them are closed with the last of the marks and not
before. -/
def ClosesAtEnd (depth : Nat) (marks : List CommentMark) : Prop :=
  depth + commentHeight marks = 0 ∧
    ∀ before, before <+: marks → before ≠ marks → 0 < depth + commentHeight before

/-! ## Shapes -/

/-- The texts of a kind of token. -/
inductive Lexeme : Kind → List Char → Prop where
  /-- A word is a keyword only as a whole. -/
  | word {c : Char} {cs : List Char} (start : isWordStart c) (parts : ∀ d ∈ cs, isWordPart d) :
    Lexeme (.ofWord (String.ofList (c :: cs))) (c :: cs)
  | whole {ds : List Char} (nonempty : ds ≠ []) (digits : ∀ d ∈ ds, Text.isDigit d) :
    Lexeme .number ds
  | fraction {ds es : List Char} (nonempty : ds ≠ []) (digits : ∀ d ∈ ds, Text.isDigit d)
    (nonempty' : es ≠ []) (digits' : ∀ e ∈ es, Text.isDigit e) : Lexeme .number (ds ++ '.' :: es)
  | string {inside : List Char} (unquoted : '"' ∉ inside) :
    Lexeme .string ('"' :: (inside ++ ['"']))
  | pair {c d : Char} {kind : Kind} (known : Kind.ofPair? c d = some kind) : Lexeme kind [c, d]
  | mark {c : Char} {kind : Kind} (known : Kind.ofChar? c = some kind) : Lexeme kind [c]

/-- The segments other than unexpected characters. -/
inductive Segment.Regular : Segment → Prop where
  | blank {c : Char} (h : isBlank c) : Regular (.blank c)
  | newlines {run : List Char} (nonempty : run ≠ []) (all : ∀ c ∈ run, c = '\n') :
    Regular (.newlines run)
  | lineComment {text : List Char} (line : '\n' ∉ text) :
    Regular (.lineComment ('/' :: '/' :: text))
  | closedComment {inside : List Char} (closes : ClosesAtEnd 1 (commentMarks inside)) :
    Regular (.blockComment ('/' :: '*' :: inside))
  | openComment {inside : List Char} (stays : StaysOpen 1 (commentMarks inside)) :
    Regular (.blockComment ('/' :: '*' :: inside))
  | token {kind : Kind} {lexeme : List Char} (h : Lexeme kind lexeme) : Regular (.token kind lexeme)
  | openString {inside : List Char} (unquoted : '"' ∉ inside) :
    Regular (.openString ('"' :: inside))

/-- The segments that a text can have. -/
inductive Segment.Shaped : Segment → Prop where
  | regular {s : Segment} (h : s.Regular) : Shaped s
  /-- No other segment begins with the character. -/
  | unexpected {c : Char} (alien : ∀ s : Segment, s.Regular → s.chars.head? ≠ some c) :
    Shaped (.unexpected c)

/-! ## The marks of a comment -/

section Comments

variable {depth : Nat} {c : Char} {cs inside rest : List Char} {marks : List CommentMark}

@[simp] theorem commentHeight_nil : commentHeight [] = 0 := rfl

@[simp] theorem commentHeight_opening :
    commentHeight (.opening :: marks) = commentHeight marks + 1 := by
  simp [commentHeight]
  omega

@[simp] theorem commentHeight_closing :
    commentHeight (.closing :: marks) = commentHeight marks - 1 := by
  simp [commentHeight]
  omega

@[simp] theorem commentHeight_plain : commentHeight (.plain c :: marks) = commentHeight marks := by
  simp [commentHeight]

@[simp] theorem staysOpen_nil : StaysOpen depth [] ↔ 0 < depth := by
  simp [StaysOpen]

@[simp] theorem closesAtEnd_nil : ClosesAtEnd depth [] ↔ depth = 0 := by
  simp [ClosesAtEnd]

/-- One mark changes the number of open comments, if there are any. -/
theorem staysOpen_cons {mark : CommentMark} {after : Nat}
    (change : ∀ marks, depth + commentHeight (mark :: marks) = after + commentHeight marks) :
    StaysOpen depth (mark :: marks) ↔ 0 < depth ∧ StaysOpen after marks := by
  constructor
  · intro stays
    refine ⟨by simpa using stays [] List.nil_prefix, fun before pre => ?_⟩
    rw [← change]
    exact stays _ ((List.prefix_cons_inj mark).mpr pre)
  · rintro ⟨open_, stays⟩ before pre
    rcases List.prefix_cons_iff.mp pre with rfl | ⟨before, rfl, pre'⟩
    · simpa using open_
    · rw [change]
      exact stays before pre'

/-- A mark in front of others: the comment must still be open, and then close at their end. -/
theorem closesAtEnd_cons {mark : CommentMark} {after : Nat}
    (change : ∀ marks, depth + commentHeight (mark :: marks) = after + commentHeight marks) :
    ClosesAtEnd depth (mark :: marks) ↔ 0 < depth ∧ ClosesAtEnd after marks := by
  constructor
  · rintro ⟨closed, before_⟩
    refine ⟨by simpa using before_ [] List.nil_prefix (by simp), by rw [← change, closed], ?_⟩
    intro before pre ne
    rw [← change]
    exact before_ _ ((List.prefix_cons_inj mark).mpr pre) (by simpa using ne)
  · rintro ⟨open_, closed, before_⟩
    refine ⟨by rw [change, closed], fun before pre ne => ?_⟩
    rcases List.prefix_cons_iff.mp pre with rfl | ⟨before, rfl, pre'⟩
    · simpa using open_
    · rw [change]
      exact before_ before pre' (by simpa using ne)

/-- An opening mark makes the depth one more. -/
theorem height_opening (marks : List CommentMark) :
    (depth + 1 : Nat) + commentHeight (.opening :: marks) =
      (depth + 2 : Nat) + commentHeight marks := by
  rw [commentHeight_opening]
  omega

/-- A closing mark makes it one less. -/
theorem height_closing (marks : List CommentMark) :
    (depth + 1 : Nat) + commentHeight (.closing :: marks) = depth + commentHeight marks := by
  rw [commentHeight_closing]
  omega

theorem height_plain (marks : List CommentMark) :
    (depth + 1 : Nat) + commentHeight (.plain c :: marks) =
      (depth + 1 : Nat) + commentHeight marks := by
  rw [commentHeight_plain]

@[simp] theorem staysOpen_opening :
    StaysOpen (depth + 1) (.opening :: marks) ↔ StaysOpen (depth + 2) marks := by
  simpa using staysOpen_cons height_opening

@[simp] theorem staysOpen_closing :
    StaysOpen (depth + 1) (.closing :: marks) ↔ StaysOpen depth marks := by
  simpa using staysOpen_cons height_closing

@[simp] theorem staysOpen_plain :
    StaysOpen (depth + 1) (.plain c :: marks) ↔ StaysOpen (depth + 1) marks := by
  simpa using staysOpen_cons height_plain

@[simp] theorem closesAtEnd_opening :
    ClosesAtEnd (depth + 1) (.opening :: marks) ↔ ClosesAtEnd (depth + 2) marks := by
  simpa using closesAtEnd_cons height_opening

@[simp] theorem closesAtEnd_closing :
    ClosesAtEnd (depth + 1) (.closing :: marks) ↔ ClosesAtEnd depth marks := by
  simpa using closesAtEnd_cons height_closing

@[simp] theorem closesAtEnd_plain :
    ClosesAtEnd (depth + 1) (.plain c :: marks) ↔ ClosesAtEnd (depth + 1) marks := by
  simpa using closesAtEnd_cons height_plain

/-- A comment of depth zero is closed. -/
theorem not_staysOpen_zero : ¬ StaysOpen 0 marks := fun stays => by
  simpa using stays [] List.nil_prefix

/-- And what closes it is nothing. -/
theorem ClosesAtEnd.eq_nil (closes : ClosesAtEnd 0 marks) : marks = [] := by
  refine Decidable.byContradiction fun ne => ?_
  simpa using closes.2 [] List.nil_prefix (Ne.symm ne)

/-- A character that begins no pair is no mark. -/
theorem commentMarks_cons (opening : c = '/' → cs.head? ≠ some '*')
    (closing : c = '*' → cs.head? ≠ some '/') :
    commentMarks (c :: cs) = .plain c :: commentMarks cs := by
  rw [commentMarks]
  · rintro rest rfl rfl
    exact opening rfl rfl
  · rintro rest rfl rfl
    exact closing rfl rfl

/-- No pair begins here, said of what comes next. -/
theorem head_ne_of_not_cons {a b : Char} (h : ∀ rest, c = a → cs = b :: rest → False) :
    c = a → cs.head? ≠ some b := fun first second => by
  obtain ⟨rest, behind⟩ := List.head?_eq_some_iff.mp second
  exact h rest first behind

/-- Such a character is cut off as part of the comment. -/
theorem cutBlockComment_cons (opening : c = '/' → cs.head? ≠ some '*')
    (closing : c = '*' → cs.head? ≠ some '/') :
    cutBlockComment (depth + 1) (c :: cs) =
      (c :: (cutBlockComment (depth + 1) cs).1, (cutBlockComment (depth + 1) cs).2) := by
  rw [cutBlockComment]
  · rintro rest rfl rfl
    exact opening rfl rfl
  · rintro rest rfl rfl
    exact closing rfl rfl

/-- What is cut off a comment begins like the comment. -/
theorem head_inside (depth : Nat) (cs : List Char) :
    (cutBlockComment (depth + 1) cs).1.head? = cs.head? := by
  cases cs with
  | nil => rfl
  | cons c cs => exact head_cutBlockComment depth c cs

/-- A comment reaches to the closing that balances its openings, or to the end of the text. -/
theorem closes_or_stays (depth : Nat) (cs : List Char) :
    ClosesAtEnd depth (commentMarks (cutBlockComment depth cs).1) ∨
      StaysOpen depth (commentMarks (cutBlockComment depth cs).1) ∧
        (cutBlockComment depth cs).2 = [] := by
  fun_induction cutBlockComment depth cs with
  | case1 cs => exact .inl (closesAtEnd_nil.mpr rfl)
  | case2 depth => exact .inr ⟨staysOpen_nil.mpr (Nat.succ_pos _), rfl⟩
  | case3 depth cs inside rest cut ih =>
    rw [cut] at ih
    simpa [commentMarks] using ih
  | case4 depth cs inside rest cut ih =>
    rw [cut] at ih
    simpa [commentMarks] using ih
  | case5 depth c cs notOpening notClosing inside rest cut ih =>
    have head := head_inside depth cs
    rw [cut] at ih head
    rw [commentMarks_cons]
    · simpa using ih
    · rw [head]
      exact head_ne_of_not_cons notOpening
    · rw [head]
      exact head_ne_of_not_cons notClosing

/-- A comment that is closed is cut where it ends, whatever follows. -/
theorem cutBlockComment_of_closes (closes : ClosesAtEnd depth (commentMarks inside))
    (rest : List Char) :
    cutBlockComment depth (inside ++ rest) = (inside, rest) := by
  fun_induction commentMarks inside generalizing depth with
  | case1 =>
    obtain rfl := closesAtEnd_nil.mp closes
    rw [cutBlockComment, List.nil_append]
  | case2 cs ih =>
    cases depth with
    | zero => cases closes.eq_nil
    | succ depth =>
      have cut := ih (closesAtEnd_opening.mp closes)
      simp only [List.cons_append, cutBlockComment, cut]
  | case3 cs ih =>
    cases depth with
    | zero => cases closes.eq_nil
    | succ depth =>
      have cut := ih (closesAtEnd_closing.mp closes)
      simp only [List.cons_append, cutBlockComment, cut]
  | case4 c cs notOpening notClosing ih =>
    cases depth with
    | zero => cases closes.eq_nil
    | succ depth =>
      have cut := ih (closesAtEnd_plain.mp closes)
      cases cs with
      | nil => simp [commentMarks] at closes
      | cons d cs =>
        have opening := head_ne_of_not_cons notOpening
        have closing := head_ne_of_not_cons notClosing
        rw [List.cons_append, cutBlockComment_cons, cut]
        · exact opening
        · exact closing

/-- A comment that is not closed is not cut where it is still open. -/
theorem length_le_of_stays (stays : StaysOpen depth (commentMarks inside)) (rest : List Char) :
    inside.length ≤ (cutBlockComment depth (inside ++ rest)).1.length := by
  fun_induction commentMarks inside generalizing depth with
  | case1 => exact Nat.zero_le _
  | case2 cs ih =>
    cases depth with
    | zero => exact absurd stays not_staysOpen_zero
    | succ depth => simpa [cutBlockComment] using ih (staysOpen_opening.mp stays)
  | case3 cs ih =>
    cases depth with
    | zero => exact absurd stays not_staysOpen_zero
    | succ depth => simpa [cutBlockComment] using ih (staysOpen_closing.mp stays)
  | case4 c cs notOpening notClosing ih =>
    cases depth with
    | zero => exact absurd stays not_staysOpen_zero
    | succ depth =>
      cases cs with
      | nil =>
        have head := head_inside depth (c :: rest)
        rw [List.head?_cons] at head
        obtain ⟨inside, cut⟩ := List.head?_eq_some_iff.mp head
        simp [cut]
      | cons d cs =>
        have longer := ih (staysOpen_plain.mp stays)
        have opening := head_ne_of_not_cons notOpening
        have closing := head_ne_of_not_cons notClosing
        rw [List.cons_append, cutBlockComment_cons]
        · simpa using longer
        · exact opening
        · exact closing

/-- A comment that does not close takes all the rest of the text. -/
theorem cutBlockComment_of_stays (stays : StaysOpen depth (commentMarks inside)) :
    cutBlockComment depth inside = (inside, []) := by
  have longer := length_le_of_stays stays []
  have whole := append_cutBlockComment depth inside
  rw [List.append_nil] at longer
  have done : (cutBlockComment depth inside).2 = [] := by
    have length := congrArg List.length whole
    rw [List.length_append] at length
    exact List.eq_nil_of_length_eq_zero (by omega)
  rw [done, List.append_nil] at whole
  exact Prod.ext whole done

end Comments

/-! ## What the first character tells -/

section First

variable {c : Char} {cs : List Char} {kind : Kind}

/-- A digit is ASCII, or far above all characters that begin anything else. -/
theorem Text.toNat_of_isDigit (h : Text.isDigit c) :
    48 ≤ c.toNat ∧ c.toNat < 58 ∨ 0x660 ≤ c.toNat := by
  obtain ⟨value, found⟩ := Option.isSome_iff_exists.mp h
  obtain ⟨z, found, -⟩ := Option.map_eq_some_iff.mp found
  have range := List.find?_some found
  have listed : z = 48 ∨ 0x660 ≤ z := by
    have all : ∀ z ∈ Text.digitZeros, z = 48 ∨ 0x660 ≤ z := by decide
    exact all z (List.mem_of_find?_eq_some found)
  simp only [Bool.decide_and, Bool.and_eq_true, decide_eq_true_eq] at range
  omega

/-- A word begins with a letter or an underscore, which lie in a short range. -/
theorem toNat_of_isWordStart (h : isWordStart c) : 65 ≤ c.toNat ∧ c.toNat ≤ 122 := by
  simp only [isWordStart, Char.isAlpha, Char.isUpper, Char.isLower, Bool.or_eq_true,
    Bool.and_eq_true, decide_eq_true_eq, ge_iff_le, UInt32.le_iff_toNat_le, beq_iff_eq] at h
  rcases h with alpha | rfl
  · have codes : 65 ≤ c.toNat ∧ c.toNat ≤ 90 ∨ 97 ≤ c.toNat ∧ c.toNat ≤ 122 := alpha
    omega
  · decide

/-- So none of them is a digit. -/
theorem isDigit_of_isWordStart (h : isWordStart c) : Text.isDigit c = false := by
  refine Bool.eq_false_iff.mpr fun digit => ?_
  have := toNat_of_isWordStart h
  have := Text.toNat_of_isDigit digit
  omega

theorem splitFirst_blank (h : isBlank c) : splitFirst c cs = (.blank c, cs) := if_pos h

/-- Two slashes begin a comment that ends before the next newline. -/
theorem splitFirst_slashes (cs : List Char) : splitFirst '/' ('/' :: cs) =
    (.lineComment ('/' :: '/' :: cs.takeWhile (· ≠ '\n')), cs.dropWhile (· ≠ '\n')) := by
  simp [splitFirst, isBlank]

/-- A slash and a star begin a comment that ends at its matching mark. -/
theorem splitFirst_opening (cs : List Char) : splitFirst '/' ('*' :: cs) =
    (.blockComment ('/' :: '*' :: (cutBlockComment 1 cs).1), (cutBlockComment 1 cs).2) := by
  simp [splitFirst, isBlank]

/-- A quote begins a string. -/
theorem splitFirst_quote (cs : List Char) : splitFirst '"' cs = cutString cs := by
  simp [splitFirst, isBlank]

/-- A digit begins a number. -/
theorem splitFirst_digit (h : Text.isDigit c) : splitFirst c cs = cutNumber (c :: cs) := by
  have range := Text.toNat_of_isDigit h
  have other : ∀ d : Char, d.toNat < 48 → c ≠ d := by
    rintro d low rfl
    omega
  simp [splitFirst, isBlank, h, other]

/-- A letter or an underscore begins a word. -/
theorem splitFirst_word (h : isWordStart c) : splitFirst c cs = cutWord (c :: cs) := by
  have range := toNat_of_isWordStart h
  have other : ∀ d : Char, d.toNat < 65 → c ≠ d := by
    rintro d low rfl
    omega
  simp [splitFirst, isBlank, h, other, isDigit_of_isWordStart h]

/-- A mark begins nothing else, but for the slashes of comments. -/
theorem start_of_ofChar (known : Kind.ofChar? c = some kind) :
    isBlank c = false ∧ c ≠ '\n' ∧ c ≠ '"' ∧ Text.isDigit c = false ∧ isWordStart c = false := by
  unfold Kind.ofChar? at known
  split at known <;> first | decide | cases known

/-- Any other known character is a mark, alone or with the one behind it. -/
theorem splitFirst_mark (known : Kind.ofChar? c = some kind)
    (alone : c = '/' → cs.head? ≠ some '/' ∧ cs.head? ≠ some '*') :
    splitFirst c cs = cutMark c cs := by
  obtain ⟨blank, newline, quote, digit, word⟩ := start_of_ofChar known
  have line : ¬ (c = '/' ∧ cs.head? = some '/') := fun h => (alone h.1).1 h.2
  have comment : ¬ (c = '/' ∧ cs.head? = some '*') := fun h => (alone h.1).2 h.2
  simp [splitFirst, blank, newline, quote, digit, word, line, comment]

/-- Each pair is a mark with an equality sign behind it. -/
theorem ofChar_of_ofPair {d : Char} (known : Kind.ofPair? c d = some kind) :
    (∃ kind, Kind.ofChar? c = some kind) ∧ c ≠ '/' ∧ d = '=' := by
  unfold Kind.ofPair? at known
  split at known <;> first | exact ⟨⟨_, rfl⟩, by decide, rfl⟩ | cases known

end First

/-! ## Cutting what has a shape -/

section Cut

variable {c : Char} {cs xs rest lexeme : List Char} {kind : Kind} {p : Char → Bool}

/-- A run of characters that ends where its rest begins is what is taken. -/
theorem takeWhile_run (all : ∀ x ∈ xs, p x) (stops : ∀ d ∈ rest.head?, p d = false) :
    (xs ++ rest).takeWhile p = xs := by
  rw [List.takeWhile_append_of_pos all]
  cases rest with
  | nil => simp
  | cons d rest => simp [stops d rfl]

/-- And its rest is what is left. -/
theorem dropWhile_run (all : ∀ x ∈ xs, p x) (stops : ∀ d ∈ rest.head?, p d = false) :
    (xs ++ rest).dropWhile p = rest := by
  rw [List.dropWhile_append_of_pos all]
  cases rest with
  | nil => rfl
  | cons d rest => simp [stops d rfl]

theorem ne_of_notMem (absent : c ∉ xs) : ∀ d ∈ xs, (d ≠ c : Bool) :=
  fun _ mem => decide_eq_true fun same => absent (same ▸ mem)

/-- The first character of the whole is the first one of the run. -/
theorem first_of_run (nonempty : xs ≠ []) (all : ∀ d ∈ xs, p d) (whole : xs ++ rest = c :: cs) :
    p c := by
  obtain ⟨d, ds, rfl⟩ := List.exists_cons_of_ne_nil nonempty
  obtain ⟨rfl, -⟩ := List.cons.inj whole
  exact all d List.mem_cons_self

/-- A word is cut where no part of it follows, and is a keyword if there is one. -/
theorem cutWord_run (parts : ∀ d ∈ xs, isWordPart d)
    (stops : ∀ d ∈ rest.head?, isWordPart d = false) :
    cutWord (xs ++ rest) = (.token (Kind.ofWord (String.ofList xs)) xs, rest) := by
  rw [cutWord, takeWhile_run parts stops, dropWhile_run parts stops]

/-- A number ends where neither a digit nor a point follows. -/
theorem cutNumber_whole (digits : ∀ d ∈ xs, Text.isDigit d)
    (stops : ∀ d ∈ rest.head?, Text.isDigit d = false) (noDot : rest.head? ≠ some '.') :
    cutNumber (xs ++ rest) = (.token .number xs, rest) := by
  rw [cutNumber, takeWhile_run digits stops, dropWhile_run digits stops]
  split
  · exact absurd rfl noDot
  · rfl

/-- A dot and a digit behind digits begin a fraction. -/
theorem cutNumber_dot {d : Char} {after : List Char} (digits : ∀ d ∈ xs, Text.isDigit d)
    (digit : Text.isDigit d) :
    cutNumber (xs ++ '.' :: d :: after) =
      (.token .number (xs ++ '.' :: (d :: after).takeWhile Text.isDigit),
        (d :: after).dropWhile Text.isDigit) := by
  have dot : ∀ e ∈ ('.' :: d :: after).head?, Text.isDigit e = false := by
    rintro e ⟨⟩
    decide
  rw [cutNumber, takeWhile_run digits dot, dropWhile_run digits dot]
  simp only [digit, if_true]

/-- A point with a digit behind it goes on with a number. -/
theorem cutNumber_fraction {es : List Char} (digits : ∀ d ∈ xs, Text.isDigit d)
    (nonempty : es ≠ []) (digits' : ∀ d ∈ es, Text.isDigit d)
    (stops : ∀ d ∈ rest.head?, Text.isDigit d = false) :
    cutNumber (xs ++ '.' :: (es ++ rest)) = (.token .number (xs ++ '.' :: es), rest) := by
  obtain ⟨e, es, rfl⟩ := List.exists_cons_of_ne_nil nonempty
  rw [List.cons_append, cutNumber_dot digits (digits' e List.mem_cons_self), ← List.cons_append,
    takeWhile_run digits' stops, dropWhile_run digits' stops]

/-- A string ends at the first quote behind its opening one. -/
theorem cutString_closed (unquoted : '"' ∉ xs) (rest : List Char) :
    cutString (xs ++ '"' :: rest) = (.token .string ('"' :: (xs ++ ['"'])), rest) := by
  have all := ne_of_notMem unquoted
  rw [cutString, takeWhile_run all (by simp), dropWhile_run all (by simp)]

/-- Without another quote it takes all the rest of the text. -/
theorem cutString_open (unquoted : '"' ∉ xs) : cutString xs = (.openString ('"' :: xs), []) := by
  have all := ne_of_notMem unquoted
  rw [cutString, List.takeWhile_eq_self_iff.mpr all, List.dropWhile_eq_nil_iff.mpr all]

/-- Nothing, or a blank, follows. -/
def Separated (rest : List Char) : Prop := ∀ d ∈ rest.head?, isBlank d

/-- A blank stops whatever does not take blanks in. -/
theorem Separated.stops (separated : Separated rest) (blanks : ∀ d, isBlank d → p d = false) :
    ∀ d ∈ rest.head?, p d = false :=
  fun d head => blanks d (separated d head)

/-- The blanks are the space, the tab and the carriage return. -/
theorem eq_of_isBlank (h : isBlank c) : c = ' ' ∨ c = '\t' ∨ c = '\r' := by
  simpa [isBlank, or_assoc] using h

theorem isDigit_of_isBlank (h : isBlank c) : Text.isDigit c = false := by
  rcases eq_of_isBlank h with rfl | rfl | rfl <;> decide

/-- A blank is no part of a word. -/
theorem isWordPart_of_isBlank (h : isBlank c) : isWordPart c = false := by
  rcases eq_of_isBlank h with rfl | rfl | rfl <;> decide

/-- What is separated does not go on with a character that is no blank. -/
theorem Separated.head_ne (separated : Separated rest) (solid : isBlank c = false) :
    rest.head? ≠ some c := fun head => by
  rw [separated c head] at solid
  cases solid

theorem isWordPart_of_isWordStart (h : isWordStart c) : isWordPart c := by
  simp only [isWordStart, isWordPart, Char.isAlphanum, Bool.or_eq_true] at h ⊢
  exact h.imp .inl id

/-- All characters of a word are parts of words, the first one too. -/
theorem isWordPart_of_mem (start : isWordStart c) (parts : ∀ d ∈ cs, isWordPart d) :
    ∀ d ∈ c :: cs, isWordPart d :=
  List.forall_mem_cons.mpr ⟨isWordPart_of_isWordStart start, parts⟩

/-- A lexeme is cut off as a whole if a blank follows it. -/
theorem splitFirst_lexeme (h : Lexeme kind lexeme) (separated : Separated rest)
    (whole : lexeme ++ rest = c :: cs) : splitFirst c cs = (.token kind lexeme, rest) := by
  have noDigit := separated.stops fun d => isDigit_of_isBlank
  cases h with
  | @word c' ds start parts =>
    have first : c' = c := (List.cons.inj whole).1
    rw [splitFirst_word (first ▸ start), ← whole]
    exact cutWord_run (isWordPart_of_mem start parts)
      (separated.stops fun d => isWordPart_of_isBlank)
  | whole nonempty digits =>
    rw [splitFirst_digit (first_of_run nonempty digits whole), ← whole]
    exact cutNumber_whole digits noDigit (separated.head_ne (by decide))
  | @fraction ds es nonempty digits nonempty' digits' =>
    rw [List.append_assoc] at whole
    rw [splitFirst_digit (first_of_run nonempty digits whole), ← whole]
    exact cutNumber_fraction digits nonempty' digits' noDigit
  | @string inside unquoted =>
    obtain ⟨rfl, rfl⟩ := List.cons.inj whole
    rw [splitFirst_quote]
    simpa using cutString_closed unquoted rest
  | @pair c' d _ known =>
    obtain ⟨rfl, rfl⟩ := List.cons.inj whole
    obtain ⟨⟨kind', known'⟩, ne, -⟩ := ofChar_of_ofPair known
    rw [splitFirst_mark known' fun eq => absurd eq ne]
    simp [cutMark, known]
  | @mark c' _ known =>
    obtain ⟨rfl, rfl⟩ : c' = c ∧ rest = cs := List.cons.inj whole
    rw [splitFirst_mark known fun _ =>
      ⟨separated.head_ne (by decide), separated.head_ne (by decide)⟩]
    cases rest with
    | nil => simp [cutMark, known]
    | cons d rest =>
      have lone : Kind.ofPair? c' d = none := by
        refine Option.eq_none_iff_forall_ne_some.mpr fun kind' known' => ?_
        exact separated.head_ne (by decide) (congrArg some (ofChar_of_ofPair known').2.2)
      simp [cutMark, known, lone]

/-- No segment begins with the character. -/
theorem splitFirst_alien (alien : ∀ s : Segment, s.Regular → s.chars.head? ≠ some c) :
    splitFirst c cs = (.unexpected c, cs) := by
  have blank : isBlank c = false := Bool.eq_false_iff.mpr fun h => alien _ (.blank h) rfl
  have newline : c ≠ '\n' := by
    rintro rfl
    exact alien (.newlines ['\n']) (.newlines (by simp) (by simp)) rfl
  have slash : c ≠ '/' := by
    rintro rfl
    exact alien _ (.token (.mark (c := '/') rfl)) rfl
  have quote : c ≠ '"' := by
    rintro rfl
    exact alien (.openString ['"']) (.openString (by simp)) rfl
  have digit : Text.isDigit c = false := Bool.eq_false_iff.mpr fun h =>
    alien (.token .number [c]) (.token (.whole (by simp) (by simpa using h))) rfl
  have word : isWordStart c = false := Bool.eq_false_iff.mpr fun h =>
    alien (.token _ [c]) (.token (.word h (by simp))) rfl
  have mark : Kind.ofChar? c = none := Option.eq_none_iff_forall_ne_some.mpr fun kind known =>
    alien _ (.token (.mark known)) rfl
  have pair : ∀ d, Kind.ofPair? c d = none := fun d =>
    Option.eq_none_iff_forall_ne_some.mpr fun kind known => alien _ (.token (.pair known)) rfl
  cases cs <;> simp [splitFirst, blank, newline, slash, quote, digit, word, cutMark, mark, pair]

/-- A text that is one segment is cut into that segment. -/
theorem splitFirst_alone {s : Segment} (shaped : s.Shaped) (whole : s.chars = c :: cs) :
    splitFirst c cs = (s, []) := by
  cases shaped with
  | unexpected alien =>
    obtain ⟨rfl, rfl⟩ := List.cons.inj whole
    exact splitFirst_alien alien
  | regular regular =>
    cases regular with
    | blank h =>
      obtain ⟨rfl, rfl⟩ := List.cons.inj whole
      exact splitFirst_blank h
    | newlines nonempty all =>
      obtain rfl : _ = c :: cs := whole
      obtain ⟨rfl, all'⟩ := List.forall_mem_cons.mp all
      have all : ∀ d ∈ cs, (d = '\n' : Bool) := fun d mem => decide_eq_true (all' d mem)
      rw [splitFirst_newline, List.takeWhile_eq_self_iff.mpr all, List.dropWhile_eq_nil_iff.mpr all]
    | @lineComment text line =>
      obtain ⟨rfl, rfl⟩ := List.cons.inj whole
      have all := ne_of_notMem line
      rw [splitFirst_slashes, List.takeWhile_eq_self_iff.mpr all, List.dropWhile_eq_nil_iff.mpr all]
    | closedComment closes =>
      obtain ⟨rfl, rfl⟩ := List.cons.inj whole
      have cut := cutBlockComment_of_closes closes []
      rw [List.append_nil] at cut
      rw [splitFirst_opening, cut]
    | openComment stays =>
      obtain ⟨rfl, rfl⟩ := List.cons.inj whole
      rw [splitFirst_opening, cutBlockComment_of_stays stays]
    | token h => exact splitFirst_lexeme h (by simp [Separated]) ((List.append_nil _).trans whole)
    | openString unquoted =>
      obtain ⟨rfl, rfl⟩ := List.cons.inj whole
      rw [splitFirst_quote, cutString_open unquoted]

/-- A character of no class begins no segment. -/
theorem alien_of (blank : isBlank c = false) (newline : c ≠ '\n') (quote : c ≠ '"')
    (digit : Text.isDigit c = false) (word : isWordStart c = false) (mark : Kind.ofChar? c = none)
    (s : Segment) (regular : s.Regular) : s.chars.head? ≠ some c := by
  intro head
  obtain ⟨cs, whole⟩ := List.head?_eq_some_iff.mp head
  have slash : c ≠ '/' := by
    rintro rfl
    cases mark
  cases regular with
  | blank h =>
    obtain ⟨rfl, -⟩ := List.cons.inj whole
    rw [blank] at h
    cases h
  | newlines nonempty all =>
    obtain rfl : _ = c :: cs := whole
    exact newline (all c List.mem_cons_self)
  | lineComment => exact slash (List.cons.inj whole).1.symm
  | closedComment => exact slash (List.cons.inj whole).1.symm
  | openComment => exact slash (List.cons.inj whole).1.symm
  | openString => exact quote (List.cons.inj whole).1.symm
  | token h =>
    cases h with
    | word start parts =>
      obtain ⟨rfl, -⟩ := List.cons.inj whole
      rw [word] at start
      cases start
    | whole nonempty digits =>
      obtain rfl : _ = c :: cs := whole
      rw [digits c List.mem_cons_self] at digit
      cases digit
    | fraction nonempty digits =>
      obtain ⟨d, ds, rfl⟩ := List.exists_cons_of_ne_nil nonempty
      obtain ⟨rfl, -⟩ := List.cons.inj whole
      rw [digits d List.mem_cons_self] at digit
      cases digit
    | string => exact quote (List.cons.inj whole).1.symm
    | pair known =>
      obtain ⟨rfl, -⟩ := List.cons.inj whole
      obtain ⟨⟨kind, known⟩, -⟩ := ofChar_of_ofPair known
      rw [mark] at known
      cases known
    | mark known =>
      obtain ⟨rfl, -⟩ := List.cons.inj whole
      rw [mark] at known
      cases known

/-- What is cut at a quote is a string or an open one. -/
theorem regular_cutString (cs : List Char) : (cutString cs).1.Regular := by
  have unquoted : '"' ∉ cs.takeWhile (· ≠ '"') := fun mem => by
    simpa using List.mem_takeWhile_imp mem
  unfold cutString
  cases behind : cs.dropWhile (· ≠ '"') with
  | nil => exact .openString unquoted
  | cons quote rest =>
    have stop := List.head?_dropWhile_not (· ≠ '"') cs
    rw [behind] at stop
    obtain rfl : quote = '"' := by simpa using stop
    exact .token (.string unquoted)

/-- What is cut at a digit is a number. -/
theorem regular_cutNumber (digit : Text.isDigit c) : (cutNumber (c :: cs)).1.Regular := by
  have digits : ∀ cs : List Char, ∀ d ∈ cs.takeWhile Text.isDigit, Text.isDigit d :=
    fun _ _ mem => List.mem_takeWhile_imp mem
  have nonempty : ∀ {d : Char} {ds : List Char}, Text.isDigit d →
      (d :: ds).takeWhile Text.isDigit ≠ [] := by
    intro d ds digit
    rw [List.takeWhile_cons_of_pos digit]
    exact List.cons_ne_nil _ _
  unfold cutNumber
  dsimp only
  split
  · rename_i d after behind
    split
    · rename_i digit'
      exact .token (.fraction (nonempty digit) (digits _) (nonempty digit') (digits _))
    · exact .token (.whole (nonempty digit) (digits _))
  · exact .token (.whole (nonempty digit) (digits _))

/-- What is cut at a letter is a word. -/
theorem regular_cutWord (start : isWordStart c) : (cutWord (c :: cs)).1.Regular := by
  rw [cutWord, List.takeWhile_cons_of_pos (isWordPart_of_isWordStart start)]
  exact .token (.word start fun d mem => List.mem_takeWhile_imp mem)

/-- A mark is a pair, or a single character, or an unexpected one. -/
theorem cutMark_cases (c : Char) (cs : List Char) :
    (∃ kind d, Kind.ofPair? c d = some kind ∧ (cutMark c cs).1 = .token kind [c, d]) ∨
      (∃ kind, Kind.ofChar? c = some kind ∧ (cutMark c cs).1 = .token kind [c]) ∨
        Kind.ofChar? c = none ∧ (cutMark c cs).1 = .unexpected c := by
  have single : (∃ kind, Kind.ofChar? c = some kind ∧
      ((Kind.ofChar? c).map (Segment.token · [c])).getD (.unexpected c) = .token kind [c]) ∨
      Kind.ofChar? c = none ∧
        ((Kind.ofChar? c).map (Segment.token · [c])).getD (.unexpected c) = .unexpected c := by
    cases known : Kind.ofChar? c with
    | none => exact .inr ⟨rfl, rfl⟩
    | some kind => exact .inl ⟨kind, rfl, rfl⟩
  unfold cutMark
  split
  · rename_i d rest
    split
    · rename_i kind known
      exact .inl ⟨kind, d, known, rfl⟩
    · exact .inr single
  · exact .inr single

/-- What is cut off a text has a shape. -/
theorem shaped_splitFirst (c : Char) (cs : List Char) : (splitFirst c cs).1.Shaped := by
  unfold splitFirst
  split
  · rename_i blank
    exact .regular (.blank blank)
  rename_i blank
  split
  · rename_i newline
    refine .regular (.newlines (by simp) (List.forall_mem_cons.mpr ⟨newline, fun d mem => ?_⟩))
    simpa using List.mem_takeWhile_imp mem
  rename_i newline
  split
  · rename_i line
    obtain ⟨rfl, slash⟩ := line
    obtain ⟨rest, rfl⟩ := List.head?_eq_some_iff.mp slash
    refine .regular (.lineComment fun mem => ?_)
    simpa using List.mem_takeWhile_imp mem
  split
  · rename_i comment
    obtain ⟨rfl, star⟩ := comment
    obtain ⟨rest, rfl⟩ := List.head?_eq_some_iff.mp star
    rcases closes_or_stays 1 rest with closes | ⟨stays, -⟩
    · exact .regular (.closedComment closes)
    · exact .regular (.openComment stays)
  split
  · exact .regular (regular_cutString cs)
  rename_i quote
  split
  · rename_i digit
    exact .regular (regular_cutNumber digit)
  rename_i digit
  split
  · rename_i start
    exact .regular (regular_cutWord start)
  rename_i start
  rcases cutMark_cases c cs with ⟨kind, d, known, cut⟩ | ⟨kind, known, cut⟩ | ⟨unknown, cut⟩
  · rw [cut]
    exact .regular (.token (.pair known))
  · rw [cut]
    exact .regular (.token (.mark known))
  · rw [cut]
    exact .unexpected (alien_of (Bool.eq_false_iff.mpr blank) newline quote
      (Bool.eq_false_iff.mpr digit) (Bool.eq_false_iff.mpr start) unknown)

end Cut

end LoxLang
