/-
LoxLang.Proofs.Tree.Bracketed: a text with brackets is put together in one way only.

Where words have no delimiters in them, a word reaches to the next delimiter, and a bracketed part
to the bracket that closes it.  So the text tells the parts, one after the other, as long as what
follows a part begins with a delimiter.

* `Bracketed`: a word, or parts between parentheses or between braces.
* `Bracketed.chars`: its text.
* `Bracketed.IsClear`: its words are not empty and have no delimiters in them.

Main statements: `chars_unique` for one and `row_unique` for a row of them; `chars_inj` and
`row_inj`, if nothing follows.
-/
import LoxLang.Tree.Print

namespace LoxLang

/-- A text with brackets. -/
inductive Bracketed where
  | word (s : String)
  | parens (parts : List Bracketed)
  | braces (parts : List Bracketed)

/-- The characters that a word ends before. -/
def isDelimiter (c : Char) : Bool :=
  c == ' ' || c == '\n' || c == '(' || c == ')' || c == '\x7b' || c == '\x7d'

/-- The characters that close a bracket. -/
def isClosing (c : Char) : Bool := c == ')' || c == '\x7d'

theorem isDelimiter_of_isClosing {c : Char} (h : isClosing c = true) : isDelimiter c = true := by
  simp only [isClosing, isDelimiter, Bool.or_eq_true] at h ⊢
  rcases h with h | h <;> simp [h]

namespace Bracketed

mutual

/-- The text: parts stand with single blanks between them. -/
def chars : Bracketed → List Char
  | .word s => s.toList
  | .parens parts => LoxLang.parens (charsAll parts)
  | .braces parts => LoxLang.braces (charsAll parts)

def charsAll : List Bracketed → List (List Char)
  | [] => []
  | b :: bs => b.chars :: charsAll bs

end

mutual

/-- Words are not empty and have no delimiters in them. -/
def IsClear : Bracketed → Prop
  | .word s => s.toList ≠ [] ∧ ∀ c ∈ s.toList, isDelimiter c = false
  | .parens parts | .braces parts => AllClear parts

def AllClear : List Bracketed → Prop
  | [] => True
  | b :: bs => b.IsClear ∧ AllClear bs

end

end Bracketed

/-- What follows a part: nothing, or a delimiter. -/
def Delimited (rest : List Char) : Prop := ∀ c ∈ rest.head?, isDelimiter c = true

/-- What follows the last part of a row: nothing, or a closing bracket. -/
def Closed (rest : List Char) : Prop := ∀ c ∈ rest.head?, isClosing c = true

/-- Parts with a character between each two of them. -/
abbrev row (sep : Char) (parts : List Bracketed) : List Char :=
  [sep].intercalate (Bracketed.charsAll parts)

section Unique

variable {b b' : Bracketed} {bs : List Bracketed} {sep : Char} {rest rest' : List Char}

theorem Closed.delimited (h : Closed rest) : Delimited rest :=
  fun c mem => isDelimiter_of_isClosing (h c mem)

theorem row_cons_cons : row sep (b :: b' :: bs) = b.chars ++ sep :: row sep (b' :: bs) := by
  simp [row, Bracketed.charsAll, List.intercalate]

theorem row_singleton : row sep [b] = b.chars := by
  simp [row, Bracketed.charsAll, List.intercalate]

/-- A part begins with a character that closes no bracket. -/
theorem Bracketed.IsClear.begins (clear : b.IsClear) :
    ∃ c cs, b.chars = c :: cs ∧ isClosing c = false := by
  cases b with
  | word s =>
    obtain ⟨nonempty, plain⟩ := clear
    obtain ⟨c, cs, eq⟩ := List.exists_cons_of_ne_nil nonempty
    refine ⟨c, cs, eq, Bool.eq_false_iff.mpr fun closes => ?_⟩
    have other := plain c (by simp [eq])
    rw [isDelimiter_of_isClosing closes] at other
    cases other
  | parens parts => exact ⟨'(', _, rfl, rfl⟩
  | braces parts => exact ⟨'\x7b', _, rfl, rfl⟩

/-- A row that is not empty does not begin with what may follow one. -/
theorem row_ne_closed (clear : b.IsClear) (closed : Closed rest) :
    rest ≠ row sep (b :: bs) ++ rest' := by
  rintro rfl
  obtain ⟨c, cs, eq, opens⟩ := clear.begins
  have head : c ∈ (row sep (b :: bs) ++ rest').head? := by
    cases bs with
    | nil => simp [row_singleton, eq]
    | cons b' bs => simp [row_cons_cons, eq]
  rw [closed c head] at opens
  cases opens

/-- A word reaches to the next delimiter. -/
theorem word_unique {cs cs' : List Char} (plain : ∀ c ∈ cs, isDelimiter c = false)
    (plain' : ∀ c ∈ cs', isDelimiter c = false) (delimited : Delimited rest)
    (delimited' : Delimited rest') (same : cs ++ rest = cs' ++ rest') :
    cs = cs' ∧ rest = rest' := by
  have taken {cs rest : List Char} (plain : ∀ c ∈ cs, isDelimiter c = false)
      (delimited : Delimited rest) : (cs ++ rest).takeWhile (fun c => !isDelimiter c) = cs := by
    rw [List.takeWhile_append_of_pos fun c mem => by simp [plain c mem]]
    cases rest with
    | nil => simp
    | cons c rest => simp [delimited c rfl]
  have whole : cs = cs' := by
    rw [← taken plain delimited, same, taken plain' delimited']
  subst whole
  exact ⟨rfl, List.append_cancel_left same⟩

/-- A word does not begin as a bracketed part does. -/
theorem word_ne_bracket {s : String} {opening : Char} {cs : List Char}
    (clear : (Bracketed.word s).IsClear) (bracket : isDelimiter opening = true) :
    s.toList ++ rest ≠ opening :: cs := by
  obtain ⟨nonempty, plain⟩ := clear
  obtain ⟨c, cs', eq⟩ := List.exists_cons_of_ne_nil nonempty
  rintro same
  rw [eq] at same plain
  obtain ⟨rfl, -⟩ := List.cons.inj same
  rw [plain c List.mem_cons_self] at bracket
  cases bracket

mutual

/-- The text of a part tells the part, whatever follows it. -/
theorem chars_unique : ∀ {b b' : Bracketed} {rest rest' : List Char}, b.IsClear → b'.IsClear →
    Delimited rest → Delimited rest' → b.chars ++ rest = b'.chars ++ rest' → b = b' ∧ rest = rest'
  | .word s, .word s', _, _, clear, clear', delimited, delimited', same => by
    obtain ⟨chars, behind⟩ := word_unique clear.2 clear'.2 delimited delimited' same
    exact ⟨congrArg _ (String.toList_inj.mp chars), behind⟩
  | .parens bs, .parens bs', rest, rest', clear, clear', _, _, same => by
    have inside : row ' ' bs ++ (')' :: rest) = row ' ' bs' ++ (')' :: rest') := by
      simpa [Bracketed.chars, parens, words] using same
    obtain ⟨rfl, behind⟩ := row_unique ' ' rfl rfl clear clear' (by simp [Closed, isClosing])
      (by simp [Closed, isClosing]) inside
    exact ⟨rfl, List.tail_eq_of_cons_eq behind⟩
  | .braces bs, .braces bs', rest, rest', clear, clear', _, _, same => by
    have inside : row ' ' bs ++ ('\x7d' :: rest) = row ' ' bs' ++ ('\x7d' :: rest') := by
      simpa [Bracketed.chars, braces, words] using same
    obtain ⟨rfl, behind⟩ := row_unique ' ' rfl rfl clear clear' (by simp [Closed, isClosing])
      (by simp [Closed, isClosing]) inside
    exact ⟨rfl, List.tail_eq_of_cons_eq behind⟩
  | .word _, .parens _, _, _, clear, _, _, _, same => absurd same (word_ne_bracket clear rfl)
  | .word _, .braces _, _, _, clear, _, _, _, same => absurd same (word_ne_bracket clear rfl)
  | .parens _, .word _, _, _, _, clear, _, _, same => absurd same.symm (word_ne_bracket clear rfl)
  | .braces _, .word _, _, _, _, clear, _, _, same => absurd same.symm (word_ne_bracket clear rfl)
  | .parens _, .braces _, _, _, _, _, _, _, same => by cases (List.cons.inj same).1
  | .braces _, .parens _, _, _, _, _, _, _, same => by cases (List.cons.inj same).1

/-- The text of a row tells its parts, whatever closes it. -/
theorem row_unique (sep : Char) (separates : isDelimiter sep = true)
    (opens : isClosing sep = false) :
    ∀ {bs bs' : List Bracketed} {rest rest' : List Char}, Bracketed.AllClear bs →
      Bracketed.AllClear bs' → Closed rest → Closed rest' →
      row sep bs ++ rest = row sep bs' ++ rest' → bs = bs' ∧ rest = rest'
  | [], [], _, _, _, _, _, _, same => ⟨rfl, same⟩
  | [], _ :: _, _, _, _, clear', closed, _, same => absurd same (row_ne_closed clear'.1 closed)
  | _ :: _, [], _, _, clear, _, _, closed', same => absurd same.symm (row_ne_closed clear.1 closed')
  | b :: bs, b' :: bs', rest, rest', clear, clear', closed, closed', same => by
    have between (cs : List Char) : Delimited (sep :: cs) := by simpa [Delimited] using separates
    have apart {rest cs : List Char} (closed : Closed rest) : rest ≠ sep :: cs := by
      rintro rfl
      rw [closed sep rfl] at opens
      cases opens
    cases bs with
    | nil =>
      cases bs' with
      | nil =>
        rw [row_singleton, row_singleton] at same
        obtain ⟨rfl, behind⟩ :=
          chars_unique clear.1 clear'.1 closed.delimited closed'.delimited same
        exact ⟨rfl, behind⟩
      | cons d' ds' =>
        rw [row_singleton, row_cons_cons, List.append_assoc] at same
        have behind := (chars_unique clear.1 clear'.1 closed.delimited (between _) same).2
        exact absurd behind (apart closed)
    | cons d ds =>
      cases bs' with
      | nil =>
        rw [row_singleton, row_cons_cons, List.append_assoc] at same
        have behind := (chars_unique clear.1 clear'.1 (between _) closed'.delimited same).2
        exact absurd behind.symm (apart closed')
      | cons d' ds' =>
        rw [row_cons_cons, row_cons_cons, List.append_assoc, List.append_assoc] at same
        obtain ⟨rfl, behind⟩ := chars_unique clear.1 clear'.1 (between _) (between _) same
        have others := row_unique sep separates opens clear.2 clear'.2 closed closed'
          (List.tail_eq_of_cons_eq behind)
        exact ⟨congrArg _ others.1, others.2⟩

end

/-- A text is that of one part only. -/
theorem chars_inj (clear : b.IsClear) (clear' : b'.IsClear) (same : b.chars = b'.chars) :
    b = b' := by
  have whole : b.chars ++ [] = b'.chars ++ [] := by rw [same]
  exact (chars_unique clear clear' (by simp [Delimited]) (by simp [Delimited]) whole).1

/-- A text is that of one row only. -/
theorem row_inj (sep : Char) (separates : isDelimiter sep = true) (opens : isClosing sep = false)
    {bs' : List Bracketed} (clear : Bracketed.AllClear bs) (clear' : Bracketed.AllClear bs')
    (same : row sep bs = row sep bs') : bs = bs' := by
  have whole : row sep bs ++ [] = row sep bs' ++ [] := by rw [same]
  exact (row_unique sep separates opens clear clear' (by simp [Closed]) (by simp [Closed]) whole).1

end Unique

end LoxLang
