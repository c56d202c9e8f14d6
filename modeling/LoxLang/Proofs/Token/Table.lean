/-
LoxLang.Proofs.Token.Table: the lines and the columns of the table of tokens.

The three columns in front of a literal never break a line, since a lexeme that holds a newline is
escaped.  The literal is written as it is, so the row of a string goes on for as many lines as the
string does.  A lexeme is cut to the width of its column before it is escaped; it therefore keeps to
the width unless its escapes are what makes it too long.

* `Token.front`, `Token.lexemeColumn`: a row up to the lexeme, and the lexeme filled up to its
  width.
* `Token.lines`: the lines that a row takes.

Main statement: `tokenTable_scan`.
-/
import LoxLang.Token.Table
import LoxLang.Proofs.Number.Written
import LoxLang.Proofs.Token.Lines

namespace LoxLang

/-! ## Lines of a text -/

section TextLines

variable {cs ds : List Char}

/-- What is put in front of a text stands on its first line. -/
theorem splitOn_append_of_notMem (line : '\n' ∉ cs) :
    (cs ++ ds).splitOn '\n' = (ds.splitOn '\n').modifyHead (cs ++ ·) := by
  induction cs with
  | nil => cases h : ds.splitOn '\n' <;> simp [h]
  | cons c cs ih =>
    obtain ⟨other, line⟩ := not_or.mp (mt List.mem_cons.mpr line)
    have other : (c == '\n') = false := beq_eq_false_iff_ne.mpr (Ne.symm other)
    rw [List.cons_append, List.splitOn_cons_eq_if_modifyHead, other, ih line]
    cases ds.splitOn '\n' <;> rfl

/-- Texts that are ended one after the other have the lines of each, and an empty one at the end. -/
theorem splitOn_ended (texts : List (List Char)) :
    (texts.flatMap (· ++ ['\n'])).splitOn '\n' = texts.flatMap (·.splitOn '\n') ++ [[]] := by
  induction texts with
  | nil => rfl
  | cons text texts ih =>
    rw [List.flatMap_cons, List.append_assoc, List.singleton_append,
      List.splitOn_append_cons_self, ih, List.flatMap_cons, List.append_assoc]

/-- A text has one line more than newlines. -/
theorem length_splitOn_newline (cs : List Char) :
    (cs.splitOn '\n').length = newlineCount cs + 1 := by
  induction cs with
  | nil => rfl
  | cons c cs ih =>
    rw [List.splitOn_cons_eq_if_modifyHead]
    by_cases newline : c = '\n'
    · subst newline
      simpa [newlineCount] using ih
    · simpa [newlineCount, newline] using ih

/-- To fill a text up adds no newline. -/
theorem newline_notMem_padRight (width : Nat) (line : '\n' ∉ cs) : '\n' ∉ padRight width cs := by
  intro mem
  rcases List.mem_append.mp mem with mem | mem
  · exact line mem
  · cases List.eq_of_mem_replicate mem

/-- A text is filled up to the width, unless it is longer. -/
theorem length_padRight (width : Nat) (cs : List Char) :
    (padRight width cs).length = max width cs.length := by
  rw [padRight, List.length_append, List.length_replicate]
  omega

end TextLines

/-! ## Escaped texts -/

namespace Text

theorem newline_notMem_toDigits (n : Nat) : '\n' ∉ Nat.toDigits 16 n := by
  have digit (m : Nat) : '\n' ∉ [m.digitChar] := by simp
  induction n using Nat.strongRecOn with
  | ind n ih =>
    rw [Nat.toDigits_eq_if (by decide)]
    split
    · exact digit n
    · intro mem
      rcases List.mem_append.mp mem with mem | mem
      · exact ih _ (by omega) mem
      · exact digit _ mem

theorem newline_notMem_hexText (width n : Nat) : '\n' ∉ hexText width n := by
  intro mem
  rcases List.mem_append.mp mem with mem | mem
  · cases List.eq_of_mem_replicate mem
  · exact newline_notMem_toDigits n mem

/-- An escaped character is no newline, unless the quote is one. -/
theorem newline_notMem_escapeChar {quote : Char} (other : quote ≠ '\n') (c : Char) :
    '\n' ∉ escapeChar quote c := by
  have hex (width : Nat) := newline_notMem_hexText width c.toNat
  unfold escapeChar
  split
  · rename_i marked
    rcases marked with rfl | rfl
    · decide
    · simpa using other.symm
  split
  · decide
  split
  · decide
  split
  · decide
  split
  · rename_i newline _ _ _
    simpa using Ne.symm newline
  all_goals
    split_ifs <;> simp [hex]

theorem newline_notMem_escape (cs : List Char) : '\n' ∉ escape cs := by
  have other : quoteFor cs ≠ '\n' := by
    unfold quoteFor
    split <;> decide
  intro mem
  obtain ⟨c, -, mem⟩ := List.mem_flatMap.mp mem
  exact newline_notMem_escapeChar other c mem

end Text

/-! ## The columns of a row -/

/-- A row up to the column of its lexeme: the line and the kind. -/
def Token.front (t : Token) : List Char :=
  padRight lineWidth (Number.digitsOf t.line) ++ ['|', ' ']
    ++ padRight kindWidth t.kind.name.toList ++ ['|', ' ']

/-- The column of the lexeme. -/
def Token.lexemeColumn (t : Token) : List Char :=
  padRight lexemeWidth (shownLexeme t.lexeme.toList)

/-- The lines of a row: those of the literal, the first one behind the other columns. -/
def Token.lines (t : Token) : List (List Char) :=
  (t.literal.shown.splitOn '\n').modifyHead (t.front ++ t.lexemeColumn ++ ['|', ' '] ++ ·)

/-- How many characters a text has when it is escaped. -/
def escapedLength (cs : List Char) : Nat :=
  (cs.map fun c => (Text.escapeChar (Text.quoteFor cs) c).length).sum

section Columns

variable {k : Kind} {t : Token}

/-- So the lexeme that is shown stays on one line. -/
theorem newline_notMem_shownLexeme (cs : List Char) : '\n' ∉ shownLexeme cs := by
  unfold shownLexeme
  dsimp only
  split
  · exact Text.newline_notMem_escape _
  · rename_i plain
    simp only [Bool.or_eq_true, List.contains_iff_mem, not_or] at plain
    exact plain.1

/-- A lexeme that is cut fits into its column. -/
theorem length_cutLexeme (cs : List Char) : (cutLexeme cs).length ≤ lexemeWidth := by
  unfold cutLexeme
  split
  · rw [List.length_append, List.length_take]
    exact Nat.add_le_add_right (Nat.min_le_left _ _) 3
  · exact Nat.le_of_not_lt ‹_›

/-- A lexeme keeps to the width of its column, but for what its escapes add. -/
theorem length_lexemeColumn (t : Token) :
    let cut := cutLexeme t.lexeme.toList
    t.lexemeColumn.length =
      if '\n' ∈ cut ∨ '\t' ∈ cut then max lexemeWidth (escapedLength cut) else lexemeWidth := by
  intro cut
  have fits : cut.length ≤ lexemeWidth := length_cutLexeme _
  rw [Token.lexemeColumn, length_padRight, shownLexeme]
  simp only [Bool.or_eq_true, List.contains_iff_mem]
  split
  · rw [Text.escape, List.length_flatMap]
    rfl
  · exact max_eq_left fits

/-- The names of all kinds that a scan yields fit into their column. -/
theorem Kind.length_name (scanned : ∀ name, k ≠ .other name) :
    k.name.toList.length ≤ kindWidth ∧ '\n' ∉ k.name.toList := by
  cases k with
  | other name => exact absurd rfl (scanned name)
  | _ => decide

/-- The columns of the line and the kind have a fixed width while the line has not too many
digits. -/
theorem length_front (scanned : ∀ name, t.kind ≠ .other name)
    (short : (Number.digitsOf t.line).length ≤ lineWidth) : t.front.length = 24 := by
  have kind := max_eq_left (Kind.length_name scanned).1
  simp only [Token.front, List.length_append, length_padRight, max_eq_left short, kind]
  rfl

theorem newline_notMem_digitsOf (n : Nat) : '\n' ∉ Number.digitsOf n :=
  notMem_of_forall (Number.isDigit_digitsOf n) (by decide)

/-- The columns before the literal stay on one line. -/
theorem newline_notMem_columns (scanned : ∀ name, t.kind ≠ .other name) :
    '\n' ∉ t.front ++ t.lexemeColumn ++ ['|', ' '] := by
  have line := newline_notMem_padRight lineWidth (newline_notMem_digitsOf t.line)
  have kind := newline_notMem_padRight kindWidth (Kind.length_name scanned).2
  have lexeme := newline_notMem_padRight lexemeWidth
    (newline_notMem_shownLexeme t.lexeme.toList)
  simp [Token.front, Token.lexemeColumn, line, kind, lexeme]

/-- So the lines of a row are those of its literal, the first one behind the columns. -/
theorem splitOn_row (scanned : ∀ name, t.kind ≠ .other name) :
    t.row.splitOn '\n' = t.lines := by
  rw [Token.lines, ← splitOn_append_of_notMem (newline_notMem_columns scanned)]
  simp [Token.row, tableRow, Token.front, Token.lexemeColumn]

end Columns

/-! ## The tokens of a scan -/

section Scanned

variable {k : Kind} {cs : List Char} {source : String} {t : Token}

/-- A lexeme is a string between its quotes, or its kind is another one of those with names. -/
theorem Lexeme.quoted_or_named (h : Lexeme k cs) :
    (k = .string ∧ ∃ inside, cs = '"' :: (inside ++ ['"'])) ∨
      k ∈ Kind.named.filter (· ≠ .string) := by
  cases h with
  | string => exact .inl ⟨rfl, _, rfl⟩
  | whole | fraction => exact .inr (by decide)
  | @word c ds =>
    have keywords : ∀ p ∈ Kind.keywords, p.2 ∈ Kind.named.filter (· ≠ .string) := by decide
    by_cases identifier : Kind.ofWord (String.ofList (c :: ds)) = .identifier
    · rw [identifier]
      exact .inr (by decide)
    · exact .inr (keywords _ (Kind.mem_keywords_of_ofWord rfl identifier))
  | pair known =>
    unfold Kind.ofPair? at known
    split at known <;> cases known <;> exact .inr (by decide)
  | mark known =>
    unfold Kind.ofChar? at known
    split at known <;> cases known <;> exact .inr (by decide)

theorem Lexeme.kind_ne_other (h : Lexeme k cs) (name : String) : k ≠ .other name := by
  rintro rfl
  rcases h.quoted_or_named with ⟨other, -⟩ | named
  · cases other
  · simp [Kind.named] at named

/-- The lexeme of a string is what is inside, between quotes. -/
theorem Lexeme.eq_quoted (h : Lexeme .string cs) : ∃ inside, cs = '"' :: (inside ++ ['"']) := by
  rcases h.quoted_or_named with ⟨-, quoted⟩ | named
  · exact quoted
  · exact absurd named (by decide)

theorem newline_notMem_textChars (x : Float) : '\n' ∉ Number.textChars x := by
  by_cases finite : Number.isFinite x = true
  · exact notMem_of_forall (Number.isWritten_textChars finite).numeric (by decide)
  · unfold Number.textChars
    split_ifs <;> decide

/-- The literal of a lexeme has the newlines that the lexeme has. -/
theorem newlineCount_shown (h : Lexeme k cs) :
    newlineCount (literalOf k cs).shown = newlineCount cs := by
  by_cases string : k = .string
  · subst string
    obtain ⟨inside, rfl⟩ := h.eq_quoted
    simp [literalOf, Literal.shown, newlineCount]
  · rw [newlineCount_eq_zero (h.newline_notMem string)]
    refine newlineCount_eq_zero ?_
    unfold literalOf
    split
    · exact newline_notMem_textChars _
    · exact absurd rfl string
    · exact List.not_mem_nil

/-- What the table needs to know of a token: its kind has a name of its own, and its literal breaks
lines where its lexeme does, which only that of a string can. -/
theorem of_mem_allTokens (mem : t ∈ (Scan.ofString source).allTokens) :
    (∀ name, t.kind ≠ .other name) ∧ ('\n' ∈ t.lexeme.toList → t.kind = .string) ∧
      newlineCount t.literal.shown = newlineCount t.lexeme.toList := by
  rcases List.mem_append.mp mem with mem | mem
  · obtain ⟨h, literal⟩ := lexeme_of_mem_tokens mem
    refine ⟨h.kind_ne_other, fun newline => ?_, by rw [literal, newlineCount_shown h]⟩
    by_contra other
    exact h.newline_notMem other newline
  · obtain rfl := List.mem_singleton.mp mem
    exact ⟨nofun, nofun, rfl⟩

/-- The table is its header and its rows, each with a newline behind it. -/
theorem toList_tokenTable (tokens : List Token) (nonempty : tokens ≠ []) :
    (tokenTable tokens).toList = (tableHeader ++ tokens.map Token.row).flatMap (· ++ ['\n']) := by
  rw [tokenTable, if_neg (by simpa using nonempty), String.toList_ofList]

theorem splitOn_header : tableHeader.flatMap (·.splitOn '\n') = tableHeader := by decide

/-- The table of a text consists of the two lines of its header and of the lines of each row.  A row
has one line and one more for each newline in the lexeme, which only a string can have.  While the
line number has at most six digits, the column of the lexeme begins behind 24 characters; it has its
30 characters, unless the lexeme that was cut to 30 has a newline or a tab in it and is longer than
that when it is escaped. -/
theorem tokenTable_scan (source : String) :
    let tokens := (Scan.ofString source).allTokens
    (tokenTable tokens).toList.splitOn '\n' = tableHeader ++ tokens.flatMap Token.lines ++ [[]] ∧
      ∀ t ∈ tokens, t.lines.length = newlineCount t.lexeme.toList + 1 ∧
        ('\n' ∈ t.lexeme.toList → t.kind = .string) ∧
        ((Number.digitsOf t.line).length ≤ 6 → t.front.length = 24) ∧
        t.lexemeColumn.length =
          let cut := cutLexeme t.lexeme.toList
          if '\n' ∈ cut ∨ '\t' ∈ cut then max 30 (escapedLength cut) else 30 := by
  intro tokens
  have nonempty : tokens ≠ [] := List.append_ne_nil_of_right_ne_nil _ (List.cons_ne_nil _ _)
  constructor
  · have rows : tokens.flatMap (fun t => t.row.splitOn '\n') = tokens.flatMap Token.lines :=
      List.flatMap_congr fun t mem => splitOn_row (of_mem_allTokens mem).1
    rw [toList_tokenTable tokens nonempty, splitOn_ended, List.flatMap_append, List.flatMap_map,
      splitOn_header, rows]
  · intro t mem
    obtain ⟨scanned, onlyString, newlines⟩ := of_mem_allTokens mem
    refine ⟨?_, onlyString, length_front scanned, length_lexemeColumn t⟩
    rw [Token.lines, List.length_modifyHead, length_splitOn_newline, newlines]

/-- A string over two lines: its lexeme stays on the first one, and its literal does not. -/
example :
    (⟨.string, "\"a\nb\"", .string "a\nb", 2⟩ : Token).lines.map String.ofList =
      ["2     | STRING        | \"a\\nb\"                        | a", "b"] := by decide +kernel

/-- A tab in a lexeme of 30 characters makes its column one wider. -/
example :
    let lexeme := "\"aaaaaaaaaaaaaaaaaaaaaaaaaaa\t\""
    (⟨.string, lexeme, .nil, 1⟩ : Token).lexemeColumn.length = 31 := by decide +kernel

end Scanned

end LoxLang
