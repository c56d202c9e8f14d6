/-
LoxLang.Token.Segment: a program text cut into segments.

Scanning loses nothing: a text is cut into segments, each of which is a blank, a run of newlines, a
comment, a token, a character that begins none of these, or a string that is never closed.  The
tokens, the complaints and all line numbers are read off the list of segments.

* `Segment`: the pieces, and `Segment.chars`, the text each stands for.
* `splitFirst`: cuts the first segment off a text that is not empty.
* `segments`: cuts up a whole text.

Main statements: `chars_splitFirst` (nothing is lost or added), `length_splitFirst` (each cut
makes the text shorter) and `segments_cons` (the segments of a text are its first one and those of
the rest).
-/
import LoxLang.Text.Digit
import LoxLang.Token.Basic

namespace LoxLang

/-- A piece of a program text. -/
inductive Segment where
  /-- A space, a tab or a carriage return. -/
  | blank (c : Char)
  /-- One or more newlines. -/
  | newlines (run : List Char)
  /-- From two slashes to the end of the line. -/
  | lineComment (text : List Char)
  /-- From an opening to the closing that balances it, or to the end of the text. -/
  | blockComment (text : List Char)
  /-- A token, as it is written. -/
  | token (kind : Kind) (lexeme : List Char)
  /-- A character that begins no other segment. -/
  | unexpected (c : Char)
  /-- A string whose closing quote is missing; it reaches to the end of the text. -/
  | openString (text : List Char)
  deriving DecidableEq, Repr

/-- The text of a segment. -/
def Segment.chars : Segment → List Char
  | blank c | unexpected c => [c]
  | newlines cs | lineComment cs | blockComment cs | token _ cs | openString cs => cs

/-! ## Character classes -/

/-- The characters that separate tokens and are otherwise ignored. -/
def isBlank (c : Char) : Bool := c == ' ' || c == '\t' || c == '\r'

/-- The characters that can begin a word; they are ASCII only. -/
def isWordStart (c : Char) : Bool := c.isAlpha || c == '_'

/-- The characters of a word. -/
def isWordPart (c : Char) : Bool := c.isAlphanum || c == '_'

/-! ## Cutting the first segment off -/

/-- What remains after the opening of a block comment, cut where the comment ends.  The number
counts the openings that are not closed yet. -/
def cutBlockComment : Nat → List Char → List Char × List Char
  | 0, cs => ([], cs)
  | _ + 1, [] => ([], [])
  | depth + 1, '/' :: '*' :: cs =>
    let (inside, rest) := cutBlockComment (depth + 2) cs
    ('/' :: '*' :: inside, rest)
  | depth + 1, '*' :: '/' :: cs =>
    let (inside, rest) := cutBlockComment depth cs
    ('*' :: '/' :: inside, rest)
  | depth + 1, c :: cs =>
    let (inside, rest) := cutBlockComment (depth + 1) cs
    (c :: inside, rest)

/-- Cuts a string after its opening quote.  There are no escapes: it reaches to the next quote, and
to the end of the text if there is none. -/
def cutString (cs : List Char) : Segment × List Char :=
  let inside := cs.takeWhile (· ≠ '"')
  match cs.dropWhile (· ≠ '"') with
  | [] => (.openString ('"' :: inside), [])
  | quote :: rest => (.token .string ('"' :: (inside ++ [quote])), rest)

/-- Cuts a numeral: digits, and a fraction if a dot and another digit follow them. -/
def cutNumber (cs : List Char) : Segment × List Char :=
  let whole := cs.takeWhile Text.isDigit
  let rest := cs.dropWhile Text.isDigit
  match rest with
  | '.' :: d :: after =>
    if Text.isDigit d then
      (.token .number (whole ++ '.' :: (d :: after).takeWhile Text.isDigit),
        (d :: after).dropWhile Text.isDigit)
    else (.token .number whole, rest)
  | _ => (.token .number whole, rest)

/-- Cuts a word; it is a keyword only as a whole. -/
def cutWord (cs : List Char) : Segment × List Char :=
  let word := cs.takeWhile isWordPart
  (.token (Kind.ofWord (String.ofList word)) word, cs.dropWhile isWordPart)

/-- Cuts an operator or a mark, two characters before one; what begins neither is unexpected. -/
def cutMark (c : Char) (cs : List Char) : Segment × List Char :=
  match cs with
  | d :: rest =>
    match Kind.ofPair? c d with
    | some kind => (.token kind [c, d], rest)
    | none => (((Kind.ofChar? c).map (Segment.token · [c])).getD (.unexpected c), cs)
  | [] => (((Kind.ofChar? c).map (Segment.token · [c])).getD (.unexpected c), cs)

/-- Cuts the first segment off the text `c :: cs`. -/
def splitFirst (c : Char) (cs : List Char) : Segment × List Char :=
  if isBlank c then (.blank c, cs)
  else if c = '\n' then
    (.newlines (c :: cs.takeWhile (· = '\n')), cs.dropWhile (· = '\n'))
  else if c = '/' ∧ cs.head? = some '/' then
    (.lineComment (c :: cs.takeWhile (· ≠ '\n')), cs.dropWhile (· ≠ '\n'))
  else if c = '/' ∧ cs.head? = some '*' then
    let (inside, rest) := cutBlockComment 1 (cs.drop 1)
    (.blockComment ('/' :: '*' :: inside), rest)
  else if c = '"' then cutString cs
  else if Text.isDigit c then cutNumber (c :: cs)
  else if isWordStart c then cutWord (c :: cs)
  else cutMark c cs

/-! ## Nothing is lost -/

theorem append_cutBlockComment (depth : Nat) (cs : List Char) :
    (cutBlockComment depth cs).1 ++ (cutBlockComment depth cs).2 = cs := by
  fun_induction cutBlockComment depth cs <;> simp_all

theorem chars_cutString (cs : List Char) :
    (cutString cs).1.chars ++ (cutString cs).2 = '"' :: cs := by
  have whole := List.takeWhile_append_dropWhile (p := (· ≠ '"')) (l := cs)
  unfold cutString
  split <;> rename_i h <;> rw [h] at whole
  · simpa [Segment.chars] using whole
  · simpa [Segment.chars] using whole

theorem chars_cutNumber (cs : List Char) :
    (cutNumber cs).1.chars ++ (cutNumber cs).2 = cs := by
  have whole := List.takeWhile_append_dropWhile (p := Text.isDigit) (l := cs)
  unfold cutNumber
  simp only
  split
  · rename_i d after h
    rw [h] at whole
    split
    · have fraction := List.takeWhile_append_dropWhile (p := Text.isDigit) (l := d :: after)
      simp only [Segment.chars, List.append_assoc, List.cons_append]
      rw [fraction, whole]
    · simpa [Segment.chars, h] using whole
  · simp [Segment.chars]

theorem chars_cutWord (cs : List Char) : (cutWord cs).1.chars ++ (cutWord cs).2 = cs := by
  simp [cutWord, Segment.chars]

theorem chars_cutMark (c : Char) (cs : List Char) :
    (cutMark c cs).1.chars ++ (cutMark c cs).2 = c :: cs := by
  unfold cutMark
  split
  · split
    · simp [Segment.chars]
    · cases Kind.ofChar? c <;> simp [Segment.chars]
  · cases Kind.ofChar? c <;> simp [Segment.chars]

/-- Cutting a segment off loses no character and adds none. -/
theorem chars_splitFirst (c : Char) (cs : List Char) :
    (splitFirst c cs).1.chars ++ (splitFirst c cs).2 = c :: cs := by
  unfold splitFirst
  split
  · simp [Segment.chars]
  split
  · simp [Segment.chars]
  split
  · simp [Segment.chars]
  split
  · rename_i _ _ _ h
    obtain ⟨rfl, hcs⟩ := h
    cases cs with
    | nil => simp at hcs
    | cons d rest =>
      obtain rfl : d = '*' := by simpa using hcs
      simpa [Segment.chars] using append_cutBlockComment 1 rest
  split
  · rename_i h
    subst h
    exact chars_cutString cs
  split
  · exact chars_cutNumber (c :: cs)
  split
  · exact chars_cutWord (c :: cs)
  · exact chars_cutMark c cs

/-- A segment is never empty, so every cut makes progress. -/
theorem length_splitFirst (c : Char) (cs : List Char) :
    (splitFirst c cs).2.length ≤ cs.length := by
  have whole := congrArg List.length (chars_splitFirst c cs)
  have nonempty : 0 < (splitFirst c cs).1.chars.length := by
    unfold splitFirst
    split
    · simp [Segment.chars]
    split
    · simp [Segment.chars]
    split
    · simp [Segment.chars]
    split
    · simp [Segment.chars]
    split
    · unfold cutString
      split <;> simp [Segment.chars]
    split
    · rename_i h
      unfold cutNumber
      simp only
      split
      · split <;> simp [Segment.chars, h]
      · simp [Segment.chars, h]
    split
    · rename_i h
      have part : isWordPart c = true := by
        simp only [isWordStart, isWordPart, Char.isAlphanum, Bool.or_eq_true] at h ⊢
        exact h.elim (fun alpha => Or.inl (Or.inl alpha)) Or.inr
      simp [cutWord, Segment.chars, part]
    · unfold cutMark
      split
      · split
        · simp [Segment.chars]
        · cases Kind.ofChar? c <;> simp [Segment.chars]
      · cases Kind.ofChar? c <;> simp [Segment.chars]
  simp only [List.length_append, List.length_cons] at whole
  omega

/-! ## Cutting up a whole text -/

/-- At most `limit` segments of a text. -/
def segmentsWithin : Nat → List Char → List Segment
  | 0, _ => []
  | _ + 1, [] => []
  | limit + 1, c :: cs =>
    (splitFirst c cs).1 :: segmentsWithin limit (splitFirst c cs).2

/-- The segments of a text, in order; there are never more of them than characters. -/
def segments (cs : List Char) : List Segment := segmentsWithin cs.length cs

theorem segmentsWithin_eq {limit : Nat} {cs : List Char} (h : cs.length ≤ limit) :
    segmentsWithin limit cs = segments cs := by
  induction limit using Nat.strongRecOn generalizing cs with
  | ind limit ih =>
    match limit, cs with
    | 0, [] => rfl
    | 0, c :: cs => simp at h
    | limit + 1, [] => rfl
    | limit + 1, c :: cs =>
      have shorter := length_splitFirst c cs
      have fits : cs.length ≤ limit := by simpa using h
      simp only [segments, segmentsWithin, List.length_cons]
      rw [ih limit (by omega) (by omega)]
      rcases Nat.lt_or_ge cs.length (limit + 1) with _ | _
      · rw [ih cs.length (by omega) shorter]
      · omega

@[simp] theorem segments_nil : segments [] = [] := rfl

/-- The segments of a text are its first segment and the segments of the rest. -/
theorem segments_cons (c : Char) (cs : List Char) :
    segments (c :: cs) = (splitFirst c cs).1 :: segments (splitFirst c cs).2 := by
  rw [segments, List.length_cons, segmentsWithin, segmentsWithin_eq (length_splitFirst c cs)]

end LoxLang
