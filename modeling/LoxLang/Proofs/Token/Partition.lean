/-
LoxLang.Proofs.Token.Partition: a text has exactly one partition into segments.

Cutting follows an order of rules.  What it amounts to is the longest match: at each place of a text
stands the longest of all segments that the text goes on with there, and this alone says what the
segments are.

* `Partition`: a text that is put together of segments, none of which could be longer.
* `Segment.content?`, `Segment.fault?`: what a segment yields, but for the line.

Main statements: `partition_iff` and `scan_partition`.
-/
import LoxLang.Proofs.Token.Shapes
import LoxLang.Proofs.Token.Words

namespace LoxLang

/-- The text is the segments one after the other, and nowhere does it go on with a longer
segment. -/
inductive Partition : List Char → List Segment → Prop where
  | nil : Partition [] []
  | cons {s : Segment} {rest : List Char} {ss : List Segment} (shaped : s.Shaped)
    (longest : ∀ s' : Segment, s'.Shaped → s'.chars <+: s.chars ++ rest →
      s'.chars.length ≤ s.chars.length)
    (partition : Partition rest ss) : Partition (s.chars ++ rest) (s :: ss)

/-- What a token is, how it is written and what it denotes; not where it stands. -/
def Token.content (t : Token) : Kind × String × Literal := (t.kind, t.lexeme, t.literal)

/-- The content of the token that a segment is. -/
def Segment.content? : Segment → Option (Kind × String × Literal)
  | .token kind lexeme => some (kind, String.ofList lexeme, literalOf kind lexeme)
  | _ => none

/-- The fault that a segment is. -/
def Segment.fault? : Segment → Option Fault
  | .unexpected c => some (.lexical (.unexpectedCharacter c))
  | .openString _ => some (.lexical .unterminatedString)
  | _ => none

/-! ## Longest match -/

section Longest

variable {c : Char} {cs xs rest : List Char} {p : Char → Bool}

theorem length_le_takeWhile (all : ∀ x ∈ xs, p x) (rest : List Char) :
    xs.length ≤ ((xs ++ rest).takeWhile p).length := by
  rw [List.takeWhile_append_of_pos all, List.length_append]
  exact Nat.le_add_right _ _

theorem length_chars_splitFirst (c : Char) (cs : List Char) :
    1 ≤ (splitFirst c cs).1.chars.length := by
  have whole := congrArg List.length (chars_splitFirst c cs)
  have shorter := length_splitFirst c cs
  rw [List.length_append, List.length_cons] at whole
  omega

theorem length_le_cutNumber (digits : ∀ d ∈ xs, Text.isDigit d) :
    xs.length ≤ (cutNumber (xs ++ rest)).1.chars.length := by
  have taken := length_le_takeWhile digits rest
  unfold cutNumber
  dsimp only
  split
  · split
    · simp only [Segment.chars, List.length_append]
      omega
    · exact taken
  · exact taken

theorem length_le_cutNumber_fraction {es : List Char} (digits : ∀ d ∈ xs, Text.isDigit d)
    (nonempty : es ≠ []) (digits' : ∀ d ∈ es, Text.isDigit d) :
    (xs ++ '.' :: es).length ≤ (cutNumber (xs ++ '.' :: (es ++ rest))).1.chars.length := by
  have taken := length_le_takeWhile digits' rest
  obtain ⟨e, es, rfl⟩ := List.exists_cons_of_ne_nil nonempty
  rw [List.cons_append, cutNumber_dot digits (digits' e List.mem_cons_self)]
  simpa [Segment.chars] using taken

theorem length_le_cutString (unquoted : '"' ∉ xs) :
    xs.length + 1 ≤ (cutString (xs ++ rest)).1.chars.length := by
  have taken := length_le_takeWhile (ne_of_notMem unquoted) rest
  unfold cutString
  dsimp only
  split
  · exact Nat.succ_le_succ taken
  · simp only [Segment.chars, List.length_cons, List.length_append]
    omega

/-- No lexeme that the text begins with is longer than the segment that is cut off. -/
theorem longest_lexeme {kind : Kind} {lexeme : List Char} (h : Lexeme kind lexeme)
    (whole : lexeme ++ rest = c :: cs) :
    lexeme.length ≤ (splitFirst c cs).1.chars.length := by
  cases h with
  | @word c' ds start parts =>
    have first : c' = c := (List.cons.inj whole).1
    rw [splitFirst_word (first ▸ start), ← whole]
    exact length_le_takeWhile (isWordPart_of_mem start parts) rest
  | whole nonempty digits =>
    rw [splitFirst_digit (first_of_run nonempty digits whole), ← whole]
    exact length_le_cutNumber digits
  | fraction nonempty digits nonempty' digits' =>
    rw [List.append_assoc] at whole
    rw [splitFirst_digit (first_of_run nonempty digits whole), ← whole]
    exact length_le_cutNumber_fraction digits nonempty' digits'
  | @string inside unquoted =>
    obtain ⟨rfl, rfl⟩ := List.cons.inj whole
    have cut := cutString_closed unquoted rest
    rw [splitFirst_quote, List.append_eq, List.append_assoc, List.singleton_append, cut]
    exact Nat.le_refl _
  | pair known =>
    obtain ⟨rfl, rfl⟩ := List.cons.inj whole
    obtain ⟨⟨kind', known'⟩, ne, -⟩ := ofChar_of_ofPair known
    rw [splitFirst_mark known' fun eq => absurd eq ne]
    simp [cutMark, known, Segment.chars]
  | mark => exact length_chars_splitFirst c cs

/-- No segment that the text begins with is longer than the one that is cut off. -/
theorem longest_splitFirst {s : Segment} (shaped : s.Shaped) (pre : s.chars <+: c :: cs) :
    s.chars.length ≤ (splitFirst c cs).1.chars.length := by
  obtain ⟨rest, whole⟩ := pre
  have one := length_chars_splitFirst c cs
  cases shaped with
  | unexpected => exact one
  | regular regular =>
    cases regular with
    | blank => exact one
    | newlines nonempty all =>
      obtain ⟨d, run, rfl⟩ := List.exists_cons_of_ne_nil nonempty
      obtain ⟨rfl, rfl⟩ : d = c ∧ run ++ rest = cs := List.cons.inj whole
      obtain ⟨rfl, all'⟩ := List.forall_mem_cons.mp all
      have all : ∀ d ∈ run, (d = '\n' : Bool) := fun d mem => decide_eq_true (all' d mem)
      rw [splitFirst_newline]
      exact Nat.succ_le_succ (length_le_takeWhile all rest)
    | @lineComment text line =>
      obtain ⟨rfl, rfl⟩ := List.cons.inj whole
      have taken := length_le_takeWhile (ne_of_notMem line) rest
      rw [List.append_eq, List.cons_append, splitFirst_slashes]
      exact Nat.succ_le_succ (Nat.succ_le_succ taken)
    | closedComment closes =>
      obtain ⟨rfl, rfl⟩ := List.cons.inj whole
      have cut := cutBlockComment_of_closes closes rest
      rw [List.append_eq, List.cons_append, splitFirst_opening, cut]
    | openComment stays =>
      obtain ⟨rfl, rfl⟩ := List.cons.inj whole
      rw [List.append_eq, List.cons_append, splitFirst_opening]
      exact Nat.succ_le_succ (Nat.succ_le_succ (length_le_of_stays stays rest))
    | token h => exact longest_lexeme h whole
    | openString unquoted =>
      obtain ⟨rfl, rfl⟩ := List.cons.inj whole
      rw [splitFirst_quote]
      exact length_le_cutString unquoted

end Longest

/-! ## The partition -/

section Partition

variable {c : Char} {cs : List Char} {s s' : Segment} {ss : List Segment}

theorem Segment.Shaped.chars_ne_nil (shaped : s.Shaped) : s.chars ≠ [] := by
  cases shaped with
  | unexpected => exact List.cons_ne_nil _ _
  | regular regular =>
    cases regular with
    | newlines nonempty => exact nonempty
    | token h =>
      cases h with
      | whole nonempty => exact nonempty
      | fraction nonempty => exact List.append_ne_nil_of_left_ne_nil nonempty _
      | _ => exact List.cons_ne_nil _ _
    | _ => exact List.cons_ne_nil _ _

/-- A text is at most one segment. -/
theorem Segment.Shaped.eq_of_chars (shaped : s.Shaped) (shaped' : s'.Shaped)
    (same : s.chars = s'.chars) : s = s' := by
  obtain ⟨c, cs, whole⟩ := List.exists_cons_of_ne_nil shaped.chars_ne_nil
  have cut := splitFirst_alone shaped whole
  have cut' := splitFirst_alone shaped' (same ▸ whole)
  exact congrArg Prod.fst (cut.symm.trans cut')

theorem partition_segments (cs : List Char) : Partition cs (segments cs) := by
  induction h : cs.length using Nat.strongRecOn generalizing cs with
  | ind n ih =>
    subst h
    cases cs with
    | nil => exact .nil
    | cons c cs =>
      have rest := ih _ (Nat.lt_succ_of_le (length_splitFirst c cs)) _ rfl
      have partition := Partition.cons (shaped_splitFirst c cs) (by
        rw [chars_splitFirst]
        exact fun s' shaped pre => longest_splitFirst shaped pre) rest
      rwa [chars_splitFirst, ← segments_cons] at partition

theorem Partition.eq_segments (partition : Partition cs ss) : ss = segments cs := by
  induction partition with
  | nil => rfl
  | @cons s rest ss shaped longest _ ih =>
    obtain ⟨c, cs, first⟩ := List.exists_cons_of_ne_nil shaped.chars_ne_nil
    -- The segment and the one that is cut off are both longest, so neither is longer.
    have whole := chars_splitFirst c (cs ++ rest)
    rw [← List.cons_append, ← first] at whole
    have pre : s.chars <+: c :: (cs ++ rest) := by
      rw [← List.cons_append, ← first]
      exact List.prefix_append _ _
    have shaped' := shaped_splitFirst c (cs ++ rest)
    have length : (splitFirst c (cs ++ rest)).1.chars.length = s.chars.length :=
      Nat.le_antisymm (longest _ shaped' ⟨_, whole⟩) (longest_splitFirst shaped pre)
    obtain ⟨same, behind⟩ := List.append_inj whole length
    obtain rfl := shaped.eq_of_chars shaped' same.symm
    rw [first, List.cons_append, segments_cons, behind, ih]

/-- The segments of a text are its only partition. -/
theorem partition_iff : Partition cs ss ↔ ss = segments cs := by
  constructor
  · exact Partition.eq_segments
  · rintro rfl
    exact partition_segments cs

theorem Partition.flatten (partition : Partition cs ss) : (ss.map Segment.chars).flatten = cs := by
  induction partition with
  | nil => rfl
  | cons _ _ _ ih => rw [List.map_cons, List.flatten_cons, ih]

end Partition

/-! ## What a scan yields -/

section Yields

variable {c : Char} {cs rest text : List Char} {s : Segment} {before behind : List Segment}

theorem Lexeme.kind_ne_endOfInput {kind : Kind} {lexeme : List Char} (h : Lexeme kind lexeme) :
    kind ≠ .endOfInput := by
  cases h with
  | word =>
    intro named
    have mem := Kind.mem_keywords_of_ofWord named (by decide)
    simp [Kind.keywords] at mem
  | pair known =>
    rintro rfl
    unfold Kind.ofPair? at known
    split at known <;> cases known
  | mark known =>
    rintro rfl
    unfold Kind.ofChar? at known
    split at known <;> cases known
  | _ => decide

theorem shaped_segments (cs : List Char) : ∀ s ∈ segments cs, s.Shaped := by
  have partition := partition_segments cs
  generalize segments cs = ss at partition
  induction partition with
  | nil => exact fun _ mem => nomatch mem
  | cons shaped _ _ ih => exact List.forall_mem_cons.mpr ⟨shaped, ih⟩

/-- What segments yield does not depend on their lines, if it does not for each of them. -/
theorem map_yieldsFrom {α β : Type} {f : Nat → Segment → Option α} {g : α → β}
    {h : Segment → Option β} (same : ∀ line s, (f line s).map g = h s) (line : Nat)
    (cs : List Char) : (yieldsFrom f line cs).map g = (segments cs).filterMap h := by
  unfold yieldsFrom
  induction segments cs generalizing line with
  | nil => rfl
  | cons s rest ih =>
    simp only [withEndLines, List.filterMap_cons]
    rw [← same (s.endLine line) s]
    cases f (s.endLine line) s with
    | none => exact ih _
    | some a => exact congrArg _ (ih _)

/-- What a scan finds is a lexeme of its kind and denotes what the lexeme does. -/
theorem lexeme_of_mem_tokens {source : String} {t : Token}
    (mem : t ∈ (Scan.ofString source).tokens) :
    Lexeme t.kind t.lexeme.toList ∧ t.literal = literalOf t.kind t.lexeme.toList := by
  obtain ⟨⟨s, line⟩, located, yields⟩ := List.mem_filterMap.mp mem
  have shaped := shaped_segments _ s (mem_of_mem_withEndLines located)
  cases shaped with
  | unexpected => cases yields
  | regular regular =>
    cases regular with
    | token h =>
      cases yields
      simpa using h
    | _ => cases yields

/-- Every segment was cut off the text that begins with it. -/
theorem segments_eq_append (split : segments cs = before ++ s :: behind) :
    ∃ c cs rest, splitFirst c cs = (s, rest) ∧ segments rest = behind := by
  induction before generalizing cs with
  | nil =>
    cases cs with
    | nil => cases split
    | cons c cs =>
      rw [segments_cons] at split
      obtain ⟨cut, rest⟩ := List.cons.inj split
      exact ⟨c, cs, _, Prod.ext cut rfl, rest⟩
  | cons s' before ih =>
    cases cs with
    | nil => cases split
    | cons c cs =>
      rw [segments_cons] at split
      exact ih (List.cons.inj split).2

/-- Nothing is behind a string that is not closed. -/
theorem rest_of_openString (cut : splitFirst c cs = (.openString text, rest)) : rest = [] := by
  have whole := chars_splitFirst c cs
  have shaped := shaped_splitFirst c cs
  rw [cut] at whole shaped
  obtain ⟨inside, rfl⟩ : ∃ inside, text = '"' :: inside := by
    cases shaped with
    | regular regular => cases regular with | openString => exact ⟨_, rfl⟩
  obtain rfl : '"' = c := (List.cons.inj whole).1
  rw [splitFirst_quote, cutString] at cut
  split at cut <;> cases cut
  rfl

/-- A block comment reaches to the closing that balances it, or nothing is behind it. -/
theorem rest_of_blockComment (cut : splitFirst c cs = (.blockComment text, rest)) :
    ClosesAtEnd 1 (commentMarks (text.drop 2)) ∨ rest = [] := by
  have whole := chars_splitFirst c cs
  have shaped := shaped_splitFirst c cs
  rw [cut] at whole shaped
  obtain ⟨inside, rfl⟩ : ∃ inside, text = '/' :: '*' :: inside := by
    cases shaped with
    | regular regular =>
      cases regular with
      | closedComment => exact ⟨_, rfl⟩
      | openComment => exact ⟨_, rfl⟩
  obtain ⟨rfl, rfl⟩ := List.cons.inj whole
  rw [List.append_eq, List.cons_append, splitFirst_opening] at cut
  obtain ⟨segment, done⟩ := Prod.mk.inj cut
  have same : (cutBlockComment 1 (inside ++ rest)).1 = inside := by simpa using segment
  have alternatives := closes_or_stays 1 (inside ++ rest)
  rw [same] at alternatives
  exact alternatives.imp_right fun stays => done.symm.trans stays.2

/-- A text is put together of segments in one way only, each the longest where it stands.  The
tokens of its scan are the lexemes among them, in their order, and then one for the end; the
complaints are about the unexpected characters and the string that is not closed, in their order. -/
theorem scan_partition (source : String) :
    ∃ ss : List Segment, (∀ ss', Partition source.toList ss' ↔ ss' = ss) ∧
      (ss.map Segment.chars).flatten = source.toList ∧
      (∀ before text behind, ss = before ++ .openString text :: behind → behind = []) ∧
      (∀ before text behind, ss = before ++ .blockComment text :: behind →
        ClosesAtEnd 1 (commentMarks (text.drop 2)) ∨ behind = []) ∧
      (Scan.ofString source).allTokens.map Token.content =
        ss.filterMap Segment.content? ++ [(.endOfInput, "", .nil)] ∧
      (∀ t ∈ (Scan.ofString source).tokens, t.kind ≠ .endOfInput) ∧
      (Scan.ofString source).diagnostics.map Diagnostic.fault = ss.filterMap Segment.fault? := by
  refine ⟨segments source.toList, fun _ => partition_iff, (partition_segments _).flatten,
    ?_, ?_, ?_, ?_, ?_⟩
  · intro before text behind split
    obtain ⟨c, cs, rest, cut, rfl⟩ := segments_eq_append split
    rw [rest_of_openString cut, segments_nil]
  · intro before text behind split
    obtain ⟨c, cs, rest, cut, rfl⟩ := segments_eq_append split
    exact (rest_of_blockComment cut).imp_right fun done => by rw [done, segments_nil]
  · rw [Scan.allTokens, List.map_append, Scan.tokens_ofString]
    congr 1
    exact map_yieldsFrom (fun line s => by cases s <;> rfl) 1 _
  · intro t mem
    exact (lexeme_of_mem_tokens mem).1.kind_ne_endOfInput
  · rw [Scan.diagnostics_ofString]
    exact map_yieldsFrom (fun line s => by cases s <;> rfl) 1 _

end Yields

end LoxLang
