/-
LoxLang.Proofs.Token.Lines: the line of everything that a scan finds.

The line moves on behind a run of newlines by its length, behind a string by the newlines in it, and
behind a block comment by those that are met inside of it, where the two characters of an opening or
a closing are passed at once.  No newline stands anywhere else, so the line behind a segment is one
more than the newlines of the whole text up to there.

* `withTextBefore`: segments with the text in front of each.
* `Token.StandsBehind`: what a token behind some text is like, and which line it is on.
* `Segment.complaint?`: the complaint about a segment of a text.

Main statements: `newlineCount_chars` for one segment and `scan_lines` for a text.
-/
import LoxLang.Proofs.Token.Partition

namespace LoxLang

/-! ## Counting in one segment -/

section Counting

variable {cs : List Char} {s : Segment}

/-- Only a string goes beyond the end of a line. -/
theorem Lexeme.newline_notMem {kind : Kind} (h : Lexeme kind cs) (other : kind ≠ .string) :
    '\n' ∉ cs := by
  have digits {ds : List Char} (all : ∀ d ∈ ds, Text.isDigit d) : '\n' ∉ ds :=
    notMem_of_forall all (by decide)
  cases h with
  | word start parts => exact notMem_of_forall (isWordPart_of_mem start parts) (by decide)
  | whole _ all => exact digits all
  | fraction _ all _ all' =>
    intro mem
    rcases List.mem_append.mp mem with mem | mem
    · exact digits all mem
    · rcases List.mem_cons.mp mem with eq | mem
      · cases eq
      · exact digits all' mem
  | string => exact absurd rfl other
  | pair known =>
    unfold Kind.ofPair? at known
    split at known <;> cases known <;> decide
  | mark known =>
    unfold Kind.ofChar? at known
    split at known <;> cases known <;> decide

/-- A newline is no character that begins no other segment. -/
theorem unexpected_ne_newline {c : Char} (shaped : (Segment.unexpected c).Shaped) : c ≠ '\n' := by
  rintro rfl
  cases shaped with
  | regular regular => cases regular
  | unexpected alien =>
    have newline : Segment.Regular (.newlines ['\n']) :=
      .newlines (List.cons_ne_nil _ _) fun c mem => List.mem_singleton.mp mem
    exact alien _ newline rfl

/-- Every newline of a segment is counted once. -/
theorem newlineCount_chars (shaped : s.Shaped) : newlineCount s.chars = s.newlinesCounted := by
  obtain ⟨c, cs, whole⟩ := List.exists_cons_of_ne_nil shaped.chars_ne_nil
  have counted := newlinesCounted_splitFirst c cs
  rw [splitFirst_alone shaped whole] at counted
  exact counted.symm

end Counting

/-! ## Counting in a text -/

/-- Segments with the text in front of each. -/
def withTextBefore (before : List Char) : List Segment → List (List Char × Segment)
  | [] => []
  | s :: rest => (before, s) :: withTextBefore (before ++ s.chars) rest

/-- The token that a segment is: what is in front of it, its kind and how it is written. -/
def Segment.lexeme? (before : List Char) : Segment → Option (List Char × Kind × List Char)
  | .token kind lexeme => some (before, kind, lexeme)
  | _ => none

/-- Behind some text there is a token of this kind, written like this.  Its line is one more than
the newlines up to its end. -/
structure Token.StandsBehind (t : Token) (before : List Char) (kind : Kind) (lexeme : List Char) :
    Prop where
  sort : t.kind = kind
  written : t.lexeme = String.ofList lexeme
  line : t.line = 1 + newlineCount (before ++ lexeme)

/-- The complaint about a segment of a text: about an unexpected character on the line it stands on,
and about a string that is not closed on the last line of the text. -/
def Segment.complaint? (text before : List Char) : Segment → Option Diagnostic
  | .unexpected c => some (.onLine (1 + newlineCount before) (.lexical (.unexpectedCharacter c)))
  | .openString _ => some (.onLine (1 + newlineCount text) (.lexical .unterminatedString))
  | _ => none

section Texts

variable {before : List Char} {ss : List Segment} {p : List Char × Segment}

theorem map_withTextBefore (before : List Char) (ss : List Segment) :
    (withTextBefore before ss).map Prod.snd = ss := by
  induction ss generalizing before with
  | nil => rfl
  | cons s rest ih => rw [withTextBefore, List.map_cons, ih]

/-- The line on which a segment ends is told by the text up to there. -/
theorem withEndLines_eq (before : List Char) (shaped : ∀ s ∈ ss, s.Shaped) :
    withEndLines (1 + newlineCount before) ss =
      (withTextBefore before ss).map fun (before, s) =>
        (s, 1 + newlineCount (before ++ s.chars)) := by
  induction ss generalizing before with
  | nil => rfl
  | cons s rest ih =>
    obtain ⟨first, shaped⟩ := List.forall_mem_cons.mp shaped
    have ends : s.endLine (1 + newlineCount before) = 1 + newlineCount (before ++ s.chars) := by
      rw [newlineCount_append, ← Nat.add_assoc, newlineCount_chars first]
      rfl
    rw [withEndLines, withTextBefore, List.map_cons, ends, ih _ shaped]

/-- The last line of a text is told by all of it. -/
theorem foldl_endLine (before : List Char) (shaped : ∀ s ∈ ss, s.Shaped) :
    ss.foldl (fun line s => s.endLine line) (1 + newlineCount before) =
      1 + newlineCount (before ++ (ss.map Segment.chars).flatten) := by
  induction ss generalizing before with
  | nil => simp
  | cons s rest ih =>
    obtain ⟨first, shaped⟩ := List.forall_mem_cons.mp shaped
    rw [List.foldl_cons, Segment.endLine, ← newlineCount_chars first, Nat.add_assoc,
      ← newlineCount_append, ih _ shaped, List.map_cons, List.flatten_cons, List.append_assoc]

/-- A segment stands behind the text in front of it. -/
theorem split_of_mem_withTextBefore (mem : p ∈ withTextBefore before ss) :
    ∃ front behind, ss = front ++ p.2 :: behind ∧
      p.1 = before ++ (front.map Segment.chars).flatten := by
  induction ss generalizing before with
  | nil => cases mem
  | cons s rest ih =>
    rcases List.mem_cons.mp mem with rfl | mem
    · exact ⟨[], rest, rfl, by simp⟩
    · obtain ⟨front, behind, rfl, text⟩ := ih mem
      exact ⟨s :: front, behind, rfl, by rw [text]; simp⟩

variable {cs : List Char}

/-- A piece of a text stands in it, and behind a string that is not closed there is nothing. -/
theorem stands_of_mem_pieces (mem : p ∈ withTextBefore [] (segments cs)) :
    p.2.Shaped ∧ ∃ behind, p.1 ++ p.2.chars ++ behind = cs ∧
      ∀ opened, p.2 = .openString opened → behind = [] := by
  obtain ⟨front, rest, split, text⟩ := split_of_mem_withTextBefore mem
  have shaped := shaped_segments cs p.2 (split ▸ List.mem_append_right _ List.mem_cons_self)
  have whole := (partition_segments cs).flatten
  refine ⟨shaped, (rest.map Segment.chars).flatten, ?_, ?_⟩
  · rw [← whole, split, text]
    simp
  · intro opened isOpen
    rw [isOpen] at split
    obtain ⟨c, cs', rest', cut, rfl⟩ := segments_eq_append split
    rw [rest_of_openString cut, segments_nil]
    rfl

/-- On the line on which a piece ends, the complaint about it is the one that the text tells. -/
theorem diagnostic?_of_mem_pieces (mem : p ∈ withTextBefore [] (segments cs)) :
    p.2.diagnostic? (1 + newlineCount (p.1 ++ p.2.chars)) = p.2.complaint? cs p.1 := by
  obtain ⟨shaped, behind, text, last⟩ := stands_of_mem_pieces mem
  obtain ⟨before, s⟩ := p
  cases s with
  | unexpected c =>
    have other := unexpected_ne_newline shaped
    have none : newlineCount [c] = 0 :=
      newlineCount_eq_zero fun mem => other (List.mem_singleton.mp mem).symm
    simp [Segment.diagnostic?, Segment.complaint?, Segment.chars, newlineCount_append, none]
  | openString opened =>
    rw [last opened rfl, List.append_nil] at text
    simp [Segment.diagnostic?, Segment.complaint?, text]
  | _ => rfl

end Texts

/-- The token that a segment yields stands behind the text in front of the segment. -/
theorem rel_token? (before : List Char) (s : Segment) :
    Option.Rel (fun p t => Token.StandsBehind t p.1 p.2.1 p.2.2) (s.lexeme? before)
      (s.token? (1 + newlineCount (before ++ s.chars))) := by
  cases s with
  | token kind lexeme => exact .some ⟨rfl, rfl, rfl⟩
  | _ => exact .none

/-- **Lines are exact.**  A text is cut into segments, of which every newline is counted once.  Each
token is on the line one plus the newlines of the text up to the end of its lexeme, the last of them
being the end of the whole text.  A complaint about an unexpected character is on the line one plus
the newlines before it, and one about a string that is not closed on the last line of the text. -/
theorem scan_lines (source : String) :
    let pieces := withTextBefore [] (segments source.toList)
    Partition source.toList (pieces.map Prod.snd) ∧
      (∀ p ∈ pieces, p.1 ++ p.2.chars <+: source.toList ∧
        newlineCount p.2.chars = p.2.newlinesCounted) ∧
      List.Forall₂ (fun (before, kind, lexeme) t => Token.StandsBehind t before kind lexeme)
        (pieces.filterMap (fun (before, s) => s.lexeme? before) ++
          [(source.toList, .endOfInput, [])])
        (Scan.ofString source).allTokens ∧
      (Scan.ofString source).diagnostics =
        pieces.filterMap fun (before, s) => s.complaint? source.toList before := by
  intro pieces
  have shapes := shaped_segments source.toList
  have located : withEndLines 1 (segments source.toList) = pieces.map _ :=
    withEndLines_eq [] shapes
  refine ⟨?_, fun p mem => ?_, ?_, ?_⟩
  · rw [map_withTextBefore]
    exact partition_segments source.toList
  · obtain ⟨shaped, behind, text, -⟩ := stands_of_mem_pieces mem
    exact ⟨⟨behind, text⟩, newlineCount_chars shaped⟩
  · have ends := foldl_endLine [] shapes
    rw [(partition_segments source.toList).flatten] at ends
    rw [Scan.allTokens, Scan.tokens_ofString, yieldsFrom, located, List.filterMap_map]
    refine List.rel_append ?_ (.cons ⟨rfl, rfl, ?_⟩ .nil)
    · refine List.rel_filterMap (R := Eq) ?_ (List.forall₂_refl pieces)
      rintro ⟨before, s⟩ - rfl
      exact rel_token? before s
    · show _ = 1 + newlineCount (source.toList ++ [])
      rw [List.append_nil]
      exact ends
  · rw [Scan.diagnostics_ofString, yieldsFrom, located, List.filterMap_map]
    exact List.filterMap_congr fun p mem => diagnostic?_of_mem_pieces mem

end LoxLang
