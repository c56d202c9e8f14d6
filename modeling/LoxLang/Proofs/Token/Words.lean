/-
LoxLang.Proofs.Token.Words: how the words of a text are spelled.

A word of a text is a keyword only as a whole, so that the kind of a word and its spelling say the
same: no identifier is spelled like a keyword, and every keyword is spelled in its own way only.

Main statement: `spelled_scan`.
-/
import LoxLang.Token.Scan

namespace LoxLang

namespace Kind

/-- The kinds of words: identifiers and keywords. -/
def IsWord (k : Kind) : Prop := k = identifier ∨ k ∈ keywords.map Prod.snd

instance (k : Kind) : Decidable k.IsWord := inferInstanceAs (Decidable (_ ∨ _))

theorem not_isWord_ofPair {c d : Char} {k : Kind} (h : ofPair? c d = some k) : ¬ k.IsWord := by
  unfold ofPair? at h
  split at h <;> cases h <;> decide

theorem not_isWord_ofChar {c : Char} {k : Kind} (h : ofChar? c = some k) : ¬ k.IsWord := by
  unfold ofChar? at h
  split at h <;> cases h <;> decide

/-- A keyword has one spelling. -/
theorem mem_keywords_of_ofWord {word : String} {k : Kind} (h : ofWord word = k)
    (keyword : k ≠ identifier) : (word, k) ∈ keywords := by
  unfold ofWord at h
  cases found : keywords.lookup word with
  | none =>
    rw [found] at h
    exact absurd h.symm keyword
  | some k' =>
    rw [found] at h
    cases h
    obtain ⟨before, behind, split, _⟩ := List.lookup_eq_some_iff.mp found
    rw [split]
    exact List.mem_append_right before List.mem_cons_self

theorem ofWord_eq_thisWord {word : String} (h : ofWord word = thisWord) : word = "this" := by
  have mem := mem_keywords_of_ofWord h (by decide)
  simpa [keywords] using mem

theorem ofWord_eq_superWord {word : String} (h : ofWord word = superWord) : word = "super" := by
  have mem := mem_keywords_of_ofWord h (by decide)
  simpa [keywords] using mem

end Kind

/-- The token is spelled as its kind says, if it is a word. -/
def Spelled (k : Kind) (t : Token) : Prop := k.IsWord → Kind.ofWord t.lexeme = k

/-- The same of a segment that is a token. -/
def Segment.Spelled : Segment → Prop
  | .token k lexeme => k.IsWord → Kind.ofWord (String.ofList lexeme) = k
  | _ => True

theorem spelled_cutMark (c : Char) (cs : List Char) : (cutMark c cs).1.Spelled := by
  have one : (((Kind.ofChar? c).map (Segment.token · [c])).getD (.unexpected c)).Spelled := by
    cases known : Kind.ofChar? c with
    | none => exact trivial
    | some k => exact fun word => absurd word (Kind.not_isWord_ofChar known)
  unfold cutMark
  split
  · split
    · rename_i known
      exact fun word => absurd word (Kind.not_isWord_ofPair known)
    · exact one
  · exact one

theorem spelled_splitFirst (c : Char) (cs : List Char) : (splitFirst c cs).1.Spelled := by
  have plain : ∀ {k : Kind} {lexeme : List Char}, ¬ k.IsWord → (Segment.token k lexeme).Spelled :=
    fun no word => absurd word no
  unfold splitFirst
  split
  · exact trivial
  split
  · exact trivial
  split
  · exact trivial
  split
  · exact trivial
  split
  · unfold cutString
    split
    · exact trivial
    · exact plain (by decide)
  split
  · unfold cutNumber
    dsimp only
    split
    · split <;> exact plain (by decide)
    · exact plain (by decide)
  split
  · exact fun _ => rfl
  · exact spelled_cutMark c cs

theorem spelled_segmentsWithin : ∀ (limit : Nat) (cs : List Char),
    ∀ segment ∈ segmentsWithin limit cs, segment.Spelled
  | 0, _, _, mem => by cases mem
  | _ + 1, [], _, mem => by cases mem
  | limit + 1, c :: cs, segment, mem => by
    rcases List.mem_cons.mp mem with rfl | mem
    · exact spelled_splitFirst c cs
    · exact spelled_segmentsWithin limit _ segment mem

theorem mem_of_mem_withEndLines : ∀ {segments : List Segment} {line : Nat} {p : Segment × Nat},
    p ∈ withEndLines line segments → p.1 ∈ segments
  | s :: rest, line, p, mem => by
    rcases List.mem_cons.mp mem with rfl | mem
    · exact List.mem_cons_self
    · exact List.mem_cons_of_mem s (mem_of_mem_withEndLines mem)

/-- The words of a text are spelled as their kinds say. -/
theorem spelled_scan (source : String) :
    ∀ t ∈ (Scan.ofString source).tokens, Spelled t.kind t := by
  intro t mem
  obtain ⟨⟨segment, line⟩, located, yields⟩ := List.mem_filterMap.mp mem
  have spelled := spelled_segmentsWithin _ _ segment (mem_of_mem_withEndLines located)
  cases segment with
  | token k lexeme =>
    cases yields
    exact spelled
  | _ => cases yields

end LoxLang
