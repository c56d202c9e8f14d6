/-
LoxLang.Proofs.Token.Rendered: tokens written out again and scanned.

A lexeme with a blank or nothing behind it is cut off as a whole, whatever the text was that it came
from.  So the lexemes of any tokens can be written in a row with single blanks between them, and a
scan finds the same tokens, on other lines.

* `render`: the lexemes of tokens in a row.
* `Token.Scanned`: a token of some text.

Main statement: `scan_render`.
-/
import LoxLang.Proofs.Token.Partition

namespace LoxLang

/-- The lexemes of tokens in a row, with single blanks between them. -/
def render (ts : List Token) : String := " ".intercalate (ts.map Token.lexeme)

/-- The token was found in some text. -/
def Token.Scanned (t : Token) : Prop := ∃ source, t ∈ (Scan.ofString source).tokens

section

variable {t : Token} {ts : List Token} {cs rest : List Char} {kind : Kind}

theorem Token.Scanned.lexeme (scanned : t.Scanned) :
    Lexeme t.kind t.lexeme.toList ∧ t.literal = literalOf t.kind t.lexeme.toList := by
  obtain ⟨source, mem⟩ := scanned
  exact lexeme_of_mem_tokens mem

/-- A lexeme is the first segment of a text if a blank or nothing follows it. -/
theorem segments_lexeme (h : Lexeme kind cs) (rest : List Char) (separated : Separated rest) :
    segments (cs ++ rest) = .token kind cs :: segments rest := by
  obtain ⟨c, cs', first⟩ := List.exists_cons_of_ne_nil
    (Segment.Shaped.regular (.token h)).chars_ne_nil
  have whole : cs ++ rest = c :: (cs' ++ rest) := congrArg (· ++ rest) first
  rw [whole, segments_cons, splitFirst_lexeme h separated whole]

theorem segments_blank {c : Char} (h : isBlank c) (cs : List Char) :
    segments (c :: cs) = .blank c :: segments cs := by
  rw [segments_cons, splitFirst_blank h]

/-- The segment that a token is. -/
def Token.segment (t : Token) : Segment := .token t.kind t.lexeme.toList

/-- No neighbours change a lexeme: the segments of a row are the tokens and the blanks in
between. -/
theorem segments_render (lexemes : ∀ t ∈ ts, Lexeme t.kind t.lexeme.toList) :
    segments (render ts).toList = (ts.map Token.segment).intersperse (.blank ' ') := by
  rw [render, String.toList_intercalate, List.map_map]
  induction ts with
  | nil => rfl
  | cons t ts ih =>
    obtain ⟨first, others⟩ := List.forall_mem_cons.mp lexemes
    cases ts with
    | nil =>
      have row := segments_lexeme first [] (by simp [Separated])
      simpa [Token.segment] using row
    | cons t' ts =>
      have blank : isBlank ' ' := rfl
      simp only [List.map_cons, List.intercalate_cons_cons, List.intersperse_cons_cons] at ih ⊢
      rw [List.append_assoc, Function.comp_apply,
        segments_lexeme first _ (by simp [Separated, blank])]
      exact congrArg (Token.segment t :: ·) ((segments_blank blank _).trans
        (congrArg _ (ih others)))

theorem filterMap_intersperse {α β : Type} {f : α → Option β} {separator : α}
    (skips : f separator = none) (xs : List α) :
    (xs.intersperse separator).filterMap f = xs.filterMap f := by
  induction xs with
  | nil => rfl
  | cons x xs ih =>
    cases xs with
    | nil => rfl
    | cons x' xs => simp only [List.intersperse_cons_cons, List.filterMap_cons, skips, ih]

/-- What a row yields is what its tokens yield. -/
theorem map_yieldsFrom_render {α β : Type} {f : Nat → Segment → Option α} {g : α → β}
    {h : Segment → Option β} (same : ∀ line s, (f line s).map g = h s)
    (skips : h (.blank ' ') = none) (lexemes : ∀ t ∈ ts, Lexeme t.kind t.lexeme.toList) :
    (yieldsFrom f 1 (render ts).toList).map g = ts.filterMap fun t => h t.segment := by
  rw [map_yieldsFrom same, segments_render lexemes, filterMap_intersperse skips, List.filterMap_map]
  rfl

end

/-- Scanning undoes rendering: the lexemes of tokens of any texts, written in a row with single
blanks between them, scan without a complaint to the same tokens in the same order and the one for
the end.  So writing the tokens of a text and scanning them again changes nothing any more. -/
theorem scan_render (ts : List Token) (scanned : ∀ t ∈ ts, t.Scanned) :
    (Scan.ofString (render ts)).diagnostics = [] ∧
      (Scan.ofString (render ts)).allTokens.map Token.content =
        ts.map Token.content ++ [(.endOfInput, "", .nil)] ∧
      render (Scan.ofString (render ts)).tokens = render ts := by
  have lexemes := fun t mem => (scanned t mem).lexeme.1
  have contents : (Scan.ofString (render ts)).tokens.map Token.content = ts.map Token.content := by
    have each : ∀ t ∈ ts, t.segment.content? = some t.content := fun t mem => by
      simp [Token.segment, Segment.content?, Token.content, (scanned t mem).lexeme.2]
    rw [Scan.tokens_ofString, map_yieldsFrom_render (h := Segment.content?)
      (fun line s => by cases s <;> rfl) rfl lexemes, List.filterMap_congr each]
    exact congrFun List.filterMap_eq_map ts
  refine ⟨?_, ?_, ?_⟩
  · have faults := map_yieldsFrom_render (f := Segment.diagnostic?) (g := Diagnostic.fault)
      (h := Segment.fault?) (fun line s => by cases s <;> rfl) rfl lexemes
    have none : ts.filterMap (fun t => t.segment.fault?) = [] :=
      List.filterMap_eq_nil_iff.mpr fun _ _ => rfl
    rw [none] at faults
    exact List.map_eq_nil_iff.mp faults
  · rw [Scan.allTokens, List.map_append, contents]
    rfl
  · have same := congrArg (List.map fun content : Kind × String × Literal => content.2.1) contents
    rw [List.map_map, List.map_map] at same
    exact congrArg " ".intercalate same

/-- Tokens of two texts, with neighbours that would be a comment, a pair or another word if no
blanks were between them. -/
theorem scan_render_neighbours :
    let ts : List Token := [⟨.slash, "/", .nil, 1⟩, ⟨.slash, "/", .nil, 1⟩,
      ⟨.string, "\"/*\n\"", .string "/*\n", 2⟩, ⟨.equal, "=", .nil, 3⟩, ⟨.equal, "=", .nil, 3⟩,
      ⟨.orWord, "or", .nil, 3⟩, ⟨.identifier, "bit", .nil, 3⟩]
    (∀ t ∈ ts, t.Scanned) ∧ (Scan.ofString (render ts)).diagnostics = [] ∧
      (Scan.ofString (render ts)).allTokens.map Token.content =
        ts.map Token.content ++ [(.endOfInput, "", .nil)] ∧
      render (Scan.ofString (render ts)).tokens = render ts := by
  intro ts
  have first : (Scan.ofString "/").tokens = [⟨.slash, "/", .nil, 1⟩] := by cbv
  have second : (Scan.ofString "/ \"/*\n\"\n= =or bit").tokens = ts.tail := by cbv
  have scanned : ∀ t ∈ ts, t.Scanned := by
    refine List.forall_mem_cons.mpr ⟨⟨"/", ?_⟩, fun t mem => ⟨"/ \"/*\n\"\n= =or bit", ?_⟩⟩
    · rw [first]
      exact List.mem_singleton.mpr rfl
    · rw [second]
      exact mem
  exact ⟨scanned, scan_render ts scanned⟩

end LoxLang
