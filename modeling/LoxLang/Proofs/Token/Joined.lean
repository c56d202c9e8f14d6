/-
LoxLang.Proofs.Token.Joined: two texts with a newline between them.

No token goes beyond the end of a line but a string, and nothing else does but a block comment.  So
a text that leaves neither of them open yields the same with another text below it, and the other
text yields what it yields by itself, on lines that lie further down.

* `commentDepth`, `Segment.IsOpen`: what is left open at the end of a text.
* `yieldsFrom`: what the segments of a text yield when it begins on some line.

Main statements: `splitFirst_append`, for one segment, and `yieldsFrom_append`, for a whole text.
-/
import LoxLang.Proofs.Tree.Relabelled
import LoxLang.Token.Scan
import Mathlib.Data.List.TakeWhile

namespace LoxLang

/-! ## What is left open -/

/-- The openings of block comments that are not closed at the end of a text, if so many are open at
its beginning; the text ends with the closing of the first of them, if there is one. -/
def commentDepth : Nat → List Char → Nat
  | 0, _ => 0
  | depth + 1, [] => depth + 1
  | depth + 1, '/' :: '*' :: cs => commentDepth (depth + 2) cs
  | depth + 1, '*' :: '/' :: cs => commentDepth depth cs
  | depth + 1, _ :: cs => commentDepth (depth + 1) cs

/-- A block comment that is never closed. -/
def Segment.IsOpenComment : Segment → Prop
  | .blockComment text => commentDepth 1 (text.drop 2) ≠ 0
  | _ => False

/-- A segment that only ends because the text does. -/
def Segment.IsOpen : Segment → Prop
  | .openString _ => True
  | s => s.IsOpenComment

/-- The text ends inside a block comment. -/
def EndsInComment (source : String) : Prop := ∃ s ∈ segments source.toList, s.IsOpenComment

/-! ## The first segment of a joined text -/

section Append

variable {cs ds : List Char} {p : Char → Bool}

/-- What stops at a newline takes nothing of the text below. -/
theorem takeWhile_append_of_stops (stops : p '\n' = false) :
    (cs ++ '\n' :: ds).takeWhile p = cs.takeWhile p := by
  induction cs with
  | nil => simp [stops]
  | cons c cs ih => by_cases h : p c <;> simp [h, ih]

/-- And leaves all of it. -/
theorem dropWhile_append_of_stops (stops : p '\n' = false) :
    (cs ++ '\n' :: ds).dropWhile p = cs.dropWhile p ++ '\n' :: ds := by
  induction cs with
  | nil => simp [stops]
  | cons c cs ih => by_cases h : p c <;> simp [h, ih]

/-- A comment has at least its first character. -/
theorem head_cutBlockComment (depth : Nat) (c : Char) (cs : List Char) :
    (cutBlockComment (depth + 1) (c :: cs)).1.head? = some c := by
  unfold cutBlockComment
  split <;> simp_all

/-- A character that is not part of a mark of two does not change what is open. -/
theorem commentDepth_cons {depth : Nat} {c : Char} (opening : c = '/' → cs.head? ≠ some '*')
    (closing : c = '*' → cs.head? ≠ some '/') :
    commentDepth (depth + 1) (c :: cs) = commentDepth (depth + 1) cs := by
  rw [commentDepth]
  · rintro rest rfl rfl
    exact opening rfl rfl
  · rintro rest rfl rfl
    exact closing rfl rfl

/-- A block comment that is closed ends where it did. -/
theorem cutBlockComment_append (depth : Nat) (cs : List Char)
    (closed : commentDepth depth (cutBlockComment depth cs).1 = 0) :
    cutBlockComment depth (cs ++ ds) =
      ((cutBlockComment depth cs).1, (cutBlockComment depth cs).2 ++ ds) := by
  fun_induction cutBlockComment depth cs with
  | case1 cs => rw [cutBlockComment]
  | case2 depth => cases closed
  | case3 depth cs inside rest cut ih =>
    rw [cut] at ih
    have same := ih closed
    simp only [List.cons_append, cutBlockComment, same]
  | case4 depth cs inside rest cut ih =>
    rw [cut] at ih
    have same := ih closed
    simp only [List.cons_append, cutBlockComment, same]
  | case5 depth c cs notOpening notClosing inside rest cut ih =>
    rw [cut] at ih
    cases cs with
    | nil =>
      cases cut
      rw [commentDepth_cons (by simp) (by simp)] at closed
      cases closed
    | cons e es =>
      have head : inside.head? = some e := by
        have head := head_cutBlockComment depth e es
        rwa [cut] at head
      have opening : c = '/' → e ≠ '*' := by
        rintro rfl rfl
        exact notOpening es rfl rfl
      have closing : c = '*' → e ≠ '/' := by
        rintro rfl rfl
        exact notClosing es rfl rfl
      rw [commentDepth_cons (by simpa [head] using opening) (by simpa [head] using closing)]
        at closed
      have same := ih closed
      simp only [List.cons_append] at same ⊢
      rw [cutBlockComment, same]
      · rintro rest rfl h
        cases h
        exact opening rfl rfl
      · rintro rest rfl h
        cases h
        exact closing rfl rfl

/-- A string that is closed ends where it ends without the text below. -/
theorem cutString_append (closed : ¬ (cutString cs).1.IsOpen) :
    cutString (cs ++ ds) = ((cutString cs).1, (cutString cs).2 ++ ds) := by
  have whole := List.takeWhile_append_dropWhile (p := (· ≠ '"')) (l := cs)
  unfold cutString at closed ⊢
  cases behind : cs.dropWhile (· ≠ '"') with
  | nil =>
    rw [behind] at closed
    exact absurd trivial closed
  | cons quote rest =>
    have shorter : (cs.takeWhile (· ≠ '"')).length ≠ cs.length := by
      rw [behind] at whole
      have length := congrArg List.length whole
      rw [List.length_append, List.length_cons] at length
      omega
    simp only [List.dropWhile_append, List.takeWhile_append, behind, List.isEmpty_cons,
      if_neg shorter]
    rfl

/-- So does a number. -/
theorem cutNumber_append : cutNumber (cs ++ '\n' :: ds) =
    ((cutNumber cs).1, (cutNumber cs).2 ++ '\n' :: ds) := by
  have stops : Text.isDigit '\n' = false := by decide
  unfold cutNumber
  rw [takeWhile_append_of_stops stops, dropWhile_append_of_stops stops]
  generalize cs.takeWhile Text.isDigit = whole
  rcases cs.dropWhile Text.isDigit with _ | ⟨c, _ | ⟨d, after⟩⟩
  · simp
  · by_cases dot : c = '.'
    · subst dot
      simp [stops]
    · simp [dot]
  · by_cases dot : c = '.'
    · subst dot
      have fraction : (d :: (after ++ '\n' :: ds)) = (d :: after) ++ '\n' :: ds := rfl
      simp only [List.cons_append]
      rw [fraction, takeWhile_append_of_stops stops, dropWhile_append_of_stops stops]
      split <;> rfl
    · simp [dot]

/-- So does a word. -/
theorem cutWord_append : cutWord (cs ++ '\n' :: ds) =
    ((cutWord cs).1, (cutWord cs).2 ++ '\n' :: ds) := by
  have stops : isWordPart '\n' = false := by decide
  rw [cutWord, takeWhile_append_of_stops stops, dropWhile_append_of_stops stops]
  rfl

/-- And so does a mark. -/
theorem cutMark_append (c : Char) : cutMark c (cs ++ '\n' :: ds) =
    ((cutMark c cs).1, (cutMark c cs).2 ++ '\n' :: ds) := by
  cases cs with
  | nil =>
    have lone : Kind.ofPair? c '\n' = none := by
      unfold Kind.ofPair?
      split <;> simp_all
    simp [cutMark, lone]
  | cons d cs =>
    simp only [List.cons_append, cutMark]
    cases Kind.ofPair? c d <;> rfl

/-- A segment that is not left open is the same with more text on later lines. -/
theorem splitFirst_append {c : Char} (word : c ≠ '\n') (closed : ¬ (splitFirst c cs).1.IsOpen) :
    splitFirst c (cs ++ '\n' :: ds) =
      ((splitFirst c cs).1, (splitFirst c cs).2 ++ '\n' :: ds) := by
  have ahead : ∀ d, d ≠ '\n' →
      (c = '/' ∧ (cs ++ '\n' :: ds).head? = some d ↔ c = '/' ∧ cs.head? = some d) := by
    intro d ne
    cases cs with
    | nil => simp [Ne.symm ne]
    | cons e cs => rfl
  have slash := ahead '/' (by decide)
  have star := ahead '*' (by decide)
  unfold splitFirst at closed ⊢
  split at closed
  · rename_i blank
    rw [if_pos blank, if_pos blank]
  rename_i notBlank
  rw [if_neg notBlank, if_neg notBlank, if_neg word, if_neg word]
  split at closed
  · rename_i line
    rw [if_pos line, if_pos (slash.mpr line), takeWhile_append_of_stops (by simp),
      dropWhile_append_of_stops (by simp)]
  rename_i notLine
  rw [if_neg notLine, if_neg fun h => notLine (slash.mp h)]
  split at closed
  · rename_i comment
    rw [if_pos comment, if_pos (star.mpr comment)]
    obtain ⟨rest, rfl⟩ := List.head?_eq_some_iff.mp comment.2
    have closed : commentDepth 1 (cutBlockComment 1 rest).1 = 0  :=
      Decidable.of_not_not closed
    simp only [List.cons_append, List.drop_succ_cons, List.drop_zero,
      cutBlockComment_append 1 rest closed]
  rename_i notComment
  rw [if_neg notComment, if_neg fun h => notComment (star.mp h)]
  split at closed
  · rename_i quote
    rw [if_pos quote, if_pos quote]
    exact cutString_append closed
  rename_i notQuote
  rw [if_neg notQuote, if_neg notQuote]
  split
  · exact @cutNumber_append (c :: cs) ds
  split
  · exact @cutWord_append (c :: cs) ds
  · exact cutMark_append c

end Append

/-! ## Counting newlines -/

section Counting

variable {cs : List Char}

/-- The newlines of two texts in a row are those of both. -/
theorem newlineCount_append (cs ds : List Char) :
    newlineCount (cs ++ ds) = newlineCount cs + newlineCount ds := List.count_append

theorem newlineCount_eq_zero (absent : '\n' ∉ cs) : newlineCount cs = 0 :=
  List.count_eq_zero.mpr absent

/-- A class of characters without the newline has none. -/
theorem notMem_of_forall {p : Char → Bool} (all : ∀ c ∈ cs, p c) (other : p '\n' = false) :
    '\n' ∉ cs := by
  intro mem
  have newline := all '\n' mem
  rw [other] at newline
  cases newline

theorem notMem_takeWhile {p : Char → Bool} (other : p '\n' = false) :
    '\n' ∉ cs.takeWhile p := notMem_of_forall (fun _ mem => List.mem_takeWhile_imp mem) other

/-- No newline belongs to an opening or a closing. -/
theorem commentNewlines_eq (cs : List Char) : commentNewlines cs = newlineCount cs := by
  unfold newlineCount
  fun_induction commentNewlines cs with
  | case1 => rfl
  | case2 cs ih => simpa using ih
  | case3 cs ih => simpa using ih
  | case4 c cs _ _ ih =>
    rw [List.count_cons, ih]
    simp

/-- A token is not searched for newlines if it is no string, and then it has none. -/
theorem newlinesCounted_token (kind : Kind) (absent : '\n' ∉ cs) :
    (Segment.token kind cs).newlinesCounted = newlineCount cs := by
  by_cases string : kind = .string
  · subst string
    rfl
  · rw [newlineCount_eq_zero absent, Segment.newlinesCounted]
    all_goals simp [string]

/-- A string counts all of its newlines. -/
theorem newlinesCounted_cutString (cs : List Char) :
    (cutString cs).1.newlinesCounted = newlineCount (cutString cs).1.chars := by
  unfold cutString
  split <;> rfl

/-- A number has none. -/
theorem newlinesCounted_cutNumber (cs : List Char) :
    (cutNumber cs).1.newlinesCounted = newlineCount (cutNumber cs).1.chars := by
  have digit : Text.isDigit '\n' = false := by decide
  unfold cutNumber
  dsimp only
  split
  · split
    · refine newlinesCounted_token _ fun mem => ?_
      rcases List.mem_append.mp mem with mem | mem
      · exact notMem_takeWhile digit mem
      · exact notMem_takeWhile digit ((List.mem_cons.mp mem).resolve_left (by decide))
    · exact newlinesCounted_token _ (notMem_takeWhile digit)
  · exact newlinesCounted_token _ (notMem_takeWhile digit)

/-- No operator and no mark has a newline in it. -/
theorem newlinesCounted_cutMark {c : Char} (word : c ≠ '\n') (cs : List Char) :
    (cutMark c cs).1.newlinesCounted = newlineCount (cutMark c cs).1.chars := by
  have single : '\n' ∉ [c] := fun mem => word (List.mem_singleton.mp mem).symm
  have alone (c' : Char) (absent : '\n' ∉ [c']) :
      (((Kind.ofChar? c').map (Segment.token · [c'])).getD (.unexpected c')).newlinesCounted =
        newlineCount
          (((Kind.ofChar? c').map (Segment.token · [c'])).getD (.unexpected c')).chars := by
    cases Kind.ofChar? c' with
    | none => exact (newlineCount_eq_zero absent).symm
    | some kind => exact newlinesCounted_token kind absent
  cases cs with
  | nil => exact alone c single
  | cons d rest =>
    unfold cutMark
    dsimp only
    split
    · rename_i kind pair
      refine newlinesCounted_token kind fun mem => ?_
      unfold Kind.ofPair? at pair
      split at pair <;> cases pair <;> revert mem <;> decide
    · exact alone c single

/-- What is counted on the way through the first segment of a text is its newlines. -/
theorem newlinesCounted_splitFirst (c : Char) (cs : List Char) :
    (splitFirst c cs).1.newlinesCounted = newlineCount (splitFirst c cs).1.chars := by
  unfold splitFirst
  split
  · rename_i blank
    refine (newlineCount_eq_zero fun mem => ?_).symm
    obtain rfl := List.mem_singleton.mp mem
    cases blank
  split
  · rename_i newline
    subst newline
    refine (List.count_eq_length.mpr fun d mem => ?_).symm
    rcases List.mem_cons.mp mem with rfl | mem
    · rfl
    · have same := List.mem_takeWhile_imp mem
      exact (of_decide_eq_true same).symm
  rename_i word
  split
  · refine (newlineCount_eq_zero fun mem => ?_).symm
    rcases List.mem_cons.mp mem with rfl | mem
    · exact word rfl
    · exact notMem_takeWhile (by decide) mem
  split
  · show commentNewlines _ = newlineCount ('/' :: '*' :: _)
    rw [List.drop_succ_cons, List.drop_succ_cons, List.drop_zero, commentNewlines_eq]
    simp [newlineCount]
  split
  · exact newlinesCounted_cutString cs
  split
  · exact newlinesCounted_cutNumber (c :: cs)
  split
  · exact newlinesCounted_token _ (notMem_takeWhile (by decide))
  · exact newlinesCounted_cutMark word cs

/-- So every segment ends as many lines further down as it has newlines. -/
theorem endLine_splitFirst (line : Nat) (c : Char) (cs : List Char) :
    (splitFirst c cs).1.endLine line = line + newlineCount (splitFirst c cs).1.chars := by
  rw [Segment.endLine, newlinesCounted_splitFirst]

end Counting

/-! ## What a text yields -/

section Yields

variable {α : Type}

/-- What the segments of a text yield when the text begins on a line. -/
def yieldsFrom (f : Nat → Segment → Option α) (line : Nat) (cs : List Char) : List α :=
  (withEndLines line (segments cs)).filterMap fun (s, line) => f line s

variable {f : Nat → Segment → Option α} {line : Nat} {cs ds : List Char}

/-- What a text yields is what its first segment yields, and then what is left does. -/
theorem yieldsFrom_cons (c : Char) (cs : List Char) :
    yieldsFrom f line (c :: cs) =
      (f ((splitFirst c cs).1.endLine line) (splitFirst c cs).1).toList ++
        yieldsFrom f ((splitFirst c cs).1.endLine line) (splitFirst c cs).2 := by
  rw [yieldsFrom, segments_cons, withEndLines, List.filterMap_cons, yieldsFrom]
  dsimp only
  cases f ((splitFirst c cs).1.endLine line) (splitFirst c cs).1 <;> rfl

/-- A newline begins a segment of newlines. -/
theorem splitFirst_newline (cs : List Char) :
    splitFirst '\n' cs =
      (.newlines ('\n' :: cs.takeWhile (· = '\n')), cs.dropWhile (· = '\n')) := by
  simp [splitFirst, isBlank]

/-- Newlines yield nothing, so they may be skipped one by one. -/
theorem yieldsFrom_newline (skips : ∀ line run, f line (.newlines run) = none) :
    yieldsFrom f line ('\n' :: cs) = yieldsFrom f (line + 1) cs := by
  have run : ∀ line cs, yieldsFrom f line ('\n' :: cs) =
      yieldsFrom f (line + 1 + newlineCount (cs.takeWhile (· = '\n')))
        (cs.dropWhile (· = '\n')) := by
    intro line cs
    rw [yieldsFrom_cons, endLine_splitFirst, splitFirst_newline, skips]
    simp [Segment.chars, newlineCount, Nat.add_assoc, Nat.add_comm]
  cases cs with
  | nil => rw [run]; rfl
  | cons c cs =>
    by_cases newline : c = '\n'
    · subst newline
      have count : newlineCount (('\n' :: cs).takeWhile (· = '\n')) =
          newlineCount (cs.takeWhile (· = '\n')) + 1 := by
        simp [newlineCount]
      rw [run, run, count, Nat.add_right_comm (line + 1), Nat.add_assoc (line + 1)]
      simp
    · rw [run]
      simp [newline, newlineCount]

/-- An open string or comment is one with an empty line in front, too. -/
theorem mem_segments_newline {s : Segment} (mem : s ∈ segments cs) (isOpen : s.IsOpen) :
    s ∈ segments ('\n' :: cs) := by
  rw [segments_cons, splitFirst_newline]
  refine List.mem_cons_of_mem _ ?_
  cases cs with
  | nil => exact mem
  | cons c cs =>
    by_cases newline : c = '\n'
    · subst newline
      rw [segments_cons, splitFirst_newline] at mem
      rcases List.mem_cons.mp mem with rfl | mem
      · exact isOpen.elim
      · simpa using mem
    · simpa [newline] using mem

/-- A text that leaves nothing open, and another text below it. -/
theorem yieldsFrom_append (skips : ∀ line run, f line (.newlines run) = none)
    (closed : ∀ s ∈ segments cs, ¬ s.IsOpen) :
    yieldsFrom f line (cs ++ '\n' :: ds) =
      yieldsFrom f line cs ++ yieldsFrom f (line + newlineCount cs + 1) ds := by
  induction h : cs.length using Nat.strongRecOn generalizing cs line with
  | ind n ih =>
    subst h
    cases cs with
    | nil => exact yieldsFrom_newline skips
    | cons c cs =>
      by_cases newline : c = '\n'
      · subst newline
        have below := @ih cs.length (Nat.lt_succ_self _) (line + 1) cs
          (fun s mem isOpen => closed s (mem_segments_newline mem isOpen) isOpen) rfl
        rw [List.cons_append, yieldsFrom_newline skips, yieldsFrom_newline skips, below]
        simp [newlineCount, Nat.add_comm, Nat.add_left_comm]
      · rw [segments_cons] at closed
        have shorter := length_splitFirst c cs
        have below := @ih (splitFirst c cs).2.length (Nat.lt_succ_of_le shorter)
          ((splitFirst c cs).1.endLine line) (splitFirst c cs).2
          (fun s mem => closed s (List.mem_cons_of_mem _ mem)) rfl
        have count : newlineCount (c :: cs) =
            newlineCount (splitFirst c cs).1.chars + newlineCount (splitFirst c cs).2 := by
          rw [← chars_splitFirst c cs]
          exact List.count_append
        rw [List.cons_append, yieldsFrom_cons, yieldsFrom_cons,
          splitFirst_append newline (closed _ List.mem_cons_self), below, List.append_assoc, count,
          ← Nat.add_assoc, ← endLine_splitFirst]

/-- The same text further down. -/
theorem yieldsFrom_later {k : Nat} {g : α → α}
    (later : ∀ line s, f (line + k) s = (f line s).map g) :
    yieldsFrom f (line + k) cs = (yieldsFrom f line cs).map g := by
  have ends : ∀ (line : Nat) (s : Segment), s.endLine (line + k) = s.endLine line + k := fun _ _ =>
    Nat.add_right_comm _ _ _
  unfold yieldsFrom
  induction segments cs generalizing line with
  | nil => rfl
  | cons s rest ih =>
    simp only [withEndLines, ends, List.filterMap_cons, later, ih]
    cases f (s.endLine line) s <;> rfl

end Yields

/-! ## Scanning joined texts -/

/-- The lines that a text takes up. -/
def lineCount (source : String) : Nat := newlineCount source.toList + 1

/-- Lines without text. -/
def emptyLines (n : Nat) : String := String.ofList (List.replicate n '\n')

namespace Scan

variable {first : String}

theorem tokens_ofString (source : String) :
    (ofString source).tokens = yieldsFrom Segment.token? 1 source.toList := rfl

theorem diagnostics_ofString (source : String) :
    (ofString source).diagnostics = yieldsFrom Segment.diagnostic? 1 source.toList := rfl

/-- A text without lexical faults leaves no string open. -/
theorem closed_of_accepted (accepted : (ofString first).diagnostics = [])
    (ended : ¬ EndsInComment first) : ∀ s ∈ segments first.toList, ¬ s.IsOpen := by
  rintro s mem isOpen
  have listed : ∀ (line : Nat) (ss : List Segment), s ∈ ss →
      ∃ l, (s, l) ∈ withEndLines line ss := by
    intro line ss
    induction ss generalizing line with
    | nil => exact fun mem => nomatch mem
    | cons s' ss ih =>
      intro mem
      rcases List.mem_cons.mp mem with rfl | mem
      · exact ⟨_, List.mem_cons_self⟩
      · obtain ⟨l, mem⟩ := ih (s'.endLine line) mem
        exact ⟨l, List.mem_cons_of_mem _ mem⟩
  obtain ⟨l, located⟩ := listed 1 _ mem
  cases s with
  | openString text =>
    have silent := List.filterMap_eq_nil_iff.mp accepted _ located
    cases silent
  | blockComment text => exact ended ⟨_, mem, isOpen⟩
  | _ => exact isOpen.elim

theorem toList_joined (first second : String) :
    (first ++ "\n" ++ second).toList = first.toList ++ '\n' :: second.toList := by
  simp [String.toList_append]

/-- Below a text that leaves nothing open, another text yields the same tokens and complaints on
other lines. -/
theorem ofString_joined (closed : ∀ s ∈ segments first.toList, ¬ s.IsOpen) (second : String) :
    (ofString (first ++ "\n" ++ second)).tokens =
        (ofString first).tokens ++
          (ofString second).tokens.map (Token.reline (· + lineCount first)) ∧
      (ofString (first ++ "\n" ++ second)).diagnostics =
        (ofString first).diagnostics ++
          (ofString second).diagnostics.map (Diagnostic.reline (· + lineCount first)) := by
  have line : 1 + newlineCount first.toList + 1 = 1 + lineCount first := Nat.add_assoc _ _ _
  simp only [tokens_ofString, diagnostics_ofString, toList_joined]
  rw [yieldsFrom_append (fun _ _ => rfl) closed, yieldsFrom_append (fun _ _ => rfl) closed, line]
  constructor
  · congr 1
    exact yieldsFrom_later fun line s => by cases s <;> rfl
  · congr 1
    exact yieldsFrom_later fun line s => by cases s <;> rfl

/-- Below empty lines, a text yields the same tokens and complaints on other lines. -/
theorem ofString_emptyLines (n : Nat) (source : String) :
    (ofString (emptyLines n ++ source)).tokens =
        (ofString source).tokens.map (Token.reline (· + n)) ∧
      (ofString (emptyLines n ++ source)).diagnostics =
        (ofString source).diagnostics.map (Diagnostic.reline (· + n)) := by
  have skipped : ∀ {α : Type} {f : Nat → Segment → Option α},
      (∀ line run, f line (.newlines run) = none) →
      yieldsFrom f 1 (emptyLines n ++ source).toList = yieldsFrom f (1 + n) source.toList := by
    intro α f skips
    have all : ∀ line, yieldsFrom f line (List.replicate n '\n' ++ source.toList) =
        yieldsFrom f (line + n) source.toList := by
      induction n with
      | zero => exact fun _ => rfl
      | succ n ih =>
        intro line
        rw [List.replicate_succ, List.cons_append, yieldsFrom_newline skips, ih, Nat.add_assoc,
          Nat.add_comm 1]
    rw [emptyLines, String.toList_append, String.toList_ofList]
    exact all 1
  simp only [tokens_ofString, diagnostics_ofString]
  rw [skipped fun _ _ => rfl, skipped fun _ _ => rfl]
  constructor
  · exact yieldsFrom_later fun line s => by cases s <;> rfl
  · exact yieldsFrom_later fun line s => by cases s <;> rfl

end Scan

end LoxLang
