/-
LoxLang.Proofs.Tree.Plain: the words in the written form of a plain tree.

A plain tree is one that is read from a text and in which there are no strings and no numbers but
finite ones.  Its names are words and no keywords, its operators and keywords have one spelling
each, and so the words of its bracketed text have no delimiters in them.

* `Authentic`: a token as a scan finds it.
* `Expr.literals`, `Stmt.literals`: the literals in a tree.
* `ArePlain`: there are no strings among literals, and no numbers but finite ones of those told.

Main statements: `clear_expr` and `clear_stmt`.
-/
import LoxLang.Proofs.Number.Written
import LoxLang.Proofs.Token.Partition
import LoxLang.Proofs.Tree.Bracketing
import LoxLang.Proofs.Tree.Fitting
import LoxLang.Proofs.Tree.Relabelled
import Mathlib.Data.Set.Insert

namespace LoxLang

/-! ## Tokens of a text -/

/-- The token on line zero. -/
abbrev Token.unlined (t : Token) : Token := t.reline fun _ => 0

/-- A token of a kind as a scan finds it. -/
def Authentic (kind : Kind) (t : Token) : Prop :=
  t.kind = kind ∧ Lexeme kind t.lexeme.toList ∧ t.literal = literalOf kind t.lexeme.toList

/-- Every token of a scan is spelled as its kind is. -/
theorem authentic_scan (source : String) :
    ∀ t ∈ (Scan.ofString source).tokens, Authentic t.kind t :=
  fun _ mem => ⟨rfl, lexeme_of_mem_tokens mem⟩

section Tokens

variable {t : Token} {kind : Kind} {s : String} {cs : List Char}

/-- An identifier is a word, and no keyword. -/
theorem Lexeme.identifier (h : Lexeme kind cs) (name : kind = .identifier) :
    isWordText cs = true ∧ Kind.ofWord (String.ofList cs) = .identifier := by
  cases h with
  | word start parts => exact ⟨by simpa [isWordText, start] using parts, name⟩
  | pair known =>
    subst name
    exact absurd (.inl rfl) (Kind.not_isWord_ofPair known)
  | mark known =>
    subst name
    exact absurd (.inl rfl) (Kind.not_isWord_ofChar known)
  | _ => cases name

/-- But for its line, a token without a value is its kind and its lexeme. -/
theorem Authentic.unlined (h : Authentic kind t) (number : kind ≠ .number)
    (string : kind ≠ .string) : t.unlined = .bare kind t.lexeme := by
  obtain ⟨k, s, v, line⟩ := t
  obtain ⟨rfl, -, value⟩ := h
  have none : literalOf k s.toList = .nil := by
    unfold literalOf
    split <;> first | rfl | contradiction
  obtain rfl : v = .nil := value.trans none
  rfl

/-- The words for values and for the receiver, which are written as they are spelled. -/
def atoms : List String := ["nil", "true", "false", "this"]

/-- Names are words, but none of those with a meaning of their own. -/
theorem Authentic.name (h : Authentic .identifier t) :
    t.unlined = .name t.lexeme ∧ isWordText t.lexeme.toList = true ∧ t.lexeme ∉ atoms := by
  obtain ⟨word, kind⟩ := h.2.1.identifier rfl
  refine ⟨h.unlined (by decide) (by decide), word, fun mem => ?_⟩
  rw [String.ofList_toList] at kind
  have keyword : ∀ s ∈ atoms, Kind.ofWord s ≠ .identifier := by decide
  exact keyword _ mem kind

/-- Every other token has one spelling. -/
theorem Lexeme.spelled (h : Lexeme kind cs) (known : (s, kind) ∈ spellings) : cs = s.toList := by
  cases h with
  | @word c cs start parts =>
    have keywords : ∀ p ∈ Kind.keywords, ∀ q ∈ spellings, p.2 = q.2 → p.1 = q.1 := by decide
    have other : ∀ q ∈ spellings, q.2 ≠ .identifier := by decide
    have mem := Kind.mem_keywords_of_ofWord rfl (other _ known)
    have same : String.ofList (c :: cs) = s := keywords _ mem _ known rfl
    rw [← same, String.toList_ofList]
  | whole => simp [spellings] at known
  | fraction => simp [spellings] at known
  | string => simp [spellings] at known
  | pair pair =>
    unfold Kind.ofPair? at pair
    split at pair <;> cases pair <;> simp [spellings] at known <;> subst known <;> rfl
  | mark mark =>
    unfold Kind.ofChar? at mark
    split at mark <;> cases mark <;> simp [spellings] at known <;> subst known <;> rfl

/-- A keyword or a mark has the one spelling of its kind. -/
theorem Authentic.spelled (h : Authentic kind t) (known : (s, kind) ∈ spellings) :
    t.unlined = .spelled s ∧ t.lexeme = s := by
  have written : t.lexeme = s := String.toList_inj.mp (h.2.1.spelled known)
  have found : ∀ p ∈ spellings, spellings.lookup p.1 = some p.2 := by decide
  have value : ∀ p ∈ spellings, p.2 ≠ .number ∧ p.2 ≠ .string := by decide
  refine ⟨?_, written⟩
  rw [h.unlined (value _ known).1 (value _ known).2, written, Token.spelled, found _ known]
  rfl

/-- Of two kinds with one spelling each there are two spellings. -/
theorem spelled_of_or {kind' : Kind} {s' : String} (h : Authentic kind t ∨ Authentic kind' t)
    (known : (s, kind) ∈ spellings) (known' : (s', kind') ∈ spellings) :
    t.unlined = .spelled t.lexeme ∧ (t.lexeme = s ∨ t.lexeme = s') := by
  rcases h with h | h
  · obtain ⟨same, written⟩ := h.spelled known
    exact ⟨written ▸ same, .inl written⟩
  · obtain ⟨same, written⟩ := h.spelled known'
    exact ⟨written ▸ same, .inr written⟩

theorem spelled_unary (h : Authentic .bang t ∨ Authentic .minus t) :
    t.unlined = .spelled t.lexeme ∧ (t.lexeme = "!" ∨ t.lexeme = "-") :=
  spelled_of_or h (by decide) (by decide)

theorem spelled_loopExit (h : Authentic .breakWord t ∨ Authentic .continueWord t) :
    t.unlined = .spelled t.lexeme ∧ (t.lexeme = "break" ∨ t.lexeme = "continue") :=
  spelled_of_or h (by decide) (by decide)

/-- The spellings of the operators of a sort. -/
def operatorWords (logical : Bool) : List String :=
  if logical then ["or", "and"] else ["==", "!=", "<", ">", "<=", ">=", "+", "-", "*", "/"]

/-- The word of an operator is one of the operators. -/
theorem Operates.spelled {logical : Bool} (h : Operates Authentic logical t) :
    t.unlined = .spelled t.lexeme ∧ t.lexeme ∈ operatorWords logical := by
  obtain ⟨level, known, rfl, kind, among, authentic⟩ := h
  have spellable : ∀ level ∈ operatorLevels, ∀ k ∈ level.kinds,
      ∃ s ∈ operatorWords level.isLogical, (s, k) ∈ spellings := by decide
  obtain ⟨s, mem, spelling⟩ := spellable level known kind among
  obtain ⟨same, rfl⟩ := authentic.spelled spelling
  exact ⟨same, mem⟩

end Tokens

/-! ## Literals -/

section Literals

variable {ρ : Type}

mutual

/-- The literals in an expression, from left to right. -/
def Expr.literals : Expr ρ → List Literal
  | .literal v => [v]
  | .grouping e => e.literals
  | .unary _ e => e.literals
  | .binary l _ r => l.literals ++ r.literals
  | .logical l _ r => l.literals ++ r.literals
  | .variable _ | .this _ | .super _ _ => []
  | .assign _ e => e.literals
  | .call f _ es => f.literals ++ Expr.literalsAll es
  | .get e _ => e.literals
  | .set e _ v => e.literals ++ v.literals
  | .function _ _ body => Stmt.literalsAll body

def Expr.literalsAll : List (Expr ρ) → List Literal
  | [] => []
  | e :: es => e.literals ++ Expr.literalsAll es

/-- The literals in a statement, from left to right. -/
def Stmt.literals : Stmt ρ → List Literal
  | .missing | .var _ none | .ret _ none | .loopExit _ => []
  | .expression e => e.literals
  | .print e => e.literals
  | .var _ (some e) => e.literals
  | .block body => Stmt.literalsAll body
  | .ifElse c t none => c.literals ++ t.literals
  | .ifElse c t (some e) => c.literals ++ (t.literals ++ e.literals)
  | .whileLoop c b => c.literals ++ b.literals
  | .ret _ (some e) => e.literals
  | .function r => r.literals
  | .classDecl _ _ _ methods statics =>
    Routine.literalsAll methods ++ Routine.literalsAll statics

def Stmt.literalsAll : List (Stmt ρ) → List Literal
  | [] => []
  | s :: ss => s.literals ++ Stmt.literalsAll ss

/-- The literals in a routine, from left to right. -/
def Routine.literals : Routine ρ → List Literal
  | ⟨_, _, body, _⟩ => Stmt.literalsAll body

def Routine.literalsAll : List (Routine ρ) → List Literal
  | [] => []
  | r :: rs => r.literals ++ Routine.literalsAll rs

end

variable (numbers : Set Float)

/-- No string, and no number but a finite one of those told. -/
def Literal.IsPlain : Literal → Prop
  | .string _ => False
  | .number x => Number.isFinite x = true ∧ x ∈ numbers
  | .nil | .bool _ => True

/-- There are no strings among the literals, and no numbers but finite ones of those told. -/
def ArePlain (literals : List Literal) : Prop := ∀ v ∈ literals, v.IsPlain numbers

instance [DecidablePred (· ∈ numbers)] : DecidablePred (Literal.IsPlain numbers)
  | .string _ => inferInstanceAs (Decidable False)
  | .number x => inferInstanceAs (Decidable (Number.isFinite x = true ∧ x ∈ numbers))
  | .nil | .bool _ => inferInstanceAs (Decidable True)

instance [DecidablePred (· ∈ numbers)] : DecidablePred (ArePlain numbers) :=
  fun literals => inferInstanceAs (Decidable (∀ v ∈ literals, v.IsPlain numbers))

/-- Of plain literals each part is plain. -/
theorem ArePlain.split {numbers : Set Float} {vs ws : List Literal}
    (h : ArePlain numbers (vs ++ ws)) : ArePlain numbers vs ∧ ArePlain numbers ws :=
  List.forall_mem_append.mp h

end Literals

/-! ## Words without delimiters -/

section Clear

instance (s : String) : Decidable (Bracketed.word s).IsClear :=
  decidable_of_iff (s.toList ≠ [] ∧ s.toList.all (fun c => !isDelimiter c) = true)
    (by simp [Bracketed.IsClear])

/-- Characters are no delimiters if no delimiter is among them. -/
theorem not_isDelimiter_of {p : Char → Bool}
    (avoids : [' ', '\n', '(', ')', '\x7b', '\x7d'].all (fun d => !p d) = true) {c : Char}
    (h : p c = true) : isDelimiter c = false := by
  refine Bool.eq_false_iff.mpr fun delimiter => ?_
  simp only [isDelimiter, Bool.or_eq_true, beq_iff_eq, or_assoc] at delimiter
  have among : c ∈ [' ', '\n', '(', ')', '\x7b', '\x7d'] := by simpa using delimiter
  have avoided := List.all_eq_true.mp avoids c among
  rw [h] at avoided
  cases avoided

/-- A word is clear of brackets and blanks. -/
theorem clear_of_isWordText {s : String} (h : isWordText s.toList = true) :
    (Bracketed.word s).IsClear := by
  unfold isWordText at h
  split at h
  · cases h
  · rename_i c cs chars
    rw [Bool.and_eq_true, List.all_eq_true] at h
    refine ⟨by simp [chars], fun d mem => not_isDelimiter_of (p := isWordPart) (by decide) ?_⟩
    rw [chars] at mem
    rcases List.mem_cons.mp mem with rfl | mem
    · exact isWordPart_of_isWordStart h.1
    · exact h.2 d mem

/-- So is the text of a finite number. -/
theorem clear_of_isFinite {x : Float} (finite : Number.isFinite x = true) :
    (Bracketed.word (Number.shortText x)).IsClear := by
  have written := Number.isWritten_shortText finite
  exact ⟨written.nonempty, fun c mem => not_isDelimiter_of (by decide) (written.numeric c mem)⟩

/-- And so is that of a plain literal. -/
theorem clear_literal {numbers : Set Float} {v : Literal} (plain : v.IsPlain numbers) :
    (Bracketed.word (String.ofList v.chars)).IsClear := by
  cases v with
  | nil => decide
  | bool b => cases b <;> decide
  | number x => exact clear_of_isFinite plain.1
  | string s => exact plain.elim

theorem allClear_iff {bs : List Bracketed} : Bracketed.AllClear bs ↔ ∀ b ∈ bs, b.IsClear := by
  induction bs with
  | nil => simp [Bracketed.AllClear]
  | cons b bs ih => simp [Bracketed.AllClear, ih]

variable {t : Token} {ts : List Token}

theorem Authentic.clear (h : Authentic .identifier t) : t.word.IsClear :=
  clear_of_isWordText h.name.2.1

/-- Names are words, and so are clear. -/
theorem AreNames.clear (h : AreNames Authentic ts) : Bracketed.AllClear (ts.map Token.word) := by
  refine allClear_iff.mpr fun b mem => ?_
  obtain ⟨t, among, rfl⟩ := List.mem_map.mp mem
  exact (h t among).clear

/-- No operator has a bracket in it. -/
theorem Operates.clear {logical : Bool} (h : Operates Authentic logical t) : t.word.IsClear := by
  have words : ∀ s ∈ operatorWords logical, (Bracketed.word s).IsClear := by
    cases logical <;> decide
  exact words _ h.spelled.2

theorem clear_unary (h : Authentic .bang t ∨ Authentic .minus t) : t.word.IsClear := by
  rw [Token.word]
  rcases (spelled_unary h).2 with written | written <;> rw [written] <;> decide

theorem clear_loopExit (h : Authentic .breakWord t ∨ Authentic .continueWord t) :
    t.word.IsClear := by
  rw [Token.word]
  rcases (spelled_loopExit h).2 with written | written <;> rw [written] <;> decide

variable {ρ : Type} {numbers : Set Float}

/-- The names in the header of a class, whatever the marks. -/
theorem AreNames.superclass {T : Kind → Token → Prop} {superclass : Option (Reference ρ)}
    (h : AreNames T ((superclass.map (·.map fun _ => ())).toList.map Reference.token)) :
    ∀ r ∈ superclass, T .identifier r.token := by
  rintro r rfl
  exact h r.token (by simp [Reference.map])

theorem AreNames.mixins {T : Kind → Token → Prop} {mixins : List (Reference ρ)}
    (h : AreNames T ((mixins.map (·.map fun _ => ())).map Reference.token)) :
    ∀ r ∈ mixins, T .identifier r.token := by
  rw [List.map_map] at h
  exact fun r mem => h r.token (List.mem_map_of_mem mem)

/-- The words of the header of a class are names. -/
theorem clear_headerWords {superclass : Option (Reference ρ)} {mixins : List (Reference ρ)}
    (parent : ∀ r ∈ superclass, Authentic .identifier r.token)
    (mixed : ∀ r ∈ mixins, Authentic .identifier r.token) :
    ∀ b ∈ headerWords superclass mixins, b.IsClear := by
  intro b mem
  obtain rfl | rfl | ⟨r, among | among, rfl⟩ := mem_headerWords mem
  · decide
  · decide
  · exact (parent r among).clear
  · exact (mixed r among).clear

mutual

/-- A well-formed expression with plain literals is printed from clear words, by induction on it. -/
theorem clear_expr : ∀ e : Expr ρ, e.erase.Fits Authentic → ArePlain numbers e.literals →
    e.bracketed.IsClear
  | .literal v, _, plain => clear_literal (plain v List.mem_cons_self)
  | .grouping e, fits, plain => ⟨by decide, clear_expr e fits plain, trivial⟩
  | .unary op e, fits, plain => ⟨clear_unary fits.1, clear_expr e fits.2 plain, trivial⟩
  | .binary l op r, fits, plain =>
    ⟨fits.2.1.clear, clear_expr l fits.1 plain.split.1, clear_expr r fits.2.2 plain.split.2,
      trivial⟩
  | .logical l op r, fits, plain =>
    ⟨fits.2.1.clear, clear_expr l fits.1 plain.split.1, clear_expr r fits.2.2 plain.split.2,
      trivial⟩
  | .variable _, fits, _ => Authentic.clear fits
  | .assign r e, fits, plain =>
    ⟨by decide, Authentic.clear fits.1, clear_expr e fits.2 plain, trivial⟩
  | .call f _ es, fits, plain =>
    ⟨by decide, clear_expr f fits.1 plain.split.1,
      clear_exprs es fits.2.2 plain.split.2⟩
  | .get e name, fits, plain =>
    ⟨by decide, clear_expr e fits.1 plain, fits.2.clear, trivial⟩
  | .set e name v, fits, plain =>
    ⟨by decide,
      ⟨by decide, clear_expr e fits.1.1 plain.split.1, fits.1.2.clear, trivial⟩,
      clear_expr v fits.2 plain.split.2, trivial⟩
  | .this _, _, _ => show (Bracketed.word "this").IsClear by decide
  | .super _ method, fits, _ => ⟨by decide, fits.2.clear, trivial⟩
  | .function _ params body, fits, plain =>
    ⟨by decide, fits.2.1.clear, clear_stmts body fits.2.2 plain, trivial⟩

theorem clear_exprs : ∀ es : List (Expr ρ), Expr.FitsAll Authentic (Expr.eraseAll es) →
    ArePlain numbers (Expr.literalsAll es) → Bracketed.AllClear (Expr.bracketedAll es)
  | [], _, _ => trivial
  | e :: es, fits, plain => ⟨clear_expr e fits.1 plain.split.1, clear_exprs es fits.2 plain.split.2⟩

/-- So is a statement. -/
theorem clear_stmt : ∀ s : Stmt ρ, s.erase.Fits Authentic → ArePlain numbers s.literals →
    s.bracketed.IsClear
  | .missing, _, _ => ⟨by decide, trivial⟩
  | .expression e, fits, plain => ⟨by decide, clear_expr e fits plain, trivial⟩
  | .print e, fits, plain => ⟨by decide, clear_expr e fits plain, trivial⟩
  | .var name none, fits, _ => ⟨by decide, Authentic.clear fits, trivial⟩
  | .var name (some e), fits, plain =>
    ⟨by decide, Authentic.clear fits.1, clear_expr e fits.2 plain, trivial⟩
  | .block body, fits, plain => ⟨by decide, clear_stmts body fits plain, trivial⟩
  | .ifElse c t none, fits, plain =>
    ⟨by decide, clear_expr c fits.1 plain.split.1, clear_stmt t fits.2 plain.split.2,
      trivial⟩
  | .ifElse c t (some e), fits, plain =>
    ⟨by decide, clear_expr c fits.1 plain.split.1,
      clear_stmt t fits.2.1 plain.split.2.split.1, clear_stmt e fits.2.2 plain.split.2.split.2,
      trivial⟩
  | .whileLoop c b, fits, plain =>
    ⟨by decide, clear_expr c fits.1 plain.split.1, clear_stmt b fits.2 plain.split.2,
      trivial⟩
  | .ret _ none, _, _ => ⟨by decide, trivial⟩
  | .ret _ (some e), fits, plain => ⟨by decide, clear_expr e fits.2 plain, trivial⟩
  | .loopExit _, fits, _ => ⟨clear_loopExit fits, trivial⟩
  | .function r, fits, plain => clear_routine r fits plain
  | .classDecl name superclass mixins methods statics, fits, plain => by
    obtain ⟨named, parent, mixed, own, shared⟩ := fits
    refine ⟨by decide, named.clear, allClear_iff.mpr fun b mem => ?_⟩
    rw [List.mem_append, List.mem_append] at mem
    rcases mem with mem | mem | mem
    · exact clear_headerWords parent.superclass mixed.mixins b mem
    · exact allClear_iff.mp (clear_routines methods own plain.split.1) b mem
    · obtain ⟨b', among, rfl⟩ := List.mem_map.mp mem
      have inner := allClear_iff.mp (clear_routines statics shared plain.split.2) b' among
      exact ⟨by decide, inner, trivial⟩

theorem clear_stmts : ∀ ss : List (Stmt ρ), Stmt.FitsAll Authentic (Stmt.eraseAll ss) →
    ArePlain numbers (Stmt.literalsAll ss) → Bracketed.AllClear (Stmt.bracketedAll ss)
  | [], _, _ => trivial
  | s :: ss, fits, plain => ⟨clear_stmt s fits.1 plain.split.1, clear_stmts ss fits.2 plain.split.2⟩

/-- And so is a routine. -/
theorem clear_routine : ∀ r : Routine ρ, r.erase.Fits Authentic → ArePlain numbers r.literals →
    r.bracketed.IsClear
  | ⟨name, params, body, getter⟩, fits, plain => by
    have head : (Bracketed.word (if getter then "getter" else "fun")).IsClear := by
      cases getter <;> decide
    exact ⟨head, fits.1.clear, fits.2.1.clear, clear_stmts body fits.2.2 plain, trivial⟩

theorem clear_routines : ∀ rs : List (Routine ρ), Routine.FitsAll Authentic (Routine.eraseAll rs) →
    ArePlain numbers (Routine.literalsAll rs) → Bracketed.AllClear (Routine.bracketedAll rs)
  | [], _, _ => trivial
  | r :: rs, fits, plain =>
    ⟨clear_routine r fits.1 plain.split.1, clear_routines rs fits.2 plain.split.2⟩

end

end Clear

end LoxLang
