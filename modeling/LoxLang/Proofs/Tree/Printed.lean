/-
LoxLang.Proofs.Tree.Printed: the written form of a program tells the program.

The written form is a bracketed text, and from a bracketed text the tree can be read back, on line
zero and without marks: each construct has a first word, a number of parts or a shape of parts of
its own.  A string could look like anything, so there must be none; and numbers have to be told by
their written forms.

* `Expr.unlined`, `Stmt.unlinedAll`: trees on line zero and without marks.
* `Tells`: numbers are told by their written forms.

Main statements: `restored_expr` and `restored_stmt`, a tree is read back from its bracketed text;
`printed_uniquely`.
-/
import LoxLang.Proofs.Tree.Plain
import Mathlib.Data.Set.Function

namespace LoxLang

/-! ## Reading back -/

section Restoring

variable {ρ : Type}

/-- The reference on line zero and without its mark. -/
abbrev Reference.unlined (r : Reference ρ) : Reference Unit := r.relabel (fun _ => 0) fun _ => ()

/-- The expression on line zero and without marks. -/
abbrev Expr.unlined (e : Expr ρ) : Expr Unit := e.relabel (fun _ => 0) fun _ => ()

/-- The expressions on line zero and without marks. -/
abbrev Expr.unlinedAll (es : List (Expr ρ)) : List (Expr Unit) :=
  Expr.relabelAll (fun _ => 0) (fun _ => ()) es

/-- The statement on line zero and without marks. -/
abbrev Stmt.unlined (s : Stmt ρ) : Stmt Unit := s.relabel (fun _ => 0) fun _ => ()

/-- The statements on line zero and without marks. -/
abbrev Stmt.unlinedAll (ss : List (Stmt ρ)) : List (Stmt Unit) :=
  Stmt.relabelAll (fun _ => 0) (fun _ => ()) ss

/-- The routine on line zero and without marks. -/
abbrev Routine.unlined (r : Routine ρ) : Routine Unit := r.relabel (fun _ => 0) fun _ => ()

/-- The routines on line zero and without marks. -/
abbrev Routine.unlinedAll (rs : List (Routine ρ)) : List (Routine Unit) :=
  Routine.relabelAll (fun _ => 0) (fun _ => ()) rs

/-- Each of the numbers is told by its written form. -/
def Tells (numbers : Set Float) (value : String → Float) : Prop :=
  ∀ x ∈ numbers, value (Number.shortText x) = x

variable {value : String → Float}

/-- A word that is no keyword of a value is a name or a number. -/
theorem restored_word {s : String} (other : s ∉ atoms) : Expr.restored value (.word s) =
    if isWordText s.toList then .variable (.bare .identifier s)
    else .literal (.number (value s)) := by
  simp only [atoms, List.mem_cons, List.not_mem_nil, or_false, not_or] at other
  rw [Expr.restored]
  · exact other.1
  · exact other.2.1
  · exact other.2.2.1
  · exact other.2.2.2

/-- A name is read back as a variable of that name. -/
theorem restored_name {t : Token} (h : Authentic .identifier t) :
    Expr.restored value t.word = .variable ⟨t.unlined, ()⟩ := by
  obtain ⟨same, word, other⟩ := h.name
  rw [Token.word, restored_word other, if_pos word, same]
  rfl

/-- The text of a number does not look like a word. -/
theorem isWordText_shortText {x : Float} (finite : Number.isFinite x = true) :
    isWordText (Number.shortText x).toList = false := by
  have written := Number.isWritten_shortText finite
  unfold isWordText
  split
  · rfl
  · rename_i c cs chars
    rw [chars] at written
    refine Bool.eq_false_iff.mpr fun word => ?_
    rw [Bool.and_eq_true, List.all_eq_true] at word
    exact written.not_word word.1 word.2

/-- So it is read back as the number that it tells. -/
theorem restored_number {x : Float} (finite : Number.isFinite x = true) :
    Expr.restored value (.word (Number.shortText x)) =
      .literal (.number (value (Number.shortText x))) := by
  have notWord := isWordText_shortText finite
  have other : Number.shortText x ∉ atoms := by
    intro mem
    have words : ∀ s ∈ atoms, isWordText s.toList = true := by decide
    rw [words _ mem] at notWord
    cases notWord
  rw [restored_word other, notWord]
  rfl

/-- Two words in parentheses, with a sign in front, are a unary operator. -/
theorem restored_unary {op : String} (h : op = "!" ∨ op = "-") (e : Bracketed) :
    Expr.restored value (.parens [.word op, e]) =
      .unary (.spelled op) (Expr.restored value e) := by
  rcases h with rfl | rfl <;> rfl

/-- Three, with an operator in front, are an operator of two. -/
theorem restored_binary {op : String} (h : op ∈ operatorWords false) (l r : Bracketed) :
    Expr.restored value (.parens [.word op, l, r]) =
      .binary (Expr.restored value l) (.spelled op) (Expr.restored value r) := by
  simp only [operatorWords, Bool.false_eq_true, if_false, List.mem_cons, List.not_mem_nil, or_false]
    at h
  rcases h with rfl | rfl | rfl | rfl | rfl | rfl | rfl | rfl | rfl | rfl <;> rfl

/-- So are those with `and` or `or` in front, with a node of their own kind. -/
theorem restored_logical {op : String} (h : op ∈ operatorWords true) (l r : Bracketed) :
    Expr.restored value (.parens [.word op, l, r]) =
      .logical (Expr.restored value l) (.spelled op) (Expr.restored value r) := by
  simp only [operatorWords, if_true, List.mem_cons, List.not_mem_nil, or_false] at h
  rcases h with rfl | rfl <;> rfl

/-- Parameters are read back as names. -/
theorem restored_parameters {ts : List Token} (h : AreNames Authentic ts) :
    parametersOf (ts.map Token.word) = ts.map Token.unlined := by
  rw [parametersOf, List.map_map]
  exact List.map_congr_left fun t mem => (h t mem).name.1.symm

/-! ### Classes -/

section Classes

variable {superclass : Option (Reference ρ)} {mixins : List (Reference ρ)} {bs : List Bracketed}

theorem Authentic.reference {r : Reference ρ} (h : Authentic .identifier r.token) :
    Reference.bare .identifier r.token.lexeme = r.unlined := by
  rw [Reference.bare, ← Token.name, ← h.name.1]
  rfl

/-- The names in front of the members are all of them mixins. -/
theorem restored_leadingNames (names : ∀ r ∈ mixins, Authentic .identifier r.token)
    (others : leadingNames bs = []) :
    leadingNames (mixins.map (·.token.word) ++ bs) =
      mixins.map Reference.unlined := by
  induction mixins with
  | nil => exact others
  | cons r rs ih =>
    have head := (names r List.mem_cons_self).reference
    have rest := ih fun r mem => names r (List.mem_cons_of_mem _ mem)
    rw [List.map_cons, List.cons_append, List.map_cons, ← head, ← rest]
    rfl

/-- The header of a class tells the superclass and the mixins: no word follows it. -/
theorem restored_superclass (name : ∀ r ∈ superclass, Authentic .identifier r.token)
    (others : leadingNames bs = []) :
    superclassOf (headerWords superclass mixins ++ bs) =
      superclass.map Reference.unlined := by
  cases superclass with
  | some r =>
    rw [Option.map_some, ← (name r rfl).reference]
    rfl
  | none =>
    -- The sign of the mixins is not that of a superclass, and without mixins no word is there.
    cases mixins with
    | cons _ _ => rfl
    | nil =>
      cases bs with
      | nil => rfl
      | cons b _ =>
        cases b with
        | word s => cases others
        | parens _ => rfl
        | braces _ => rfl

/-- So the mixins are read back, with a superclass in front of them or without. -/
theorem restored_mixins (names : ∀ r ∈ mixins, Authentic .identifier r.token)
    (others : leadingNames bs = []) :
    mixinsOf (headerWords superclass mixins ++ bs) =
      mixins.map Reference.unlined := by
  rw [← restored_leadingNames names others]
  cases mixins with
  | cons _ _ => cases superclass <;> rfl
  | nil =>
    cases bs with
    | nil => cases superclass <;> rfl
    | cons b _ =>
      cases b with
      | word s => cases others
      | parens _ => cases superclass <;> rfl
      | braces _ => cases superclass <;> rfl

/-- None of the words of the header is read as a member. -/
theorem filterMap_headerWords {α : Type} {f : Bracketed → Option α}
    (skips : ∀ s, f (.word s) = none) : (headerWords superclass mixins).filterMap f = [] := by
  refine List.filterMap_eq_nil_iff.mpr fun b mem => ?_
  obtain rfl | rfl | ⟨r, -, rfl⟩ := mem_headerWords mem <;> exact skips _

/-- Nor does a member look like a name. -/
theorem leadingNames_routines (rs rs' : List (Routine ρ)) :
    leadingNames (Routine.bracketedAll rs ++ (Routine.bracketedAll rs').map .static) = [] := by
  cases rs with
  | cons r _ => cases r; rfl
  | nil => cases rs' <;> rfl

/-- A static method is not read as a method. -/
theorem filterMap_restored_static (bs : List Bracketed) :
    (bs.map .static).filterMap (Routine.restored value) = [] := by
  rw [List.filterMap_map, List.filterMap_eq_nil_iff]
  intro b _
  cases b <;> rfl

/-- Nor a method as a static method. -/
theorem filterMap_restoredStatic_bracketed (rs : List (Routine ρ)) :
    (Routine.bracketedAll rs).filterMap (Routine.restoredStatic value) = [] := by
  induction rs with
  | nil => rfl
  | cons r rs ih =>
    obtain ⟨_, _, _, getter⟩ := r
    cases getter <;> exact ih

theorem restoredMethods_eq (bs : List Bracketed) :
    Routine.restoredMethods value bs = bs.filterMap (Routine.restored value) := by
  induction bs with
  | nil => rfl
  | cons b bs ih =>
    rw [Routine.restoredMethods, ih, List.filterMap_cons]
    cases Routine.restored value b <;> rfl

theorem restoredStatics_eq (bs : List Bracketed) :
    Routine.restoredStatics value bs = bs.filterMap (Routine.restoredStatic value) := by
  induction bs with
  | nil => rfl
  | cons b bs ih =>
    rw [Routine.restoredStatics, ih, List.filterMap_cons]
    cases Routine.restoredStatic value b <;> rfl

/-- Behind the header of a class stand the methods, which are the routines among the parts. -/
theorem restored_methods (own shared : List (Routine ρ)) :
    Routine.restoredMethods value (headerWords superclass mixins
      ++ (Routine.bracketedAll own ++ (Routine.bracketedAll shared).map .static)) =
      (Routine.bracketedAll own).filterMap (Routine.restored value) := by
  rw [restoredMethods_eq, List.filterMap_append, List.filterMap_append,
    filterMap_headerWords fun _ => rfl, filterMap_restored_static, List.nil_append, List.append_nil]

/-- So the static methods of a class are read back apart from its methods. -/
theorem restored_statics (own shared : List (Routine ρ)) :
    Routine.restoredStatics value (headerWords superclass mixins
      ++ (Routine.bracketedAll own ++ (Routine.bracketedAll shared).map .static)) =
      (Routine.bracketedAll shared).filterMap (Routine.restored value) := by
  rw [restoredStatics_eq, List.filterMap_append, List.filterMap_append,
    filterMap_headerWords fun _ => rfl, filterMap_restoredStatic_bracketed, List.nil_append,
    List.nil_append, List.filterMap_map]
  rfl

end Classes

/-! ### Trees

Each case is one step of reading back: the first word, where it is known, leads to the construct by
computation.  Only operators and the word of a routine are not known; they are one of a few. -/

section Trees

variable {numbers : Set Float}

/-- A literal is read back from its text. -/
theorem restored_literal (tells : Tells numbers value) {v : Literal}
    (plain : v.IsPlain numbers) :
    Expr.restored value (.word (String.ofList v.chars)) = .literal v := by
  cases v with
  | nil => rfl
  | bool b => cases b <;> rfl
  | number x =>
    have written : Expr.restored value (.word (Number.shortText x)) = _ := restored_number plain.1
    rwa [tells x plain.2] at written
  | string s => exact plain.elim

mutual

/-- A fitting expression is read back from its bracketed text. -/
theorem restored_expr (tells : Tells numbers value) :
    ∀ e : Expr ρ, e.erase.Fits Authentic → ArePlain numbers e.literals →
      Expr.restored value e.bracketed = e.unlined
  | .literal v, _, plain => restored_literal tells (plain v List.mem_cons_self)
  | .grouping e, fits, plain => congrArg Expr.grouping (restored_expr tells e fits plain)
  | .unary op e, fits, plain => by
    obtain ⟨same, among⟩ := spelled_unary fits.1
    show Expr.restored value (.parens [.word op.lexeme, e.bracketed]) = .unary op.unlined e.unlined
    rw [restored_unary among, same, restored_expr tells e fits.2 plain]
  | .binary l op r, fits, plain => by
    obtain ⟨same, among⟩ := fits.2.1.spelled
    show Expr.restored value (.parens [.word op.lexeme, l.bracketed, r.bracketed]) =
      .binary l.unlined op.unlined r.unlined
    rw [restored_binary among, same, restored_expr tells l fits.1 plain.split.1,
      restored_expr tells r fits.2.2 plain.split.2]
  | .logical l op r, fits, plain => by
    obtain ⟨same, among⟩ := fits.2.1.spelled
    show Expr.restored value (.parens [.word op.lexeme, l.bracketed, r.bracketed]) =
      .logical l.unlined op.unlined r.unlined
    rw [restored_logical among, same, restored_expr tells l fits.1 plain.split.1,
      restored_expr tells r fits.2.2 plain.split.2]
  | .variable _, fits, _ => restored_name fits
  | .assign r e, fits, plain => by
    show Expr.assign (.bare .identifier r.token.lexeme) (Expr.restored value e.bracketed) =
      .assign r.unlined e.unlined
    rw [Authentic.reference (r := r) fits.1, restored_expr tells e fits.2 plain]
  | .call f paren es, fits, plain => by
    show Expr.call (Expr.restored value f.bracketed) (.spelled ")")
      (Expr.restoredAll value (Expr.bracketedAll es)) = .call f.unlined paren.unlined _
    rw [restored_expr tells f fits.1 plain.split.1, restored_exprs tells es fits.2.2 plain.split.2,
      (fits.2.1.spelled (s := ")") (by decide)).1]
  | .get e name, fits, plain => by
    show Expr.get (Expr.restored value e.bracketed) (.name name.lexeme) =
      .get e.unlined name.unlined
    rw [restored_expr tells e fits.1 plain, fits.2.name.1]
  | .set e name v, fits, plain => by
    show Expr.set (Expr.restored value e.bracketed) (.name name.lexeme)
      (Expr.restored value v.bracketed) = .set e.unlined name.unlined v.unlined
    rw [restored_expr tells e fits.1.1 plain.split.1, restored_expr tells v fits.2 plain.split.2,
      fits.1.2.name.1]
  | .this r, fits, _ => by
    show Expr.this ⟨.spelled "this", ()⟩ = .this ⟨r.token.unlined, ()⟩
    rw [(Authentic.spelled (t := r.token) (s := "this") fits (by decide)).1]
  | .super r method, fits, _ => by
    show Expr.super ⟨.spelled "super", ()⟩ (.name method.lexeme) =
      .super ⟨r.token.unlined, ()⟩ method.unlined
    rw [(Authentic.spelled (t := r.token) (s := "super") fits.1 (by decide)).1, fits.2.name.1]
  | .function keyword params body, fits, plain => by
    show Expr.function (.spelled "fun") (parametersOf (params.map Token.word))
      (Stmt.restoredAll value (Stmt.bracketedAll body)) =
        .function keyword.unlined (params.map Token.unlined) _
    rw [restored_parameters fits.2.1, restored_stmts tells body fits.2.2 plain,
      (fits.1.spelled (s := "fun") (by decide)).1]

/-- Expressions in a row are read back in a row. -/
theorem restored_exprs (tells : Tells numbers value) :
    ∀ es : List (Expr ρ), Expr.FitsAll Authentic (Expr.eraseAll es) →
      ArePlain numbers (Expr.literalsAll es) →
        Expr.restoredAll value (Expr.bracketedAll es) = Expr.unlinedAll es
  | [], _, _ => rfl
  | e :: es, fits, plain => congr (congrArg List.cons (restored_expr tells e fits.1 plain.split.1))
      (restored_exprs tells es fits.2 plain.split.2)

/-- A fitting statement is read back from its bracketed text. -/
theorem restored_stmt (tells : Tells numbers value) :
    ∀ s : Stmt ρ, s.erase.Fits Authentic → ArePlain numbers s.literals →
      Stmt.restored value s.bracketed = s.unlined
  | .missing, _, _ => rfl
  | .expression e, fits, plain => congrArg Stmt.expression (restored_expr tells e fits plain)
  | .print e, fits, plain => congrArg Stmt.print (restored_expr tells e fits plain)
  | .var name none, fits, _ => by
    show Stmt.var (.name name.lexeme) none = .var name.unlined none
    rw [(Authentic.name fits).1]
  | .var name (some e), fits, plain => by
    show Stmt.var (.name name.lexeme) (some (Expr.restored value e.bracketed)) =
      .var name.unlined (some e.unlined)
    rw [fits.1.name.1, restored_expr tells e fits.2 plain]
  | .block body, fits, plain => congrArg Stmt.block (restored_stmts tells body fits plain)
  | .ifElse c t none, fits, plain => by
    show Stmt.ifElse (Expr.restored value c.bracketed) (Stmt.restored value t.bracketed) none = _
    rw [restored_expr tells c fits.1 plain.split.1, restored_stmt tells t fits.2 plain.split.2]
    rfl
  | .ifElse c t (some e), fits, plain => by
    show Stmt.ifElse (Expr.restored value c.bracketed) (Stmt.restored value t.bracketed)
      (some (Stmt.restored value e.bracketed)) = _
    rw [restored_expr tells c fits.1 plain.split.1,
      restored_stmt tells t fits.2.1 plain.split.2.split.1,
      restored_stmt tells e fits.2.2 plain.split.2.split.2]
    rfl
  | .whileLoop c b, fits, plain => by
    show Stmt.whileLoop (Expr.restored value c.bracketed) (Stmt.restored value b.bracketed) = _
    rw [restored_expr tells c fits.1 plain.split.1, restored_stmt tells b fits.2 plain.split.2]
    rfl
  | .ret keyword none, fits, _ => by
    show Stmt.ret (.spelled "return") none = .ret keyword.unlined none
    rw [(Authentic.spelled (s := "return") fits (by decide)).1]
  | .ret keyword (some e), fits, plain => by
    show Stmt.ret (.spelled "return") (some (Expr.restored value e.bracketed)) =
      .ret keyword.unlined (some e.unlined)
    rw [(fits.1.spelled (s := "return") (by decide)).1, restored_expr tells e fits.2 plain]
  | .loopExit keyword, fits, _ => by
    show Stmt.restored value (.parens [.word keyword.lexeme]) = .loopExit keyword.unlined
    obtain ⟨same, written⟩ := spelled_loopExit fits
    rcases written with written | written <;> rw [same, written] <;> rfl
  | .function r, fits, plain => by
    have same := restored_routine tells r fits plain
    -- The first word tells a routine only once it is known which of the two it is.
    obtain ⟨name, params, body, getter⟩ := r
    cases getter <;> exact congrArg Stmt.function (Option.some.inj same)
  | .classDecl name superclass mixins methods statics, fits, plain => by
    obtain ⟨named, parent, mixed, own, shared⟩ := fits
    have others := leadingNames_routines methods statics
    show Stmt.classDecl (.name name.lexeme) (superclassOf (_ ++ _)) (mixinsOf (_ ++ _))
      (Routine.restoredMethods value (_ ++ _)) (Routine.restoredStatics value (_ ++ _)) =
        .classDecl name.unlined _ _ _ _
    rw [named.name.1, restored_superclass parent.superclass others,
      restored_mixins mixed.mixins others, restored_methods, restored_statics,
      restored_routines tells methods own plain.split.1,
      restored_routines tells statics shared plain.split.2]

/-- So are statements. -/
theorem restored_stmts (tells : Tells numbers value) :
    ∀ ss : List (Stmt ρ), Stmt.FitsAll Authentic (Stmt.eraseAll ss) →
      ArePlain numbers (Stmt.literalsAll ss) →
        Stmt.restoredAll value (Stmt.bracketedAll ss) = Stmt.unlinedAll ss
  | [], _, _ => rfl
  | s :: ss, fits, plain => congr (congrArg List.cons (restored_stmt tells s fits.1 plain.split.1))
      (restored_stmts tells ss fits.2 plain.split.2)

/-- A fitting routine is read back from its bracketed text. -/
theorem restored_routine (tells : Tells numbers value) :
    ∀ r : Routine ρ, r.erase.Fits Authentic → ArePlain numbers r.literals →
      Routine.restored value r.bracketed = some r.unlined
  | ⟨name, params, body, getter⟩, fits, plain => by
    have head : ((if getter then "getter" else "fun") == "getter") = getter := by
      cases getter <;> rfl
    show some (Routine.mk (.name name.lexeme) (parametersOf (params.map Token.word))
      (Stmt.restoredAll value (Stmt.bracketedAll body)) _) =
        some ⟨name.unlined, params.map Token.unlined, Stmt.unlinedAll body, getter⟩
    rw [fits.1.name.1, restored_parameters fits.2.1, restored_stmts tells body fits.2.2 plain, head]

/-- And so are routines. -/
theorem restored_routines (tells : Tells numbers value) :
    ∀ rs : List (Routine ρ), Routine.FitsAll Authentic (Routine.eraseAll rs) →
      ArePlain numbers (Routine.literalsAll rs) →
        (Routine.bracketedAll rs).filterMap (Routine.restored value) = Routine.unlinedAll rs
  | [], _, _ => rfl
  | r :: rs, fits, plain => by
    rw [Routine.bracketedAll, List.filterMap_cons, restored_routine tells r fits.1 plain.split.1,
      restored_routines tells rs fits.2 plain.split.2]
    rfl

end

end Trees

end Restoring

/-! ## Unambiguous -/

section Unambiguous

variable {ρ : Type} {numbers : Set Float}

/-- Numbers with different written forms are told by them. -/
theorem exists_tells (apart : numbers.InjOn Number.shortText) : ∃ value, Tells numbers value :=
  ⟨Function.invFunOn Number.shortText numbers, fun _ mem => apart.leftInvOn_invFunOn mem⟩

theorem Stmt.charsAll_eq {ρ : Type} (ss : List (Stmt ρ)) : Stmt.charsAll ss = ss.map chars := by
  induction ss with
  | nil => rfl
  | cons s ss ih => rw [charsAll, ih, List.map_cons]

/-- Fitting statements are told by their written form. -/
theorem unlined_of_programText (apart : numbers.InjOn Number.shortText) {p p' : List (Stmt ρ)}
    (fits : Stmt.FitsAll Authentic (Stmt.eraseAll p))
    (fits' : Stmt.FitsAll Authentic (Stmt.eraseAll p'))
    (plain : ArePlain numbers (Stmt.literalsAll p))
    (plain' : ArePlain numbers (Stmt.literalsAll p'))
    (same : programText p = programText p') : Stmt.unlinedAll p = Stmt.unlinedAll p' := by
  have written (q : List (Stmt ρ)) : row '\n' (Stmt.bracketedAll q) = (programText q).toList := by
    rw [row, chars_bracketedStmts, programText, String.toList_ofList, Stmt.charsAll_eq]
  have bracketed : Stmt.bracketedAll p = Stmt.bracketedAll p' := by
    refine row_inj '\n' rfl rfl (clear_stmts p fits plain) (clear_stmts p' fits' plain') ?_
    rw [written, written, same]
  obtain ⟨value, tells⟩ := exists_tells apart
  rw [← restored_stmts tells p fits plain, bracketed, restored_stmts tells p' fits' plain']

/-- No expression is printed as nothing, so that it is told from one that is absent. -/
theorem text_ne_empty {e : Expr ρ} (fits : e.erase.Fits Authentic)
    (plain : ArePlain numbers e.literals) : e.text ≠ "" := by
  obtain ⟨c, cs, begins, -⟩ := (clear_expr e fits plain).begins
  rw [chars_bracketedExpr] at begins
  rw [Expr.text, begins]
  simp

/-- Fitting expressions are told by their written form. -/
theorem unlined_of_text (apart : numbers.InjOn Number.shortText) {e e' : Expr ρ}
    (fits : e.erase.Fits Authentic) (fits' : e'.erase.Fits Authentic)
    (plain : ArePlain numbers e.literals) (plain' : ArePlain numbers e'.literals)
    (same : e.text = e'.text) : e.unlined = e'.unlined := by
  have bracketed : e.bracketed = e'.bracketed := by
    refine chars_inj (clear_expr e fits plain) (clear_expr e' fits' plain') ?_
    rw [chars_bracketedExpr, chars_bracketedExpr]
    exact String.ofList_inj.mp same
  obtain ⟨value, tells⟩ := exists_tells apart
  rw [← restored_expr tells e fits plain, bracketed, restored_expr tells e' fits' plain']

/-- So are expressions that may be missing, and are then written as nothing. -/
theorem unlined_of_texts (apart : numbers.InjOn Number.shortText) {o o' : Option (Expr ρ)}
    (fits : ∀ e ∈ o, e.erase.Fits Authentic) (fits' : ∀ e ∈ o', e.erase.Fits Authentic)
    (plain : ∀ e ∈ o, ArePlain numbers e.literals) (plain' : ∀ e ∈ o', ArePlain numbers e.literals)
    (same : o.elim "" Expr.text = o'.elim "" Expr.text) :
    o.map Expr.unlined = o'.map Expr.unlined := by
  cases o with
  | none =>
    cases o' with
    | none => rfl
    | some e' => exact absurd same.symm (text_ne_empty (fits' e' rfl) (plain' e' rfl))
  | some e =>
    cases o' with
    | none => exact absurd same (text_ne_empty (fits e rfl) (plain e rfl))
    | some e' =>
      exact congrArg some (unlined_of_text apart (fits e rfl) (fits' e' rfl) (plain e rfl)
        (plain' e' rfl) same)

end Unambiguous

/-- **The written form tells the tree**, but for the lines of its tokens and the marks of its
references.  The programs that two texts are read as, with their holes, are the same if they are
written alike and if there are no strings in them and no numbers but finite ones that are told apart
by their own written forms; `numbers` may be all finite ones if these are.  So are single
expressions, of which a faulty text yields none. -/
theorem printed_uniquely (numbers : Set Float) (apart : numbers.InjOn Number.shortText)
    (source source' : String) (endLine endLine' : Nat) (firstSite firstSite' : Site) :
    (let p := (Program.ofTokens (Scan.ofString source).tokens endLine firstSite).result
      let p' := (Program.ofTokens (Scan.ofString source').tokens endLine' firstSite').result
      ArePlain numbers (Stmt.literalsAll p) → ArePlain numbers (Stmt.literalsAll p') →
        programText p = programText p' → Stmt.unlinedAll p = Stmt.unlinedAll p') ∧
    (let e := (readExpressionAlone (Scan.ofString source).tokens endLine).result
      let e' := (readExpressionAlone (Scan.ofString source').tokens endLine').result
      (∀ x ∈ e, ArePlain numbers x.literals) → (∀ x ∈ e', ArePlain numbers x.literals) →
        e.elim "" Expr.text = e'.elim "" Expr.text → e.map Expr.unlined = e'.map Expr.unlined) := by
  constructor
  · exact unlined_of_programText apart (fits_program (authentic_scan source) endLine firstSite)
      (fits_program (authentic_scan source') endLine' firstSite')
  · exact unlined_of_texts apart (fits_expression (authentic_scan source) endLine)
      (fits_expression (authentic_scan source') endLine')

/-- A branch with a faulty statement behind it, and a call: on other lines and with another numeral
they are the same. -/
theorem printed_uniquely_elsewhere :
    Set.InjOn Number.shortText {Number.ofDecimal 1 0} ∧
    (let source := "if (a) b.c = -d - 1; 1 = a;"
      let source' := "if (a)\nb.c=-d-1.0;\n1 = 2;"
      Stmt.unlinedAll (Program.ofTokens (Scan.ofString source).tokens 1 0).result =
        Stmt.unlinedAll (Program.ofTokens (Scan.ofString source').tokens 3 9).result) ∧
    (let source := "f(1)(!a)"
      let source' := "f(1.0)\n(!a)"
      (readExpressionAlone (Scan.ofString source).tokens 1).result.map Expr.unlined =
        (readExpressionAlone (Scan.ofString source').tokens 2).result.map Expr.unlined) := by
  have apart : Set.InjOn Number.shortText {Number.ofDecimal 1 0} := Set.injOn_singleton _ _
  refine ⟨apart, ?_, ?_⟩
  · intro source source'
    exact (printed_uniquely _ apart source source' 1 3 0 9).1 (by decide +kernel)
      (by decide +kernel) (by decide +kernel)
  · intro source source'
    exact (printed_uniquely _ apart source source' 1 2 0 0).2 (by decide +kernel)
      (by decide +kernel) (by decide +kernel)

end LoxLang
