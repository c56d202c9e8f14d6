/-
LoxLang.Proofs.Tree.Fitting: which tokens stand where in a tree.

A tree keeps some of the tokens that it was read from: operators, names, and the words and marks
that a failure is blamed on.  Whether the text has faults or not, each of them is of the kind that
the grammar asks for at its place.

* `Expr.Fits`, `Stmt.Fits`, `Routine.Fits`: every token of the tree is of a kind for its place.
* `Yielding`: what a reader yields fits.
* `Yielding.andThen`, `Yielding.takeIf`, `Yielding.require`: one reader after another.

Main statements: `fits_program` and `fits_expression`.
-/
import LoxLang.Proofs.Tree.Exact
import LoxLang.Proofs.Tree.Reading

namespace LoxLang

/-! ## Trees -/

section Fits

variable (T : Kind → Token → Prop)

/-- The token is an operator of a level; `logical` says of which sort the level is. -/
def Operates (logical : Bool) (op : Token) : Prop :=
  ∃ level ∈ operatorLevels, level.isLogical = logical ∧ ∃ k ∈ level.kinds, T k op

/-- The tokens are names. -/
def AreNames (ts : List Token) : Prop := ∀ t ∈ ts, T .identifier t

mutual

/-- The tokens of an expression are of the kinds for their places.  `T kind t` says that the token
`t` may stand where the grammar asks for a token of the kind. -/
def Expr.Fits : Expr Unit → Prop
  | .literal _ => True
  | .grouping e => e.Fits
  | .unary op e => (T .bang op ∨ T .minus op) ∧ e.Fits
  | .binary l op r => l.Fits ∧ Operates T false op ∧ r.Fits
  | .logical l op r => l.Fits ∧ Operates T true op ∧ r.Fits
  | .variable r => T .identifier r.token
  | .assign r e => T .identifier r.token ∧ e.Fits
  | .call f paren es => f.Fits ∧ T .rightParen paren ∧ Expr.FitsAll es
  | .get e name => e.Fits ∧ T .identifier name
  | .set e name v => (e.Fits ∧ T .identifier name) ∧ v.Fits
  | .this r => T .thisWord r.token
  | .super r method => T .superWord r.token ∧ T .identifier method
  | .function keyword params body => T .funWord keyword ∧ AreNames T params ∧ Stmt.FitsAll body

def Expr.FitsAll : List (Expr Unit) → Prop
  | [] => True
  | e :: es => e.Fits ∧ Expr.FitsAll es

/-- The tokens of a statement are of the kinds for their places. -/
def Stmt.Fits : Stmt Unit → Prop
  | .missing => True
  | .expression e => e.Fits
  | .print e => e.Fits
  | .var name none => T .identifier name
  | .var name (some e) => T .identifier name ∧ e.Fits
  | .block body => Stmt.FitsAll body
  | .ifElse c t none => c.Fits ∧ t.Fits
  | .ifElse c t (some e) => c.Fits ∧ t.Fits ∧ e.Fits
  | .whileLoop c b => c.Fits ∧ b.Fits
  | .ret keyword none => T .returnWord keyword
  | .ret keyword (some e) => T .returnWord keyword ∧ e.Fits
  | .loopExit keyword => T .breakWord keyword ∨ T .continueWord keyword
  | .function r => r.Fits
  | .classDecl name superclass mixins methods statics =>
    T .identifier name ∧ AreNames T (superclass.toList.map Reference.token) ∧
      AreNames T (mixins.map Reference.token) ∧ Routine.FitsAll methods ∧ Routine.FitsAll statics

def Stmt.FitsAll : List (Stmt Unit) → Prop
  | [] => True
  | s :: ss => s.Fits ∧ Stmt.FitsAll ss

/-- The tokens of a routine are of the kinds for their places. -/
def Routine.Fits : Routine Unit → Prop
  | ⟨name, params, body, _⟩ => T .identifier name ∧ AreNames T params ∧ Stmt.FitsAll body

def Routine.FitsAll : List (Routine Unit) → Prop
  | [] => True
  | r :: rs => r.Fits ∧ Routine.FitsAll rs

end

/-- The routine without its marks. -/
def Routine.erase {ρ : Type} (r : Routine ρ) : Routine Unit := r.map fun _ => ()

/-- Expressions without their marks. -/
abbrev Expr.eraseAll {ρ : Type} (es : List (Expr ρ)) : List (Expr Unit) :=
  Expr.mapAll (fun _ => ()) es

/-- Statements without their marks. -/
abbrev Stmt.eraseAll {ρ : Type} (ss : List (Stmt ρ)) : List (Stmt Unit) :=
  Stmt.mapAll (fun _ => ()) ss

/-- Routines without their marks. -/
abbrev Routine.eraseAll {ρ : Type} (rs : List (Routine ρ)) : List (Routine Unit) :=
  Routine.mapAll (fun _ => ()) rs

end Fits

/-! ## The body of a `for` loop -/

section ForLoop

variable {T : Kind → Token → Prop}

/-- New sites change nothing of the tokens in a tree. -/
theorem fits_numberExpr {e : Expr Site} (h : e.erase.Fits T) (n : Site) :
    (e.number n).1.erase.Fits T := by
  rwa [erase_numberExpr]

mutual

/-- Copies of an increment that fits do no harm. -/
theorem fits_withIncrement {increment : Expr Site} (h : increment.erase.Fits T) :
    ∀ (s : Stmt Site) (n : Site), s.erase.Fits T → (s.withIncrement increment n).1.erase.Fits T
  | .block body, n, fits => fits_withIncrementAll h body n fits
  | .loopExit keyword, n, fits => by
    rw [Stmt.withIncrement]
    split
    · exact fits
    · exact ⟨fits_numberExpr h n, fits, trivial⟩
  | .ifElse _ t none, n, fits => ⟨fits.1, fits_withIncrement h t n fits.2⟩
  | .ifElse _ t (some e), n, fits =>
    ⟨fits.1, fits_withIncrement h t n fits.2.1, fits_withIncrement h e _ fits.2.2⟩
  | .missing, _, fits | .expression _, _, fits | .print _, _, fits | .var _ _, _, fits => fits
  | .whileLoop _ _, _, fits | .ret _ _, _, fits | .function _, _, fits => fits
  | .classDecl .., _, fits => fits

/-- So it is for the statements of a block, one after the other. -/
theorem fits_withIncrementAll {increment : Expr Site} (h : increment.erase.Fits T) :
    ∀ (ss : List (Stmt Site)) (n : Site), Stmt.FitsAll T (Stmt.eraseAll ss) →
      Stmt.FitsAll T (Stmt.eraseAll (Stmt.withIncrementAll increment ss n).1)
  | [], _, _ => trivial
  | s :: ss, n, fits => ⟨fits_withIncrement h s n fits.1, fits_withIncrementAll h ss _ fits.2⟩

end

/-- The loop that a `for` loop stands for fits if its parts do. -/
theorem fits_forLoop {init : Option (Stmt Site)} {condition increment : Option (Expr Site)}
    {body : Stmt Site} (hi : ∀ s ∈ init, s.erase.Fits T) (hc : ∀ e ∈ condition, e.erase.Fits T)
    (hn : ∀ e ∈ increment, e.erase.Fits T) (hb : body.erase.Fits T) (n : Site) :
    (forLoop init condition increment body n).1.erase.Fits T := by
  have inside : (loopBody increment body n).1.erase.Fits T := by
    cases increment with
    | none => exact hb
    | some e => exact ⟨fits_withIncrement (hn e rfl) body n hb, hn e rfl, trivial⟩
  have loop : (Stmt.whileLoop (condition.getD (.literal (.bool true)))
      (loopBody increment body n).1).erase.Fits T := by
    refine ⟨?_, inside⟩
    cases condition with
    | none => exact trivial
    | some e => exact hc e rfl
  cases init with
  | none => exact loop
  | some s => exact ⟨hi s rfl, loop, trivial⟩

end ForLoop

/-! ## Readers -/

section Readers

variable {α β : Type} (T : Kind → Token → Prop)

/-- If the tokens left are such as may stand where their kinds are asked for, so are those that a
reader leaves, and what it yields is as told. -/
def Yielding (read : Read α) (P : α → Prop) : Prop :=
  ∀ c, (∀ t ∈ c.rest, T t.kind t) → Ends read c
    (fun a c' => (∀ t ∈ c'.rest, T t.kind t) ∧ P a) (fun _ c' => ∀ t ∈ c'.rest, T t.kind t)

namespace Yielding

variable {T} {read : Read α} {next : α → Read β} {P : α → Prop} {Q : β → Prop}

/-- What is yielded at once is as told. -/
theorem pure {a : α} (h : P a) : Yielding T (Pure.pure a) P := fun _ tokens => ⟨tokens, h⟩

/-- One reader after another. -/
theorem andThen (first : Yielding T read P) (second : ∀ a, P a → Yielding T (next a) Q) :
    Yielding T (read >>= next) Q := by
  intro c tokens
  refine (first c tokens).bind ?_ fun _ _ err => err
  rintro a c' - ⟨tokens', result⟩
  exact second a result c' tokens'

/-- What is made of a result is as told, if the result implies it. -/
theorem map {f : α → β} (h : Yielding T read P) (implies : ∀ a, P a → Q (f a)) :
    Yielding T (f <$> read) Q := by
  rw [map_eq_pure_bind]
  exact h.andThen fun a result => .pure (implies a result)

/-- A part that is there. -/
theorem some (h : Yielding T read P) : Yielding T (Option.some <$> read) fun o => ∀ a ∈ o, P a := by
  refine h.map fun a result => ?_
  rintro _ ⟨⟩
  exact result

/-- A reader that gives up yields nothing. -/
theorem failAt {t : Token} {fault : SyntaxFault} : Yielding T (LoxLang.failAt t fault) P :=
  fun _ tokens => tokens

theorem fail {fault : SyntaxFault} : Yielding T (LoxLang.fail fault) P := fun _ tokens => tokens

theorem outOfBound : Yielding T (LoxLang.outOfBound : Read α) P := fun _ tokens => tokens

/-- A token may follow. -/
theorem takeIf {accept : Kind → Bool} {next : Option Token → Read β}
    (without : Yielding T (next none) Q)
    (with_ : ∀ t, accept t.kind = true → T t.kind t → Yielding T (next (Option.some t)) Q) :
    Yielding T (LoxLang.takeIf accept >>= next) Q := by
  intro c tokens
  refine ends_takeIf (fun _ => without c tokens) fun t ts rest ok => ?_
  rw [rest] at tokens
  exact with_ t ok (tokens t List.mem_cons_self) { c with rest := ts }
    fun u mem => tokens u (List.mem_cons_of_mem t mem)

/-- A token has to follow. -/
theorem require {kind : Kind} {fault : SyntaxFault} {next : Token → Read β}
    (with_ : ∀ t, T kind t → Yielding T (next t) Q) :
    Yielding T (LoxLang.require kind fault >>= next) Q := by
  unfold LoxLang.require
  rw [bind_assoc]
  refine .takeIf ?_ fun t ok fits => ?_
  · have failed : Yielding T (LoxLang.fail fault) fun (_ : Token) => False := fail
    exact failed.andThen fun _ never => never.elim
  · rw [pure_bind]
    rw [beq_iff_eq.mp ok] at fits
    exact with_ t fits

/-- Behind an expected mark there is a token of its kind. -/
theorem expect {mark : Mark} {gap : Gap} {next : Token → Read β}
    (with_ : ∀ t, T mark.kind t → Yielding T (next t) Q) :
    Yielding T (LoxLang.expect mark gap >>= next) Q := require with_

/-- Behind an expected name there is an identifier. -/
theorem expectName {role : NameRole} {next : Token → Read β}
    (with_ : ∀ t, T .identifier t → Yielding T (next t) Q) :
    Yielding T (LoxLang.expectName role >>= next) Q := require with_

/-- What a look shows is not used: the reader must be right either way. -/
theorem isAt {kind : Kind} {next : Bool → Read β} (h : ∀ b, Yielding T (next b) Q) :
    Yielding T (LoxLang.isAt kind >>= next) Q := fun c tokens => h (c.at kind) c tokens

theorem isAtEnd {next : Bool → Read β} (h : ∀ b, Yielding T (next b) Q) :
    Yielding T (LoxLang.isAtEnd >>= next) Q := fun c tokens => h c.rest.isEmpty c tokens

/-- A new reference stands on the token that it was made for. -/
theorem newReference {t : Token} {next : Reference Site → Read β}
    (h : ∀ ref : Reference Site, ref.token = t → Yielding T (next ref) Q) :
    Yielding T (LoxLang.newReference t >>= next) Q :=
  fun c tokens => h ⟨t, c.nextSite⟩ rfl { c with nextSite := c.nextSite + 1 } tokens

/-- What is numbered is as told with whatever numbers it gets. -/
theorem withSites {act : StateM Site α} (h : ∀ n, P (act n).1) :
    Yielding T (LoxLang.withSites act) P := fun c tokens => ⟨tokens, h c.nextSite⟩

end Yielding

end Readers

/-! ## Rules -/

section Rules

variable {T : Kind → Token → Prop} {expression : Read (Expr Site)}
  {statement declaration : Read (Stmt Site)}

variable (T)

/-- The expression fits. -/
abbrev FitExpr (e : Expr Site) : Prop := e.erase.Fits T

/-- The statement fits. -/
abbrev FitStmt (s : Stmt Site) : Prop := s.erase.Fits T

/-- The references are names. -/
abbrev FitMixins (refs : List (Reference Site)) : Prop := AreNames T (refs.map Reference.token)

/-- The methods and the static methods of a class fit. -/
abbrev FitMembers (ms : List (Routine Site) × List (Routine Site)) : Prop :=
  Routine.FitsAll T (Routine.eraseAll ms.1) ∧ Routine.FitsAll T (Routine.eraseAll ms.2)

variable {T}

/-- Parameters are identifiers of the text. -/
theorem fits_parameters (allowed : Nat) : Yielding T (readParameters allowed) (AreNames T) := by
  induction allowed with
  | zero => exact .fail
  | succ allowed ih =>
    refine .expectName fun name named => .takeIf ?_ fun comma _ _ => ?_
    · exact .pure (List.forall_mem_singleton.mpr named)
    · exact ih.andThen fun names all => .pure (List.forall_mem_cons.mpr ⟨named, all⟩)

theorem fits_parameterList : Yielding T readParameterList (AreNames T) := by
  refine .isAt fun closes => ?_
  cases closes with
  | true => exact .pure (by simp [AreNames])
  | false => exact fits_parameters maxListed

/-- So are mixins. -/
theorem fits_mixins (turns : Nat) : Yielding T (readMixins turns) (FitMixins T) := by
  induction turns with
  | zero => exact .outOfBound
  | succ turns ih =>
    refine .expectName fun name named => .newReference fun ref same => ?_
    rw [← same] at named
    refine .takeIf ?_ fun comma _ _ => ?_
    · exact .pure (List.forall_mem_singleton.mpr named)
    · exact ih.andThen fun refs all => .pure (List.forall_mem_cons.mpr ⟨named, all⟩)

/-! ### Bodies and routines -/

/-- The declarations of a block fit if each one does. -/
theorem fits_blockItems (decl : Yielding T declaration (FitStmt T)) (turns : Nat) :
    Yielding T (readBlockItems declaration turns) fun ss => Stmt.FitsAll T (Stmt.eraseAll ss) := by
  induction turns with
  | zero => exact .outOfBound
  | succ turns ih =>
    refine .isAt fun closes => .isAtEnd fun ended => ?_
    split
    · exact .pure trivial
    · exact decl.andThen fun first fits => ih.andThen fun items all => .pure ⟨fits, all⟩

theorem fits_body (decl : Yielding T declaration (FitStmt T)) (bound : Nat) :
    Yielding T (readBody bound declaration) fun ss => Stmt.FitsAll T (Stmt.eraseAll ss) :=
  (fits_blockItems decl bound).andThen fun _ all => .expect fun _ _ => .pure all

/-- A routine without a name stands on its word `fun`. -/
theorem fits_anonymous (decl : Yielding T declaration (FitStmt T)) (bound : Nat) {keyword : Token}
    (word : T .funWord keyword) :
    Yielding T (readAnonymous bound declaration keyword) (FitExpr T) := by
  refine .expect fun opened _ => fits_parameterList.andThen fun params named => ?_
  refine .expect fun closed _ => .expect fun brace _ => ?_
  exact (fits_body decl bound).andThen fun body all => .pure ⟨word, named, all⟩

/-- A routine stands on its name. -/
theorem fits_routine (decl : Yielding T declaration (FitStmt T)) (bound : Nat)
    (role : RoutineRole) :
    Yielding T (readRoutine bound declaration role) fun r => r.erase.Fits T := by
  refine .expectName fun name named => ?_
  have body (params : Option (List Token)) (fits : AreNames T (params.getD [])) : Yielding T (do
      let _ ← expect .leftBrace (.beforeRoutineBody role)
      return (⟨name, params.getD [], ← readBody bound declaration, params.isNone⟩ : Routine Site))
        fun r => r.erase.Fits T :=
    .expect fun brace _ => (fits_body decl bound).andThen fun body all => .pure ⟨named, fits, all⟩
  refine .takeIf ?_ fun opened _ _ => ?_
  · dsimp only
    split
    · have failed {fault : SyntaxFault} : Yielding T (fail fault)
          fun (_ : Option (List Token)) => False := .fail
      exact failed.andThen fun _ never => never.elim
    · exact body none (by simp [AreNames])
  · refine fits_parameterList.andThen fun params fits => .expect fun closed _ => ?_
    exact body (some params) fits

/-! ### Expressions -/

/-- Arguments fit if each one does. -/
theorem fits_arguments (expr : Yielding T expression (FitExpr T)) (allowed : Nat) :
    Yielding T (readArguments expression allowed) fun es => Expr.FitsAll T (Expr.eraseAll es) := by
  induction allowed with
  | zero => exact .fail
  | succ allowed ih =>
    refine expr.andThen fun first fits => .takeIf ?_ fun comma _ _ => ?_
    · exact .pure ⟨fits, trivial⟩
    · exact ih.andThen fun others all => .pure ⟨fits, all⟩

theorem fits_argumentList (expr : Yielding T expression (FitExpr T)) :
    Yielding T (readArgumentList expression) fun es => Expr.FitsAll T (Expr.eraseAll es) := by
  refine .isAt fun closes => ?_
  cases closes with
  | true => exact .pure trivial
  | false => exact fits_arguments expr maxListed

/-- Every operand stands on the tokens that it was told by. -/
theorem fits_primary (expr : Yielding T expression (FitExpr T))
    (decl : Yielding T declaration (FitStmt T)) (bound : Nat) :
    Yielding T (readPrimary bound expression declaration) (FitExpr T) := by
  refine .takeIf .fail fun t _ fits => ?_
  dsimp only
  split <;> rename_i kind
  · exact .pure trivial
  · exact .pure trivial
  · exact .pure trivial
  · exact expr.andThen fun inner fits => .expect fun closed _ => .pure fits
  · refine .expect fun dot _ => .expectName fun method named => .newReference fun ref same => ?_
    rw [kind, ← same] at fits
    exact .pure ⟨fits, named⟩
  · refine .newReference fun ref same => ?_
    rw [kind, ← same] at fits
    exact .pure fits
  · refine .newReference fun ref same => ?_
    rw [kind, ← same] at fits
    exact .pure fits
  · rw [kind] at fits
    exact fits_anonymous decl bound fits
  · exact .pure trivial

/-- A call stands on its closing parenthesis, a property on its name. -/
theorem fits_chain (expr : Yielding T expression (FitExpr T)) (bound : Nat) {e : Expr Site}
    (fits : FitExpr T e) : Yielding T (readChain expression bound e) (FitExpr T) := by
  induction bound generalizing e with
  | zero => exact .outOfBound
  | succ bound ih =>
    refine .takeIf (.pure fits) fun t _ _ => ?_
    dsimp only
    split
    · refine (fits_argumentList expr).andThen fun arguments all => .expect fun paren closes => ?_
      exact ih ⟨fits, closes, all⟩
    · exact .expectName fun name named => ih ⟨fits, named⟩

/-- A unary operator stands on its sign. -/
theorem fits_unary {operand : Read (Expr Site)} (part : Yielding T operand (FitExpr T))
    (bound : Nat) : Yielding T (readUnary operand bound) (FitExpr T) := by
  induction bound with
  | zero => exact .outOfBound
  | succ bound ih =>
    refine .takeIf part fun op kind fits => ih.andThen fun right all => .pure ⟨?_, all⟩
    rw [Bool.or_eq_true, beq_iff_eq, beq_iff_eq] at kind
    rcases kind with kind | kind
    · exact .inl (kind ▸ fits)
    · exact .inr (kind ▸ fits)

/-- An operator stands on a token of one of the kinds of its level. -/
theorem fits_combine {level : OperatorLevel} (known : level ∈ operatorLevels) {l r : Expr Site}
    {op : Token} (left : FitExpr T l) (kind : level.kinds.contains op.kind = true)
    (fits : T op.kind op) (right : FitExpr T r) : FitExpr T (level.combine l op r) := by
  have operates : Operates T level.isLogical op :=
    ⟨level, known, rfl, op.kind, List.contains_iff_mem.mp kind, fits⟩
  unfold OperatorLevel.combine
  split <;> rename_i sort
  · rw [sort] at operates
    exact ⟨left, operates, right⟩
  · rw [Bool.not_eq_true] at sort
    rw [sort] at operates
    exact ⟨left, operates, right⟩

/-- A level joins operands by tokens of its own kinds. -/
theorem fits_operatorTail {operand : Read (Expr Site)} (part : Yielding T operand (FitExpr T))
    {level : OperatorLevel} (known : level ∈ operatorLevels) (bound : Nat) {left : Expr Site}
    (fits : FitExpr T left) :
    Yielding T (readOperatorTail level operand bound left) (FitExpr T) := by
  induction bound generalizing left with
  | zero => exact .outOfBound
  | succ bound ih =>
    refine .takeIf (.pure fits) fun op kind fits' => part.andThen fun right fits'' => ?_
    exact ih (fits_combine known fits kind fits' fits'')

/-- All levels are those of the table. -/
theorem fits_operators {operand : Read (Expr Site)} (part : Yielding T operand (FitExpr T))
    (bound : Nat) {levels : List OperatorLevel} (known : levels ⊆ operatorLevels) :
    Yielding T (readOperators bound operand levels) (FitExpr T) := by
  induction levels with
  | nil => exact part
  | cons level tighter ih =>
    have side := ih (List.subset_of_cons_subset known)
    exact side.andThen fun left fits =>
      fits_operatorTail side (known List.mem_cons_self) bound fits

/-- The target of an assignment keeps the token it was read from. -/
theorem fits_assignment (expr : Yielding T expression (FitExpr T))
    (decl : Yielding T declaration (FitStmt T)) (bound : Nat) :
    Yielding T (readAssignment bound expression declaration) (FitExpr T) := by
  have operand : Yielding T (do
      readChain expression bound (← readPrimary bound expression declaration)) (FitExpr T) :=
    (fits_primary expr decl bound).andThen fun e fits => fits_chain expr bound fits
  have target := fits_operators (fits_unary operand bound) bound (List.Subset.refl operatorLevels)
  refine target.andThen fun target fits => .takeIf (.pure fits) fun equals _ _ => ?_
  refine expr.andThen fun value fits' => ?_
  split
  · exact .pure ⟨fits, fits'⟩
  · exact .pure ⟨fits, fits'⟩
  · exact .failAt

/-! ### Statements -/

/-- The semicolon is not kept. -/
theorem fits_expressionStatement (expr : Yielding T expression (FitExpr T)) :
    Yielding T (readExpressionStatement expression) (FitStmt T) :=
  expr.andThen fun _ fits => .expect fun _ _ => .pure fits

/-- A variable declaration stands on the name. -/
theorem fits_variable (expr : Yielding T expression (FitExpr T)) :
    Yielding T (readVariable expression) (FitStmt T) := by
  refine .expectName fun name named => .takeIf ?_ fun equals _ _ => ?_
  · exact .expect fun mark _ => .pure named
  · refine expr.some.andThen fun init fits => .expect fun mark _ => .pure ?_
    cases init with
    | none => exact named
    | some e => exact ⟨named, fits e rfl⟩

theorem fits_print (expr : Yielding T expression (FitExpr T)) :
    Yielding T (readPrint expression) (FitStmt T) :=
  expr.andThen fun _ fits => .expect fun _ _ => .pure fits

/-- A condition and its branches fit if they are read so. -/
theorem fits_if (expr : Yielding T expression (FitExpr T))
    (stmt : Yielding T statement (FitStmt T)) :
    Yielding T (readIf expression statement) (FitStmt T) := by
  refine .expect fun opened _ => expr.andThen fun condition fits => .expect fun closed _ => ?_
  refine stmt.andThen fun thenBranch fits' => .takeIf ?_ fun word _ _ => ?_
  · exact .pure ⟨fits, fits'⟩
  · exact stmt.andThen fun elseBranch fits'' => .pure ⟨fits, fits', fits''⟩

theorem fits_while (expr : Yielding T expression (FitExpr T))
    (stmt : Yielding T statement (FitStmt T)) :
    Yielding T (readWhile expression statement) (FitStmt T) := by
  refine .expect fun opened _ => expr.andThen fun condition fits => .expect fun closed _ => ?_
  exact stmt.andThen fun body fits' => .pure ⟨fits, fits'⟩

/-- An expression that is left out has nothing that could fail to fit. -/
theorem fits_unless (expr : Yielding T expression (FitExpr T)) (mark : Kind) :
    Yielding T (readUnless mark expression) fun o => ∀ e ∈ o, FitExpr T e := by
  refine .isAt fun closes => ?_
  cases closes with
  | true => exact .pure (by simp)
  | false => exact expr.some

/-- A `for` loop behind the first part of its header. -/
theorem fits_loop (expr : Yielding T expression (FitExpr T))
    (stmt : Yielding T statement (FitStmt T)) {init : Option (Stmt Site)}
    (fits : ∀ s ∈ init, FitStmt T s) :
    Yielding T (readLoop expression statement init) (FitStmt T) := by
  refine (fits_unless expr .semicolon).andThen fun condition hc => .expect fun mark _ => ?_
  refine (fits_unless expr .rightParen).andThen fun increment hn => .expect fun closed _ => ?_
  exact stmt.andThen fun body hb => .withSites fun n => fits_forLoop fits hc hn hb n

/-- A `for` loop fits as the loop that it stands for, `fits_loop`. -/
theorem fits_for (expr : Yielding T expression (FitExpr T))
    (stmt : Yielding T statement (FitStmt T)) :
    Yielding T (readFor expression statement) (FitStmt T) := by
  refine .expect fun opened _ => ?_
  show Yielding T (readInitializer expression statement) _
  refine .takeIf ?_ fun first _ _ => ?_
  · exact (fits_expressionStatement expr).some.andThen fun init fits => fits_loop expr stmt fits
  · dsimp only
    split
    · exact (fits_variable expr).some.andThen fun init fits => fits_loop expr stmt fits
    · exact fits_loop expr stmt (by simp)

/-- A `return` stands on its word. -/
theorem fits_return (expr : Yielding T expression (FitExpr T)) {keyword : Token}
    (word : T .returnWord keyword) : Yielding T (readReturn expression keyword) (FitStmt T) := by
  refine (fits_unless expr .semicolon).andThen fun value fits => .expect fun mark _ => .pure ?_
  cases value with
  | none => exact word
  | some e => exact ⟨word, fits e rfl⟩

/-- So does `break` or `continue`. -/
theorem fits_loopExit {keyword : Token} (word : T .breakWord keyword ∨ T .continueWord keyword) :
    Yielding T (readLoopExit keyword) (FitStmt T) := .expect fun _ _ => .pure word

/-- A statement stands on the word that it was told by. -/
theorem fits_statementForm (expr : Yielding T expression (FitExpr T))
    (stmt : Yielding T statement (FitStmt T)) (decl : Yielding T declaration (FitStmt T))
    (bound : Nat) :
    Yielding T (readStatementForm bound expression statement declaration) (FitStmt T) := by
  refine .takeIf (fits_expressionStatement expr) fun t begins fits => ?_
  dsimp only
  split <;> rename_i kind
  · exact fits_if expr stmt
  · exact fits_print expr
  · exact fits_while expr stmt
  · exact fits_for expr stmt
  · rw [kind] at fits
    exact fits_return expr fits
  · exact (fits_body decl bound).andThen fun body all => .pure all
  · refine fits_loopExit ?_
    cases word : t.kind <;> simp_all [beginsStatementForm]

/-! ### Declarations -/

/-- Methods and static methods fit alike. -/
theorem fits_members {method : RoutineRole → Read (Routine Site)}
    (methods : ∀ role, Yielding T (method role) fun r => r.erase.Fits T) (turns : Nat) :
    Yielding T (readMembers method turns) (FitMembers T) := by
  induction turns with
  | zero => exact .outOfBound
  | succ turns ih =>
    refine .isAt fun closes => .isAtEnd fun ended => ?_
    split
    · exact .pure ⟨trivial, trivial⟩
    · refine .takeIf ?_ fun word _ _ => ?_
      · refine (methods _).andThen fun first fits => ih.andThen fun others all => ?_
        exact .pure ⟨⟨fits, all.1⟩, all.2⟩
      · refine (methods _).andThen fun first fits => ih.andThen fun others all => ?_
        exact .pure ⟨all.1, fits, all.2⟩

/-- A class stands on its name, and its parents on theirs. -/
theorem fits_class (decl : Yielding T declaration (FitStmt T)) (bound : Nat) :
    Yielding T (readClass bound declaration) (FitStmt T) := by
  have members {name : Token} {superclass : Option (Reference Site)}
      {mixins : List (Reference Site)} (named : T .identifier name)
      (parent : FitMixins T superclass.toList) (mixed : FitMixins T mixins) :
      Yielding T (readMemberList bound declaration name superclass mixins) (FitStmt T) := by
    refine .expect fun opened _ => ?_
    refine (fits_members (fits_routine decl bound) bound).andThen fun members all => ?_
    refine .expect fun closed _ => .pure ⟨named, ?_, ?_, all.1, all.2⟩
    · cases superclass with
      | none => exact parent
      | some ref => exact parent
    · rw [List.map_map]
      exact mixed
  have mixed {name : Token} {superclass : Option (Reference Site)} (named : T .identifier name)
      (parent : FitMixins T superclass.toList) :
      Yielding T (readMixed bound (readMemberList bound declaration name superclass)) (FitStmt T) :=
    .takeIf (members named parent (by simp [AreNames])) fun mark _ _ =>
      (fits_mixins bound).andThen fun mixins mixed => members named parent mixed
  rw [readClass_eq]
  refine .expectName fun name named => .takeIf (mixed named (by simp [AreNames])) fun less _ _ => ?_
  refine .expectName fun ancestor named' => .newReference fun ref same => mixed named ?_
  rw [← same] at named'
  exact List.forall_mem_singleton.mpr named'

/-- A function declaration stands on its name, a lone routine on its word. -/
theorem fits_function (decl : Yielding T declaration (FitStmt T)) (bound : Nat) {keyword : Token}
    (word : T .funWord keyword) :
    Yielding T (readFunction bound declaration keyword) (FitStmt T) := by
  refine .isAt fun named => ?_
  cases named with
  | true => exact (fits_routine decl bound .function).map fun r fits => fits
  | false => exact fits_expressionStatement (fits_anonymous decl bound word)

/-- A declaration stands on the word that it was told by. -/
theorem fits_declarationForm (expr : Yielding T expression (FitExpr T))
    (stmt : Yielding T statement (FitStmt T)) (decl : Yielding T declaration (FitStmt T))
    (bound : Nat) :
    Yielding T (readDeclarationForm bound expression statement declaration) (FitStmt T) := by
  refine .takeIf stmt fun t _ fits => ?_
  dsimp only
  split <;> rename_i kind
  · exact fits_class decl bound
  · rw [kind] at fits
    exact fits_function decl bound fits
  · exact fits_variable expr

/-- A missing statement has no tokens. -/
theorem fits_recovering {read : Read (Stmt Site)} (h : Yielding T read (FitStmt T)) :
    Yielding T (recovering read) (FitStmt T) := by
  intro c tokens
  rw [recovering, ends_tryCatch]
  refine (h c tokens).mono (fun _ _ _ ok => ok) fun e c' tokens' => ?_
  cases e with
  | atFault => exact ⟨fun t mem => tokens' t ((skipFaulty_suffix c'.rest).subset mem), trivial⟩
  | atBound => exact tokens'

end Rules

/-! ## Whole texts -/

variable {T : Kind → Token → Prop}

/-- On every level of nesting what is read fits, by induction on the bound. -/
theorem fits_all (bound : Nat) :
    Yielding T (readExpression bound) (FitExpr T) ∧ Yielding T (readStatement bound) (FitStmt T) ∧
      Yielding T (readDeclaration bound) (FitStmt T) := by
  induction bound with
  | zero =>
    rw [readExpression, readStatement, readDeclaration]
    exact ⟨.outOfBound, .outOfBound, .outOfBound⟩
  | succ bound ih =>
    obtain ⟨expr, stmt, decl⟩ := ih
    rw [readExpression, readStatement, readDeclaration]
    exact ⟨fits_assignment expr decl bound, fits_statementForm expr stmt decl bound,
      fits_recovering (fits_declarationForm expr stmt decl bound)⟩

/-- A whole text fits if each of its declarations does. -/
theorem fits_declarations {declaration : Read (Stmt Site)}
    (decl : Yielding T declaration (FitStmt T)) (turns : Nat) :
    Yielding T (readDeclarations declaration turns)
      fun ss => Stmt.FitsAll T (Stmt.eraseAll ss) := by
  induction turns with
  | zero => exact .outOfBound
  | succ turns ih =>
    refine .isAtEnd fun ended => ?_
    split
    · exact .pure trivial
    · exact decl.andThen fun first fits => ih.andThen fun others all => .pure ⟨fits, all⟩

/-- The tokens of a program are of the kinds for their places, whatever is wrong with the text. -/
theorem fits_program {tokens : List Token} (h : ∀ t ∈ tokens, T t.kind t) (endLine : Nat)
    (firstSite : Site) :
    Stmt.FitsAll T (Stmt.eraseAll (Program.ofTokens tokens endLine firstSite).result) := by
  have read := fits_declarations (fits_all (T := T) (nestingBound tokens)).2.2 (nestingBound tokens)
    (.start tokens endLine firstSite) h
  rw [ofTokens_eq]
  rcases run : outcome (readProgram tokens) (.start tokens endLine firstSite) with ⟨e | p, c⟩
  · exact trivial
  · exact (read.ok run).2

/-- The tokens of a lone expression are of the kinds for their places. -/
theorem fits_expression {tokens : List Token} (h : ∀ t ∈ tokens, T t.kind t) (endLine : Nat) :
    ∀ e ∈ (readExpressionAlone tokens endLine).result, FitExpr T e := by
  have read := (fits_all (T := T) (nestingBound tokens)).1.some (.start tokens endLine 0) h
  intro e found
  have told : (readExpressionAlone tokens endLine).result =
      (outcome (some <$> readExpression (nestingBound tokens))
        (.start tokens endLine 0)).1.toOption.getD none := rfl
  rw [told] at found
  rcases run : outcome (some <$> readExpression (nestingBound tokens)) (.start tokens endLine 0)
    with ⟨fault | o, c⟩ <;> rw [run] at found
  · cases found
  · exact (read.ok run).2 e found

end LoxLang
