/-
LoxLang.Proofs.Tree.Advancing: reading goes on, and ends.

Every loop of the readers consumes a token in each of its turns, also where a turn gave up and
reading was taken up again.  What pays for a complaint is a token: the tokens left and the
complaints so far together never become more from one declaration to the next.  A fault adds a
complaint, and so has to come with a token, either the one that the phrase began with or the one
that is skipped.

* `Cursor.weight`: the tokens left and the complaints so far.
* `Spends`: the moves of a reader are told by a script, and what it does to the weight.
* `Spends.andThen`, `Spends.takeIf`, `Spends.require`: one reader after another.

Main statement: `reading_advances`.
-/
import LoxLang.Proofs.Tree.Reported
import LoxLang.Proofs.Tree.Script

namespace LoxLang

/-- The number of tokens left and of complaints so far. -/
def Cursor.weight (c : Cursor) : Nat := c.rest.length + c.diagnostics.length

section Readers

variable {α β : Type}

theorem Scripted.ends {read : Read α} (h : Scripted read) (c : Cursor) : Ends read c
    (fun _ c' => c'.rest <:+ c.rest ∧ c'.endLine = c.endLine ∧ c.diagnostics <+: c'.diagnostics)
    (fun e c' => c'.rest <:+ c.rest ∧ c'.endLine = c.endLine ∧ c.diagnostics <+: c'.diagnostics ∧
      (e = .atFault → c.diagnostics ≠ c'.diagnostics)) := by
  obtain ⟨script, rfl⟩ := h
  exact ends_script script c

/-- With at least so many tokens left, the reader makes the weight no larger, or larger by one if it
gives up.  A reader that opens a phrase does better: it makes the weight smaller, and if it gives up
behind its first token the weight is no larger. -/
structure Spends (least : Nat) (opens : Bool) (read : Read α) : Prop where
  scripted : Scripted read
  weighs : ∀ c, least ≤ c.rest.length → Ends read c
    (fun _ c' => c'.weight + opens.toNat ≤ c.weight)
    (fun _ c' => c'.weight ≤ c.weight + 1 ∧
      (opens = true → c'.rest.length < c.rest.length → c'.weight ≤ c.weight))

namespace Spends

variable {l l' : Nat} {o : Bool} {read : Read α} {next : α → Read β}

theorem mono (h : Spends l o read) (le : l ≤ l') : Spends l' o read :=
  ⟨h.scripted, fun c enough => h.weighs c (Nat.le_trans le enough)⟩

/-- That a reader opens a phrase need not matter. -/
theorem loose (h : Spends l o read) : Spends l false read := by
  refine ⟨h.scripted, fun c enough => (h.weighs c enough).mono ?_ ?_⟩
  · intro _ c' _ less
    exact Nat.le_trans (Nat.le_add_right _ _) less
  · rintro _ c' ⟨le, -⟩
    exact ⟨le, by simp⟩

theorem pure {a : α} : Spends l false (Pure.pure a) :=
  ⟨.pure a, fun _ _ => Nat.le_refl _⟩

/-- One reader after another. -/
theorem andThen (first : Spends l o read) (second : ∀ a, Spends 0 false (next a)) :
    Spends l o (read >>= next) := by
  refine ⟨first.scripted.bind fun a => (second a).scripted, fun c enough => ?_⟩
  refine (first.weighs c enough).bind ?_ fun _ _ err => err
  intro a c' _ less
  refine ((second a).weighs c' (Nat.zero_le _)).mono ?_ ?_
  · intro b c'' _ less'
    rw [Bool.toNat_false] at less'
    omega
  · rintro e c'' ⟨le, -⟩
    refine ⟨by omega, fun opens _ => ?_⟩
    rw [opens, Bool.toNat_true] at less
    omega

theorem map {f : α → β} (h : Spends l o read) : Spends l o (f <$> read) := by
  rw [map_eq_pure_bind]
  exact h.andThen fun _ => .pure

/-! ### Looking, moving and giving up -/

theorem failAt {t : Token} {fault : SyntaxFault} :
    Spends l o (LoxLang.failAt t fault : Read α) := by
  refine ⟨.failAt t fault, fun c _ => ?_⟩
  refine ⟨?_, fun _ less => absurd less (Nat.lt_irrefl _)⟩
  simp [Cursor.weight, Nat.add_assoc]

theorem fail {fault : SyntaxFault} : Spends l o (LoxLang.fail fault : Read α) := by
  refine ⟨.fail fault, fun c enough => ?_⟩
  have failed : Spends l o (LoxLang.failAt c.next fault : Read α) := failAt
  exact failed.weighs c enough

theorem outOfBound : Spends l o (LoxLang.outOfBound : Read α) :=
  ⟨.outOfBound, fun _ _ => ⟨Nat.le_succ _, fun _ less => absurd less (Nat.lt_irrefl _)⟩⟩

/-- A token may follow; what comes behind it need not open a phrase. -/
theorem takeIf {accept : Kind → Bool} {next : Option Token → Read β}
    (without : Spends l o (next none)) (with_ : ∀ t, Spends 0 false (next (some t))) :
    Spends l o (LoxLang.takeIf accept >>= next) := by
  have scripted (o : Option Token) : Scripted (next o) := by
    cases o with
    | none => exact without.scripted
    | some t => exact (with_ t).scripted
  refine ⟨(Scripted.takeIf accept).bind scripted, fun c enough => ?_⟩
  refine ends_takeIf (fun _ => without.weighs c enough) fun t ts rest _ => ?_
  have lighter : c.weight = ts.length + c.diagnostics.length + 1 := by
    simp only [Cursor.weight, rest, List.length_cons]
    omega
  have atMost : o.toNat ≤ 1 := Bool.toNat_le o
  refine ((with_ t).weighs { c with rest := ts } (Nat.zero_le _)).mono ?_ ?_
  · intro b c' _ less
    simp only [Cursor.weight, Bool.toNat_false] at less lighter ⊢
    omega
  · rintro e c' ⟨le, -⟩
    simp only [Cursor.weight] at le lighter ⊢
    exact ⟨by omega, fun _ _ => by omega⟩

/-- A token has to follow. -/
theorem require {kind : Kind} {fault : SyntaxFault} {next : Token → Read β}
    (with_ : ∀ t, Spends 0 false (next t)) :
    Spends l o (LoxLang.require kind fault >>= next) := by
  unfold LoxLang.require
  rw [bind_assoc]
  refine .takeIf ?_ fun t => ?_
  · exact fail.andThen with_
  · rw [pure_bind]
    exact with_ t

theorem expect {mark : Mark} {gap : Gap} {next : Token → Read β}
    (with_ : ∀ t, Spends 0 false (next t)) : Spends l o (LoxLang.expect mark gap >>= next) :=
  require with_

theorem expectName {role : NameRole} {next : Token → Read β}
    (with_ : ∀ t, Spends 0 false (next t)) : Spends l o (LoxLang.expectName role >>= next) :=
  require with_

theorem isAt {kind : Kind} {next : Bool → Read β} (h : ∀ b, Spends l o (next b)) :
    Spends l o (LoxLang.isAt kind >>= next) :=
  ⟨(Scripted.isAt kind).bind fun b => (h b).scripted,
    fun c enough => (h (c.at kind)).weighs c enough⟩

/-- Behind the question whether the end is reached a token is left. -/
theorem isAtEnd {next : Bool → Read β} (ended : Spends l o (next true))
    (going : Spends 1 o (next false)) : Spends l o (LoxLang.isAtEnd >>= next) := by
  have scripted (b : Bool) : Scripted (next b) := by
    cases b with
    | true => exact ended.scripted
    | false => exact going.scripted
  refine ⟨Scripted.isAtEnd.bind scripted, ?_⟩
  rintro ⟨tokens, line, n, ds⟩ enough
  cases tokens with
  | nil => exact ended.weighs ⟨[], line, n, ds⟩ enough
  | cons t ts => exact going.weighs ⟨t :: ts, line, n, ds⟩ (Nat.le_add_left 1 _)

theorem newReference {t : Token} {next : Reference Site → Read β}
    (h : ∀ ref, Spends l o (next ref)) : Spends l o (LoxLang.newReference t >>= next) :=
  ⟨(Scripted.newReference t).bind fun ref => (h ref).scripted, fun c enough =>
    (h ⟨t, c.nextSite⟩).weighs { c with nextSite := c.nextSite + 1 } enough⟩

theorem withSites {act : StateM Site α} : Spends l false (LoxLang.withSites act) :=
  ⟨.withSites act, fun _ _ => Nat.le_refl _⟩

end Spends

end Readers

/-! ## Rules -/

section Rules

variable {expression : Read (Expr Site)} {statement declaration : Read (Stmt Site)}

/-- Every name behind a comma is a token that is spent. -/
theorem spends_parameters (allowed : Nat) : Spends 0 false (readParameters allowed) := by
  induction allowed with
  | zero => exact .fail
  | succ allowed ih =>
    exact .expectName fun name => .takeIf .pure fun comma => ih.andThen fun others => .pure

theorem spends_parameterList : Spends 0 false readParameterList := by
  refine .isAt fun closes => ?_
  cases closes with
  | true => exact .pure
  | false => exact spends_parameters maxListed

theorem spends_mixins (turns : Nat) : Spends 0 false (readMixins turns) := by
  induction turns with
  | zero => exact .outOfBound
  | succ turns ih =>
    refine .expectName fun name => .newReference fun ref => ?_
    exact .takeIf .pure fun comma => ih.andThen fun refs => .pure

/-! ### Bodies and routines -/

/-- A faulty declaration adds a complaint, but it has spent a token too. -/
theorem spends_blockItems (decl : Spends 1 false declaration) (turns : Nat) :
    Spends 0 false (readBlockItems declaration turns) := by
  induction turns with
  | zero => exact .outOfBound
  | succ turns ih =>
    refine .isAt fun closes => .isAtEnd (by simpa using .pure) ?_
    cases closes with
    | true => exact .pure
    | false => exact decl.andThen fun first => ih.andThen fun items => .pure

theorem spends_body (decl : Spends 1 false declaration) (bound : Nat) :
    Spends 0 false (readBody bound declaration) :=
  (spends_blockItems decl bound).andThen fun _ => .expect fun _ => .pure

/-- A routine spends its parentheses and braces. -/
theorem spends_anonymous (decl : Spends 1 false declaration) (bound : Nat) (keyword : Token) :
    Spends 0 true (readAnonymous bound declaration keyword) := by
  refine .expect fun opened => spends_parameterList.andThen fun params => ?_
  refine .expect fun closed => .expect fun brace => ?_
  exact (spends_body decl bound).andThen fun body => .pure

theorem spends_routine (decl : Spends 1 false declaration) (bound : Nat) (role : RoutineRole) :
    Spends 0 true (readRoutine bound declaration role) := by
  have body {getter : Bool} {name : Token} {params : List Token} : Spends 0 false (do
      let _ ← expect .leftBrace (.beforeRoutineBody role)
      return (⟨name, params, ← readBody bound declaration, getter⟩ : Routine Site)) :=
    .expect fun brace => (spends_body decl bound).andThen fun body => .pure
  refine .expectName fun name => .takeIf ?_ fun opened => ?_
  · dsimp only
    split
    · exact Spends.fail.andThen fun params => body
    · exact body
  · refine spends_parameterList.andThen fun params => .expect fun closed => ?_
    exact body

/-! ### Expressions -/

/-- Between two arguments a comma is spent. -/
theorem spends_arguments (expr : Spends 0 true expression) (allowed : Nat) :
    Spends 0 false (readArguments expression allowed) := by
  induction allowed with
  | zero => exact .fail
  | succ allowed ih =>
    refine expr.loose.andThen fun first => .takeIf .pure fun comma => ?_
    exact ih.andThen fun others => .pure

theorem spends_argumentList (expr : Spends 0 true expression) :
    Spends 0 false (readArgumentList expression) := by
  refine .isAt fun closes => ?_
  cases closes with
  | true => exact .pure
  | false => exact spends_arguments expr maxListed

/-- An operand spends at least the token that it is told by. -/
theorem spends_primary (expr : Spends 0 true expression) (decl : Spends 1 false declaration)
    (bound : Nat) : Spends 0 true (readPrimary bound expression declaration) := by
  refine .takeIf .fail fun t => ?_
  dsimp only
  split
  · exact .pure
  · exact .pure
  · exact .pure
  · exact expr.loose.andThen fun inner => .expect fun closed => .pure
  · exact .expect fun dot => .expectName fun method => .newReference fun ref => .pure
  · exact .newReference fun ref => .pure
  · exact .newReference fun ref => .pure
  · exact (spends_anonymous decl bound t).loose
  · exact .pure

/-- A link of a chain spends its mark; the end of the chain spends nothing. -/
theorem spends_chain (expr : Spends 0 true expression) (bound : Nat) (e : Expr Site) :
    Spends 0 false (readChain expression bound e) := by
  induction bound generalizing e with
  | zero => exact .outOfBound
  | succ bound ih =>
    refine .takeIf .pure fun t => ?_
    dsimp only
    split
    · exact (spends_argumentList expr).andThen fun arguments => .expect fun paren => ih _
    · exact .expectName fun name => ih _

/-- A sign is spent for every operator. -/
theorem spends_unary {operand : Read (Expr Site)} (part : Spends 0 true operand)
    (bound : Nat) : Spends 0 true (readUnary operand bound) := by
  induction bound with
  | zero => exact .outOfBound
  | succ bound ih => exact .takeIf part fun op => ih.loose.andThen fun right => .pure

/-- An operator is spent for every operand on its right. -/
theorem spends_operatorTail {operand : Read (Expr Site)} (part : Spends 0 true operand)
    (level : OperatorLevel) (bound : Nat) (left : Expr Site) :
    Spends 0 false (readOperatorTail level operand bound left) := by
  induction bound generalizing left with
  | zero => exact .outOfBound
  | succ bound ih => exact .takeIf .pure fun op => part.loose.andThen fun right => ih _

/-- The operators level by level. -/
theorem spends_operators {operand : Read (Expr Site)} (part : Spends 0 true operand)
    (bound : Nat) (levels : List OperatorLevel) :
    Spends 0 true (readOperators bound operand levels) := by
  induction levels with
  | nil => exact part
  | cons level tighter ih => exact ih.andThen fun left => spends_operatorTail ih level bound left

/-- A bad target is complained about behind the `=`, which was spent. -/
theorem spends_assignment (expr : Spends 0 true expression) (decl : Spends 1 false declaration)
    (bound : Nat) : Spends 0 true (readAssignment bound expression declaration) := by
  have operand := (spends_primary expr decl bound).andThen (spends_chain expr bound)
  have target := spends_operators (spends_unary operand bound) bound operatorLevels
  refine target.andThen fun target => ?_
  refine .takeIf .pure fun equals => expr.loose.andThen fun value => ?_
  split
  · exact .pure
  · exact .pure
  · exact .failAt

/-! ### Statements -/

/-- An expression as a statement spends what the expression does. -/
theorem spends_expressionStatement (expr : Spends 0 true expression) :
    Spends 0 true (readExpressionStatement expression) :=
  expr.andThen fun _ => .expect fun _ => .pure

theorem spends_variable (expr : Spends 0 true expression) :
    Spends 0 true (readVariable expression) := by
  have ends {name : Token} {init : Option (Expr Site)} : Spends 0 false (do
      let _ ← expect .semicolon .afterVariableDeclaration
      return (Stmt.var name init : Stmt Site)) := .expect fun mark => .pure
  refine .expectName fun name => .takeIf ?_ fun equals => ?_
  · exact ends
  · exact expr.loose.map.andThen fun init => ends

theorem spends_print (expr : Spends 0 true expression) : Spends 0 true (readPrint expression) :=
  expr.andThen fun _ => .expect fun _ => .pure

theorem spends_if (expr : Spends 0 true expression) (stmt : Spends 0 true statement) :
    Spends 0 true (readIf expression statement) := by
  refine .expect fun opened => expr.loose.andThen fun condition => .expect fun closed => ?_
  refine stmt.loose.andThen fun thenBranch => .takeIf .pure fun word => ?_
  exact stmt.loose.andThen fun elseBranch => .pure

theorem spends_while (expr : Spends 0 true expression) (stmt : Spends 0 true statement) :
    Spends 0 true (readWhile expression statement) := by
  refine .expect fun opened => expr.loose.andThen fun condition => .expect fun closed => ?_
  exact stmt.loose.andThen fun body => .pure

/-- An expression that is left out spends nothing. -/
theorem spends_unless (expr : Spends 0 true expression) (mark : Kind) :
    Spends 0 false (readUnless mark expression) := by
  refine .isAt fun closes => ?_
  cases closes with
  | true => exact .pure
  | false => exact expr.loose.map

/-- A `for` loop behind the first part of its header. -/
theorem spends_loop (expr : Spends 0 true expression) (stmt : Spends 0 true statement)
    (init : Option (Stmt Site)) : Spends 0 false (readLoop expression statement init) := by
  refine (spends_unless expr .semicolon).andThen fun condition => .expect fun mark => ?_
  refine (spends_unless expr .rightParen).andThen fun increment => .expect fun closed => ?_
  exact stmt.loose.andThen fun body => .withSites

/-- The header of a loop spends its parentheses and semicolons. -/
theorem spends_for (expr : Spends 0 true expression) (stmt : Spends 0 true statement) :
    Spends 0 true (readFor expression statement) := by
  have loop := spends_loop expr stmt
  refine .expect fun opened => ?_
  show Spends 0 false (readInitializer expression statement)
  refine .takeIf ?_ fun first => ?_
  · exact (spends_expressionStatement expr).loose.map.andThen loop
  · dsimp only
    split
    · exact (spends_variable expr).loose.map.andThen loop
    · exact loop none

/-- A `return` without a value spends its semicolon. -/
theorem spends_return (expr : Spends 0 true expression) (keyword : Token) :
    Spends 0 false (readReturn expression keyword) :=
  (spends_unless expr .semicolon).andThen fun _ => .expect fun _ => .pure

theorem spends_loopExit (keyword : Token) : Spends 0 true (readLoopExit keyword) :=
  .expect fun _ => .pure

/-- A statement that is told by its first token has spent it. -/
theorem spends_statementForm (expr : Spends 0 true expression) (stmt : Spends 0 true statement)
    (decl : Spends 1 false declaration) (bound : Nat) :
    Spends 0 true (readStatementForm bound expression statement declaration) := by
  refine .takeIf (spends_expressionStatement expr) fun t => ?_
  dsimp only
  split
  · exact (spends_if expr stmt).loose
  · exact (spends_print expr).loose
  · exact (spends_while expr stmt).loose
  · exact (spends_for expr stmt).loose
  · exact spends_return expr t
  · exact (spends_body decl bound).andThen fun body => .pure
  · exact (spends_loopExit t).loose

/-! ### Declarations -/

/-- A member spends at least its name. -/
theorem spends_members {method : RoutineRole → Read (Routine Site)}
    (methods : ∀ role, Spends 0 true (method role)) (turns : Nat) :
    Spends 0 false (readMembers method turns) := by
  induction turns with
  | zero => exact .outOfBound
  | succ turns more =>
    refine .isAt fun closes => .isAtEnd (by simpa using .pure) ?_
    cases closes with
    | true => exact .pure
    | false =>
      refine .takeIf ?_ fun word => ?_
      · exact ((methods _).loose.mono (Nat.zero_le 1)).andThen fun first =>
          more.andThen fun _ => .pure
      · exact (methods _).loose.andThen fun first => more.andThen fun _ => .pure

/-- A class spends its name and braces. -/
theorem spends_class (decl : Spends 1 false declaration) (bound : Nat) :
    Spends 0 true (readClass bound declaration) := by
  have members {name : Token} {superclass : Option (Reference Site)}
      {mixins : List (Reference Site)} :
      Spends 0 false (readMemberList bound declaration name superclass mixins) := by
    refine .expect fun opened => ?_
    refine (spends_members (spends_routine decl bound) bound).andThen fun members => ?_
    exact .expect fun closed => .pure
  have mixed {name : Token} {superclass : Option (Reference Site)} : Spends 0 false
      (readMixed bound (readMemberList bound declaration name superclass)) :=
    .takeIf members fun mark => (spends_mixins bound).andThen fun mixins => members
  rw [readClass_eq]
  refine .expectName fun name => .takeIf mixed fun less => ?_
  exact .expectName fun ancestor => .newReference fun ref => mixed

theorem spends_function (decl : Spends 1 false declaration) (bound : Nat) (keyword : Token) :
    Spends 0 true (readFunction bound declaration keyword) := by
  refine .isAt fun named => ?_
  cases named with
  | true => exact (spends_routine decl bound .function).map
  | false => exact spends_expressionStatement (spends_anonymous decl bound keyword)

/-- A declaration that is told by its first token has spent it. -/
theorem spends_declarationForm (expr : Spends 0 true expression) (stmt : Spends 0 true statement)
    (decl : Spends 1 false declaration) (bound : Nat) :
    Spends 0 true (readDeclarationForm bound expression statement declaration) := by
  refine .takeIf stmt fun t => ?_
  dsimp only
  split
  · exact (spends_class decl bound).loose
  · exact (spends_function decl bound t).loose
  · exact (spends_variable expr).loose

/-- A reader that recovers consumes a token if there is one, and does not give up at a fault. -/
theorem ends_recovering_shorter {read : Read (Stmt Site)} (h : Spends 0 true read) {c : Cursor}
    (more : c.rest ≠ []) : Ends (recovering read) c
      (fun _ c' => c'.rest.length < c.rest.length ∧ c'.weight ≤ c.weight)
      (fun e c' => e = .atBound ∧ c'.weight ≤ c.weight + 1) := by
  have before := List.length_pos_iff.mpr more
  rw [recovering, ends_tryCatch]
  refine .of_run (fun s c' run => ?_) fun e c' run => ?_
  · have complaints := ((h.scripted.ends c).ok run).2.2.length_le
    have lighter := (h.weighs c (Nat.zero_le _)).ok run
    simp only [Cursor.weight, Bool.toNat_true] at lighter ⊢
    omega
  · obtain ⟨rest, -, -, -⟩ := (h.scripted.ends c).error run
    obtain ⟨heavier, same⟩ := (h.weighs c (Nat.zero_le _)).error run
    cases e with
    | atBound => exact ⟨rfl, heavier⟩
    | atFault =>
      -- What was complained about is paid for by the token that is skipped, or at the end by one
      -- that was consumed before.
      show (skipFaulty c'.rest).length < c.rest.length ∧
        (skipFaulty c'.rest).length + c'.diagnostics.length ≤ c.weight
      have consumed := rest.length_le
      by_cases ended : c'.rest = []
      · have less := same rfl (by rw [ended]; exact before)
        rw [Cursor.weight, ended, List.length_nil] at less
        rw [ended, skipFaulty, List.length_nil]
        exact ⟨before, less⟩
      · have shorter := skipFaulty_length ended
        simp only [Cursor.weight] at heavier ⊢
        omega

/-- Behind a fault a token is skipped at least, to pay for the complaint. -/
theorem spends_recovering {read : Read (Stmt Site)} (h : Spends 0 true read) :
    Spends 1 false (recovering read) := by
  refine ⟨h.scripted.recovering, fun c enough => ?_⟩
  have more : c.rest ≠ [] := List.length_pos_iff.mp enough
  refine (ends_recovering_shorter h more).mono ?_ ?_
  · rintro _ c' - ⟨-, le⟩
    exact le
  · rintro _ c' ⟨-, le⟩
    exact ⟨le, by simp⟩

end Rules

/-! ## Tying the knot -/

/-- On every level of nesting reading spends tokens, by induction on the bound. -/
theorem spends_all (bound : Nat) :
    Spends 0 true (readExpression bound) ∧ Spends 0 true (readStatement bound) ∧
      Spends 1 false (readDeclaration bound) := by
  induction bound with
  | zero =>
    rw [readExpression, readStatement, readDeclaration]
    exact ⟨.outOfBound, .outOfBound, .outOfBound⟩
  | succ bound ih =>
    obtain ⟨expr, stmt, decl⟩ := ih
    rw [readExpression, readStatement, readDeclaration]
    exact ⟨spends_assignment expr decl bound, spends_statementForm expr stmt decl bound,
      spends_recovering (spends_declarationForm expr stmt decl bound)⟩

/-- A declaration that is entered before the end consumes a token; it gives up only if the bound on
nesting is too small for the tokens left. -/
theorem ends_declaration_shorter (bound : Nat) {c : Cursor} (more : c.rest ≠ []) :
    Ends (readDeclaration bound) c (fun _ c' => c'.rest.length < c.rest.length)
      (fun e _ => e = .atBound ∧ bound < nestingBound c.rest) := by
  cases bound with
  | zero =>
    rw [readDeclaration]
    exact ⟨rfl, Nat.succ_pos _⟩
  | succ bound =>
    obtain ⟨expr, stmt, decl⟩ := spends_all bound
    have form := spends_declarationForm expr stmt decl bound
    have shorter := ends_recovering_shorter form more
    refine .of_run (fun s c' run => ?_) fun e c' run => ?_
    · rw [readDeclaration] at run
      exact (shorter.ok run).1
    · refine ⟨?_, ?_⟩
      · rw [readDeclaration] at run
        exact (shorter.error run).1
      · by_contra enough
        have before := List.length_pos_iff.mpr more
        unfold nestingBound at enough
        have revealed := (@reveals_all true (bound + 1)).2.2 (c.rest.length + 1)
          (by omega) (by omega) c before (Nat.lt_succ_self _)
        have fault := (revealed.error run).1
        rw [readDeclaration] at run
        cases fault.symm.trans (shorter.error run).1

/-- So the declarations of a text cannot add more complaints than there are tokens. -/
theorem spends_declarations {declaration : Read (Stmt Site)} (decl : Spends 1 false declaration)
    (turns : Nat) : Spends 0 false (readDeclarations declaration turns) := by
  induction turns with
  | zero => exact .outOfBound
  | succ turns ih =>
    exact .isAtEnd .pure (decl.andThen fun first => ih.andThen fun others => .pure)

/-- Declarations are read up to the end. -/
theorem ends_declarations_atEnd (declaration : Read (Stmt Site)) (turns : Nat) (c : Cursor) :
    Ends (readDeclarations declaration turns) c (fun _ c' => c'.rest = []) fun _ _ => True := by
  induction turns generalizing c with
  | zero => exact trivial
  | succ turns ih =>
    obtain ⟨tokens, l, n, ds⟩ := c
    cases tokens with
    | nil => exact rfl
    | cons t ts =>
      rw [readDeclarations, ends_bind]
      show Ends (declaration >>= _) _ _ _
      rw [ends_bind]
      refine .of_run (fun first c' _ => ?_) fun _ _ _ => trivial
      rw [ends_bind]
      exact (ih c').mono (fun _ _ _ ended => ended) fun _ _ err => err

/-! ## Whole texts -/

/-- A whole text is read up to its end, and the nesting bound is not spent. -/
theorem program_ends (tokens : List Token) (endLine : Nat) (firstSite : Site) :
    ∃ p c, outcome (readProgram tokens) (.start tokens endLine firstSite) = (.ok p, c) ∧
      c.rest = [] := by
  cases tokens with
  | nil => exact ⟨[], .start [] endLine firstSite, rfl, rfl⟩
  | cons t ts =>
    have enough : ts.length + 2 ≤ nestingBound (t :: ts) - 3 := by
      simp only [nestingBound, List.length_cons]
      omega
    have declared := (@reveals_all true (nestingBound (t :: ts))).2.2 (ts.length + 2) enough
      (by simp only [nestingBound, List.length_cons]; omega)
    have turns : ts.length + 2 ≤ nestingBound (t :: ts) := by omega
    have revealed := reveals_declarations turns declared (.start (t :: ts) endLine firstSite)
      (Nat.zero_le _) (Nat.lt_succ_self _)
    have recovers : ∀ c, Ends (readDeclaration (nestingBound (t :: ts))) c (fun _ _ => True)
        fun e _ => e ≠ .atFault := fun c => ends_recovering _ c
    rcases run : outcome (readProgram (t :: ts)) (.start (t :: ts) endLine firstSite)
      with ⟨e | p, c⟩
    · have goesOn := ends_declarations recovers (nestingBound (t :: ts))
        (.start (t :: ts) endLine firstSite)
      exact absurd (revealed.error run).1 (goesOn.error run)
    · exact ⟨p, c, rfl, (ends_declarations_atEnd _ _ _).ok run⟩

/-- A reader that is told by scripts ends on the stream as it ends on the tokens. -/
theorem Scripted.endsOnStream {α : Type} {read : Read α} (h : Scripted read)
    {tokens : List Token} {eof : Token} (inner : ∀ t ∈ tokens, t.kind ≠ .endOfInput)
    (last : eof.kind = .endOfInput) {c c' : Cursor} {r : Except GaveUp α}
    (run : outcome read c = (r, c')) (rest : c.rest <:+ tokens)
    (line : c.endLine = eof.line) (quiet : tokens = [] → c.diagnostics = c'.diagnostics) :
    EndsOnStream read (c.onStream tokens eof) r (c'.onStream tokens eof) := by
  refine ⟨h, ?_⟩
  rintro script rfl
  rw [onStream_read inner last script c rest line (by rw [run]; exact quiet), run]

/-- Reading a program ends at the end, with a result, and complains at most once for each token;
every declaration that is entered before the end moves the index on.  No move finds the index
outside of the tokens, or asks for the token before it when there is none. -/
theorem reading_advances (tokens : List Token) (eof : Token) (firstSite : Site)
    (inner : ∀ t ∈ tokens, t.kind ≠ .endOfInput) (last : eof.kind = .endOfInput) :
    let reading := Program.ofTokens tokens eof.line firstSite
    EndsOnStream (readProgram tokens) ⟨⟨tokens ++ [eof], 0⟩, firstSite, []⟩ (.ok reading.result)
        ⟨⟨tokens ++ [eof], tokens.length⟩, reading.nextSite, reading.diagnostics⟩ ∧
      (∀ bound index n ds, index < tokens.length → ∃ r index' n' ds',
        EndsOnStream (readDeclaration bound) ⟨⟨tokens ++ [eof], index⟩, n, ds⟩ r
          ⟨⟨tokens ++ [eof], index'⟩, n', ds'⟩ ∧ index' ≤ tokens.length ∧
        match r with
        | .ok _ => index < index'
        | .error e => e = .atBound ∧ bound < nestingBound (tokens.drop index)) ∧
      reading.diagnostics.length ≤ tokens.length := by
  intro reading
  have spends : Spends 0 false (readProgram tokens) :=
    spends_declarations (spends_all (nestingBound tokens)).2.2 (nestingBound tokens)
  obtain ⟨p, c, run, ended⟩ := program_ends tokens eof.line firstSite
  have told : reading = ⟨p, c.diagnostics, c.next, c.nextSite⟩ := by
    show Program.ofTokens tokens eof.line firstSite = _
    rw [ofTokens_eq, run]
    rfl
  refine ⟨?_, fun bound index n ds less => ?_, ?_⟩
  · have quiet (none : tokens = []) : [] = c.diagnostics := by
      subst none
      injection run with _ same
      exact congrArg Cursor.diagnostics same
    have ends := spends.scripted.endsOnStream inner last run (List.suffix_refl _) rfl quiet
    rw [Cursor.onStream, Cursor.onStream, ended, ← List.drop_length (l := tokens),
      TokenStream.before_drop eof (Nat.le_refl _)] at ends
    rw [told]
    exact (TokenStream.before_drop eof (Nat.zero_le _)) ▸ ends
  · have more : tokens.drop index ≠ [] := by simpa using less
    let c : Cursor := ⟨tokens.drop index, eof.line, n, ds⟩
    have shorter := ends_declaration_shorter bound (c := c) more
    rcases run : outcome (readDeclaration bound) c with ⟨r, c'⟩
    have decl := (spends_all bound).2.2.scripted
    have ends := decl.endsOnStream inner last run (List.drop_suffix index tokens) rfl fun none => by
      simp [none] at less
    rw [Cursor.onStream, TokenStream.before_drop eof (Nat.le_of_lt less)] at ends
    refine ⟨r, _, _, _, ends, Nat.sub_le _ _, ?_⟩
    cases r with
    | error e => exact shorter.error run
    | ok s =>
      have fewer : c'.rest.length < (tokens.drop index).length := shorter.ok run
      rw [List.length_drop] at fewer
      show index < tokens.length - c'.rest.length
      omega
  · have lighter := (spends.weighs (.start tokens eof.line firstSite) (Nat.zero_le _)).ok run
    simpa [told, Cursor.weight, ended, Cursor.start] using lighter

/-- A block that is not closed, with a statement in it that is not there: two tokens and two
complaints. -/
def unclosed : List Token := [⟨.leftBrace, "\x7b", .nil, 1⟩, ⟨.printWord, "print", .nil, 1⟩]

theorem reading_advances_unclosed :
    (∀ t ∈ unclosed, t.kind ≠ .endOfInput) ∧ (Token.endOfInput 1).kind = .endOfInput ∧
      EndsOnStream (readProgram unclosed) ⟨⟨unclosed ++ [.endOfInput 1], 0⟩, 0, []⟩ (.ok [.missing])
        ⟨⟨unclosed ++ [.endOfInput 1], 2⟩, 0,
          [⟨1, .atEnd, .grammatical .missingExpression⟩,
            ⟨1, .atEnd, .grammatical (.missingMark .rightBrace .afterBlock)⟩]⟩ :=
  ⟨by decide, rfl, (reading_advances unclosed (.endOfInput 1) 0 (by decide) rfl).1⟩

end LoxLang
