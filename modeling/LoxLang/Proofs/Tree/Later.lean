/-
LoxLang.Proofs.Tree.Later: texts that are read later or stand further down.

The lines of the tokens and the first free site do not matter to a reader.  With other lines and
sites it succeeds and fails as before, complains about the same tokens, and yields the same tree
with other lines and sites.  This holds of every text, with or without faults in it.

* `Cursor.later`: a cursor with other lines and sites.
* `Tracks`: a reader that does the same from there.

Main statement: `ofTokens_later`.
-/
import LoxLang.Proofs.Tree.Complete
import LoxLang.Proofs.Tree.Relabelled

namespace LoxLang

/-- The cursor with its tokens and complaints on other lines and with a later site. -/
def Cursor.later (f : Nat → Nat) (k : Nat) (c : Cursor) : Cursor :=
  ⟨c.rest.map (Token.reline f), f c.endLine, c.nextSite + k,
    c.diagnostics.map (Diagnostic.reline f)⟩

/-! ## Readers -/

section Readers

variable (f : Nat → Nat) (k : Nat) {α α' β β' : Type}

/-- With other lines and sites the second reader does what the first does, and yields what the
function makes of its results. -/
def Tracks (g : α → α') (read : Read α) (read' : Read α') : Prop :=
  Abreast (fun c c' => c' = c.later f k) Eq (fun a a' => a' = g a) read read'

variable {f k} {g : α → α'} {h : β → β'} {read : Read α} {read' : Read α'} {next : α → Read β}
  {next' : α' → Read β'}

namespace Tracks

/-- What is yielded at once is the same thing further down. -/
theorem pure {a : α} {a' : α'} (same : a' = g a) : Tracks f k g (Pure.pure a) (Pure.pure a') :=
  Abreast.pure same

/-- Two steps in a row are tracked if each is, whatever the first one yields. -/
theorem bind (first : Tracks f k g read read') (second : ∀ a, Tracks f k h (next a) (next' (g a))) :
    Tracks f k h (read >>= next) (read' >>= next') := by
  refine Abreast.bind first ?_
  rintro a _ rfl
  exact second a

/-- What is made of a result may be moved before or after it is made. -/
theorem map {j : α → β} {j' : α' → β'} (first : Tracks f k g read read')
    (same : ∀ a, j' (g a) = h (j a)) : Tracks f k h (j <$> read) (j' <$> read') := by
  refine Abreast.map first ?_
  rintro a _ rfl
  exact same a

/-- A result that is there is tracked as one that may be there. -/
theorem some (first : Tracks f k g read read') :
    Tracks f k (Option.map g) (Option.some <$> read) (Option.some <$> read') :=
  first.map fun _ => rfl

end Tracks

/-- The next token is the same one, on its later line. -/
theorem next_later (c : Cursor) : (c.later f k).next = c.next.reline f := by
  obtain ⟨_ | ⟨t, rest⟩, endLine, site, ds⟩ := c <;> rfl

/-- What the next token is does not depend on where the text stands. -/
theorem at_later (c : Cursor) (kind : Kind) : (c.later f k).at kind = c.at kind := by
  obtain ⟨_ | ⟨t, rest⟩, endLine, site, ds⟩ := c <;> rfl

/-- The same tokens are consumed in both texts. -/
theorem tracks_takeIf (accept : Kind → Bool) :
    Tracks f k (Option.map (Token.reline f)) (takeIf accept) (takeIf accept) := by
  refine Abreast.bind .gets ?_
  rintro ⟨_ | ⟨t, rest⟩, endLine, site, ds⟩ _ rfl
  · exact Abreast.pure rfl
  · refine Abreast.ite Iff.rfl (fun _ => ?_) fun _ => Abreast.pure rfl
    rintro c _ rfl
    exact ⟨.ok rfl, rfl⟩

theorem tracks_take (kind : Kind) :
    Tracks f k (Option.map (Token.reline f)) (take? kind) (take? kind) := tracks_takeIf _

/-- To look at the next token changes neither cursor. -/
theorem tracks_isAt (kind : Kind) : Tracks f k id (isAt kind) (isAt kind) := by
  refine Abreast.bind .gets ?_
  rintro c _ rfl
  exact Abreast.pure (at_later c kind)

theorem tracks_isAtEnd : Tracks f k id isAtEnd isAtEnd := by
  refine Abreast.bind .gets ?_
  rintro c _ rfl
  exact Abreast.pure List.isEmpty_map

theorem tracks_outOfBound : Tracks f k g outOfBound outOfBound := Abreast.fails rfl

/-- The complaint is about the token on its later line. -/
theorem tracks_failAt (t : Token) (fault : SyntaxFault) :
    Tracks f k g (failAt t fault) (failAt (t.reline f) fault) := by
  refine Abreast.bind (.modifies ?_) fun _ _ _ => .fails rfl
  rintro c _ rfl
  simp [Cursor.later]

/-- A complaint about the next token moves with it. -/
theorem tracks_fail (fault : SyntaxFault) : Tracks f k g (fail fault) (fail fault) := by
  refine Tracks.bind (g := Token.reline f) ?_ fun t => tracks_failAt t fault
  refine Abreast.bind .gets ?_
  rintro c _ rfl
  exact Abreast.pure (next_later c)

/-- A required token is found in both texts, or complained about in both. -/
theorem tracks_require (kind : Kind) (fault : SyntaxFault) :
    Tracks f k (Token.reline f) (require kind fault) (require kind fault) := by
  refine (tracks_take kind).bind ?_
  rintro (_ | t)
  · exact tracks_fail fault
  · exact .pure rfl

theorem tracks_expect (mark : Mark) (gap : Gap) :
    Tracks f k (Token.reline f) (expect mark gap) (expect mark gap) := tracks_require _ _

theorem tracks_expectName (role : NameRole) :
    Tracks f k (Token.reline f) (expectName role) (expectName role) := tracks_require _ _

/-- A reference gets the site that is so many numbers later. -/
theorem tracks_newReference (t : Token) :
    Tracks f k (Reference.later f k) (newReference t) (newReference (t.reline f)) := by
  refine Abreast.modifyGets ?_
  rintro c _ rfl
  exact ⟨rfl, congrArg (Cursor.mk _ _ · _) (Nat.add_right_comm _ _ _)⟩

/-- Whoever numbers a tree gives numbers that are so many later. -/
theorem tracks_withSites {act : StateM Site α} {act' : StateM Site α'}
    (same : Related (Later k) (fun a a' => a' = g a) act act') :
    Tracks f k g (withSites act) (withSites act') := by
  refine Abreast.modifyGets ?_
  rintro c _ rfl
  obtain ⟨results, sites⟩ := same c.nextSite _ rfl
  exact ⟨results, congrArg (Cursor.mk _ _ · _) sites⟩

/-- Where reading goes on behind a fault is told by the kinds of the tokens. -/
theorem skipFaulty_later (ts : List Token) :
    skipFaulty (ts.map (Token.reline f)) = (skipFaulty ts).map (Token.reline f) := by
  induction ts with
  | nil => rfl
  | cons t ts ih =>
    have ahead : (ts.map (Token.reline f)).head?.any (·.kind.beginsStatement) =
        ts.head?.any (·.kind.beginsStatement) := by
      cases ts <;> rfl
    simp only [List.map_cons, skipFaulty, Token.kind_reline, ahead]
    split
    · rfl
    · exact ih

/-- So a fault leaves both readers in front of the same token. -/
theorem tracks_recovering {read read' : Read (Stmt Site)}
    (reads : Tracks f k (Stmt.later f k) read read') :
    Tracks f k (Stmt.later f k) (recovering read) (recovering read') := by
  refine Abreast.catches reads ?_
  rintro e _ rfl
  cases e with
  | atFault =>
    refine Abreast.bind (.modifies ?_) fun _ _ _ => .pure rfl
    rintro c _ rfl
    simp [Cursor.later, skipFaulty_later]
  | atBound => exact tracks_outOfBound

end Readers

/-! ## Rules -/

section Rules

variable {f : Nat → Nat} {k : Nat} {expression expression' : Read (Expr Site)}
  {statement statement' declaration declaration' : Read (Stmt Site)}

/-- Parameters are read up to the same token, by induction on how many are allowed. -/
theorem tracks_parameters (allowed : Nat) :
    Tracks f k (List.map (Token.reline f)) (readParameters allowed) (readParameters allowed) := by
  induction allowed with
  | zero => exact tracks_fail _
  | succ allowed rest =>
    refine (tracks_expectName _).bind fun name => ?_
    refine (tracks_take _).bind ?_
    rintro (_ | comma)
    · exact .pure rfl
    · exact rest.bind fun rest => .pure rfl

theorem tracks_parameterList :
    Tracks f k (List.map (Token.reline f)) readParameterList readParameterList := by
  refine (tracks_isAt _).bind ?_
  rintro (_ | _)
  · exact tracks_parameters _
  · exact .pure rfl

/-- Each mixin takes a site of its own. -/
theorem tracks_mixins (turns : Nat) :
    Tracks f k (List.map (Reference.later f k)) (readMixins turns) (readMixins turns) := by
  induction turns with
  | zero => exact tracks_outOfBound
  | succ turns rest =>
    refine (tracks_expectName _).bind fun name => ?_
    refine (tracks_newReference name).bind fun ref => ?_
    refine (tracks_take _).bind ?_
    rintro (_ | comma)
    · exact .pure rfl
    · exact rest.bind fun rest => .pure rfl

/-! ### Bodies and routines -/

/-- The declarations of a block, by induction on how many tokens can be left. -/
theorem tracks_blockItems (decl : Tracks f k (Stmt.later f k) declaration declaration')
    (turns : Nat) :
    Tracks f k (Stmt.relabelAll f (· + k)) (readBlockItems declaration turns)
      (readBlockItems declaration' turns) := by
  induction turns with
  | zero => exact tracks_outOfBound
  | succ turns rest =>
    refine (tracks_isAt _).bind fun closes => ?_
    refine tracks_isAtEnd.bind fun ended => ?_
    refine Abreast.ite Iff.rfl (fun _ => Abreast.pure rfl) fun _ => ?_
    refine decl.bind fun first => ?_
    exact rest.bind fun rest => .pure rfl

/-- A block begins and ends at the same braces. -/
theorem tracks_body (decl : Tracks f k (Stmt.later f k) declaration declaration') (bound : Nat) :
    Tracks f k (Stmt.relabelAll f (· + k)) (readBody bound declaration)
      (readBody bound declaration') := by
  refine (tracks_blockItems decl bound).bind fun items => ?_
  exact (tracks_expect _ _).bind fun _ => .pure rfl

/-- A routine without a name keeps the word `fun` on its later line. -/
theorem tracks_anonymous (decl : Tracks f k (Stmt.later f k) declaration declaration')
    (bound : Nat) (keyword : Token) :
    Tracks f k (Expr.later f k) (readAnonymous bound declaration keyword)
      (readAnonymous bound declaration' (keyword.reline f)) := by
  refine (tracks_expect _ _).bind fun _ => ?_
  refine tracks_parameterList.bind fun params => ?_
  refine (tracks_expect _ _).bind fun _ => ?_
  refine (tracks_expect _ _).bind fun _ => ?_
  exact (tracks_body decl bound).bind fun body => .pure rfl

/-- Whether a member is a getter is told by the token behind its name. -/
theorem tracks_routine (decl : Tracks f k (Stmt.later f k) declaration declaration') (bound : Nat)
    (role : RoutineRole) :
    Tracks f k (Routine.later f k) (readRoutine bound declaration role)
      (readRoutine bound declaration' role) := by
  refine (tracks_expectName _).bind fun name => ?_
  have body : ∀ params : Option (List Token), Tracks f k (Routine.later f k) (do
      let _ ← expect .leftBrace (.beforeRoutineBody role)
      return ⟨name, params.getD [], ← readBody bound declaration, params.isNone⟩) (do
      let _ ← expect .leftBrace (.beforeRoutineBody role)
      return ⟨name.reline f, (params.map (List.map (Token.reline f))).getD [],
        ← readBody bound declaration', (params.map (List.map (Token.reline f))).isNone⟩) := by
    intro params
    refine (tracks_expect _ _).bind fun _ => ?_
    refine (tracks_body decl bound).bind fun body => .pure ?_
    cases params <;> rfl
  refine (tracks_take _).bind ?_
  rintro (_ | opened)
  · refine Abreast.ite Iff.rfl (fun _ => ?_) fun _ => body none
    exact Tracks.bind (tracks_fail _) body
  · refine Tracks.bind tracks_parameterList fun params => ?_
    exact (tracks_expect _ _).bind fun _ => body (some params)

/-! ### Expressions -/

/-- Arguments are read up to the same token, by induction on how many are allowed. -/
theorem tracks_arguments (expr : Tracks f k (Expr.later f k) expression expression')
    (allowed : Nat) :
    Tracks f k (Expr.relabelAll f (· + k)) (readArguments expression allowed)
      (readArguments expression' allowed) := by
  induction allowed with
  | zero => exact tracks_fail _
  | succ allowed rest =>
    refine expr.bind fun first => ?_
    refine (tracks_take _).bind ?_
    rintro (_ | comma)
    · exact .pure rfl
    · exact rest.bind fun rest => .pure rfl

/-- There is none if the closing parenthesis comes first, in both texts. -/
theorem tracks_argumentList (expr : Tracks f k (Expr.later f k) expression expression') :
    Tracks f k (Expr.relabelAll f (· + k)) (readArgumentList expression)
      (readArgumentList expression') := by
  refine (tracks_isAt _).bind ?_
  rintro (_ | _)
  · exact tracks_arguments expr _
  · exact .pure rfl

/-- The first token tells the operand, and its kind is the same further down. -/
theorem tracks_primary (expr : Tracks f k (Expr.later f k) expression expression')
    (decl : Tracks f k (Stmt.later f k) declaration declaration') (bound : Nat) :
    Tracks f k (Expr.later f k) (readPrimary bound expression declaration)
      (readPrimary bound expression' declaration') := by
  refine (tracks_takeIf _).bind ?_
  rintro (_ | t)
  · exact tracks_fail _
  · simp only [Option.map_some, Token.kind_reline, Token.literal_reline]
    split
    · exact .pure rfl
    · exact .pure rfl
    · exact .pure rfl
    · refine expr.bind fun inner => ?_
      exact (tracks_expect _ _).bind fun _ => .pure rfl
    · refine (tracks_expect _ _).bind fun _ => ?_
      refine (tracks_expectName _).bind fun method => ?_
      exact (tracks_newReference t).bind fun ref => .pure rfl
    · exact (tracks_newReference t).bind fun ref => .pure rfl
    · exact (tracks_newReference t).bind fun ref => .pure rfl
    · exact tracks_anonymous decl bound t
    · exact .pure rfl

/-- The callee that was read before is moved along with what is made of it. -/
theorem tracks_chain (expr : Tracks f k (Expr.later f k) expression expression') (turns : Nat)
    (e : Expr Site) :
    Tracks f k (Expr.later f k) (readChain expression turns e)
      (readChain expression' turns (e.later f k)) := by
  induction turns generalizing e with
  | zero => exact tracks_outOfBound
  | succ turns rest =>
    refine (tracks_takeIf _).bind ?_
    rintro (_ | t)
    · exact .pure rfl
    · refine Abreast.ite Iff.rfl (fun _ => ?_) fun _ => ?_
      · refine Tracks.bind (tracks_argumentList expr) fun args => ?_
        refine (tracks_expect _ _).bind fun paren => ?_
        exact rest (.call e paren args)
      · refine Tracks.bind (tracks_expectName _) fun name => ?_
        exact rest (.get e name)

/-- Each sign in front of an operand is one step of the induction. -/
theorem tracks_unary {operand operand' : Read (Expr Site)}
    (operands : Tracks f k (Expr.later f k) operand operand') (turns : Nat) :
    Tracks f k (Expr.later f k) (readUnary operand turns) (readUnary operand' turns) := by
  induction turns with
  | zero => exact tracks_outOfBound
  | succ turns rest =>
    refine (tracks_takeIf _).bind ?_
    rintro (_ | op)
    · exact operands
    · exact rest.bind fun right => .pure rfl

/-- To join two operands commutes with moving them. -/
theorem combine_later (level : OperatorLevel) (l r : Expr Site) (op : Token) :
    level.combine (l.later f k) (op.reline f) (r.later f k) = (level.combine l op r).later f k := by
  unfold OperatorLevel.combine
  split <;> rfl

/-- The left operand that was read before is moved along with what is made of it. -/
theorem tracks_operatorTail (level : OperatorLevel) {operand operand' : Read (Expr Site)}
    (operands : Tracks f k (Expr.later f k) operand operand') (turns : Nat) (e : Expr Site) :
    Tracks f k (Expr.later f k) (readOperatorTail level operand turns e)
      (readOperatorTail level operand' turns (e.later f k)) := by
  induction turns generalizing e with
  | zero => exact tracks_outOfBound
  | succ turns rest =>
    refine (tracks_takeIf _).bind ?_
    rintro (_ | op)
    · exact .pure rfl
    · refine operands.bind fun right => ?_
      have tail := rest (level.combine e op right)
      rw [← combine_later] at tail
      exact tail

/-- The operators level by level, from the loosest to the tightest. -/
theorem tracks_operators {operand operand' : Read (Expr Site)}
    (operands : Tracks f k (Expr.later f k) operand operand') (bound : Nat)
    (levels : List OperatorLevel) :
    Tracks f k (Expr.later f k) (readOperators bound operand levels)
      (readOperators bound operand' levels) := by
  induction levels with
  | nil => exact operands
  | cons level levels tighter =>
    exact tighter.bind fun left => tracks_operatorTail level tighter bound left

/-- The target is told by its form, which moving does not change. -/
theorem tracks_assignment (expr : Tracks f k (Expr.later f k) expression expression')
    (decl : Tracks f k (Stmt.later f k) declaration declaration') (bound : Nat) :
    Tracks f k (Expr.later f k) (readAssignment bound expression declaration)
      (readAssignment bound expression' declaration') := by
  have operands : Tracks f k (Expr.later f k)
      (readPrimary bound expression declaration >>= readChain expression bound)
      (readPrimary bound expression' declaration' >>= readChain expression' bound) :=
    (tracks_primary expr decl bound).bind fun e => tracks_chain expr bound e
  refine (tracks_operators (tracks_unary operands bound) bound operatorLevels).bind fun target => ?_
  refine (tracks_take _).bind ?_
  rintro (_ | equals)
  · exact .pure rfl
  · refine expr.bind fun value => ?_
    -- Only a name and a property access are targets, and they stay what they are.
    cases target <;> first | exact .pure rfl | exact tracks_failAt equals _

/-! ### Statements -/

/-- The semicolon behind an expression is required in both texts. -/
theorem tracks_expressionStatement (expr : Tracks f k (Expr.later f k) expression expression') :
    Tracks f k (Stmt.later f k) (readExpressionStatement expression)
      (readExpressionStatement expression') := by
  refine expr.bind fun e => ?_
  exact (tracks_expect _ _).bind fun _ => .pure rfl

/-- A variable has an initial value in both texts or in neither. -/
theorem tracks_variable (expr : Tracks f k (Expr.later f k) expression expression') :
    Tracks f k (Stmt.later f k) (readVariable expression) (readVariable expression') := by
  refine (tracks_expectName _).bind fun name => ?_
  refine (tracks_take _).bind ?_
  rintro (_ | equals)
  · refine Tracks.bind (g := Option.map (Expr.later f k)) (.pure rfl) fun init => ?_
    refine (tracks_expect _ _).bind fun _ => .pure ?_
    cases init <;> rfl
  · refine Tracks.bind (g := Option.map (Expr.later f k)) (expr.map fun _ => rfl) fun init => ?_
    refine (tracks_expect _ _).bind fun _ => .pure ?_
    cases init <;> rfl

theorem tracks_print (expr : Tracks f k (Expr.later f k) expression expression') :
    Tracks f k (Stmt.later f k) (readPrint expression) (readPrint expression') := by
  refine expr.bind fun e => ?_
  exact (tracks_expect _ _).bind fun _ => .pure rfl

/-- An `else` is taken in both texts or in neither. -/
theorem tracks_if (expr : Tracks f k (Expr.later f k) expression expression')
    (stmt : Tracks f k (Stmt.later f k) statement statement') :
    Tracks f k (Stmt.later f k) (readIf expression statement) (readIf expression' statement') := by
  refine (tracks_expect _ _).bind fun _ => ?_
  refine expr.bind fun condition => ?_
  refine (tracks_expect _ _).bind fun _ => ?_
  refine stmt.bind fun thenBranch => ?_
  refine (tracks_take _).bind ?_
  rintro (_ | other)
  · exact .pure rfl
  · exact stmt.bind fun elseBranch => .pure rfl

theorem tracks_while (expr : Tracks f k (Expr.later f k) expression expression')
    (stmt : Tracks f k (Stmt.later f k) statement statement') :
    Tracks f k (Stmt.later f k) (readWhile expression statement)
      (readWhile expression' statement') := by
  refine (tracks_expect _ _).bind fun _ => ?_
  refine expr.bind fun condition => ?_
  refine (tracks_expect _ _).bind fun _ => ?_
  exact stmt.bind fun body => .pure rfl

/-- In front of the mark there is no expression in either text. -/
theorem tracks_unless (mark : Kind) (expr : Tracks f k (Expr.later f k) expression expression') :
    Tracks f k (Option.map (Expr.later f k)) (readUnless mark expression)
      (readUnless mark expression') := by
  refine (tracks_isAt _).bind ?_
  rintro (_ | _)
  · exact expr.map fun _ => rfl
  · exact .pure rfl

/-- The loop that a `for` stands for, with copies of its increment that have later sites. -/
theorem tracks_loop (expr : Tracks f k (Expr.later f k) expression expression')
    (stmt : Tracks f k (Stmt.later f k) statement statement') (init : Option (Stmt Site)) :
    Tracks f k (Stmt.later f k) (readLoop expression statement init)
      (readLoop expression' statement' (init.map (Stmt.later f k))) := by
  refine (tracks_unless _ expr).bind fun condition => ?_
  refine (tracks_expect _ _).bind fun _ => ?_
  refine (tracks_unless _ expr).bind fun increment => ?_
  refine (tracks_expect _ _).bind fun _ => ?_
  refine stmt.bind fun body => ?_
  exact tracks_withSites (related_forLoop f k init condition increment body)

/-- The initializer is told by the first token of the header. -/
theorem tracks_for (expr : Tracks f k (Expr.later f k) expression expression')
    (stmt : Tracks f k (Stmt.later f k) statement statement') :
    Tracks f k (Stmt.later f k) (readFor expression statement)
      (readFor expression' statement') := by
  refine (tracks_expect _ _).bind fun _ => ?_
  show Tracks f k _ (readInitializer expression statement) (readInitializer expression' statement')
  refine (tracks_takeIf _).bind ?_
  rintro (_ | t)
  · have init := (tracks_expressionStatement expr).some
    exact init.bind fun init => tracks_loop expr stmt init
  · refine Abreast.ite Iff.rfl (fun _ => ?_) fun _ => tracks_loop expr stmt none
    exact (tracks_variable expr).some.bind fun init => tracks_loop expr stmt init

/-- A `return` has a value unless a semicolon comes first. -/
theorem tracks_return (expr : Tracks f k (Expr.later f k) expression expression')
    (keyword : Token) :
    Tracks f k (Stmt.later f k) (readReturn expression keyword)
      (readReturn expression' (keyword.reline f)) := by
  refine (tracks_unless _ expr).bind fun value => ?_
  refine (tracks_expect _ _).bind fun _ => .pure ?_
  cases value <;> rfl

theorem tracks_loopExit (keyword : Token) :
    Tracks f k (Stmt.later f k) (readLoopExit keyword) (readLoopExit (keyword.reline f)) :=
  (tracks_expect _ _).bind fun _ => .pure rfl

/-- The first token tells which statement it is, on whichever line. -/
theorem tracks_statementForm (expr : Tracks f k (Expr.later f k) expression expression')
    (stmt : Tracks f k (Stmt.later f k) statement statement')
    (decl : Tracks f k (Stmt.later f k) declaration declaration') (bound : Nat) :
    Tracks f k (Stmt.later f k) (readStatementForm bound expression statement declaration)
      (readStatementForm bound expression' statement' declaration') := by
  refine (tracks_takeIf _).bind ?_
  rintro (_ | t)
  · exact tracks_expressionStatement expr
  · simp only [Option.map_some, Token.kind_reline]
    split
    · exact tracks_if expr stmt
    · exact tracks_print expr
    · exact tracks_while expr stmt
    · exact tracks_for expr stmt
    · exact tracks_return expr t
    · exact (tracks_body decl bound).bind fun body => .pure rfl
    · exact tracks_loopExit t

/-! ### Declarations -/

/-- Methods and static methods are told apart by the word in front of them. -/
theorem tracks_members {method method' : RoutineRole → Read (Routine Site)}
    (methods : ∀ role, Tracks f k (Routine.later f k) (method role) (method' role)) (turns : Nat) :
    Tracks f k (Prod.map (Routine.relabelAll f (· + k)) (Routine.relabelAll f (· + k)))
      (readMembers method turns) (readMembers method' turns) := by
  induction turns with
  | zero => exact tracks_outOfBound
  | succ turns rest =>
    refine (tracks_isAt _).bind fun closes => ?_
    refine tracks_isAtEnd.bind fun ended => ?_
    refine Abreast.ite Iff.rfl (fun _ => Abreast.pure rfl) fun _ => ?_
    refine Tracks.bind (tracks_take _) ?_
    rintro (_ | word)
    · refine (methods _).bind fun first => ?_
      exact rest.bind fun rest => .pure rfl
    · refine (methods _).bind fun first => ?_
      exact rest.bind fun rest => .pure rfl

/-- The parents of a class are read before its members, and numbered so. -/
theorem tracks_class (decl : Tracks f k (Stmt.later f k) declaration declaration') (bound : Nat) :
    Tracks f k (Stmt.later f k) (readClass bound declaration) (readClass bound declaration') := by
  rw [readClass_eq, readClass_eq]
  refine (tracks_expectName _).bind fun name => ?_
  have members : ∀ superclass mixins, Tracks f k (Stmt.later f k)
      (readMemberList bound declaration name superclass mixins)
      (readMemberList bound declaration' (name.reline f) (superclass.map (Reference.later f k))
        (mixins.map (Reference.later f k))) := by
    intro superclass mixins
    refine (tracks_expect _ _).bind fun _ => ?_
    refine (tracks_members (tracks_routine decl bound) bound).bind fun members => ?_
    exact (tracks_expect _ _).bind fun _ => .pure rfl
  have mixed : ∀ superclass, Tracks f k (Stmt.later f k)
      (readMixed bound (readMemberList bound declaration name superclass))
      (readMixed bound (readMemberList bound declaration' (name.reline f)
        (superclass.map (Reference.later f k)))) := by
    intro superclass
    refine (tracks_take _).bind ?_
    rintro (_ | mark)
    · exact members superclass []
    · exact (tracks_mixins bound).bind (members superclass)
  refine (tracks_take _).bind ?_
  rintro (_ | mark)
  · exact mixed none
  · refine Tracks.bind (tracks_expectName _) fun parent => ?_
    exact (tracks_newReference parent).bind fun ref => mixed (some ref)

/-- A name behind `fun` makes a function declaration, a parenthesis an expression. -/
theorem tracks_function (decl : Tracks f k (Stmt.later f k) declaration declaration')
    (bound : Nat) (keyword : Token) :
    Tracks f k (Stmt.later f k) (readFunction bound declaration keyword)
      (readFunction bound declaration' (keyword.reline f)) := by
  refine (tracks_isAt _).bind ?_
  rintro (_ | _)
  · exact tracks_expressionStatement (tracks_anonymous decl bound keyword)
  · exact (tracks_routine decl bound _).bind fun routine => .pure rfl

/-- The first token tells which declaration it is, on whichever line. -/
theorem tracks_declarationForm (expr : Tracks f k (Expr.later f k) expression expression')
    (stmt : Tracks f k (Stmt.later f k) statement statement')
    (decl : Tracks f k (Stmt.later f k) declaration declaration') (bound : Nat) :
    Tracks f k (Stmt.later f k) (readDeclarationForm bound expression statement declaration)
      (readDeclarationForm bound expression' statement' declaration') := by
  refine (tracks_takeIf _).bind ?_
  rintro (_ | t)
  · exact stmt
  · simp only [Option.map_some, Token.kind_reline]
    split
    · exact tracks_class decl bound
    · exact tracks_function decl bound t
    · exact tracks_variable expr

end Rules

/-! ## Whole texts -/

section Texts

variable {f : Nat → Nat} {k : Nat}

mutual

/-- An expression on any level of nesting, by induction on the bound. -/
theorem tracks_expression : ∀ bound,
    Tracks f k (Expr.later f k) (readExpression bound) (readExpression bound)
  | 0 => tracks_outOfBound
  | bound + 1 => tracks_assignment (tracks_expression bound) (tracks_declaration bound) bound

theorem tracks_statement : ∀ bound,
    Tracks f k (Stmt.later f k) (readStatement bound) (readStatement bound)
  | 0 => tracks_outOfBound
  | bound + 1 =>
    tracks_statementForm (tracks_expression bound) (tracks_statement bound)
      (tracks_declaration bound) bound

theorem tracks_declaration : ∀ bound,
    Tracks f k (Stmt.later f k) (readDeclaration bound) (readDeclaration bound)
  | 0 => tracks_outOfBound
  | bound + 1 =>
    tracks_recovering (tracks_declarationForm (tracks_expression bound) (tracks_statement bound)
      (tracks_declaration bound) bound)

end

/-- The declarations of a whole text, by induction on how many tokens can be left. -/
theorem tracks_declarations {declaration declaration' : Read (Stmt Site)}
    (decl : Tracks f k (Stmt.later f k) declaration declaration') (turns : Nat) :
    Tracks f k (Stmt.relabelAll f (· + k)) (readDeclarations declaration turns)
      (readDeclarations declaration' turns) := by
  induction turns with
  | zero => exact tracks_outOfBound
  | succ turns rest =>
    refine tracks_isAtEnd.bind ?_
    rintro (_ | _)
    · refine decl.bind fun first => ?_
      exact rest.bind fun rest => .pure rfl
    · exact .pure rfl

/-- What reading yields, with other lines and sites. -/
def Reading.later (f : Nat → Nat) (k : Nat) (r : Reading Program) : Reading Program :=
  ⟨Stmt.relabelAll f (· + k) r.result, r.diagnostics.map (Diagnostic.reline f), r.next.reline f,
    r.nextSite + k⟩

/-- A text on other lines that is read later yields the same program with other lines and sites, and
the same complaints on other lines. -/
theorem ofTokens_later (f : Nat → Nat) (k : Nat) (tokens : List Token) (endLine : Nat)
    (firstSite : Site) :
    Program.ofTokens (tokens.map (Token.reline f)) (f endLine) (firstSite + k) =
      (Program.ofTokens tokens endLine firstSite).later f k := by
  have bound : nestingBound (tokens.map (Token.reline f)) = nestingBound tokens := by
    simp [nestingBound]
  obtain ⟨result, c, result', c', run, run', ends, rfl⟩ :=
    (tracks_declarations (tracks_declaration (f := f) (k := k) (nestingBound tokens))
      (nestingBound tokens)).ends (s := ⟨tokens, endLine, firstSite, []⟩) rfl
  have run' : (readDeclarations (readDeclaration (nestingBound tokens)) (nestingBound tokens)
    ⟨tokens.map (Token.reline f), f endLine, firstSite + k, []⟩ :
      Except GaveUp Program × Cursor) = _ := run'
  dsimp only [Program.ofTokens, Reading.run, StateT.run, ExceptT.run]
  rw [bound, run, run']
  cases ends with
  | ok same =>
    subst same
    exact congrArg (Reading.mk _ _ · _) (next_later c)
  | error same => exact congrArg (Reading.mk _ _ · _) (next_later c)

end Texts

end LoxLang
