/-
LoxLang.Proofs.Tree.Clauses: reading the tokens up to a semicolon.

A clause ends with its only semicolon and has neither braces nor a `for` in it.  What a reader does
inside of it depends on nothing else: neither on the tokens behind the semicolon, nor on the line on
which the text ends, the complaints made before, or the bound on nesting, if that is large enough.
An expression ends before the semicolon, a statement behind it, and a reader that gives up has not
passed the semicolon.

* `IsClause`: the tokens.
* `Setting`: what lies around a clause.
* `Alike`: two readers do the same in a clause in two settings.

Main statement: `alike_recovering`, for the readers of `alike_declaration`.
-/
import LoxLang.Proofs.Tree.Yields

namespace LoxLang

/-! ## Clauses -/

/-- The tokens that may stand before the semicolon of a clause. -/
def Kind.standsInClause : Kind → Bool
  | .semicolon | .leftBrace | .rightBrace | .forWord => false
  | _ => true

/-- Tokens up to their only semicolon, without braces and `for`, of which only the first may be a
keyword that begins a statement. -/
inductive IsClause : List Token → Prop
  | last {mark : Token} (ends : mark.kind = .semicolon) : IsClause [mark]
  | more {t : Token} {ts : List Token} (stands : t.kind.standsInClause = true)
      (goes : ts.head?.any (·.kind.beginsStatement) = false) (rest : IsClause ts) :
      IsClause (t :: ts)

/-- What is skipped after a fault in a clause ends with the clause. -/
theorem IsClause.skipFaulty {ts : List Token} (clause : IsClause ts) (behind : List Token) :
    LoxLang.skipFaulty (ts ++ behind) = behind := by
  induction clause with
  | last ends => simp [LoxLang.skipFaulty, ends]
  | @more t ts stands goes rest ih =>
    have apart : t.kind ≠ .semicolon := by
      intro same
      rw [same] at stands
      cases stands
    have ahead : (ts ++ behind).head?.any (·.kind.beginsStatement) = false := by
      cases rest <;> exact goes
    rw [List.cons_append, LoxLang.skipFaulty, if_neg, ih]
    rw [ahead]
    simp [apart]

/-! ## Two settings -/

/-- What lies around a clause: the tokens behind it, the line on which the text ends, and the
complaints from before. -/
structure Setting where
  behind : List Token
  endLine : Nat
  complaints : List Diagnostic

namespace Setting

/-- A position in a clause. -/
def cursor (p : Setting) (ts : List Token) (n : Site) : Cursor :=
  ⟨ts ++ p.behind, p.endLine, n, p.complaints⟩

/-- The position behind a fault. -/
def faulty (p : Setting) (ts : List Token) (n : Site) (d : Diagnostic) : Cursor :=
  ⟨ts ++ p.behind, p.endLine, n, p.complaints ++ [d]⟩

end Setting

section Settings

variable (p p' : Setting) {α β : Type}

/-- Two readers succeed with the same result or give up at the same fault; the tokens left are as
told, or begin with the rest of the clause. -/
inductive EndsInClause (leaves : List Token → Prop) (size : Nat) :
    Except GaveUp α × Cursor → Except GaveUp α × Cursor → Prop
  | result (a : α) {us : List Token} (n : Site) (left : leaves us) (le : us.length ≤ size) :
      EndsInClause leaves size (.ok a, p.cursor us n) (.ok a, p'.cursor us n)
  | fault {us : List Token} (n : Site) (d : Diagnostic) (clause : IsClause us) :
      EndsInClause leaves size (.error .atFault, p.faulty us n d)
        (.error .atFault, p'.faulty us n d)

/-- In a clause of fewer tokens than the bound, the readers do the same in both settings. -/
def Alike (k : Nat) (leaves : List Token → Prop) (read read' : Read α) : Prop :=
  ∀ ts n, IsClause ts → ts.length < k →
    EndsInClause p p' leaves ts.length (outcome read (p.cursor ts n))
      (outcome read' (p'.cursor ts n))

/-- Nothing of the clause is left. -/
abbrev Through (ts : List Token) : Prop := ts = []

variable {p p'} {k k' : Nat} {leaves : List Token → Prop} {read read' : Read α}
  {next next' : α → Read β}

/-- Within a smaller size is within a larger one. -/
theorem EndsInClause.mono {size size' : Nat} {x y : Except GaveUp α × Cursor}
    (h : EndsInClause p p' leaves size x y) (le : size ≤ size') :
    EndsInClause p p' leaves size' x y := by
  cases h with
  | result a n left le' => exact .result a n left (Nat.le_trans le' le)
  | fault n d clause => exact .fault n d clause

namespace Alike

/-- Readers that are alike on longer clauses are alike on shorter ones. -/
theorem fewer (h : Alike p p' k leaves read read') (le : k' ≤ k) :
    Alike p p' k' leaves read read' :=
  fun ts n clause few => h ts n clause (Nat.lt_of_lt_of_le few le)

/-- No clause is that short. -/
theorem of_none (h : k = 0) : Alike p p' k leaves read read' := by
  intro ts n clause few
  omega

/-- What is yielded at once is the same, in front of whatever is left. -/
theorem pure {a : α} : Alike p p' k IsClause (Pure.pure a) (Pure.pure a) :=
  fun _ n clause _ => .result a n clause (Nat.le_refl _)

/-- One reader after another inside a clause. -/
theorem bind (first : Alike p p' k IsClause read read')
    (second : ∀ a, Alike p p' k leaves (next a) (next' a)) :
    Alike p p' k leaves (read >>= next) (read' >>= next') := by
  intro ts n clause few
  have ends := first ts n clause few
  unfold outcome at ends ⊢
  rw [run_bind, run_bind]
  revert ends
  generalize (read (p.cursor ts n) : Except GaveUp α × Cursor) = x
  generalize (read' (p'.cursor ts n) : Except GaveUp α × Cursor) = y
  rintro (⟨a, n', clause', le⟩ | ⟨n', d, clause'⟩)
  · exact (second a _ n' clause' (Nat.lt_of_le_of_lt le few)).mono le
  · exact .fault n' d clause'

/-- What follows behind a clause does not look at what lies there. -/
theorem finish (first : Alike p p' k Through read read')
    (second : ∀ a n, ∃ b, Yields (next a) (p.cursor [] n) b (p.cursor [] n) ∧
      Yields (next' a) (p'.cursor [] n) b (p'.cursor [] n)) :
    Alike p p' k Through (read >>= next) (read' >>= next') := by
  intro ts n clause few
  have ends := first ts n clause few
  unfold outcome at ends ⊢
  rw [run_bind, run_bind]
  revert ends
  generalize (read (p.cursor ts n) : Except GaveUp α × Cursor) = x
  generalize (read' (p'.cursor ts n) : Except GaveUp α × Cursor) = y
  rintro (⟨a, n', through, le⟩ | ⟨n', d, clause'⟩)
  · cases through
    obtain ⟨b, run, run'⟩ := second a n'
    unfold Yields outcome at run run'
    dsimp only
    rw [run, run']
    exact .result b n' rfl (Nat.zero_le _)
  · exact .fault n' d clause'

/-- What is made of the same results is the same. -/
theorem map {f : α → β} (h : Alike p p' k leaves read read') :
    Alike p p' k leaves (f <$> read) (f <$> read') := by
  intro ts n clause few
  have ends := h ts n clause few
  rw [map_eq_pure_bind, map_eq_pure_bind]
  unfold outcome at ends ⊢
  rw [run_bind, run_bind]
  revert ends
  generalize (read (p.cursor ts n) : Except GaveUp α × Cursor) = x
  generalize (read' (p'.cursor ts n) : Except GaveUp α × Cursor) = y
  rintro (⟨a, n', left, le⟩ | ⟨n', d, clause'⟩)
  · exact .result (f a) n' left le
  · exact .fault n' d clause'

/-! ### Looking, moving and giving up -/

/-- A token that is no semicolon is consumed in both settings, or left in both. -/
theorem takeIf {accept : Kind → Bool} (apart : accept .semicolon = false)
    {next next' : Option Token → Read β} (without : Alike p p' k leaves (next none) (next' none))
    (with_ : ∀ t : Token, accept t.kind = true → t.kind.standsInClause = true →
      Alike p p' (k - 1) leaves (next (some t)) (next' (some t))) :
    Alike p p' k leaves (LoxLang.takeIf accept >>= next) (LoxLang.takeIf accept >>= next') := by
  intro ts n clause few
  have stays (absent : ∀ q : Setting, NotAt accept (ts ++ q.behind)) :
      EndsInClause p p' leaves ts.length (outcome (LoxLang.takeIf accept >>= next) (p.cursor ts n))
        (outcome (LoxLang.takeIf accept >>= next') (p'.cursor ts n)) := by
    have left (q : Setting) : Yields (LoxLang.takeIf accept) (q.cursor ts n) none (q.cursor ts n) :=
      yields_takeIf_none (absent q)
    rw [(left p).go, (left p').go]
    exact without ts n clause few
  cases clause with
  | last ends =>
    refine stays fun q => ?_
    rintro _ ⟨⟩
    rw [ends, apart]
  | @more t ts stands goes rest =>
    cases fits : accept t.kind with
    | false =>
      refine stays fun q => ?_
      rintro _ ⟨⟩
      exact fits
    | true =>
      have taken (q : Setting) : Yields (LoxLang.takeIf accept) (q.cursor (t :: ts) n) (some t)
          (q.cursor ts n) := yields_takeIf fits
      rw [(taken p).go, (taken p').go]
      rw [List.length_cons] at few
      exact (with_ t fits stands ts n rest (by omega)).mono (Nat.le_succ _)

/-- A complaint about a token of the clause is the same in both. -/
theorem failAt {t : Token} {fault : SyntaxFault} :
    Alike p p' k leaves (LoxLang.failAt t fault : Read α) (LoxLang.failAt t fault) :=
  fun _ n clause _ => .fault n (.onToken t (.grammatical fault)) clause

/-- So is one about the next token, because the clause has not ended. -/
theorem fail {fault : SyntaxFault} :
    Alike p p' k leaves (LoxLang.fail fault : Read α) (LoxLang.fail fault) := by
  intro ts n clause few
  -- The next token is one of the clause, whatever lies behind it.
  obtain ⟨t, us, rfl⟩ : ∃ t us, ts = t :: us := by cases clause <;> exact ⟨_, _, rfl⟩
  exact failAt _ n clause few

theorem failThen {fault : SyntaxFault} :
    Alike p p' k leaves (LoxLang.fail fault >>= next) (LoxLang.fail fault >>= next') := by
  intro ts n clause few
  obtain ⟨t, us, rfl⟩ : ∃ t us, ts = t :: us := by cases clause <;> exact ⟨_, _, rfl⟩
  exact .fault n (.onToken t (.grammatical fault)) clause

/-- What is required stands in the clause, or is missing in both settings. -/
theorem require {kind : Kind} {fault : SyntaxFault} (apart : kind ≠ .semicolon)
    {next next' : Token → Read β}
    (with_ : ∀ t : Token, t.kind = kind → t.kind.standsInClause = true →
      Alike p p' (k - 1) leaves (next t) (next' t)) :
    Alike p p' k leaves (LoxLang.require kind fault >>= next)
      (LoxLang.require kind fault >>= next') := by
  unfold LoxLang.require
  rw [bind_assoc, bind_assoc]
  have passed : (Kind.semicolon == kind) = false := beq_false_of_ne (Ne.symm apart)
  refine .takeIf passed ?_ fun t fits stands => ?_
  · exact failThen
  · rw [pure_bind, pure_bind]
    exact with_ t (beq_iff_eq.mp fits) stands

/-- So it is for an expected mark that is no semicolon. -/
theorem expect {mark : Mark} {gap : Gap} (apart : mark.kind ≠ .semicolon)
    {next next' : Token → Read β}
    (with_ : ∀ t : Token, Alike p p' (k - 1) leaves (next t) (next' t)) :
    Alike p p' k leaves (LoxLang.expect mark gap >>= next) (LoxLang.expect mark gap >>= next') :=
  require apart fun t _ _ => with_ t

/-- And so it is for an expected name. -/
theorem expectName {role : NameRole} {next next' : Token → Read β}
    (with_ : ∀ t : Token, Alike p p' (k - 1) leaves (next t) (next' t)) :
    Alike p p' k leaves (LoxLang.expectName role >>= next) (LoxLang.expectName role >>= next') :=
  require (by decide) fun t _ _ => with_ t

/-- There is no brace in a clause, so what would follow one is never reached. -/
theorem openBrace {gap : Gap} {next next' : Token → Read β} :
    Alike p p' k leaves (LoxLang.expect .leftBrace gap >>= next)
      (LoxLang.expect .leftBrace gap >>= next') := by
  refine require (by decide) fun t kind stands => ?_
  rw [kind] at stands
  cases stands

/-- The semicolon ends the clause. -/
theorem semicolon {gap : Gap} :
    Alike p p' k Through (LoxLang.expect .semicolon gap) (LoxLang.expect .semicolon gap) := by
  intro ts n clause few
  cases clause with
  | @last mark ends =>
    have taken (q : Setting) : Yields (LoxLang.expect .semicolon gap) (q.cursor [mark] n) mark
        (q.cursor [] n) := yields_expect ends
    have run := taken p
    have run' := taken p'
    unfold Yields at run run'
    rw [run, run']
    exact .result mark n rfl (Nat.zero_le _)
  | @more t ts stands goes rest =>
    have apart (q : Setting) : NotAt (· == Mark.kind .semicolon) (t :: (ts ++ q.behind)) := by
      rintro _ ⟨⟩
      refine beq_eq_false_iff_ne.mpr fun same => ?_
      rw [same] at stands
      cases stands
    have failed (q : Setting) : outcome (LoxLang.expect .semicolon gap) (q.cursor (t :: ts) n) =
        outcome (LoxLang.fail (.missingMark .semicolon gap)) (q.cursor (t :: ts) n) :=
      (yields_take_none (apart q)).go
    rw [failed p, failed p']
    exact fail (t :: ts) n (.more stands goes rest) few

/-- Both see the same token. -/
theorem isAt {kind : Kind} {next next' : Bool → Read β}
    (h : ∀ b, Alike p p' k leaves (next b) (next' b)) :
    Alike p p' k leaves (LoxLang.isAt kind >>= next) (LoxLang.isAt kind >>= next') := by
  intro ts n clause few
  have same : (p'.cursor ts n).at kind = (p.cursor ts n).at kind := by cases clause <;> rfl
  show EndsInClause p p' leaves ts.length (outcome (next ((p.cursor ts n).at kind)) (p.cursor ts n))
    (outcome (next' ((p'.cursor ts n).at kind)) (p'.cursor ts n))
  rw [same]
  exact h _ ts n clause few

/-- Both take the same number. -/
theorem newReference {t : Token} {next next' : Reference Site → Read β}
    (h : ∀ ref, Alike p p' k leaves (next ref) (next' ref)) :
    Alike p p' k leaves (LoxLang.newReference t >>= next) (LoxLang.newReference t >>= next') :=
  fun ts n clause few => h ⟨t, n⟩ ts (n + 1) clause few

end Alike

end Settings

/-! ## Rules -/

section Rules

variable {p p' : Setting} {k bound bound' : Nat} {expression expression' : Read (Expr Site)}
  {statement statement' declaration declaration' : Read (Stmt Site)}

/-- Parameters are read within the clause. -/
theorem alike_parameters : ∀ (allowed k : Nat),
    Alike p p' k IsClause (readParameters allowed) (readParameters allowed)
  | 0, _ => .fail
  | allowed + 1, k => by
    refine .expectName fun name => ?_
    refine .takeIf rfl .pure fun comma _ _ => ?_
    exact (alike_parameters allowed _).bind fun names => .pure

theorem alike_parameterList : Alike p p' k IsClause readParameterList readParameterList := by
  refine .isAt fun closes => ?_
  cases closes with
  | true => exact .pure
  | false => exact alike_parameters maxListed k

/-- So are mixins. -/
theorem alike_mixins : ∀ {turns turns' k : Nat}, k ≤ turns → k ≤ turns' →
    Alike p p' k IsClause (readMixins turns) (readMixins turns')
  | 0, _, _, enough, _ => .of_none (Nat.le_zero.mp enough)
  | _, 0, _, _, enough => .of_none (Nat.le_zero.mp enough)
  | turns + 1, turns' + 1, k, enough, enough' => by
    refine .expectName fun name => .newReference fun ref => ?_
    refine .takeIf rfl .pure fun comma _ _ => ?_
    exact (alike_mixins (by omega) (by omega)).bind fun refs => .pure

/-- A routine needs a brace, and there is none. -/
theorem alike_anonymous (keyword : Token) :
    Alike p p' k IsClause (readAnonymous bound declaration keyword)
      (readAnonymous bound' declaration' keyword) := by
  refine .expect (by decide) fun opened => ?_
  refine alike_parameterList.bind fun params => ?_
  refine .expect (by decide) fun closed => ?_
  exact .openBrace

/-- A routine needs a brace, and none stands in a clause. -/
theorem alike_routine {leaves : List Token → Prop} (role : RoutineRole) :
    Alike p p' k leaves (readRoutine bound declaration role)
      (readRoutine bound' declaration' role) := by
  refine .expectName fun name => ?_
  refine .takeIf rfl ?_ fun opened _ _ => ?_
  · dsimp only
    split
    · exact .failThen
    · rw [pure_bind, pure_bind]
      exact .openBrace
  · refine alike_parameterList.bind fun params => ?_
    refine .expect (by decide) fun closed => ?_
    rw [pure_bind, pure_bind]
    exact .openBrace

/-! ### Expressions -/

/-- Arguments are read within the clause, by induction on how many are allowed. -/
theorem alike_arguments (expr : Alike p p' k IsClause expression expression') :
    ∀ allowed, Alike p p' k IsClause (readArguments expression allowed)
      (readArguments expression' allowed) := by
  intro allowed
  induction allowed with
  | zero => exact .fail
  | succ allowed ih =>
    refine expr.bind fun first => ?_
    refine .takeIf rfl .pure fun comma _ _ => ?_
    exact (ih.fewer (Nat.sub_le k 1)).bind fun others => .pure

theorem alike_argumentList (expr : Alike p p' k IsClause expression expression') :
    Alike p p' k IsClause (readArgumentList expression) (readArgumentList expression') := by
  refine .isAt fun closes => ?_
  cases closes with
  | true => exact .pure
  | false => exact alike_arguments expr maxListed

/-- An operand is read within the clause, unless it is a routine. -/
theorem alike_primary (expr : Alike p p' (k - 1) IsClause expression expression') :
    Alike p p' k IsClause (readPrimary bound expression declaration)
      (readPrimary bound' expression' declaration') := by
  refine .takeIf rfl .fail fun t _ _ => ?_
  dsimp only
  split
  · exact .pure
  · exact .pure
  · exact .pure
  · refine expr.bind fun inner => ?_
    exact .expect (by decide) fun closed => .pure
  · refine .expect (by decide) fun dot => ?_
    exact .expectName fun name => .newReference fun ref => .pure
  · exact .newReference fun ref => .pure
  · exact .newReference fun ref => .pure
  · exact alike_anonymous t
  · exact .pure

/-- A chain goes on within the clause. -/
theorem alike_chain : ∀ {turns turns' k : Nat} (e : Expr Site), k ≤ turns → k ≤ turns' →
    Alike p p' (k - 1) IsClause expression expression' →
      Alike p p' k IsClause (readChain expression turns e) (readChain expression' turns' e)
  | 0, _, _, _, enough, _, _ => .of_none (Nat.le_zero.mp enough)
  | _, 0, _, _, _, enough, _ => .of_none (Nat.le_zero.mp enough)
  | turns + 1, turns' + 1, k, e, enough, enough', expr => by
    refine .takeIf rfl .pure fun t _ _ => ?_
    have later {j : Nat} (le : j ≤ k - 1) : Alike p p' (j - 1) IsClause expression expression' :=
      expr.fewer (by omega)
    dsimp only
    split
    · refine (alike_argumentList expr).bind fun args => ?_
      refine .expect (by decide) fun paren => ?_
      exact alike_chain (.call e paren args) (by omega) (by omega) (later (by omega))
    · refine .expectName fun name => ?_
      exact alike_chain (.get e name) (by omega) (by omega) (later (by omega))

/-- Signs in front of an operand stand in the clause. -/
theorem alike_unary {operand operand' : Read (Expr Site)} : ∀ {turns turns' k : Nat}, k ≤ turns →
    k ≤ turns' → Alike p p' k IsClause operand operand' →
      Alike p p' k IsClause (readUnary operand turns) (readUnary operand' turns')
  | 0, _, _, enough, _, _ => .of_none (Nat.le_zero.mp enough)
  | _, 0, _, _, enough, _ => .of_none (Nat.le_zero.mp enough)
  | turns + 1, turns' + 1, k, enough, enough', operands => by
    refine .takeIf rfl operands fun op _ _ => ?_
    exact (alike_unary (by omega) (by omega) (operands.fewer (Nat.sub_le k 1))).bind fun e => .pure

theorem alike_operatorTail {level : OperatorLevel} (known : level ∈ operatorLevels)
    {operand operand' : Read (Expr Site)} : ∀ {turns turns' k : Nat} (e : Expr Site), k ≤ turns →
      k ≤ turns' → Alike p p' k IsClause operand operand' →
        Alike p p' k IsClause (readOperatorTail level operand turns e)
          (readOperatorTail level operand' turns' e)
  | 0, _, _, _, enough, _, _ => .of_none (Nat.le_zero.mp enough)
  | _, 0, _, _, _, enough, _ => .of_none (Nat.le_zero.mp enough)
  | turns + 1, turns' + 1, k, e, enough, enough', operands => by
    have apart : level.kinds.contains .semicolon = false := by
      revert level
      decide
    refine .takeIf apart .pure fun op _ _ => ?_
    have operands' := operands.fewer (Nat.sub_le k 1)
    exact operands'.bind fun right =>
      alike_operatorTail known (level.combine e op right) (by omega) (by omega) operands'

theorem alike_operators {operand operand' : Read (Expr Site)} (enough : k ≤ bound)
    (enough' : k ≤ bound') (operands : Alike p p' k IsClause operand operand') :
    ∀ levels, levels ⊆ operatorLevels →
      Alike p p' k IsClause (readOperators bound operand levels)
        (readOperators bound' operand' levels)
  | [], _ => operands
  | level :: tighter, known => by
    have tight := alike_operators enough enough' operands tighter
      fun _ mem => known (List.mem_cons_of_mem level mem)
    exact tight.bind fun left =>
      alike_operatorTail (known List.mem_cons_self) left enough enough' tight

theorem alike_assignment (enough : k ≤ bound) (enough' : k ≤ bound')
    (expr : Alike p p' (k - 1) IsClause expression expression') :
    Alike p p' k IsClause (readAssignment bound expression declaration)
      (readAssignment bound' expression' declaration') := by
  have operands : Alike p p' k IsClause
      (do readChain expression bound (← readPrimary bound expression declaration))
      (do readChain expression' bound' (← readPrimary bound' expression' declaration')) :=
    (alike_primary expr).bind fun e => alike_chain e enough enough' expr
  have targets := alike_operators enough enough' (alike_unary enough enough' operands)
    operatorLevels (List.Subset.refl _)
  refine targets.bind fun target => ?_
  refine .takeIf rfl .pure fun equals _ _ => ?_
  refine expr.bind fun value => ?_
  split
  · exact .pure
  · exact .pure
  · exact .failAt

theorem alike_expression : ∀ {bound bound' k : Nat}, k < bound → k < bound' →
    Alike p p' k IsClause (readExpression bound) (readExpression bound')
  | bound + 1, bound' + 1, 0, _, _ => .of_none rfl
  | bound + 1, bound' + 1, k + 1, enough, enough' => by
    rw [readExpression, readExpression]
    exact alike_assignment (by omega) (by omega) (alike_expression (by omega) (by omega))

/-! ### Statements -/

theorem alike_expressionStatement (expr : Alike p p' k IsClause expression expression') :
    Alike p p' k Through (readExpressionStatement expression)
      (readExpressionStatement expression') :=
  expr.bind fun _ => Alike.semicolon.finish fun _ _ => ⟨_, rfl, rfl⟩

theorem alike_variable (expr : Alike p p' (k - 1 - 1) IsClause expression expression') :
    Alike p p' k Through (readVariable expression) (readVariable expression') := by
  have ended {j : Nat} (name : Token) (init : Option (Expr Site)) : Alike p p' j Through
      (expect .semicolon .afterVariableDeclaration >>= fun _ => pure (Stmt.var name init))
      (expect .semicolon .afterVariableDeclaration >>= fun _ => pure (Stmt.var name init)) :=
    Alike.semicolon.finish fun _ _ => ⟨_, rfl, rfl⟩
  refine .expectName fun name => ?_
  refine .takeIf rfl ?_ fun equals _ _ => ?_
  · exact ended name none
  · exact (expr.map).bind (ended name)

theorem alike_print (expr : Alike p p' k IsClause expression expression') :
    Alike p p' k Through (readPrint expression) (readPrint expression') :=
  expr.bind fun _ => Alike.semicolon.finish fun _ _ => ⟨_, rfl, rfl⟩

/-- Behind the clause there is no `else` that the conditional could go on with. -/
theorem alike_if (stops : NotAt (· == .elseWord) p.behind)
    (stops' : NotAt (· == .elseWord) p'.behind)
    (expr : Alike p p' (k - 1) IsClause expression expression')
    (stmt : Alike p p' (k - 1 - 1) Through statement statement') :
    Alike p p' k Through (readIf expression statement) (readIf expression' statement') := by
  refine .expect (by decide) fun opened => ?_
  refine expr.bind fun condition => ?_
  refine .expect (by decide) fun closed => ?_
  refine stmt.finish fun thenBranch n => ?_
  exact ⟨_, (yields_take_none stops).bind rfl, (yields_take_none stops').bind rfl⟩

theorem alike_while (expr : Alike p p' (k - 1) IsClause expression expression')
    (stmt : Alike p p' (k - 1 - 1) Through statement statement') :
    Alike p p' k Through (readWhile expression statement) (readWhile expression' statement') := by
  refine .expect (by decide) fun opened => ?_
  refine expr.bind fun condition => ?_
  refine .expect (by decide) fun closed => ?_
  exact stmt.map

theorem alike_return (expr : Alike p p' k IsClause expression expression') (keyword : Token) :
    Alike p p' k Through (readReturn expression keyword) (readReturn expression' keyword) := by
  have value : Alike p p' k IsClause (readUnless .semicolon expression)
      (readUnless .semicolon expression') := by
    refine .isAt fun ended => ?_
    cases ended with
    | true => exact .pure
    | false => exact expr.map
  exact value.bind fun _ => Alike.semicolon.finish fun _ _ => ⟨_, rfl, rfl⟩

theorem alike_loopExit (keyword : Token) :
    Alike p p' k Through (readLoopExit keyword) (readLoopExit keyword) :=
  Alike.semicolon.finish fun _ _ => ⟨_, rfl, rfl⟩

theorem alike_statementForm (stops : NotAt (· == .elseWord) p.behind)
    (stops' : NotAt (· == .elseWord) p'.behind)
    (expr : Alike p p' k IsClause expression expression')
    (stmt : Alike p p' (k - 1) Through statement statement') :
    Alike p p' k Through (readStatementForm bound expression statement declaration)
      (readStatementForm bound' expression' statement' declaration') := by
  refine .takeIf rfl (alike_expressionStatement expr) fun t _ stands => ?_
  have expr' {j : Nat} (le : j ≤ k) := expr.fewer le
  have stmt' {j : Nat} (le : j ≤ k - 1) := stmt.fewer le
  dsimp only
  split
  · exact alike_if stops stops' (expr' (by omega)) (stmt' (by omega))
  · exact alike_print (expr' (by omega))
  · exact alike_while (expr' (by omega)) (stmt' (by omega))
  · rename_i kind
    rw [kind] at stands
    cases stands
  · exact alike_return (expr' (by omega)) t
  · rename_i kind
    rw [kind] at stands
    cases stands
  · exact alike_loopExit t

theorem alike_statement (stops : NotAt (· == .elseWord) p.behind)
    (stops' : NotAt (· == .elseWord) p'.behind) : ∀ {bound bound' k : Nat}, k + 1 < bound →
      k + 1 < bound' → Alike p p' k Through (readStatement bound) (readStatement bound')
  | bound + 1, bound' + 1, 0, _, _ => .of_none rfl
  | bound + 1, bound' + 1, k + 1, enough, enough' => by
    rw [readStatement, readStatement]
    exact alike_statementForm stops stops' (alike_expression (by omega) (by omega))
      (alike_statement stops stops' (by omega) (by omega))

/-! ### Declarations -/

/-- A class needs a brace, and there is none. -/
theorem alike_class (enough : k ≤ bound) (enough' : k ≤ bound') :
    Alike p p' k Through (readClass bound declaration) (readClass bound' declaration') := by
  rw [readClass_eq, readClass_eq]
  have mixed {j : Nat} (le : j ≤ k) (name : Token) (superclass : Option (Reference Site)) :
      Alike p p' j Through (readMixed bound (readMemberList bound declaration name superclass))
        (readMixed bound' (readMemberList bound' declaration' name superclass)) := by
    refine .takeIf rfl .openBrace fun mark _ _ => ?_
    exact (alike_mixins (by omega) (by omega)).bind fun mixins => .openBrace
  refine .expectName fun name => ?_
  refine .takeIf rfl (mixed (by omega) name none) fun less _ _ => ?_
  refine .expectName fun parent => .newReference fun ref => ?_
  exact mixed (by omega) name (some ref)

theorem alike_function (keyword : Token) :
    Alike p p' k Through (readFunction bound declaration keyword)
      (readFunction bound' declaration' keyword) := by
  refine .isAt fun named => ?_
  cases named with
  | true => exact (alike_routine .function).map
  | false => exact alike_expressionStatement (alike_anonymous keyword)

theorem alike_declarationForm (enough : k - 1 ≤ bound) (enough' : k - 1 ≤ bound')
    (expr : Alike p p' k IsClause expression expression')
    (stmt : Alike p p' k Through statement statement') :
    Alike p p' k Through (readDeclarationForm bound expression statement declaration)
      (readDeclarationForm bound' expression' statement' declaration') := by
  refine .takeIf rfl stmt fun t _ _ => ?_
  dsimp only
  split
  · exact alike_class enough enough'
  · exact alike_function t
  · exact alike_variable (expr.fewer (by omega))

/-- What is read of a clause, with a recovery if there is a fault in it: the whole clause, and at
most one complaint is made, then about a statement that is missing. -/
theorem alike_recovering {read read' : Read (Stmt Site)} (h : Alike p p' k Through read read')
    {ts : List Token} (clause : IsClause ts) (few : ts.length < k) (n : Site) :
    ∃ s n' new, (new = none ∨ s = .missing) ∧
      Yields (recovering read) (p.cursor ts n) s
        ⟨p.behind, p.endLine, n', p.complaints ++ new.toList⟩ ∧
      Yields (recovering read') (p'.cursor ts n) s
        ⟨p'.behind, p'.endLine, n', p'.complaints ++ new.toList⟩ := by
  have ends := h ts n clause few
  unfold outcome at ends
  unfold Yields outcome recovering
  rw [run_tryCatch, run_tryCatch]
  revert ends
  generalize (read (p.cursor ts n) : Except GaveUp (Stmt Site) × Cursor) = x
  generalize (read' (p'.cursor ts n) : Except GaveUp (Stmt Site) × Cursor) = y
  rintro (⟨s, n', through, le⟩ | ⟨n', d, clause'⟩)
  · cases through
    refine ⟨s, n', none, .inl rfl, ?_, ?_⟩ <;> simp [Setting.cursor]
  · have skipped (q : Setting) {us : List Token} (rest : IsClause us) :
        (do
          modify fun c => { c with rest := skipFaulty c.rest }
          return .missing : Read (Stmt Site))
          (q.faulty us n' d) = ((.ok .missing, ⟨q.behind, q.endLine, n', q.complaints ++ [d]⟩) :
            Except GaveUp (Stmt Site) × Cursor) := by
      show (_, Cursor.mk (skipFaulty (us ++ q.behind)) _ _ _) = _
      rw [rest.skipFaulty]
      rfl
    exact ⟨.missing, n', some d, .inr rfl, skipped p clause', skipped p' clause'⟩

/-- A clause is read as a declaration in the same way in both settings. -/
theorem alike_declaration (p p' : Setting) (stops : NotAt (· == .elseWord) p.behind)
    (stops' : NotAt (· == .elseWord) p'.behind) {ts : List Token} (clause : IsClause ts)
    (enough : ts.length + 3 < bound) (enough' : ts.length + 3 < bound') (n : Site) :
    ∃ s n' new, (new = none ∨ s = .missing) ∧
      Yields (readDeclaration bound) (p.cursor ts n) s
        ⟨p.behind, p.endLine, n', p.complaints ++ new.toList⟩ ∧
      Yields (readDeclaration bound') (p'.cursor ts n) s
        ⟨p'.behind, p'.endLine, n', p'.complaints ++ new.toList⟩ := by
  obtain ⟨bound, rfl⟩ : ∃ m, bound = m + 1 := ⟨bound - 1, by omega⟩
  obtain ⟨bound', rfl⟩ : ∃ m, bound' = m + 1 := ⟨bound' - 1, by omega⟩
  rw [readDeclaration, readDeclaration]
  refine alike_recovering ?_ clause (Nat.lt_succ_self _) n
  exact alike_declarationForm (by omega) (by omega) (alike_expression (by omega) (by omega))
    (alike_statement stops stops' (by omega) (by omega))

end Rules

end LoxLang
