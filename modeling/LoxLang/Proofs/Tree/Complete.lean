/-
LoxLang.Proofs.Tree.Complete: every phrase of the grammar is read back.

The tokens of a phrase are read as the tree that the phrase denotes, without a complaint, and
nothing behind them is consumed.  For that the token behind the phrase must not go on with it, and
the bound on nesting must be large enough: between two levels of nesting of the same sort there is a
token.

* `Phrase.IsRead`: what reading a phrase comes to.
* `Phrase.IsReadBack`: it comes to that under every bound, whatever is behind the phrase.

Main statement: `Derives.isRead`, put together from one statement for each rule of the grammar.
-/
import LoxLang.Proofs.Tree.Yields
import Mathlib.Data.List.Infix

namespace LoxLang

/-! ## What goes on with a phrase -/

/-- The tokens that go on with an operand. -/
def continuesCall (k : Kind) : Bool := k == .leftParen || k == .dot

/-- The operators of some levels. -/
def continuesOperators (levels : List OperatorLevel) (k : Kind) : Bool :=
  levels.any fun level => level.kinds.contains k

/-- The tokens that go on with an expression. -/
def continuesExpression (k : Kind) : Bool :=
  continuesCall k || continuesOperators operatorLevels k || k == .equal

/-- An operator goes on neither with an operand nor with operators of a tighter level. -/
theorem continues_operator {level : OperatorLevel} {levels : List OperatorLevel} {i : Nat}
    (known : LevelsUpTo (i + 1) (level :: levels)) {k : Kind} (h : k ∈ level.kinds) :
    continuesCall k = false ∧ continuesOperators levels k = false := by
  constructor
  · obtain ⟨j, -, operator⟩ := known.operator_le List.mem_cons_self h
    cases k <;> first | rfl | cases operator
  · rw [continuesOperators, List.any_eq_false]
    intro tighter mem
    simpa using known.notMem_tighter h tighter mem

/-- The reader of operands with their calls and property accesses. -/
def readOperand (bound : Nat) : Read (Expr Site) := do
  readChain (readExpression bound) bound
    (← readPrimary bound (readExpression bound) (readDeclaration bound))

/-- The reader of operands under prefix operators. -/
def readPrefixed (bound : Nat) : Read (Expr Site) := readUnary (readOperand bound) bound

/-- What reading a phrase from its tokens, with others behind them, comes to.  The bound is that of
the readers for expressions, statements and declarations in the phrase. -/
def Phrase.IsRead (bound : Nat) (n : Site) (ts : List Token) (n' : Site) (rest : List Token)
    (l : Nat) (ds : List Diagnostic) : Phrase → Prop
  | primary e => 3 * ts.length ≤ bound →
    Yields (readPrimary bound (readExpression bound) (readDeclaration bound))
      ⟨ts ++ rest, l, n, ds⟩ e ⟨rest, l, n', ds⟩
  | call e => 3 * ts.length ≤ bound →
    ∃ k < ts.length, outcome (readOperand bound) ⟨ts ++ rest, l, n, ds⟩ =
      outcome (readChain (readExpression bound) (bound - k) e) ⟨rest, l, n', ds⟩
  | arguments es => 3 * ts.length < bound → (∃ t ∈ rest.head?, t.kind = .rightParen) →
    ∀ allowed, es.length ≤ allowed →
      Yields (readArguments (readExpression bound) allowed) ⟨ts ++ rest, l, n, ds⟩ es
        ⟨rest, l, n', ds⟩
  | argumentList es => 3 * ts.length < bound → (∃ t ∈ rest.head?, t.kind = .rightParen) →
    Yields (readArgumentList (readExpression bound)) ⟨ts ++ rest, l, n, ds⟩ es ⟨rest, l, n', ds⟩
  | unary e => 3 * ts.length ≤ bound → NotAt continuesCall rest → ∀ turns, ts.length ≤ turns →
    Yields (readUnary (readOperand bound) turns) ⟨ts ++ rest, l, n, ds⟩ e ⟨rest, l, n', ds⟩
  | operators 0 e => 3 * ts.length ≤ bound → NotAt continuesCall rest →
    Yields (readPrefixed bound) ⟨ts ++ rest, l, n, ds⟩ e ⟨rest, l, n', ds⟩
  | operators (i + 1) e => ∀ level levels, LevelsUpTo (i + 1) (level :: levels) →
    3 * ts.length ≤ bound → NotAt continuesCall rest → NotAt (continuesOperators levels) rest →
      ∃ k < ts.length,
        outcome (readOperators bound (readPrefixed bound) (level :: levels))
            ⟨ts ++ rest, l, n, ds⟩ =
          outcome (readOperatorTail level (readOperators bound (readPrefixed bound) levels)
            (bound - k) e) ⟨rest, l, n', ds⟩
  | expression e => 3 * ts.length < bound → NotAt continuesExpression rest →
    Yields (readExpression bound) ⟨ts ++ rest, l, n, ds⟩ e ⟨rest, l, n', ds⟩
  | optional e => 3 * ts.length < bound → ∀ mark, mark = .semicolon ∨ mark = .rightParen →
    (∃ t ∈ rest.head?, t.kind = mark) →
      Yields (readUnless mark (readExpression bound)) ⟨ts ++ rest, l, n, ds⟩ e ⟨rest, l, n', ds⟩
  | block ss => 3 * ts.length ≤ bound →
    ∃ opened us, ts = opened :: us ∧ opened.kind = .leftBrace ∧
      Yields (readBody bound (readDeclaration bound)) ⟨us ++ rest, l, n, ds⟩ ss ⟨rest, l, n', ds⟩
  | routine params body => 3 * ts.length ≤ bound →
    (∀ word, Yields (readAnonymous bound (readDeclaration bound) word) ⟨ts ++ rest, l, n, ds⟩
      (.function word params body) ⟨rest, l, n', ds⟩) ∧
    ∀ role name, name.kind = .identifier →
      Yields (readRoutine bound (readDeclaration bound) role) ⟨name :: (ts ++ rest), l, n, ds⟩
        ⟨name, params, body, false⟩ ⟨rest, l, n', ds⟩
  | method r => 3 * ts.length ≤ bound → ∀ role ≠ .function,
    Yields (readRoutine bound (readDeclaration bound) role) ⟨ts ++ rest, l, n, ds⟩ r
      ⟨rest, l, n', ds⟩
  | members methods statics => 3 * ts.length ≤ bound →
    (∃ t ∈ rest.head?, t.kind = .rightBrace) → ∀ turns, ts.length < turns →
      Yields (readMembers (readRoutine bound (readDeclaration bound)) turns) ⟨ts ++ rest, l, n, ds⟩
        (methods, statics) ⟨rest, l, n', ds⟩
  | newVariable s => 3 * ts.length < bound →
    ∃ word us, ts = word :: us ∧ word.kind = .varWord ∧
      Yields (readVariable (readExpression bound)) ⟨us ++ rest, l, n, ds⟩ s ⟨rest, l, n', ds⟩
  | initializer s => 3 * ts.length < bound → ∀ statement : Read (Stmt Site),
    outcome (readInitializer (readExpression bound) statement) ⟨ts ++ rest, l, n, ds⟩ =
      outcome (readLoop (readExpression bound) statement s) ⟨rest, l, n', ds⟩
  | statement isOpen s => 3 * ts.length + 1 < bound →
    (isOpen = true → NotAt (· == .elseWord) rest) →
    Yields (readStatement bound) ⟨ts ++ rest, l, n, ds⟩ s ⟨rest, l, n', ds⟩
  | declaration s => 3 * ts.length + 2 < bound → NotAt (· == .elseWord) rest →
    Yields (readDeclaration bound) ⟨ts ++ rest, l, n, ds⟩ s ⟨rest, l, n', ds⟩
  | declarations ss => 3 * ts.length + 2 < bound →
    ((∃ t ∈ rest.head?, t.kind = .rightBrace) → ∀ turns, ts.length < turns →
      Yields (readBlockItems (readDeclaration bound) turns) ⟨ts ++ rest, l, n, ds⟩ ss
        ⟨rest, l, n', ds⟩) ∧
    (rest = [] → ∀ turns, ts.length < turns →
      Yields (readDeclarations (readDeclaration bound) turns) ⟨ts ++ rest, l, n, ds⟩ ss
        ⟨rest, l, n', ds⟩)

/-- Reading the phrase comes to what it denotes, under every bound and with anything behind it. -/
def Phrase.IsReadBack (φ : Phrase) (n : Site) (ts : List Token) (n' : Site) : Prop :=
  ∀ bound rest l ds, φ.IsRead bound n ts n' rest l ds

/-! ## Marks behind a phrase -/

section Marks

variable {t : Token} {ts rest : List Token} {n n' : Site}

/-- A semicolon goes on with no expression, and so ends the one before it. -/
theorem stops_semicolon (h : t.kind = .semicolon) : NotAt continuesExpression (t :: rest) := by
  rintro _ ⟨⟩
  rw [h]
  rfl

/-- Neither does a closing parenthesis. -/
theorem stops_rightParen (h : t.kind = .rightParen) : NotAt continuesExpression (t :: rest) := by
  rintro _ ⟨⟩
  rw [h]
  rfl

theorem stops_comma (h : t.kind = .comma) : NotAt continuesExpression (t :: rest) := by
  rintro _ ⟨⟩
  rw [h]
  rfl

/-- In front of a mark there is none of the tokens that the mark is not among. -/
theorem NotAt.of_mark {p : Kind → Bool} {mark : Kind} (next : ∃ t ∈ rest.head?, t.kind = mark)
    (apart : p mark = false) : NotAt p rest := by
  obtain ⟨t, at_, kind⟩ := next
  intro t' at'
  rw [Option.mem_unique at' at_, kind]
  exact apart

/-- An `else` does not come after a row of declarations, unless it comes behind them. -/
theorem Derives.not_else {ss : List (Stmt Site)} (h : Derives (.declarations ss) n ts n')
    (stops : NotAt (· == .elseWord) rest) : NotAt (· == .elseWord) (ts ++ rest) := by
  cases ss with
  | nil =>
    obtain ⟨rfl, _⟩ := h.of_isEmpty rfl
    exact stops
  | cons s ss =>
    refine .of_beginsWith ((h.begins rfl).append rest) fun k has => ?_
    cases k <;> first | rfl | cases has

end Marks

/-! ## Operands and operators -/

section Operands

variable {bound l : Nat} {n n' : Site} {ts rest : List Token} {ds : List Diagnostic} {e : Expr Site}

/-- An operand by itself is a chain of calls and properties with no link. -/
theorem isRead_operand (h : (Phrase.primary e).IsReadBack n ts n') (nonempty : 0 < ts.length) :
    (Phrase.call e).IsReadBack n ts n' := by
  intro bound rest l ds size
  exact ⟨0, nonempty, (h bound rest l ds size).go⟩

/-- The rest of an operand is not read before it is there. -/
theorem isRead_property {dot name : Token} (h : (Phrase.call e).IsReadBack n ts n')
    (hd : dot.kind = .dot) (hn : name.kind = .identifier) :
    (Phrase.call (.get e name)).IsReadBack n (ts ++ [dot, name]) n' := by
  intro bound rest l ds size
  rw [List.length_append, List.length_cons, List.length_singleton] at size ⊢
  obtain ⟨k, lt, run⟩ := h bound (dot :: name :: rest) l ds (by omega)
  refine ⟨k + 1, by omega, ?_⟩
  rw [List.append_assoc, List.cons_append, List.cons_append, List.nil_append, run]
  obtain ⟨turns, left⟩ : ∃ turns, bound - k = turns + 1 := ⟨bound - k - 1, by omega⟩
  have left' : bound - (k + 1) = turns := by omega
  rw [left, left', readChain]
  refine (yields_takeIf (by rw [hd]; rfl)).go.trans ?_
  dsimp only
  rw [if_neg (by rw [hd]; exact nofun)]
  exact (yields_expectName hn).go

/-- What begins an operand is no sign of a unary operator. -/
theorem isRead_unprefixed (h : (Phrase.call e).IsReadBack n ts n')
    (begins : BeginsWith beginsOperand ts) : (Phrase.unary e).IsReadBack n ts n' := by
  intro bound rest l ds size stops turns enough
  obtain ⟨k, lt, run⟩ := h bound rest l ds size
  obtain ⟨turns, rfl⟩ : ∃ m, turns = m + 1 := ⟨turns - 1, by omega⟩
  obtain ⟨left, more⟩ : ∃ left, bound - k = left + 1 := ⟨bound - k - 1, by omega⟩
  have unprefixed : NotAt (fun k => k == .bang || k == .minus) (ts ++ rest) :=
    .of_beginsWith (begins.append rest) fun k operand => by
      cases k <;> first | rfl | cases operand
  rw [readUnary]
  refine (yields_takeIf_none unprefixed).bind (run.trans ?_)
  rw [more, readChain]
  exact (yields_takeIf_none stops).bind rfl

/-- The operand of a unary operator is a phrase of the tightest level. -/
theorem isRead_tightest (h : (Phrase.unary e).IsReadBack n ts n') :
    (Phrase.operators 0 e).IsReadBack n ts n' := by
  intro bound rest l ds size stops
  exact h bound rest l ds size stops bound (by omega)

/-- Operators that nothing goes on with. -/
theorem yields_operators {levels : List OperatorLevel} {i : Nat} (known : LevelsUpTo i levels)
    (h : (Phrase.operators i e).IsReadBack n ts n') (size : 3 * ts.length ≤ bound)
    (stops : NotAt continuesCall rest) (stops' : NotAt (continuesOperators levels) rest) :
    Yields (readOperators bound (readPrefixed bound) levels) ⟨ts ++ rest, l, n, ds⟩ e
      ⟨rest, l, n', ds⟩ := by
  cases known with
  | none => exact h bound rest l ds size stops
  | @one i level levels loosest tightest =>
    have looser : NotAt level.kinds.contains rest := stops'.mono fun k has => by
      rw [continuesOperators, List.any_cons, has, Bool.true_or]
    have tighter : NotAt (continuesOperators levels) rest := stops'.mono fun k has => by
      rw [continuesOperators, List.any_cons, Bool.or_eq_true]
      exact .inr has
    obtain ⟨k, lt, run⟩ := h bound rest l ds level levels (.one loosest tightest) size stops tighter
    obtain ⟨left, more⟩ : ∃ left, bound - k = left + 1 := ⟨bound - k - 1, by omega⟩
    refine run.trans ?_
    rw [more, readOperatorTail]
    exact (yields_takeIf_none looser).bind rfl

/-- A phrase of a level is one of the next looser level, unless an operator of that follows. -/
theorem isRead_tighter {i : Nat} (h : (Phrase.operators i e).IsReadBack n ts n')
    (nonempty : 0 < ts.length) : (Phrase.operators (i + 1) e).IsReadBack n ts n' := by
  intro bound rest l ds level levels known size stops stops'
  obtain _ | ⟨_, tighter⟩ := known
  exact ⟨0, nonempty, (yields_operators tighter h size stops stops').go⟩

/-- An operand alone is an expression of all operators. -/
theorem isRead_target (h : (Phrase.call e).IsReadBack n ts n')
    (begins : BeginsWith beginsOperand ts) (i : Nat) :
    (Phrase.operators i e).IsReadBack n ts n' := by
  induction i with
  | zero => exact isRead_tightest (isRead_unprefixed h begins)
  | succ i ih => exact isRead_tighter ih begins.length_pos

/-- An assignment is read from its target on. -/
theorem yields_target {equals : Token} (h : (Phrase.call e).IsReadBack n ts n')
    (begins : BeginsWith beginsOperand ts) (size : 3 * ts.length ≤ bound)
    (h' : equals.kind = .equal) (rest : List Token) :
    Yields (readOperators bound (readPrefixed bound) operatorLevels)
      ⟨ts ++ equals :: rest, l, n, ds⟩ e ⟨equals :: rest, l, n', ds⟩ := by
  refine yields_operators levelsUpTo_operatorLevels (isRead_target h begins 6) size ?_ ?_
  · rintro _ ⟨⟩
    rw [h']
    rfl
  · rintro _ ⟨⟩
    rw [h']
    rfl

end Operands

/-! ## Rules for operands -/

section Primary

variable {word dot name opened closed t : Token} {e : Expr Site} {v : Literal} {n n' : Site}
  {ts params : List Token} {body : List (Stmt Site)}

/-- A literal is read by its own token. -/
theorem isRead_literal (h : t.literal? = some v) :
    (Phrase.primary (.literal v)).IsReadBack n [t] n := by
  intro bound rest l ds _
  refine (yields_takeIf (begins_literal h)).bind ?_
  unfold Token.literal? at h
  split at h <;> rename_i kind <;> simp only [kind] <;> cases h <;> rfl

/-- The closing parenthesis ends what is read inside. -/
theorem isRead_grouping (h : opened.kind = .leftParen)
    (inner : (Phrase.expression e).IsReadBack n ts n') (h' : closed.kind = .rightParen) :
    (Phrase.primary (.grouping e)).IsReadBack n (opened :: (ts ++ [closed])) n' := by
  intro bound rest l ds size
  simp only [List.length_cons, List.length_append, List.length_nil] at size
  rw [List.cons_append, List.append_assoc]
  refine (yields_takeIf (by rw [h]; rfl)).bind ?_
  simp only [h]
  refine (inner bound _ l ds (by omega) (stops_rightParen h')).bind ?_
  exact (yields_expect h').bind rfl

/-- The number of the reference is taken before the name is read. -/
theorem isRead_super (h : word.kind = .superWord) (h' : dot.kind = .dot)
    (h'' : name.kind = .identifier) :
    (Phrase.primary (.super ⟨word, n⟩ name)).IsReadBack n [word, dot, name] (n + 1) := by
  intro bound rest l ds _
  refine (yields_takeIf (by rw [h]; rfl)).bind ?_
  simp only [h]
  refine (yields_expect h').bind ?_
  refine (yields_expectName h'').bind ?_
  exact yields_newReference.bind rfl

theorem isRead_this (h : word.kind = .thisWord) :
    (Phrase.primary (.this ⟨word, n⟩)).IsReadBack n [word] (n + 1) := by
  intro bound rest l ds _
  refine (yields_takeIf (by rw [h]; rfl)).bind ?_
  simp only [h]
  exact yields_newReference.bind rfl

/-- A name takes the next number. -/
theorem isRead_name (h : t.kind = .identifier) :
    (Phrase.primary (.variable ⟨t, n⟩)).IsReadBack n [t] (n + 1) := by
  intro bound rest l ds _
  refine (yields_takeIf (by rw [h]; rfl)).bind ?_
  simp only [h]
  exact yields_newReference.bind rfl

/-- After the word `fun` a routine is read as an operand. -/
theorem isRead_anonymous (h : word.kind = .funWord)
    (routine : (Phrase.routine params body).IsReadBack n ts n') :
    (Phrase.primary (.function word params body)).IsReadBack n (word :: ts) n' := by
  intro bound rest l ds size
  rw [List.length_cons] at size
  refine (yields_takeIf (by rw [h]; rfl)).bind ?_
  simp only [h]
  exact (routine bound rest l ds (by omega)).1 _

end Primary

/-! ## Rules for calls -/

section Calls

variable {opened closed comma : Token} {e f : Expr Site} {es args : List (Expr Site)}
  {n n' n'' : Site} {ts us : List Token}

/-- A call goes on with the chain in front of it and keeps its closing parenthesis. -/
theorem isRead_called (callee : (Phrase.call f).IsReadBack n ts n') (h : opened.kind = .leftParen)
    (list : (Phrase.argumentList args).IsReadBack n' us n'') (h' : closed.kind = .rightParen) :
    (Phrase.call (.call f closed args)).IsReadBack n (ts ++ opened :: (us ++ [closed])) n'' := by
  intro bound rest l ds size
  simp only [List.length_cons, List.length_append, List.length_nil] at size ⊢
  obtain ⟨k, lt, run⟩ := callee bound (opened :: (us ++ closed :: rest)) l ds (by omega)
  refine ⟨k + 1, by omega, ?_⟩
  simp only [List.append_assoc, List.cons_append, List.nil_append]
  rw [run]
  obtain ⟨turns, left⟩ : ∃ turns, bound - k = turns + 1 := ⟨bound - k - 1, by omega⟩
  have left' : bound - (k + 1) = turns := by omega
  rw [left, left', readChain]
  refine (yields_takeIf (by rw [h]; rfl)).go.trans ?_
  dsimp only
  rw [if_pos h]
  refine (list bound _ l ds (by omega) ⟨closed, rfl, h'⟩).go.trans ?_
  exact (yields_expect h').go

/-- The last argument is not followed by a comma. -/
theorem isRead_lastArgument (last : (Phrase.expression e).IsReadBack n ts n') :
    (Phrase.arguments [e]).IsReadBack n ts n' := by
  intro bound rest l ds size closes allowed enough
  obtain ⟨allowed, rfl⟩ : ∃ m, allowed = m + 1 := ⟨allowed - 1, by simp at enough; omega⟩
  refine (last bound rest l ds size (.of_mark closes rfl)).bind ?_
  exact (yields_take_none (.of_mark closes rfl)).bind rfl

/-- The comma ends an argument and leads to the others. -/
theorem isRead_moreArguments (first : (Phrase.expression e).IsReadBack n ts n')
    (h : comma.kind = .comma) (others : (Phrase.arguments es).IsReadBack n' us n'') :
    (Phrase.arguments (e :: es)).IsReadBack n (ts ++ comma :: us) n'' := by
  intro bound rest l ds size closes allowed enough
  obtain ⟨allowed, rfl⟩ : ∃ m, allowed = m + 1 := ⟨allowed - 1, by simp at enough; omega⟩
  simp only [List.length_cons, List.length_append] at size enough
  simp only [List.append_assoc, List.cons_append]
  refine (first bound _ l ds (by omega) (stops_comma h)).bind ?_
  refine (yields_take h).bind ?_
  exact (others bound rest l ds (by omega) closes allowed (by omega)).bind rfl

/-- In front of the closing parenthesis there is no argument. -/
theorem isRead_noArguments : (Phrase.argumentList []).IsReadBack n [] n := by
  intro bound rest l ds _ closes
  obtain ⟨t, at_, kind⟩ := closes
  obtain ⟨rest, rfl⟩ := List.head?_eq_some_iff.mp at_
  exact (yields_isAt kind).bind rfl

/-- Otherwise there are some; the bound on their number is that of the grammar. -/
theorem isRead_someArguments (list : (Phrase.arguments es).IsReadBack n ts n')
    (begins : BeginsWith beginsExpression ts) (few : es.length ≤ maxListed) :
    (Phrase.argumentList es).IsReadBack n ts n' := by
  intro bound rest l ds size closes
  have apart : NotAt (· == .rightParen) (ts ++ rest) :=
    .of_beginsWith (begins.append rest) fun k has => by cases k <;> first | rfl | cases has
  refine (yields_isAt_false apart).bind ?_
  exact list bound rest l ds size closes maxListed few

end Calls

/-! ## Rules for operators -/

section Operators

variable {op : Token} {e left right : Expr Site} {n n' n'' : Site} {ts us : List Token}

/-- Unary operators nest to the right, each with a token of its own. -/
theorem isRead_prefixed (h : op.kind = .bang ∨ op.kind = .minus)
    (operand : (Phrase.unary e).IsReadBack n ts n') :
    (Phrase.unary (.unary op e)).IsReadBack n (op :: ts) n' := by
  intro bound rest l ds size stops turns enough
  simp only [List.length_cons] at size enough
  obtain ⟨turns, rfl⟩ : ∃ m, turns = m + 1 := ⟨turns - 1, by omega⟩
  refine (yields_takeIf (by rcases h with h | h <;> rw [h] <;> rfl)).bind ?_
  exact (operand bound rest l ds (by omega) stops turns (by omega)).bind rfl

/-- An operator with its sides, in the form that the table of the reader gives it. -/
theorem isRead_operator {i : Nat} (first : (Phrase.operators (i + 1) left).IsReadBack n ts n')
    (h : ∀ level : OperatorLevel, level.Is (i + 1) →
      op.kind ∈ level.kinds ∧ level.combine left op right = e)
    (second : (Phrase.operators i right).IsReadBack n' us n'') :
    (Phrase.operators (i + 1) e).IsReadBack n (ts ++ op :: us) n'' := by
  intro bound rest l ds level levels known size stops stops'
  simp only [List.length_cons, List.length_append] at size ⊢
  obtain ⟨loosest, tighter⟩ : level.Is (i + 1) ∧ LevelsUpTo i levels := by
    obtain _ | ⟨loosest, tighter⟩ := known
    exact ⟨loosest, tighter⟩
  obtain ⟨mem, rfl⟩ := h level loosest
  obtain ⟨apart, apart'⟩ := continues_operator known mem
  have outside : NotAt continuesCall (op :: (us ++ rest)) := by
    rintro _ ⟨⟩
    exact apart
  have looser : NotAt (continuesOperators levels) (op :: (us ++ rest)) := by
    rintro _ ⟨⟩
    exact apart'
  obtain ⟨k, lt, run⟩ :=
    first bound (op :: (us ++ rest)) l ds level levels known (by omega) outside looser
  have size' : 3 * us.length ≤ bound := by omega
  refine ⟨k + 1, by omega, ?_⟩
  simp only [List.append_assoc, List.cons_append]
  rw [run]
  obtain ⟨turns, more⟩ : ∃ turns, bound - k = turns + 1 := ⟨bound - k - 1, by omega⟩
  have more' : bound - (k + 1) = turns := by omega
  rw [more, more', readOperatorTail]
  refine (yields_takeIf (by simpa using mem)).go.trans ?_
  exact (yields_operators tighter second size' stops stops').go

/-- An operator of two values joins what it has on its left with one phrase on its right. -/
theorem isRead_binary {i : Nat} (first : (Phrase.operators (i + 1) left).IsReadBack n ts n')
    (h : op.kind.binaryLevel? = some (i + 1))
    (second : (Phrase.operators i right).IsReadBack n' us n'') :
    (Phrase.operators (i + 1) (.binary left op right)).IsReadBack n (ts ++ op :: us) n'' := by
  refine isRead_operator first (fun level is => ?_) second
  obtain ⟨plain, mem⟩ := (is.binary op.kind).mp h
  exact ⟨mem, by rw [OperatorLevel.combine, plain]; rfl⟩

/-- So does a logical operator, with a node of its own kind. -/
theorem isRead_logical {i : Nat} (first : (Phrase.operators (i + 1) left).IsReadBack n ts n')
    (h : op.kind.logicalLevel? = some (i + 1))
    (second : (Phrase.operators i right).IsReadBack n' us n'') :
    (Phrase.operators (i + 1) (.logical left op right)).IsReadBack n (ts ++ op :: us) n'' := by
  refine isRead_operator first (fun level is => ?_) second
  obtain ⟨logical, mem⟩ := (is.logical op.kind).mp h
  exact ⟨mem, by rw [OperatorLevel.combine, logical]; rfl⟩

end Operators

/-! ## Rules for expressions -/

section Expressions

variable {t dot name equals : Token} {e v : Expr Site} {n n' n'' : Site} {ts us : List Token}

/-- An expression is read as an assignment, with one level of nesting less. -/
theorem isRead_expression
    (h : ∀ bound rest l ds, 3 * ts.length ≤ bound → NotAt continuesExpression rest →
      Yields (readAssignment bound (readExpression bound) (readDeclaration bound))
        ⟨ts ++ rest, l, n, ds⟩ e ⟨rest, l, n', ds⟩) :
    (Phrase.expression e).IsReadBack n ts n' := by
  intro bound rest l ds size stops
  obtain ⟨bound, rfl⟩ : ∃ b, bound = b + 1 := ⟨bound - 1, by omega⟩
  rw [readExpression]
  exact h bound rest l ds (by omega) stops

/-- An expression without an assignment is a phrase of the loosest level. -/
theorem isRead_unassigned (value : (Phrase.operators 6 e).IsReadBack n ts n') :
    (Phrase.expression e).IsReadBack n ts n' := by
  apply isRead_expression
  intro bound rest l ds size stops
  have call : NotAt continuesCall rest := stops.mono fun k has => by
    rw [continuesExpression, has, Bool.true_or, Bool.true_or]
  have operators : NotAt (continuesOperators operatorLevels) rest := stops.mono fun k has => by
    rw [continuesExpression, has, Bool.or_true, Bool.true_or]
  have equal : NotAt (· == .equal) rest := stops.mono fun k has => by
    rw [continuesExpression, has, Bool.or_true]
  refine (yields_operators levelsUpTo_operatorLevels value size call operators).bind ?_
  exact (yields_take_none equal).bind rfl

/-- A name with `=` behind it is read as a reference first, and keeps its number. -/
theorem isRead_assign (h : t.kind = .identifier) (h' : equals.kind = .equal)
    (value : (Phrase.expression e).IsReadBack (n + 1) ts n') :
    (Phrase.expression (.assign ⟨t, n⟩ e)).IsReadBack n (t :: equals :: ts) n' := by
  apply isRead_expression
  intro bound rest l ds size stops
  simp only [List.length_cons] at size
  have begins : BeginsWith beginsOperand [t] := ⟨t, [], rfl, by rw [h]; rfl⟩
  have name : (Phrase.call (.variable ⟨t, n⟩)).IsReadBack n [t] (n + 1) :=
    isRead_operand (isRead_name h) begins.length_pos
  have size' : 3 * [t].length ≤ bound := by
    rw [List.length_singleton]
    omega
  refine (yields_target name begins size' h' (ts ++ rest)).bind ?_
  refine (yields_take h').bind ?_
  exact (value bound rest l ds (by omega) stops).bind rfl

/-- A property with `=` behind it is read as a property first; then its object is taken over. -/
theorem isRead_set (object : (Phrase.call e).IsReadBack n ts n')
    (begins : BeginsWith beginsOperand ts) (h : dot.kind = .dot) (h' : name.kind = .identifier)
    (h'' : equals.kind = .equal) (value : (Phrase.expression v).IsReadBack n' us n'') :
    (Phrase.expression (.set e name v)).IsReadBack n (ts ++ dot :: name :: equals :: us) n'' := by
  apply isRead_expression
  intro bound rest l ds size stops
  simp only [List.length_cons, List.length_append] at size
  have property := isRead_property object h h'
  have size' : 3 * (ts ++ [dot, name]).length ≤ bound := by
    simp only [List.length_append, List.length_cons, List.length_nil]
    omega
  have split : ts ++ dot :: name :: equals :: us ++ rest =
      ts ++ [dot, name] ++ equals :: (us ++ rest) := by
    simp
  rw [split]
  refine (yields_target property (begins.append _) size' h'' (us ++ rest)).bind ?_
  refine (yields_take h'').bind ?_
  exact (value bound rest l ds (by omega) stops).bind rfl

/-- In front of its mark an optional expression is absent. -/
theorem isRead_absent : (Phrase.optional none).IsReadBack n [] n := by
  intro bound rest l ds _ mark _ closes
  obtain ⟨t, at_, kind⟩ := closes
  obtain ⟨rest, rfl⟩ := List.head?_eq_some_iff.mp at_
  exact (yields_isAt kind).bind rfl

/-- What begins an expression is not that mark. -/
theorem isRead_present (value : (Phrase.expression e).IsReadBack n ts n')
    (begins : BeginsWith beginsExpression ts) :
    (Phrase.optional (some e)).IsReadBack n ts n' := by
  intro bound rest l ds size mark marks closes
  have stops : NotAt continuesExpression rest := .of_mark closes <| by
    rcases marks with rfl | rfl <;> rfl
  have apart : NotAt (· == mark) (ts ++ rest) :=
    .of_beginsWith (begins.append rest) fun k has => by
      rcases marks with rfl | rfl <;> cases k <;> first | rfl | cases has
  refine (yields_isAt_false apart).bind ?_
  exact (value bound rest l ds size stops).map

end Expressions

/-! ## Rules for routines -/

section Routines

variable {opened closed name word : Token} {ss body : List (Stmt Site)} {r : Routine Site}
  {methods statics : List (Routine Site)} {params ps ts us : List Token} {n n' n'' : Site}

/-- The declarations of a block end at its closing brace. -/
theorem isRead_block (h : opened.kind = .leftBrace)
    (inner : (Phrase.declarations ss).IsReadBack n ts n') (h' : closed.kind = .rightBrace) :
    (Phrase.block ss).IsReadBack n (opened :: (ts ++ [closed])) n' := by
  intro bound rest l ds size
  simp only [List.length_cons, List.length_append, List.length_nil] at size
  have items := (inner bound (closed :: rest) l ds (by omega)).1 ⟨closed, rfl, h'⟩ bound (by omega)
  refine ⟨opened, ts ++ [closed], rfl, h, ?_⟩
  rw [List.append_assoc]
  exact yields_body items h'

/-- A routine with parameters is a list of names and a block. -/
theorem isRead_routine (h : opened.kind = .leftParen) (list : Parameters params ps)
    (h' : closed.kind = .rightParen) (block : (Phrase.block body).IsReadBack n ts n') :
    (Phrase.routine params body).IsReadBack n (opened :: (ps ++ closed :: ts)) n' := by
  intro bound rest l ds size
  simp only [List.length_cons, List.length_append] at size
  obtain ⟨brace, us, rfl, kind, block⟩ := block bound rest l ds (by omega)
  rw [List.cons_append, List.append_assoc]
  constructor
  · intro word
    exact yields_anonymous h list h' kind block
  · intro role name named
    exact yields_routine named h list h' kind block

/-- Behind its name, a parenthesis tells a method from a getter. -/
theorem isRead_method (h : name.kind = .identifier)
    (routine : (Phrase.routine params body).IsReadBack n ts n') :
    (Phrase.method ⟨name, params, body, false⟩).IsReadBack n (name :: ts) n' := by
  intro bound rest l ds size role _
  rw [List.length_cons] at size
  exact (routine bound rest l ds (by omega)).2 role name h

/-- A brace behind the name begins a getter, which has no parameters. -/
theorem isRead_getter (h : name.kind = .identifier)
    (block : (Phrase.block body).IsReadBack n ts n') :
    (Phrase.method ⟨name, [], body, true⟩).IsReadBack n (name :: ts) n' := by
  intro bound rest l ds size role other
  rw [List.length_cons] at size
  obtain ⟨brace, us, rfl, kind, block⟩ := block bound rest l ds (by omega)
  exact yields_getter h kind other block

/-- In front of the closing brace there is no member. -/
theorem isRead_noMembers : (Phrase.members [] []).IsReadBack n [] n := by
  intro bound rest l ds _ closes turns enough
  obtain ⟨turns, rfl⟩ : ∃ m, turns = m + 1 := ⟨turns - 1, by omega⟩
  obtain ⟨t, at_, kind⟩ := closes
  obtain ⟨rest, rfl⟩ := List.head?_eq_some_iff.mp at_
  refine (yields_isAt kind).bind ?_
  exact yields_isAtEnd.bind rfl

/-- A name begins a method, which is put in front of the others. -/
theorem isRead_member (first : (Phrase.method r).IsReadBack n ts n')
    (begins : BeginsWith (· == .identifier) ts)
    (others : (Phrase.members methods statics).IsReadBack n' us n'') :
    (Phrase.members (r :: methods) statics).IsReadBack n (ts ++ us) n'' := by
  intro bound rest l ds size closes turns enough
  rw [List.length_append] at size enough
  obtain ⟨turns, rfl⟩ : ∃ m, turns = m + 1 := ⟨turns - 1, by omega⟩
  rw [List.append_assoc]
  have nonempty := begins.length_pos
  have apart : NotAt (· == .classWord) (ts ++ (us ++ rest)) :=
    .of_beginsWith (begins.append _) fun k has => by rw [beq_iff_eq.mp has]; rfl
  refine (yields_unclosed (begins.append _) fun k has => by rw [beq_iff_eq.mp has]; rfl).trans ?_
  refine (yields_take_none apart).bind ?_
  refine (first bound _ l ds (by omega) .method (by decide)).bind ?_
  exact (others bound rest l ds (by omega) closes turns (by omega)).bind rfl

/-- The word `class` begins a static member, which is put in front of the static ones. -/
theorem isRead_staticMember (h : word.kind = .classWord)
    (first : (Phrase.method r).IsReadBack n ts n')
    (others : (Phrase.members methods statics).IsReadBack n' us n'') :
    (Phrase.members methods (r :: statics)).IsReadBack n (word :: (ts ++ us)) n'' := by
  intro bound rest l ds size closes turns enough
  rw [List.length_cons, List.length_append] at size enough
  obtain ⟨turns, rfl⟩ : ∃ m, turns = m + 1 := ⟨turns - 1, by omega⟩
  rw [List.cons_append, List.append_assoc]
  have begins : BeginsWith (· == .classWord) (word :: (ts ++ (us ++ rest))) :=
    ⟨_, _, rfl, by rw [h]; rfl⟩
  refine (yields_unclosed begins fun k has => by rw [beq_iff_eq.mp has]; rfl).trans ?_
  refine (yields_take h).bind ?_
  refine (first bound _ l ds (by omega) .staticMethod (by decide)).bind ?_
  exact (others bound rest l ds (by omega) closes turns (by omega)).bind rfl

end Routines

/-! ## Rules for statements -/

section Statements

variable {word word' mark opened closed : Token} {isOpen : Bool} {c e : Expr Site}
  {s s' : Stmt Site} {ts us vs ws : List Token} {n n' n'' n₁ n₂ n₃ n₄ : Site}

/-- A statement is read with one level of nesting less. -/
theorem isRead_statement
    (h : ∀ bound rest l ds, 3 * ts.length < bound → (isOpen = true → NotAt (· == .elseWord) rest) →
      Yields (readStatement (bound + 1)) ⟨ts ++ rest, l, n, ds⟩ s ⟨rest, l, n', ds⟩) :
    (Phrase.statement isOpen s).IsReadBack n ts n' := by
  intro bound rest l ds size stops
  obtain ⟨bound, rfl⟩ : ∃ b, bound = b + 1 := ⟨bound - 1, by omega⟩
  exact h bound rest l ds (by omega) stops

/-- What begins an expression begins no other statement. -/
theorem isRead_expressionStatement (value : (Phrase.expression e).IsReadBack n ts n')
    (begins : BeginsWith beginsExpression ts) (h : mark.kind = .semicolon) :
    (Phrase.statement false (.expression e)).IsReadBack n (ts ++ [mark]) n' := by
  apply isRead_statement
  intro bound rest l ds size _
  rw [List.length_append, List.length_singleton] at size
  rw [List.append_assoc]
  have form : NotAt beginsStatementForm (ts ++ ([mark] ++ rest)) :=
    .of_beginsWith (begins.append _) fun k has => by cases k <;> first | rfl | cases has
  have value := value bound (mark :: rest) l ds (by omega) (stops_semicolon h)
  exact yields_statement form (yields_expressionStatement value h)

/-- The word tells the statement; the semicolon is required. -/
theorem isRead_print (h : word.kind = .printWord) (value : (Phrase.expression e).IsReadBack n ts n')
    (h' : mark.kind = .semicolon) :
    (Phrase.statement false (.print e)).IsReadBack n (word :: (ts ++ [mark])) n' := by
  apply isRead_statement
  intro bound rest l ds size _
  simp only [List.length_cons, List.length_append, List.length_nil] at size
  rw [List.cons_append, List.append_assoc]
  have value := value bound (mark :: rest) l ds (by omega) (stops_semicolon h')
  exact yields_statementWord h rfl (yields_print value h')

/-- Without an `else` the statement stays open: it must not stand before one. -/
theorem isRead_ifThen (h : word.kind = .ifWord) (h' : opened.kind = .leftParen)
    (condition : (Phrase.expression c).IsReadBack n ts n') (h'' : closed.kind = .rightParen)
    (thenBranch : (Phrase.statement isOpen s).IsReadBack n' us n'') :
    (Phrase.statement true (.ifElse c s none)).IsReadBack n (word :: opened :: (ts ++ closed :: us))
      n'' := by
  apply isRead_statement
  intro bound rest l ds size stops
  simp only [List.length_cons, List.length_append] at size
  simp only [List.cons_append, List.append_assoc]
  have condition := condition bound (closed :: (us ++ rest)) l ds (by omega) (stops_rightParen h'')
  have thenBranch := thenBranch bound rest l ds (by omega) fun _ => stops rfl
  exact yields_statementWord h rfl (yields_ifThen h' condition h'' thenBranch (stops rfl))

/-- An `else` belongs to the branch right before it, which is closed. -/
theorem isRead_ifElse (h : word.kind = .ifWord) (h' : opened.kind = .leftParen)
    (condition : (Phrase.expression c).IsReadBack n ts n') (h'' : closed.kind = .rightParen)
    (thenBranch : (Phrase.statement false s).IsReadBack n' us n'') (last : word'.kind = .elseWord)
    (elseBranch : (Phrase.statement isOpen s').IsReadBack n'' vs n₁) :
    (Phrase.statement isOpen (.ifElse c s (some s'))).IsReadBack n
      (word :: opened :: (ts ++ closed :: (us ++ word' :: vs))) n₁ := by
  apply isRead_statement
  intro bound rest l ds size stops
  simp only [List.length_cons, List.length_append] at size
  simp only [List.cons_append, List.append_assoc]
  have condition := condition bound (closed :: (us ++ word' :: (vs ++ rest))) l ds (by omega)
    (stops_rightParen h'')
  have thenBranch := thenBranch bound (word' :: (vs ++ rest)) l ds (by omega) nofun
  have elseBranch := elseBranch bound rest l ds (by omega) stops
  exact yields_statementWord h rfl (yields_ifElse h' condition h'' thenBranch last elseBranch)

/-- A loop is open if its body is. -/
theorem isRead_whileLoop (h : word.kind = .whileWord) (h' : opened.kind = .leftParen)
    (condition : (Phrase.expression c).IsReadBack n ts n') (h'' : closed.kind = .rightParen)
    (body : (Phrase.statement isOpen s).IsReadBack n' us n'') :
    (Phrase.statement isOpen (.whileLoop c s)).IsReadBack n
      (word :: opened :: (ts ++ closed :: us)) n'' := by
  apply isRead_statement
  intro bound rest l ds size stops
  simp only [List.length_cons, List.length_append] at size
  simp only [List.cons_append, List.append_assoc]
  have condition := condition bound (closed :: (us ++ rest)) l ds (by omega) (stops_rightParen h'')
  have body := body bound rest l ds (by omega) stops
  exact yields_statementWord h rfl (yields_while h' condition h'' body)

/-- The header is read with its two semicolons, then the loop is put together. -/
theorem isRead_forLoop {init : Option (Stmt Site)} {condition increment : Option (Expr Site)}
    (h : word.kind = .forWord) (h' : opened.kind = .leftParen)
    (header : (Phrase.initializer init).IsReadBack n ts n₁)
    (tested : (Phrase.optional condition).IsReadBack n₁ us n₂) (h'' : mark.kind = .semicolon)
    (counted : (Phrase.optional increment).IsReadBack n₂ vs n₃) (last : closed.kind = .rightParen)
    (body : (Phrase.statement isOpen s).IsReadBack n₃ ws n₄) :
    (Phrase.statement isOpen (forLoop init condition increment s n₄).1).IsReadBack n
      (word :: opened :: (ts ++ (us ++ mark :: (vs ++ closed :: ws))))
      (forLoop init condition increment s n₄).2 := by
  apply isRead_statement
  intro bound rest l ds size stops
  simp only [List.length_cons, List.length_append] at size
  simp only [List.cons_append, List.append_assoc]
  have header := header bound (us ++ mark :: (vs ++ closed :: (ws ++ rest))) l ds (by omega)
    (readStatement bound)
  have tested := tested bound (mark :: (vs ++ closed :: (ws ++ rest))) l ds (by omega) .semicolon
    (.inl rfl) ⟨mark, rfl, h''⟩
  have counted := counted bound (closed :: (ws ++ rest)) l ds (by omega) .rightParen (.inr rfl)
    ⟨closed, rfl, last⟩
  have body := body bound rest l ds (by omega) stops
  exact yields_statementWord h rfl (yields_for h' header (yields_loop tested h'' counted last body))

/-- A `return` may have a value. -/
theorem isRead_ret {value : Option (Expr Site)} (h : word.kind = .returnWord)
    (optional : (Phrase.optional value).IsReadBack n ts n') (h' : mark.kind = .semicolon) :
    (Phrase.statement false (.ret word value)).IsReadBack n (word :: (ts ++ [mark])) n' := by
  apply isRead_statement
  intro bound rest l ds size _
  simp only [List.length_cons, List.length_append, List.length_nil] at size
  rw [List.cons_append, List.append_assoc]
  have optional := optional bound (mark :: rest) l ds (by omega) .semicolon (.inl rfl)
    ⟨mark, rfl, h'⟩
  exact yields_statementWord h rfl (yields_return optional h')

/-- A brace begins a block, which is a closed statement. -/
theorem isRead_braced {ss : List (Stmt Site)} (block : (Phrase.block ss).IsReadBack n ts n') :
    (Phrase.statement false (.block ss)).IsReadBack n ts n' := by
  apply isRead_statement
  intro bound rest l ds size _
  obtain ⟨brace, us, rfl, kind, block⟩ := block bound rest l ds (by omega)
  exact yields_statementWord kind rfl (block.bind rfl)

/-- `break` and `continue` take no value. -/
theorem isRead_loopExit (h : word.kind = .breakWord ∨ word.kind = .continueWord)
    (h' : mark.kind = .semicolon) :
    (Phrase.statement false (.loopExit word)).IsReadBack n [word, mark] n := by
  apply isRead_statement
  intro bound rest l ds _ _
  cases h with
  | inl h => exact yields_statementWord h rfl (yields_loopExit h')
  | inr h => exact yields_statementWord h rfl (yields_loopExit h')

end Statements

/-! ## Rules for declarations -/

section Declarations

variable {word name equals mark opened closed : Token} {e : Expr Site} {s : Stmt Site}
  {params : List Token} {body ss : List (Stmt Site)} {ts us vs : List Token}
  {n n' n'' n₁ n₂ n₃ : Site}

/-- A variable without `=` has no initial value. -/
theorem isRead_uninitialized (h : word.kind = .varWord) (h' : name.kind = .identifier)
    (h'' : mark.kind = .semicolon) :
    (Phrase.newVariable (.var name none)).IsReadBack n [word, name, mark] n := by
  intro bound rest l ds _
  exact ⟨word, [name, mark], rfl, h, yields_uninitialized h' h''⟩

/-- Otherwise its initial value is read up to the semicolon. -/
theorem isRead_initialized (h : word.kind = .varWord) (h' : name.kind = .identifier)
    (h'' : equals.kind = .equal) (value : (Phrase.expression e).IsReadBack n ts n')
    (last : mark.kind = .semicolon) :
    (Phrase.newVariable (.var name (some e))).IsReadBack n
      (word :: name :: equals :: (ts ++ [mark])) n' := by
  intro bound rest l ds size
  simp only [List.length_cons, List.length_append, List.length_nil] at size
  have value := value bound (mark :: rest) l ds (by omega) (stops_semicolon last)
  refine ⟨word, name :: equals :: (ts ++ [mark]), rfl, h, ?_⟩
  simp only [List.cons_append, List.append_assoc]
  exact yields_initialized h' h'' value last

/-- A lone semicolon in the header of a `for` is no initializer. -/
theorem isRead_noInitializer (h : mark.kind = .semicolon) :
    (Phrase.initializer none).IsReadBack n [mark] n := by
  intro bound rest l ds _ statement
  refine (yields_takeIf (by rw [h]; rfl)).go.trans ?_
  dsimp only
  rw [if_neg (by rw [h]; exact nofun)]
  rfl

/-- The word `var` begins a declaration there too. -/
theorem isRead_variableInitializer (declared : (Phrase.newVariable s).IsReadBack n ts n') :
    (Phrase.initializer (some s)).IsReadBack n ts n' := by
  intro bound rest l ds size statement
  obtain ⟨word, us, rfl, kind, declared⟩ := declared bound rest l ds size
  refine (yields_takeIf (by rw [kind]; rfl)).go.trans ?_
  dsimp only
  rw [if_pos kind]
  exact declared.map.go

/-- Anything else that begins an expression is a statement of its own. -/
theorem isRead_expressionInitializer (value : (Phrase.expression e).IsReadBack n ts n')
    (begins : BeginsWith beginsExpression ts) (h : mark.kind = .semicolon) :
    (Phrase.initializer (some (.expression e))).IsReadBack n (ts ++ [mark]) n' := by
  intro bound rest l ds size statement
  rw [List.length_append, List.length_singleton] at size
  rw [List.append_assoc]
  have apart : NotAt (fun k => k == .semicolon || k == .varWord) (ts ++ ([mark] ++ rest)) :=
    .of_beginsWith (begins.append _) fun k has => by cases k <;> first | rfl | cases has
  have value := value bound (mark :: rest) l ds (by omega) (stops_semicolon h)
  refine (yields_takeIf_none apart).go.trans ?_
  exact (yields_expressionStatement value h).map.go

/-- A declaration is read with one level of nesting less. -/
theorem isRead_declaration
    (h : ∀ bound rest l ds, 3 * ts.length + 1 < bound → NotAt (· == .elseWord) rest →
      Yields (readDeclaration (bound + 1)) ⟨ts ++ rest, l, n, ds⟩ s ⟨rest, l, n', ds⟩) :
    (Phrase.declaration s).IsReadBack n ts n' := by
  intro bound rest l ds size stops
  obtain ⟨bound, rfl⟩ : ∃ b, bound = b + 1 := ⟨bound - 1, by omega⟩
  exact h bound rest l ds (by omega) stops

/-- The parents stand before the braces: the superclass behind `<`, the mixins behind `with`. -/
theorem isRead_classDecl {superclass : Option (Reference Site)} {mixins : List (Reference Site)}
    {methods statics : List (Routine Site)} (h : word.kind = .classWord)
    (h' : name.kind = .identifier) (parent : Superclass superclass n ts n₁)
    (mixed : Mixins mixins n₁ us n₂) (h'' : opened.kind = .leftBrace)
    (members : (Phrase.members methods statics).IsReadBack n₂ vs n₃)
    (last : closed.kind = .rightBrace) :
    (Phrase.declaration (.classDecl name superclass mixins methods statics)).IsReadBack n
      (word :: name :: (ts ++ (us ++ opened :: (vs ++ [closed])))) n₃ := by
  apply isRead_declaration
  intro bound rest l ds size _
  simp only [List.length_cons, List.length_append, List.length_nil] at size
  simp only [List.cons_append, List.append_assoc]
  have members := members bound (closed :: rest) l ds (by omega) ⟨closed, rfl, last⟩ bound
    (by omega)
  exact yields_declarationWord h rfl (yields_class h' parent mixed h'' (by omega) members last)

/-- The word `fun` with a name behind it begins a function declaration. -/
theorem isRead_function (h : word.kind = .funWord) (h' : name.kind = .identifier)
    (routine : (Phrase.routine params body).IsReadBack n ts n') :
    (Phrase.declaration (.function ⟨name, params, body, false⟩)).IsReadBack n
      (word :: name :: ts) n' := by
  apply isRead_declaration
  intro bound rest l ds size _
  simp only [List.length_cons] at size
  have routine := (routine bound rest l ds (by omega)).2 .function name h'
  exact yields_declarationWord h rfl (yields_function h' routine)

/-- With a parenthesis behind it, it begins a routine that is the whole statement. -/
theorem isRead_loneRoutine (h : word.kind = .funWord)
    (routine : (Phrase.routine params body).IsReadBack n ts n')
    (begins : BeginsWith (· == .leftParen) ts) (h' : mark.kind = .semicolon) :
    (Phrase.declaration (.expression (.function word params body))).IsReadBack n
      (word :: (ts ++ [mark])) n' := by
  apply isRead_declaration
  intro bound rest l ds size _
  simp only [List.length_cons, List.length_append, List.length_nil] at size
  rw [List.cons_append, List.append_assoc]
  have apart : NotAt (· == .identifier) (ts ++ ([mark] ++ rest)) :=
    .of_beginsWith (begins.append _) fun k has => by rw [beq_iff_eq.mp has]; rfl
  have routine := (routine bound (mark :: rest) l ds (by omega)).1 word
  exact yields_declarationWord h rfl (yields_loneRoutine apart routine h')

/-- A variable declaration is a declaration. -/
theorem isRead_declared (declared : (Phrase.newVariable s).IsReadBack n ts n') :
    (Phrase.declaration s).IsReadBack n ts n' := by
  apply isRead_declaration
  intro bound rest l ds size _
  obtain ⟨word, us, rfl, kind, declared⟩ := declared bound rest l ds (by omega)
  exact yields_declarationWord kind rfl declared

/-- A statement is one too, unless it begins with `fun`. -/
theorem isRead_undeclared {isOpen : Bool}
    (statement : (Phrase.statement isOpen s).IsReadBack n ts n')
    (begins : BeginsWith beginsStatement ts) (h : ∀ t ∈ ts.head?, t.kind ≠ .funWord) :
    (Phrase.declaration s).IsReadBack n ts n' := by
  apply isRead_declaration
  intro bound rest l ds size stops
  obtain ⟨t, us, rfl, begins⟩ := begins
  have form : NotAt beginsDeclarationForm (t :: us ++ rest) := by
    rintro _ ⟨⟩
    have other := h t rfl
    revert begins other
    cases t.kind <;> simp [beginsStatement, beginsStatementForm, beginsExpression, beginsOperand,
      beginsDeclarationForm]
  exact yields_declaration form (statement bound rest l ds (by omega) fun _ => stops)

/-- At its end a list of declarations is empty. -/
theorem isRead_done : (Phrase.declarations []).IsReadBack n [] n := by
  intro bound rest l ds _
  constructor
  · intro closes turns enough
    obtain ⟨turns, rfl⟩ : ∃ m, turns = m + 1 := ⟨turns - 1, by omega⟩
    obtain ⟨t, at_, kind⟩ := closes
    obtain ⟨rest, rfl⟩ := List.head?_eq_some_iff.mp at_
    refine (yields_isAt kind).bind ?_
    exact yields_isAtEnd.bind rfl
  · intro ended turns enough
    obtain ⟨turns, rfl⟩ : ∃ m, turns = m + 1 := ⟨turns - 1, by omega⟩
    subst ended
    exact yields_isAtEnd.bind rfl

/-- A declaration is read, and then the others; none of them begins with an `else`. -/
theorem isRead_more (first : (Phrase.declaration s).IsReadBack n ts n')
    (begins : BeginsWith (Phrase.declaration s).begins ts)
    (derived : Derives (.declarations ss) n' us n'')
    (others : (Phrase.declarations ss).IsReadBack n' us n'') :
    (Phrase.declarations (s :: ss)).IsReadBack n (ts ++ us) n'' := by
  intro bound rest l ds size
  rw [List.length_append] at size
  have nonempty := begins.length_pos
  obtain ⟨inBraces, toTheEnd⟩ := others bound rest l ds (by omega)
  rw [List.append_assoc]
  constructor
  · intro closes turns enough
    rw [List.length_append] at enough
    obtain ⟨turns, rfl⟩ : ∃ m, turns = m + 1 := ⟨turns - 1, by omega⟩
    have stops : NotAt (· == .elseWord) (us ++ rest) := derived.not_else (.of_mark closes rfl)
    refine (yields_unclosed (begins.append _) fun k has => ?_).trans ?_
    · cases k <;> first | rfl | cases has
    refine (first bound _ l ds (by omega) stops).bind ?_
    exact (inBraces closes turns (by omega)).bind rfl
  · intro ended turns enough
    rw [List.length_append] at enough
    obtain ⟨turns, rfl⟩ : ∃ m, turns = m + 1 := ⟨turns - 1, by omega⟩
    have stops : NotAt (· == .elseWord) (us ++ rest) := derived.not_else (ended ▸ .nil)
    refine yields_isAtEnd.bind ?_
    obtain ⟨t, vs, rfl, _⟩ := begins
    refine (first bound _ l ds (by omega) stops).bind ?_
    exact (toTheEnd ended turns (by omega)).bind rfl

end Declarations

/-! ## All phrases -/

/-- What derives is read back: one case for each rule of the grammar. -/
theorem Derives.isRead {φ : Phrase} {n n' : Site} {ts : List Token} (h : Derives φ n ts n') :
    φ.IsReadBack n ts n' := by
  induction h with
  | literal h => exact isRead_literal h
  | grouping h _ h' inner => exact isRead_grouping h inner h'
  | super h h' h'' => exact isRead_super h h' h''
  | this h => exact isRead_this h
  | name h => exact isRead_name h
  | anonymous h _ routine => exact isRead_anonymous h routine
  | operand derived operand => exact isRead_operand operand (derived.begins rfl).length_pos
  | called _ h _ h' callee list => exact isRead_called callee h list h'
  | property _ h h' object => exact isRead_property object h h'
  | lastArgument _ last => exact isRead_lastArgument last
  | moreArguments _ h _ first others => exact isRead_moreArguments first h others
  | noArguments => exact isRead_noArguments
  | someArguments derived few list => exact isRead_someArguments list (derived.begins rfl) few
  | prefixed h _ right => exact isRead_prefixed h right
  | unprefixed derived operand => exact isRead_unprefixed operand (derived.begins rfl)
  | tightest _ operand => exact isRead_tightest operand
  | tighter derived operand => exact isRead_tighter operand (derived.begins rfl).length_pos
  | binary _ h _ left right => exact isRead_binary left h right
  | logical _ h _ left right => exact isRead_logical left h right
  | unassigned _ value => exact isRead_unassigned value
  | assign h h' _ value => exact isRead_assign h h' value
  | set derived h h' h'' _ object value =>
    exact isRead_set object (derived.begins rfl) h h' h'' value
  | absent => exact isRead_absent
  | present derived value => exact isRead_present value (derived.begins rfl)
  | block h _ h' inner => exact isRead_block h inner h'
  | routine h list h' _ block => exact isRead_routine h list h' block
  | method h _ routine => exact isRead_method h routine
  | getter h _ block => exact isRead_getter h block
  | noMembers => exact isRead_noMembers
  | member derived _ first others => exact isRead_member first (derived.begins rfl) others
  | staticMember h _ _ first others => exact isRead_staticMember h first others
  | expressionStatement derived h value =>
    exact isRead_expressionStatement value (derived.begins rfl) h
  | print h _ h' value => exact isRead_print h value h'
  | ifThen h h' _ h'' _ condition thenBranch => exact isRead_ifThen h h' condition h'' thenBranch
  | ifElse h h' _ h'' _ last _ condition thenBranch elseBranch =>
    exact isRead_ifElse h h' condition h'' thenBranch last elseBranch
  | whileLoop h h' _ h'' _ condition body => exact isRead_whileLoop h h' condition h'' body
  | forLoop h h' _ _ h'' _ last _ standsFor header tested counted body =>
    have whole := isRead_forLoop h h' header tested h'' counted last body
    rwa [loops_iff.mp standsFor] at whole
  | ret h _ h' value => exact isRead_ret h value h'
  | braced _ block => exact isRead_braced block
  | loopExit h h' => exact isRead_loopExit h h'
  | uninitialized h h' h'' => exact isRead_uninitialized h h' h''
  | initialized h h' h'' _ last value => exact isRead_initialized h h' h'' value last
  | noInitializer h => exact isRead_noInitializer h
  | variableInitializer _ declared => exact isRead_variableInitializer declared
  | expressionInitializer derived h value =>
    exact isRead_expressionInitializer value (derived.begins rfl) h
  | classDecl h h' parent mixed h'' _ last members =>
    exact isRead_classDecl h h' parent mixed h'' members last
  | function h h' _ routine => exact isRead_function h h' routine
  | loneRoutine h derived h' routine => exact isRead_loneRoutine h routine (derived.begins rfl) h'
  | declared _ declared => exact isRead_declared declared
  | undeclared derived h statement => exact isRead_undeclared statement (derived.begins rfl) h
  | done => exact isRead_done
  | more derived derived' first others =>
    exact isRead_more first (derived.begins rfl) derived' others

end LoxLang
