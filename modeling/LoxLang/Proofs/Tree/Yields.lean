/-
LoxLang.Proofs.Tree.Yields: readers that succeed.

A reader of the grammar is put together from readers of its parts, and succeeds if they do: what it
yields is said here for every one of them, whatever its parts are.

* `Yields`: a reader succeeds with a result.
* `NotAt`: what does not follow.

Main statements: `yields_ifElse`, `yields_for`, `yields_class` and so on, one for each reader, and
`yields_statementWord` and `yields_declarationWord`, which choose among them.
-/
import LoxLang.Proofs.Outcome
import LoxLang.Proofs.Tree.Derives

namespace LoxLang

/-! ## Readers that succeed -/

section Yields

variable {α β : Type} {read : Read α} {next : α → Read β} {a : α} {b : β} {c c' c'' : Cursor}

/-- What a reader comes to. -/
def outcome (read : Read α) (c : Cursor) : Except GaveUp α × Cursor := read c

/-- The reader succeeds with the result. -/
def Yields (read : Read α) (c : Cursor) (a : α) (c' : Cursor) : Prop :=
  outcome read c = (.ok a, c')

/-- Behind a reader that succeeds reading goes on. -/
theorem Yields.go (first : Yields read c a c') :
    outcome (read >>= next) c = outcome (next a) c' := by
  unfold Yields outcome at *
  rw [run_bind, first]

/-- What succeeds step by step succeeds as a whole. -/
theorem Yields.bind (first : Yields read c a c') (second : Yields (next a) c' b c'') :
    Yields (read >>= next) c b c'' := first.go.trans second

/-- And what is made of its result is yielded instead. -/
theorem Yields.map {f : α → β} (first : Yields read c a c') : Yields (f <$> read) c (f a) c' := by
  rw [map_eq_pure_bind]
  exact first.bind rfl

end Yields

/-! ## The next token -/

/-- The next token is none as told. -/
def NotAt (p : Kind → Bool) (rest : List Token) : Prop := ∀ t ∈ rest.head?, p t.kind = false

/-- At the end of the text there is no token of any kind. -/
theorem NotAt.nil {p : Kind → Bool} : NotAt p [] := by simp [NotAt]

/-- What begins a phrase is none of the tokens that the kinds are apart from. -/
theorem NotAt.of_beginsWith {p q : Kind → Bool} {ts : List Token} (h : BeginsWith q ts)
    (apart : ∀ k, q k = true → p k = false) : NotAt p ts := by
  obtain ⟨t, ts, rfl, ok⟩ := h
  intro t' mem
  cases mem
  exact apart _ ok

/-- What is at no token of some kinds is at none of fewer kinds. -/
theorem NotAt.mono {p q : Kind → Bool} {ts : List Token} (h : NotAt p ts)
    (le : ∀ k, q k = true → p k = true) : NotAt q ts := by
  intro t mem
  cases has : q t.kind with
  | false => rfl
  | true => exact absurd (le _ has) (by simp [h t mem])

section Moves

variable {t : Token} {ts : List Token} {l : Nat} {n : Site} {ds : List Diagnostic}

/-- A token of an accepted kind is consumed. -/
theorem yields_takeIf {accept : Kind → Bool} (h : accept t.kind = true) :
    Yields (takeIf accept) ⟨t :: ts, l, n, ds⟩ (some t) ⟨ts, l, n, ds⟩ := by
  unfold Yields outcome takeIf
  rw [run_bind]
  show (ite _ _ _ : Read (Option Token)) _ = _
  rw [if_pos h]
  rfl

/-- Any other one is left where it is. -/
theorem yields_takeIf_none {accept : Kind → Bool} (h : NotAt accept ts) :
    Yields (takeIf accept) ⟨ts, l, n, ds⟩ none ⟨ts, l, n, ds⟩ := by
  unfold Yields outcome takeIf
  rw [run_bind]
  cases ts with
  | nil => rfl
  | cons t ts =>
    show (ite _ _ _ : Read (Option Token)) _ = _
    rw [if_neg (by simp [h t rfl])]
    rfl

/-- Asking for a token takes the next one if it is as told, and takes none otherwise. -/
theorem ends_takeIf {β : Type} {accept : Kind → Bool} {next : Option Token → Read β} {c : Cursor}
    {ok : β → Cursor → Prop} {err : GaveUp → Cursor → Prop}
    (without : NotAt accept c.rest → Ends (next none) c ok err)
    (with_ : ∀ t ts, c.rest = t :: ts → accept t.kind = true →
      Ends (next (some t)) { c with rest := ts } ok err) :
    Ends (takeIf accept >>= next) c ok err := by
  have follow : ∀ {o c'}, Yields (takeIf accept) c o c' → Ends (next o) c' ok err →
      Ends (takeIf accept >>= next) c ok err := by
    intro o c' taken ends
    have step : outcome (takeIf accept >>= next) c = outcome (next o) c' := taken.go
    unfold outcome at step
    unfold Ends
    rwa [step]
  obtain ⟨rest, l, n, ds⟩ := c
  cases rest with
  | nil => exact follow (yields_takeIf_none .nil) (without .nil)
  | cons t ts =>
    cases fits : accept t.kind with
    | true => exact follow (yields_takeIf fits) (with_ t ts rfl fits)
    | false =>
      have apart : NotAt accept (t :: ts) := by
        rintro _ ⟨⟩
        exact fits
      exact follow (yields_takeIf_none apart) (without apart)

theorem yields_take {kind : Kind} (h : t.kind = kind) :
    Yields (take? kind) ⟨t :: ts, l, n, ds⟩ (some t) ⟨ts, l, n, ds⟩ :=
  yields_takeIf (beq_iff_eq.mpr h)

theorem yields_take_none {kind : Kind} (h : NotAt (· == kind) ts) :
    Yields (take? kind) ⟨ts, l, n, ds⟩ none ⟨ts, l, n, ds⟩ := yields_takeIf_none h

/-- A required token that is there is consumed without a complaint. -/
theorem yields_require {kind : Kind} {fault : SyntaxFault} (h : t.kind = kind) :
    Yields (require kind fault) ⟨t :: ts, l, n, ds⟩ t ⟨ts, l, n, ds⟩ := (yields_take h).bind rfl

theorem yields_expect {mark : Mark} {gap : Gap} (h : t.kind = mark.kind) :
    Yields (expect mark gap) ⟨t :: ts, l, n, ds⟩ t ⟨ts, l, n, ds⟩ := yields_require h

theorem yields_expectName {role : NameRole} (h : t.kind = .identifier) :
    Yields (expectName role) ⟨t :: ts, l, n, ds⟩ t ⟨ts, l, n, ds⟩ := yields_require h

theorem yields_isAt {kind : Kind} (h : t.kind = kind) :
    Yields (isAt kind) ⟨t :: ts, l, n, ds⟩ true ⟨t :: ts, l, n, ds⟩ := by
  have at_ : (⟨t :: ts, l, n, ds⟩ : Cursor).at kind = true := beq_iff_eq.mpr h
  unfold Yields outcome isAt
  rw [run_bind, ← at_]
  rfl

/-- To look at another token tells so. -/
theorem yields_isAt_false {kind : Kind} (h : NotAt (· == kind) ts) :
    Yields (isAt kind) ⟨ts, l, n, ds⟩ false ⟨ts, l, n, ds⟩ := by
  have at_ : (⟨ts, l, n, ds⟩ : Cursor).at kind = false := by
    cases ts with
    | nil => rfl
    | cons t ts => exact h t rfl
  unfold Yields outcome isAt
  rw [run_bind, ← at_]
  rfl

/-- The text has ended if no token is left. -/
theorem yields_isAtEnd : Yields isAtEnd ⟨ts, l, n, ds⟩ ts.isEmpty ⟨ts, l, n, ds⟩ := rfl

/-- A reference takes the number that comes next. -/
theorem yields_newReference :
    Yields (newReference t) ⟨ts, l, n, ds⟩ ⟨t, n⟩ ⟨ts, l, n + 1, ds⟩ := rfl

/-- To number a tree takes as many numbers as it needs. -/
theorem yields_withSites {α : Type} (act : StateM Site α) :
    Yields (withSites act) ⟨ts, l, n, ds⟩ (act n).1 ⟨ts, l, (act n).2, ds⟩ := rfl

end Moves

/-! ## Lists of names -/

section Names

variable {names ts rest : List Token} {l : Nat} {n : Site} {ds : List Diagnostic}

/-- Names between commas are read to the last one. -/
theorem yields_parameters (h : Names names ts) (stops : NotAt (· == .comma) rest) :
    ∀ {allowed}, names.length ≤ allowed →
      Yields (readParameters allowed) ⟨ts ++ rest, l, n, ds⟩ names ⟨rest, l, n, ds⟩ := by
  induction h with
  | one h =>
    intro allowed enough
    obtain ⟨allowed, rfl⟩ : ∃ m, allowed = m + 1 := ⟨allowed - 1, by simp at enough; omega⟩
    refine (yields_expectName h).bind ?_
    exact (yields_take_none stops).bind rfl
  | more h h' _ ih =>
    intro allowed enough
    obtain ⟨allowed, rfl⟩ : ∃ m, allowed = m + 1 := ⟨allowed - 1, by simp at enough; omega⟩
    rw [List.length_cons] at enough
    refine (yields_expectName h).bind ?_
    refine (yields_take h').bind ?_
    exact (ih (by omega)).bind rfl

/-- A list of names begins with a name. -/
theorem Names.begins (h : Names names ts) : BeginsWith (· == .identifier) ts := by
  cases h with
  | one h => exact ⟨_, _, rfl, by rw [h]; rfl⟩
  | more h _ _ => exact ⟨_, _, rfl, by rw [h]; rfl⟩

/-- Every name is a token. -/
theorem Names.length_le (h : Names names ts) : names.length ≤ ts.length := by
  induction h with
  | one _ => simp
  | more _ _ _ ih => simp only [List.length_cons]; omega

/-- Parentheses with nothing inside have no parameters. -/
theorem yields_parameterList (h : Parameters names ts)
    (closes : ∃ t ∈ rest.head?, t.kind = .rightParen) :
    Yields readParameterList ⟨ts ++ rest, l, n, ds⟩ names ⟨rest, l, n, ds⟩ := by
  obtain ⟨t, at_, kind⟩ := closes
  cases h with
  | none =>
    obtain ⟨rest, rfl⟩ := List.head?_eq_some_iff.mp at_
    exact (yields_isAt kind).bind rfl
  | some h few =>
    have stops : NotAt (· == .comma) rest := by
      intro t' at'
      rw [Option.mem_unique at' at_, kind]
      rfl
    refine (yields_isAt_false ?_).bind (yields_parameters h stops few)
    exact .of_beginsWith (h.begins.append rest) fun k has => by rw [beq_iff_eq.mp has]; rfl

/-- Mixins get the numbers that come next, in their order. -/
theorem yields_mixins (h : Names names ts) (stops : NotAt (· == .comma) rest) :
    ∀ {turns} (n), names.length ≤ turns →
      Yields (readMixins turns) ⟨ts ++ rest, l, n, ds⟩ (referencesFrom n names)
        ⟨rest, l, n + names.length, ds⟩ := by
  induction h with
  | one h =>
    intro turns n enough
    obtain ⟨turns, rfl⟩ : ∃ m, turns = m + 1 := ⟨turns - 1, by simp at enough; omega⟩
    refine (yields_expectName h).bind ?_
    refine yields_newReference.bind ?_
    exact (yields_take_none stops).bind rfl
  | @more name comma names ts h h' _ ih =>
    intro turns n enough
    obtain ⟨turns, rfl⟩ : ∃ m, turns = m + 1 := ⟨turns - 1, by simp at enough; omega⟩
    rw [List.length_cons] at enough
    refine (yields_expectName h).bind ?_
    refine yields_newReference.bind ?_
    refine (yields_take h').bind ?_
    have enough' : names.length ≤ turns := by omega
    refine (ih (n + 1) enough').bind ?_
    rw [List.length_cons, Nat.add_comm names.length 1, ← Nat.add_assoc]
    rfl

end Names

/-! ## Lists in braces -/

section Braces

variable {ts : List Token} {l : Nat} {n : Site} {ds : List Diagnostic}

/-- A list in braces goes on. -/
theorem yields_unclosed {α : Type} {p : Kind → Bool} (h : BeginsWith p ts)
    (apart : ∀ k, p k = true → (k == .rightBrace) = false) {items next : Read α} :
    outcome (do if (← isAt .rightBrace) || (← isAtEnd) then items else next) ⟨ts, l, n, ds⟩ =
      outcome next ⟨ts, l, n, ds⟩ := by
  refine (yields_isAt_false (.of_beginsWith h apart)).go.trans ?_
  refine yields_isAtEnd.go.trans ?_
  obtain ⟨t, ts, rfl, _⟩ := h
  rfl

/-- Where there is no fault there is nothing to recover from. -/
theorem Yields.recovering {read : Read (Stmt Site)} {c c' : Cursor} {s : Stmt Site}
    (h : Yields read c s c') : Yields (recovering read) c s c' := by
  unfold Yields outcome LoxLang.recovering at *
  rw [run_tryCatch, h]

/-- A reader that gave up goes on behind the fault. -/
theorem yields_recovering {read : Read (Stmt Site)} {c c' : Cursor}
    (gaveUp : outcome read c = (.error .atFault, c')) :
    Yields (recovering read) c .missing { c' with rest := skipFaulty c'.rest } := by
  unfold Yields outcome LoxLang.recovering at *
  rw [run_tryCatch, gaveUp]
  rfl

end Braces

/-! ## Statements -/

section Statements

variable {expression : Read (Expr Site)} {statement declaration : Read (Stmt Site)} {c : Cursor}
  {e : Expr Site} {s s' : Stmt Site} {word name mark opened closed : Token}
  {ts us vs rest : List Token} {l bound : Nat} {n n' n'' n₁ n₂ n₃ n₄ : Site} {ds : List Diagnostic}

/-- The semicolon behind an expression is consumed. -/
theorem yields_expressionStatement (value : Yields expression c e ⟨mark :: rest, l, n, ds⟩)
    (h : mark.kind = .semicolon) :
    Yields (readExpressionStatement expression) c (.expression e) ⟨rest, l, n, ds⟩ := by
  refine value.bind ?_
  exact (yields_expect h).bind rfl

theorem yields_print (value : Yields expression c e ⟨mark :: rest, l, n, ds⟩)
    (h : mark.kind = .semicolon) : Yields (readPrint expression) c (.print e) ⟨rest, l, n, ds⟩ := by
  refine value.bind ?_
  exact (yields_expect h).bind rfl

/-- Without an `else` behind the branch there is none. -/
theorem yields_ifThen (h : opened.kind = .leftParen)
    (condition : Yields expression ⟨ts, l, n, ds⟩ e ⟨closed :: us, l, n', ds⟩)
    (h' : closed.kind = .rightParen)
    (thenBranch : Yields statement ⟨us, l, n', ds⟩ s ⟨rest, l, n'', ds⟩)
    (stops : NotAt (· == .elseWord) rest) :
    Yields (readIf expression statement) ⟨opened :: ts, l, n, ds⟩ (.ifElse e s none)
      ⟨rest, l, n'', ds⟩ := by
  refine (yields_expect h).bind ?_
  refine condition.bind ?_
  refine (yields_expect h').bind ?_
  refine thenBranch.bind ?_
  exact (yields_take_none stops).bind rfl

/-- An `else` right behind the branch belongs to it. -/
theorem yields_ifElse {c' : Cursor} (h : opened.kind = .leftParen)
    (condition : Yields expression ⟨ts, l, n, ds⟩ e ⟨closed :: us, l, n', ds⟩)
    (h' : closed.kind = .rightParen)
    (thenBranch : Yields statement ⟨us, l, n', ds⟩ s ⟨word :: vs, l, n'', ds⟩)
    (h'' : word.kind = .elseWord) (elseBranch : Yields statement ⟨vs, l, n'', ds⟩ s' c') :
    Yields (readIf expression statement) ⟨opened :: ts, l, n, ds⟩ (.ifElse e s (some s')) c' := by
  refine (yields_expect h).bind ?_
  refine condition.bind ?_
  refine (yields_expect h').bind ?_
  refine thenBranch.bind ?_
  refine (yields_take h'').bind ?_
  exact elseBranch.bind rfl

/-- The condition of a loop stands in parentheses. -/
theorem yields_while {c' : Cursor} (h : opened.kind = .leftParen)
    (condition : Yields expression ⟨ts, l, n, ds⟩ e ⟨closed :: us, l, n', ds⟩)
    (h' : closed.kind = .rightParen) (body : Yields statement ⟨us, l, n', ds⟩ s c') :
    Yields (readWhile expression statement) ⟨opened :: ts, l, n, ds⟩ (.whileLoop e s) c' := by
  refine (yields_expect h).bind ?_
  refine condition.bind ?_
  refine (yields_expect h').bind ?_
  exact body.bind rfl

/-- The reader of a `for` loop behind the first part of its header. -/
def readLoop (expression : Read (Expr Site)) (statement : Read (Stmt Site))
    (init : Option (Stmt Site)) : Read (Stmt Site) := do
  let condition ← readUnless .semicolon expression
  let _ ← expect .semicolon .afterLoopCondition
  let increment ← readUnless .rightParen expression
  let _ ← expect .rightParen .afterForClauses
  let body ← statement
  withSites (forLoop init condition increment body)

/-- The reader of a `for` loop behind its opening parenthesis. -/
def readInitializer (expression : Read (Expr Site)) (statement : Read (Stmt Site)) :
    Read (Stmt Site) := do
  match ← takeIf fun k => k == .semicolon || k == .varWord with
  | none => (some <$> readExpressionStatement expression) >>= readLoop expression statement
  | some t =>
    if t.kind = .varWord then (some <$> readVariable expression) >>= readLoop expression statement
    else readLoop expression statement none

/-- The rest of the header and the body make the loop that a `for` stands for. -/
theorem yields_loop {init : Option (Stmt Site)} {condition increment : Option (Expr Site)}
    (tested : Yields (readUnless .semicolon expression) ⟨ts, l, n, ds⟩ condition
      ⟨mark :: us, l, n', ds⟩) (h : mark.kind = .semicolon)
    (counted : Yields (readUnless .rightParen expression) ⟨us, l, n', ds⟩ increment
      ⟨closed :: vs, l, n'', ds⟩) (h' : closed.kind = .rightParen)
    (body : Yields statement ⟨vs, l, n'', ds⟩ s ⟨rest, l, n₁, ds⟩) :
    Yields (readLoop expression statement init) ⟨ts, l, n, ds⟩
      (forLoop init condition increment s n₁).1
      ⟨rest, l, (forLoop init condition increment s n₁).2, ds⟩ := by
  refine tested.bind ?_
  refine (yields_expect h).bind ?_
  refine counted.bind ?_
  refine (yields_expect h').bind ?_
  refine body.bind ?_
  exact yields_withSites _

/-- The initializer comes first, whatever it is. -/
theorem yields_for {c' c'' : Cursor} {init : Option (Stmt Site)} (h : opened.kind = .leftParen)
    (header : outcome (readInitializer expression statement) ⟨ts, l, n, ds⟩ =
      outcome (readLoop expression statement init) c')
    (loop : Yields (readLoop expression statement init) c' s c'') :
    Yields (readFor expression statement) ⟨opened :: ts, l, n, ds⟩ s c'' := by
  refine (yields_expect h).bind ?_
  exact header.trans loop

/-- The semicolon ends the value of a `return`, or stands in its place. -/
theorem yields_return {value : Option (Expr Site)}
    (h : Yields (readUnless .semicolon expression) c value ⟨mark :: rest, l, n, ds⟩)
    (h' : mark.kind = .semicolon) :
    Yields (readReturn expression word) c (.ret word value) ⟨rest, l, n, ds⟩ := by
  refine h.bind ?_
  exact (yields_expect h').bind rfl

theorem yields_loopExit (h : mark.kind = .semicolon) :
    Yields (readLoopExit word) ⟨mark :: rest, l, n, ds⟩ (.loopExit word) ⟨rest, l, n, ds⟩ :=
  (yields_expect h).bind rfl

/-- A statement that begins with a keyword or a brace is read by the reader for it. -/
theorem yields_statementWord {k : Kind} {c' : Cursor} (h : word.kind = k)
    (form : beginsStatementForm k = true)
    (behind : Yields (match k with
      | .ifWord => readIf (readExpression bound) (readStatement bound)
      | .printWord => readPrint (readExpression bound)
      | .whileWord => readWhile (readExpression bound) (readStatement bound)
      | .forWord => readFor (readExpression bound) (readStatement bound)
      | .returnWord => readReturn (readExpression bound) word
      | .leftBrace => return .block (← readBody bound (readDeclaration bound))
      | _ => readLoopExit word) ⟨ts, l, n, ds⟩ s c') :
    Yields (readStatement (bound + 1)) ⟨word :: ts, l, n, ds⟩ s c' := by
  subst h
  rw [readStatement]
  exact (yields_takeIf form).bind behind

/-- Any other statement is an expression. -/
theorem yields_statement {c' : Cursor} (form : NotAt beginsStatementForm ts)
    (value : Yields (readExpressionStatement (readExpression bound)) ⟨ts, l, n, ds⟩ s c') :
    Yields (readStatement (bound + 1)) ⟨ts, l, n, ds⟩ s c' := by
  rw [readStatement]
  exact (yields_takeIf_none form).bind value

/-! ## Routines -/

/-- The closing brace ends a block. -/
theorem yields_body {ss : List (Stmt Site)}
    (items : Yields (readBlockItems declaration bound) c ss ⟨closed :: rest, l, n, ds⟩)
    (h : closed.kind = .rightBrace) :
    Yields (readBody bound declaration) c ss ⟨rest, l, n, ds⟩ := by
  refine items.bind ?_
  exact (yields_expect h).bind rfl

section Parameters

variable {params ps : List Token} {body : List (Stmt Site)} {brace : Token} {c' : Cursor}
  {role : RoutineRole}

/-- A routine without a name is an expression. -/
theorem yields_anonymous (h : opened.kind = .leftParen) (list : Parameters params ps)
    (h' : closed.kind = .rightParen) (h'' : brace.kind = .leftBrace)
    (block : Yields (readBody bound declaration) ⟨ts, l, n, ds⟩ body c') :
    Yields (readAnonymous bound declaration word)
      ⟨opened :: (ps ++ closed :: brace :: ts), l, n, ds⟩ (.function word params body) c' := by
  refine (yields_expect h).bind ?_
  refine (yields_parameterList list ⟨closed, rfl, h'⟩).bind ?_
  refine (yields_expect h').bind ?_
  refine (yields_expect h'').bind ?_
  exact block.bind rfl

/-- A parenthesis behind the name begins parameters. -/
theorem yields_routine (named : name.kind = .identifier) (h : opened.kind = .leftParen)
    (list : Parameters params ps) (h' : closed.kind = .rightParen) (h'' : brace.kind = .leftBrace)
    (block : Yields (readBody bound declaration) ⟨ts, l, n, ds⟩ body c') :
    Yields (readRoutine bound declaration role)
      ⟨name :: opened :: (ps ++ closed :: brace :: ts), l, n, ds⟩
      ⟨name, params, body, false⟩ c' := by
  refine (yields_expectName named).bind ?_
  refine (yields_take h).bind ?_
  refine (yields_parameterList list ⟨closed, rfl, h'⟩).bind ?_
  refine (yields_expect h').bind ?_
  refine Yields.bind (a := some params) rfl ?_
  refine (yields_expect h'').bind ?_
  exact block.bind rfl

/-- A brace behind it begins the body of a getter. -/
theorem yields_getter (named : name.kind = .identifier) (h : brace.kind = .leftBrace)
    (other : role ≠ .function)
    (block : Yields (readBody bound declaration) ⟨ts, l, n, ds⟩ body c') :
    Yields (readRoutine bound declaration role) ⟨name :: brace :: ts, l, n, ds⟩
      ⟨name, [], body, true⟩ c' := by
  have apart : NotAt (· == .leftParen) (brace :: ts) := by
    rintro _ ⟨⟩
    rw [h]
    rfl
  refine (yields_expectName named).bind ?_
  refine (yields_take_none apart).bind ?_
  dsimp only
  rw [if_neg other]
  refine Yields.bind (a := none) rfl ?_
  refine (yields_expect h).bind ?_
  exact block.bind rfl

end Parameters

/-! ## Declarations -/

/-- A semicolon behind the name leaves the variable without a value. -/
theorem yields_uninitialized (h : name.kind = .identifier) (h' : mark.kind = .semicolon) :
    Yields (readVariable expression) ⟨name :: mark :: rest, l, n, ds⟩ (.var name none)
      ⟨rest, l, n, ds⟩ := by
  have apart : NotAt (· == .equal) (mark :: rest) := by
    rintro _ ⟨⟩
    rw [h']
    rfl
  refine (yields_expectName h).bind ?_
  refine (yields_take_none apart).bind ?_
  refine Yields.bind (a := none) rfl ?_
  exact (yields_expect h').bind rfl

/-- An `=` behind it begins the initial value. -/
theorem yields_initialized {equals : Token} (h : name.kind = .identifier)
    (h' : equals.kind = .equal)
    (value : Yields expression ⟨ts, l, n, ds⟩ e ⟨mark :: rest, l, n', ds⟩)
    (h'' : mark.kind = .semicolon) :
    Yields (readVariable expression) ⟨name :: equals :: ts, l, n, ds⟩ (.var name (some e))
      ⟨rest, l, n', ds⟩ := by
  refine (yields_expectName h).bind ?_
  refine (yields_take h').bind ?_
  refine value.map.bind ?_
  exact (yields_expect h'').bind rfl

/-- A name behind `fun` is that of a function. -/
theorem yields_function {c' : Cursor} {r : Routine Site} (h : name.kind = .identifier)
    (routine : Yields (readRoutine bound declaration .function) ⟨name :: ts, l, n, ds⟩ r c') :
    Yields (readFunction bound declaration word) ⟨name :: ts, l, n, ds⟩ (.function r) c' := by
  refine (yields_isAt h).bind ?_
  exact routine.bind rfl

/-- Without one there is a routine that is the whole statement. -/
theorem yields_loneRoutine (apart : NotAt (· == .identifier) ts)
    (routine : Yields (readAnonymous bound declaration word) ⟨ts, l, n, ds⟩ e
      ⟨mark :: rest, l, n', ds⟩) (h : mark.kind = .semicolon) :
    Yields (readFunction bound declaration word) ⟨ts, l, n, ds⟩ (.expression e)
      ⟨rest, l, n', ds⟩ := by
  refine (yields_isAt_false apart).bind ?_
  exact yields_expressionStatement routine h

/-- A declaration that begins with a keyword is read by the reader for it. -/
theorem yields_declarationWord {k : Kind} {c' : Cursor} (h : word.kind = k)
    (form : beginsDeclarationForm k = true)
    (behind : Yields (match k with
      | .classWord => readClass bound (readDeclaration bound)
      | .funWord => readFunction bound (readDeclaration bound) word
      | _ => readVariable (readExpression bound)) ⟨ts, l, n, ds⟩ s c') :
    Yields (readDeclaration (bound + 1)) ⟨word :: ts, l, n, ds⟩ s c' := by
  subst h
  rw [readDeclaration]
  exact ((yields_takeIf form).bind behind).recovering

/-- Any other declaration is a statement. -/
theorem yields_declaration {c' : Cursor} (form : NotAt beginsDeclarationForm ts)
    (statement : Yields (readStatement bound) ⟨ts, l, n, ds⟩ s c') :
    Yields (readDeclaration (bound + 1)) ⟨ts, l, n, ds⟩ s c' := by
  rw [readDeclaration]
  exact ((yields_takeIf_none form).bind statement).recovering

end Statements

/-! ## Headers of classes -/

section Headers

variable {ts rest : List Token} {l : Nat} {n n' : Site} {ds : List Diagnostic}

/-- Reading the mixins of a class and what follows. -/
def readMixed {α : Type} (turns : Nat) (next : List (Reference Site) → Read α) : Read α := do
  match ← take? .lessEqual with
  | some _ => readMixins turns >>= next
  | none => next []

/-- Reading the superclass of a class and what follows. -/
def readAncestor {α : Type} (next : Option (Reference Site) → Read α) : Read α := do
  match ← take? .less with
  | some _ => do
    let ref ← newReference (← expectName .superclass)
    next (some ref)
  | none => next none

/-- Reading the members of a class. -/
def readMemberList (bound : Nat) (declaration : Read (Stmt Site)) (name : Token)
    (superclass : Option (Reference Site)) (mixins : List (Reference Site)) : Read (Stmt Site) := do
  let _ ← expect .leftBrace .beforeClassBody
  let (methods, statics) ← readMembers (readRoutine bound declaration) bound
  let _ ← expect .rightBrace .afterClassBody
  return .classDecl name superclass mixins methods statics

/-- The header of a class is read part by part, and each part hands on what it found. -/
theorem readClass_eq (bound : Nat) (declaration : Read (Stmt Site)) :
    readClass bound declaration = expectName .classItself >>= fun name =>
      readAncestor fun superclass => readMixed bound fun mixins =>
        readMemberList bound declaration name superclass mixins := rfl

/-- No superclass comes behind the mixins or the opening brace. -/
theorem Mixins.apart {mixins : List (Reference Site)} (h : Mixins mixins n ts n') {brace : Token}
    (h' : brace.kind = .leftBrace) : NotAt (· == .less) (ts ++ brace :: rest) := by
  cases h with
  | none =>
    rintro _ ⟨⟩
    rw [h']
    rfl
  | some h _ =>
    rintro _ ⟨⟩
    rw [h]
    rfl

/-- A `<` behind the name begins the superclass. -/
theorem yields_superclass {α : Type} {superclass : Option (Reference Site)}
    (h : Superclass superclass n ts n') (apart : NotAt (· == .less) rest)
    {next : Option (Reference Site) → Read α} :
    outcome (readAncestor next) ⟨ts ++ rest, l, n, ds⟩ =
      outcome (next superclass) ⟨rest, l, n', ds⟩ := by
  cases h with
  | none => exact (yields_take_none apart).go
  | some h h' =>
    refine (yields_take h).go.trans ?_
    refine (yields_expectName h').go.trans ?_
    exact yields_newReference.go

/-- The word `with` begins the mixins. -/
theorem yields_mixed {α : Type} {mixins : List (Reference Site)} (h : Mixins mixins n ts n')
    {brace : Token} (h' : brace.kind = .leftBrace) {turns : Nat} (enough : ts.length ≤ turns)
    {next : List (Reference Site) → Read α} :
    outcome (readMixed turns next) ⟨ts ++ brace :: rest, l, n, ds⟩ =
      outcome (next mixins) ⟨brace :: rest, l, n', ds⟩ := by
  cases h with
  | none =>
    have apart : NotAt (· == .lessEqual) (brace :: rest) := by
      rintro _ ⟨⟩
      rw [h']
      rfl
    exact (yields_take_none apart).go
  | some h list =>
    have stops : NotAt (· == .comma) (brace :: rest) := by
      rintro _ ⟨⟩
      rw [h']
      rfl
    have le := list.length_le
    rw [List.length_cons] at enough
    refine (yields_take h).go.trans ?_
    exact (yields_mixins list stops n (by omega)).go

/-- A class is its name, its parents and the members between its braces. -/
theorem yields_class {bound : Nat} {declaration : Read (Stmt Site)} {name opened closed : Token}
    {us vs : List Token} {n₁ n₂ n₃ : Site} {superclass : Option (Reference Site)}
    {mixins : List (Reference Site)} {methods statics : List (Routine Site)}
    (h : name.kind = .identifier) (parent : Superclass superclass n ts n₁)
    (mixed : Mixins mixins n₁ us n₂) (h' : opened.kind = .leftBrace) (enough : us.length ≤ bound)
    (members : Yields (readMembers (readRoutine bound declaration) bound) ⟨vs, l, n₂, ds⟩
      (methods, statics) ⟨closed :: rest, l, n₃, ds⟩) (h'' : closed.kind = .rightBrace) :
    Yields (readClass bound declaration) ⟨name :: (ts ++ (us ++ opened :: vs)), l, n, ds⟩
      (.classDecl name superclass mixins methods statics) ⟨rest, l, n₃, ds⟩ := by
  rw [readClass_eq]
  refine (yields_expectName h).bind ?_
  refine (yields_superclass parent (mixed.apart h')).trans ?_
  refine (yields_mixed mixed h' enough).trans ?_
  refine (yields_expect h').bind ?_
  refine members.bind ?_
  exact (yields_expect h'').bind rfl

end Headers

end LoxLang
