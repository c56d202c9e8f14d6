/-
LoxLang.Proofs.Tree.ExpressionStatement: expressions in the place of a statement.

Every expression is a statement with a semicolon behind it.  It is a declaration as well, unless it
begins with `fun` and goes on behind the routine: a declaration that begins with `fun` is read as a
lone routine, and what goes on with the routine is a fault there.

* `LeadingRoutine`: tokens that begin with a routine without a name.
* `Phrase.Leads`: what that says of an expression whose tokens begin with `fun`.

Main statement: `expression_statements`.
-/
import LoxLang.Proofs.Tree.Recognized

namespace LoxLang

/-! ## Expressions that begin with a routine -/

/-- The expression is a routine without a name. -/
def Expr.IsRoutine {ρ : Type} (e : Expr ρ) : Prop :=
  ∃ keyword params body, e = .function keyword params body

/-- The tokens of an expression begin with a routine without a name.  It is the whole of the
expression, or a token follows that goes on with it. -/
def LeadingRoutine (e : Expr Site) (n : Site) (ts : List Token) (n' : Site) : Prop :=
  ∃ word params body us n₁ vs, ts = word :: (us ++ vs) ∧ word.kind = .funWord ∧
    Derives (.routine params body) n us n₁ ∧
      (vs = [] ∧ e = .function word params body ∧ n₁ = n' ∨
        ¬ e.IsRoutine ∧ ∃ t ws, vs = t :: ws ∧ continuesExpression t.kind = true)

/-- An expression, or a part of one, begins with a routine if it begins with `fun`. -/
def Phrase.Leads (n : Site) (ts : List Token) (n' : Site) : Phrase → Prop
  | primary e | call e | unary e | operators _ e | expression e =>
    (∃ t ∈ ts.head?, t.kind = .funWord) → LeadingRoutine e n ts n'
  | _ => True

section Leading

variable {e e' : Expr Site} {n n' n'' : Site} {t : Token} {ts us : List Token}

/-- What goes on with an expression goes on behind the routine it begins with. -/
theorem LeadingRoutine.append (h : LeadingRoutine e n ts n') (other : ¬ e'.IsRoutine)
    (goes : continuesExpression t.kind = true) : LeadingRoutine e' n (ts ++ t :: us) n'' := by
  obtain ⟨word, params, body, vs, n₁, ws, rfl, kind, routine, rest⟩ := h
  refine ⟨word, params, body, vs, n₁, ws ++ t :: us, by simp, kind, routine, .inr ⟨other, ?_⟩⟩
  rcases rest with ⟨rfl, -⟩ | ⟨-, t', ws, rfl, goes'⟩
  · exact ⟨t, us, rfl, goes⟩
  · exact ⟨t', ws ++ t :: us, rfl, goes'⟩

theorem head_of_append (nonempty : 0 < ts.length)
    (word : ∃ t' ∈ (ts ++ t :: us).head?, t'.kind = .funWord) :
    ∃ t' ∈ ts.head?, t'.kind = .funWord := by
  obtain ⟨t', ts, rfl⟩ := List.exists_cons_of_length_pos nonempty
  exact word

theorem not_isRoutine_binary (l r : Expr Site) (op : Token) : ¬ (Expr.binary l op r).IsRoutine := by
  rintro ⟨keyword, params, body, same⟩
  cases same

theorem not_isRoutine_logical (l r : Expr Site) (op : Token) :
    ¬ (Expr.logical l op r).IsRoutine := by
  rintro ⟨keyword, params, body, same⟩
  cases same

theorem not_isRoutine_call (f : Expr Site) (paren : Token) (es : List (Expr Site)) :
    ¬ (Expr.call f paren es).IsRoutine := by
  rintro ⟨keyword, params, body, same⟩
  cases same

theorem not_isRoutine_get (e : Expr Site) (name : Token) : ¬ (Expr.get e name).IsRoutine := by
  rintro ⟨keyword, params, body, same⟩
  cases same

theorem not_isRoutine_set (e : Expr Site) (name : Token) (v : Expr Site) :
    ¬ (Expr.set e name v).IsRoutine := by
  rintro ⟨keyword, params, body, same⟩
  cases same

/-- A binary operator goes on with an expression. -/
theorem continues_of_level {k : Kind} {i : Nat}
    (h : k.binaryLevel? = some i ∨ k.logicalLevel? = some i) : continuesExpression k = true := by
  rcases h with h | h <;> cases k <;> first | rfl | cases h

theorem Derives.leads {φ : Phrase} (h : Derives φ n ts n') : φ.Leads n ts n' := by
  have apart {t : Token} {k : Kind} {us : List Token} (kind : t.kind = k) (other : k ≠ .funWord) :
      ¬ ∃ t' ∈ (t :: us).head?, t'.kind = .funWord := by
    rintro ⟨_, ⟨⟩, word⟩
    exact other (kind.symm.trans word)
  induction h with
  | @literal t v n h =>
    rintro ⟨_, ⟨⟩, word⟩
    rw [Token.literal?, word] at h
    cases h
  | grouping h => exact fun word => absurd word (apart h (by decide))
  | super h => exact fun word => absurd word (apart h (by decide))
  | this h => exact fun word => absurd word (apart h (by decide))
  | name h => exact fun word => absurd word (apart h (by decide))
  | @anonymous word params body n ts n' h routine _ =>
    exact fun _ => ⟨word, params, body, ts, n', [], by simp, h, routine, .inl ⟨rfl, rfl, rfl⟩⟩
  | operand _ ih => exact ih
  | called callee h _ _ ih _ =>
    intro word
    have first := ih (head_of_append (callee.begins rfl).length_pos word)
    exact first.append (not_isRoutine_call _ _ _) (by rw [h]; rfl)
  | property object h _ ih =>
    intro word
    have first := ih (head_of_append (object.begins rfl).length_pos word)
    exact first.append (not_isRoutine_get _ _) (by rw [h]; rfl)
  | prefixed h =>
    rcases h with h | h
    · exact fun word => absurd word (apart h (by decide))
    · exact fun word => absurd word (apart h (by decide))
  | unprefixed _ ih => exact ih
  | tightest _ ih => exact ih
  | tighter _ ih => exact ih
  | binary left h _ ih _ =>
    intro word
    have first := ih (head_of_append (left.begins rfl).length_pos word)
    exact first.append (not_isRoutine_binary _ _ _) (continues_of_level (.inl h))
  | logical left h _ ih _ =>
    intro word
    have first := ih (head_of_append (left.begins rfl).length_pos word)
    exact first.append (not_isRoutine_logical _ _ _) (continues_of_level (.inr h))
  | unassigned _ ih => exact ih
  | assign h => exact fun word => absurd word (apart h (by decide))
  | set object h _ _ _ ih _ =>
    intro word
    have first := ih (head_of_append (object.begins rfl).length_pos word)
    exact first.append (not_isRoutine_set _ _ _) (by rw [h]; rfl)
  | _ => exact trivial

end Leading

/-! ## Faults behind a routine -/

section Faults

variable {α : Type} {t : Token} {ts : List Token} {l : Nat} {n : Site} {ds : List Diagnostic}

/-- Where another mark stands than the one that is asked for, a reader complains and gives up. -/
theorem outcome_expect {mark : Mark} {gap : Gap} {next : Token → Read α}
    (other : t.kind ≠ mark.kind) :
    outcome (expect mark gap >>= next) ⟨t :: ts, l, n, ds⟩ =
      (.error .atFault,
        ⟨t :: ts, l, n, ds ++ [.onToken t (.grammatical (.missingMark mark gap))]⟩) := by
  have none : NotAt (· == mark.kind) (t :: ts) := by
    rintro _ ⟨⟩
    exact beq_false_of_ne other
  unfold expect require
  rw [bind_assoc]
  exact (yields_take_none none).go

end Faults

/-! ## The two places of an expression statement -/

section Places

variable {w us rest : List Token} {word mark t : Token} {l bound : Nat} {n n' n₁ : Site}
  {e : Expr Site} {params : List Token} {body : List (Stmt Site)} {ds : List Diagnostic}

/-- Tokens that are read up to their end and without a complaint as an expression are one. -/
theorem derives_of_expression
    (accepted : Yields (readExpression (nestingBound w)) ⟨w, l, n, []⟩ e ⟨[], l, n', []⟩) :
    Derives (.expression e) n w n' := by
  have known := (recognizes_all (nestingBound w)).1 (w.length + 1)
    (by unfold nestingBound; omega) (by unfold nestingBound; omega)
  obtain ⟨ts, split, derived⟩ := ((known _).ok accepted).2 (Nat.lt_succ_self _) rfl
  obtain rfl : w = ts := by simpa using split
  exact derived

theorem notAt_identifier (derived : Derives (.routine params body) n us n') (rest : List Token) :
    NotAt (· == .identifier) (us ++ rest) :=
  .of_beginsWith ((derived.begins rfl).append rest) fun k has => by rw [beq_iff_eq.mp has]; rfl

/-- A routine and nothing else is a declaration with a semicolon behind it. -/
theorem yields_lone (kind : word.kind = .funWord) (derived : Derives (.routine params body) n us n')
    (enough : 3 * us.length ≤ bound) (semicolon : mark.kind = .semicolon) :
    Yields (readDeclaration (bound + 1)) ⟨word :: (us ++ mark :: rest), l, n, ds⟩
      (.expression (.function word params body)) ⟨rest, l, n', ds⟩ := by
  have routine := (derived.isRead bound (mark :: rest) l ds enough).1 word
  exact yields_declarationWord kind rfl
    (yields_loneRoutine (notAt_identifier derived _) routine semicolon)

/-- A routine with anything else behind it is no declaration. -/
theorem yields_missing (kind : word.kind = .funWord)
    (derived : Derives (.routine params body) n us n') (enough : 3 * us.length ≤ bound)
    (other : t.kind ≠ .semicolon) :
    Yields (readDeclaration (bound + 1)) ⟨word :: (us ++ t :: rest), l, n, ds⟩ .missing
      ⟨skipFaulty (t :: rest), l, n',
        ds ++ [.onToken t (.grammatical (.missingMark .semicolon .afterExpression))]⟩ := by
  have routine := (derived.isRead bound (t :: rest) l ds enough).1 word
  let gone : Cursor := ⟨t :: rest, l, n',
    ds ++ [.onToken t (.grammatical (.missingMark .semicolon .afterExpression))]⟩
  have gaveUp : outcome (readDeclarationForm bound (readExpression bound) (readStatement bound)
      (readDeclaration bound)) ⟨word :: (us ++ t :: rest), l, n, ds⟩ = (.error .atFault, gone) := by
    refine (yields_takeIf (by rw [kind]; rfl)).go.trans ?_
    dsimp only
    rw [kind]
    refine (yields_isAt_false (notAt_identifier derived _)).go.trans ?_
    exact routine.go.trans (outcome_expect other)
  rw [readDeclaration]
  exact yields_recovering gaveUp

/-- An expression with a semicolon behind it is a statement. -/
theorem yields_stated (derived : Derives (.expression e) n w n')
    (semicolon : mark.kind = .semicolon) (enough : 3 * w.length + 4 < bound) :
    Yields (readStatement bound) ⟨w ++ mark :: rest, l, n, ds⟩ (.expression e)
      ⟨rest, l, n', ds⟩ := by
  have read := (derived.expressionStatement semicolon).isRead bound rest l ds
    (by simp; omega) nofun
  rwa [List.append_assoc] at read

/-- An expression that begins with anything but `fun` is a declaration as well. -/
theorem yields_declared (derived : Derives (.expression e) n w n')
    (noFun : ∀ t ∈ w.head?, t.kind ≠ .funWord) (semicolon : mark.kind = .semicolon)
    (enough : 3 * w.length + 4 < bound) :
    Yields (readDeclaration (bound + 1)) ⟨w ++ mark :: rest, l, n, ds⟩ (.expression e)
      ⟨rest, l, n', ds⟩ := by
  have form : NotAt beginsDeclarationForm (w ++ mark :: rest) := by
    obtain ⟨t, us, rfl, begins⟩ := derived.begins rfl
    rintro _ ⟨⟩
    have other := noFun t rfl
    revert begins other
    cases t.kind <;> simp [Phrase.begins, beginsExpression, beginsOperand, beginsDeclarationForm]
  exact yields_declaration form (yields_stated derived semicolon enough)

end Places

/-- Tokens that are read completely and without a complaint as an expression are, with a semicolon
behind them, the expression as a statement wherever a statement is read.  Where a declaration is
read they are so too if and only if they do not begin with `fun` or are a routine and nothing else.
Otherwise the declaration is missing, and the token behind the routine is complained about. -/
theorem expression_statements {w : List Token} {endLine : Nat} {n n' : Site} {e : Expr Site}
    (accepted :
      Yields (readExpression (nestingBound w)) ⟨w, endLine, n, []⟩ e ⟨[], endLine, n', []⟩)
    {mark : Token} (semicolon : mark.kind = .semicolon) {bound : Nat}
    (enough : nestingBound (w ++ [mark]) ≤ bound) (rest : List Token) (l : Nat)
    (ds : List Diagnostic) :
    let c : Cursor := ⟨w ++ mark :: rest, l, n, ds⟩
    let c' : Cursor := ⟨rest, l, n', ds⟩
    let isDeclared := (∀ t ∈ w.head?, t.kind ≠ .funWord) ∨ e.IsRoutine
    Yields (readStatement bound) c (.expression e) c' ∧
      (Yields (readDeclaration bound) c (.expression e) c' ↔ isDeclared) ∧
      (¬ isDeclared → ∃ us t vs n₁, w = us ++ t :: vs ∧
        Yields (readDeclaration bound) c .missing ⟨skipFaulty (t :: (vs ++ mark :: rest)), l, n₁,
          ds ++ [.onToken t (.grammatical (.missingMark .semicolon .afterExpression))]⟩) := by
  intro c c' isDeclared
  have derived := derives_of_expression accepted
  rw [nestingBound, List.length_append, List.length_singleton] at enough
  obtain ⟨bound, rfl⟩ : ∃ b, bound = b + 1 := ⟨bound - 1, by omega⟩
  have missing (h : ¬ isDeclared) : ∃ us t vs n₁, w = us ++ t :: vs ∧
      Yields (readDeclaration (bound + 1)) c .missing
        ⟨skipFaulty (t :: (vs ++ mark :: rest)), l, n₁,
          ds ++ [.onToken t (.grammatical (.missingMark .semicolon .afterExpression))]⟩ := by
    obtain ⟨first, other⟩ := not_or.mp h
    obtain ⟨word, params, body, us, n₁, vs, rfl, kind, routine, alone | ⟨-, t, vs, rfl, goes⟩⟩ :=
      derived.leads (by simpa using first)
    · exact absurd ⟨_, _, _, alone.2.1⟩ other
    · refine ⟨word :: us, t, vs, n₁, rfl, ?_⟩
      have few : 3 * us.length ≤ bound := by
        simp only [List.length_cons, List.length_append] at enough
        omega
      have faulty : t.kind ≠ .semicolon := fun same => by
        rw [same] at goes
        cases goes
      simpa [c] using yields_missing kind routine few faulty
  have declared (h : isDeclared) : Yields (readDeclaration (bound + 1)) c (.expression e) c' := by
    by_cases first : ∀ t ∈ w.head?, t.kind ≠ .funWord
    · exact yields_declared derived first semicolon (by omega)
    · obtain ⟨word, params, body, us, n₁, vs, rfl, kind, routine, ⟨rfl, rfl, rfl⟩ | ⟨other, -⟩⟩ :=
        derived.leads (by simpa using first)
      · have few : 3 * us.length ≤ bound := by
          simp only [List.length_cons, List.append_nil] at enough
          omega
        simpa [c] using yields_lone kind routine few semicolon
      · exact absurd (h.resolve_left first) other
  refine ⟨yields_stated derived semicolon (by omega), ⟨fun read => ?_, declared⟩, missing⟩
  by_contra other
  obtain ⟨us, t, vs, n₁, -, gone⟩ := missing other
  cases read.symm.trans gone

/-- A mark on the first line. -/
def markOf (kind : Kind) (lexeme : String) : Token := ⟨kind, lexeme, .nil, 1⟩

/-- A routine that is called where it stands, `fun () \x7b\x7d ()`. -/
def calledRoutine : List Token :=
  [markOf .funWord "fun", markOf .leftParen "(", markOf .rightParen ")", markOf .leftBrace "\x7b",
    markOf .rightBrace "\x7d", markOf .leftParen "(", markOf .rightParen ")"]

/-- With a semicolon behind it the call is a statement, but no declaration. -/
theorem expression_statements_calledRoutine :
    let call : Expr Site :=
      .call (.function (markOf .funWord "fun") [] []) (markOf .rightParen ")") []
    let c : Cursor := ⟨calledRoutine ++ [markOf .semicolon ";"], 1, 0, []⟩
    Yields (readExpression (nestingBound calledRoutine)) ⟨calledRoutine, 1, 0, []⟩ call
        ⟨[], 1, 0, []⟩ ∧
      Yields (readStatement 27) c (.expression call) ⟨[], 1, 0, []⟩ ∧
      ¬ Yields (readDeclaration 27) c (.expression call) ⟨[], 1, 0, []⟩ := by
  intro call c
  have accepted :
      Yields (readExpression (nestingBound calledRoutine)) ⟨calledRoutine, 1, 0, []⟩ call
      ⟨[], 1, 0, []⟩ := rfl
  have semicolon : (markOf .semicolon ";").kind = .semicolon := rfl
  have enough : nestingBound (calledRoutine ++ [markOf .semicolon ";"]) ≤ 27 := by decide
  obtain ⟨stated, declared, -⟩ := expression_statements accepted semicolon enough [] 1 []
  refine ⟨accepted, stated, fun read => ?_⟩
  rcases declared.mp read with noFun | routine
  · exact noFun _ rfl rfl
  · exact not_isRoutine_call _ _ _ routine

end LoxLang
