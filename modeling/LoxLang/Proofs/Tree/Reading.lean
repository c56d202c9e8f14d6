/-
LoxLang.Proofs.Tree.Reading: what every reader of tokens does, whether it succeeds or not.

A reader only moves on, gives out new sites, and complains before it gives up; what it yields is
formed, and its references have the sites that were given out.  This holds of every text, with or
without faults in it.

* `Cursor.Onward`: a later position of a cursor.
* `Form`, `Reads`: what a reader yields, beside sites that were taken before.
* `Reads.andThen`, `Reads.last`: one reader after another.

Main statement: `reads_program`.
-/
import LoxLang.Proofs.Outcome
import LoxLang.Proofs.Tree.Formed
import LoxLang.Tree.Grammar

namespace LoxLang

/-! ## Moving on -/

/-- A later position of a cursor. -/
structure Cursor.Onward (c c' : Cursor) : Prop where
  rest : c'.rest <:+ c.rest
  endLine : c'.endLine = c.endLine
  sites : c.nextSite ≤ c'.nextSite
  complaints : c.diagnostics <+: c'.diagnostics

namespace Cursor.Onward

variable {c c' c'' : Cursor}

/-- Standing still is moving on. -/
theorem refl (c : Cursor) : c.Onward c :=
  ⟨List.suffix_refl _, rfl, Nat.le_refl _, List.prefix_refl _⟩

/-- Moving on and on is moving on. -/
theorem trans (first : c.Onward c') (second : c'.Onward c'') : c.Onward c'' :=
  ⟨second.rest.trans first.rest, second.endLine.trans first.endLine,
    Nat.le_trans first.sites second.sites, first.complaints.trans second.complaints⟩

/-- Complaints are never taken back. -/
theorem complained (first : c.Onward c') (second : c'.Onward c'')
    (new : c'.diagnostics ≠ c''.diagnostics) : c.diagnostics ≠ c''.diagnostics := by
  intro same
  refine new (second.complaints.eq_of_length_le ?_)
  rw [← same]
  exact first.complaints.length_le

end Cursor.Onward

/-! ## Readers -/

/-- What the results of a reader look like, and which sites their references have. -/
structure Form (α : Type) where
  formed : α → Prop
  sites : α → List Site

/-- The form of results without references. -/
@[simp] def Form.plain {α : Type} (formed : α → Prop) : Form α := ⟨formed, fun _ => []⟩

section Readers

variable {α β : Type} (T : Kind → Token → Prop)

/-- A reader of tokens moves on and yields results of a form.  Beside the sites that it gives out
the result has some that were taken before. -/
def Reads (taken : List Site) (read : Read α) (form : Form α) : Prop :=
  ∀ c lo, lo ≤ c.nextSite → (∀ t ∈ c.rest, T t.kind t) → Fresh lo c.nextSite taken →
    Ends read c
      (fun a c' => c.Onward c' ∧ form.formed a ∧ Fresh lo c'.nextSite (form.sites a))
      (fun e c' => c.Onward c' ∧ (e = .atFault → c.diagnostics ≠ c'.diagnostics))

variable {T} {taken : List Site} {read : Read α} {next : α → Read β} {f : Form α} {g : Form β}

/-- A result of the form may be yielded at once, with the sites taken before. -/
theorem Reads.pure {a : α} (formed : f.formed a) (sites : taken.Perm (f.sites a)) :
    Reads T taken (Pure.pure a) f :=
  fun c _ _ _ fresh => ⟨.refl c, formed, fresh.perm sites⟩

/-- One reader after another. -/
theorem Reads.andThen (first : Reads T [] read f)
    (second : ∀ a, f.formed a → Reads T (taken ++ f.sites a) (next a) g) :
    Reads T taken (read >>= next) g := by
  intro c lo le tokens fresh
  refine (first c c.nextSite (Nat.le_refl _) tokens .nil).bind (fun a c' _ h => ?_)
    fun e c' h => h
  obtain ⟨onward, formed, own⟩ := h
  have tokens' : ∀ t ∈ c'.rest, T t.kind t := fun t mem => tokens t (onward.rest.subset mem)
  refine (second a formed c' lo (Nat.le_trans le onward.sites) tokens'
    (fresh.append own le onward.sites)).mono ?_ ?_
  · rintro b c'' - ⟨onward', rest⟩
    exact ⟨onward.trans onward', rest⟩
  · rintro e c'' ⟨onward', new⟩
    exact ⟨onward.trans onward', fun h => onward.complained onward' (new h)⟩

/-- The last reader of a row. -/
theorem Reads.last {form : Form α} (reads : Reads T [] read f)
    (fits : ∀ a, f.formed a → form.formed a ∧ (taken ++ f.sites a).Perm (form.sites a)) :
    Reads T taken read form := by
  have row : Reads T taken (read >>= Pure.pure) form :=
    reads.andThen fun a formed => .pure (fits a formed).1 (fits a formed).2
  rwa [bind_pure] at row

/-- What is made of a result has the form that is told, and its sites. -/
theorem Reads.map {h : α → β} (reads : Reads T [] read f)
    (fits : ∀ a, f.formed a → g.formed (h a) ∧ (taken ++ f.sites a).Perm (g.sites (h a))) :
    Reads T taken (h <$> read) g := by
  rw [map_eq_pure_bind]
  exact reads.andThen fun a formed => .pure (fits a formed).1 (fits a formed).2

/-! ## Looking, moving and giving up -/

/-- To look takes no site and moves no cursor. -/
theorem reads_isAt (kind : Kind) : Reads T [] (isAt kind) (.plain fun _ => True) :=
  fun c _ _ _ _ => ⟨.refl c, trivial, .nil⟩

theorem reads_isAtEnd : Reads T [] isAtEnd (.plain fun _ => True) :=
  fun c _ _ _ _ => ⟨.refl c, trivial, .nil⟩

/-- A token that is consumed is one of the text, and of an accepted kind. -/
theorem reads_takeIf (accept : Kind → Bool) :
    Reads T [] (takeIf accept)
      (.plain fun o => ∀ t ∈ o, T t.kind t ∧ accept t.kind = true) := by
  intro c lo _ tokens _
  rw [takeIf, ends_bind, ends_get]
  obtain ⟨rest, endLine, nextSite, diagnostics⟩ := c
  cases rest with
  | nil => exact ⟨.refl _, by rintro _ ⟨⟩, .nil⟩
  | cons t rest =>
    by_cases h : accept t.kind = true
    · simp only [h, if_true]
      refine ⟨⟨List.suffix_cons t rest, rfl, Nat.le_refl _, List.prefix_refl _⟩, ?_, .nil⟩
      rintro _ ⟨⟩
      exact ⟨tokens t List.mem_cons_self, h⟩
    · simp only [h]
      exact ⟨.refl _, by rintro _ ⟨⟩, .nil⟩

theorem reads_take (kind : Kind) :
    Reads T [] (take? kind) (.plain fun o => ∀ t ∈ o, T kind t) :=
  (reads_takeIf (· == kind)).last fun o formed => ⟨fun t mem => by
    obtain ⟨ok, same⟩ := formed t mem
    rwa [beq_iff_eq.mp same] at ok, .refl _⟩

/-- Where a reader gives up no result has to be told of. -/
theorem reads_failAt (t : Token) (fault : SyntaxFault) : Reads T taken (failAt t fault) f := by
  intro c lo _ _ _
  refine ⟨⟨List.suffix_refl _, rfl, Nat.le_refl _, List.prefix_append _ _⟩, fun _ => ?_⟩
  simp

theorem reads_fail (fault : SyntaxFault) : Reads T taken (fail fault) f := by
  intro c lo le tokens fresh
  have failed : Reads T taken (failAt c.next fault) f := reads_failAt c.next fault
  exact failed c lo le tokens fresh

/-- Nor where the bound on nesting is spent. -/
theorem reads_outOfBound : Reads T taken outOfBound f :=
  fun c _ _ _ _ => ⟨.refl c, by simp⟩

/-- What is required is of that kind if the reader goes on. -/
theorem reads_require (kind : Kind) (fault : SyntaxFault) :
    Reads T [] (require kind fault) (.plain fun t => T kind t) := by
  refine (reads_take kind).andThen fun o formed => ?_
  cases o with
  | none => exact reads_fail fault
  | some t => exact .pure (formed t rfl) (.refl _)

theorem reads_expect (mark : Mark) (gap : Gap) :
    Reads T [] (expect mark gap) (.plain fun t => T mark.kind t) :=
  reads_require mark.kind _

theorem reads_expectName (role : NameRole) :
    Reads T [] (expectName role) (.plain fun t => T .identifier t) :=
  reads_require .identifier _

/-- The form of references that stand on tokens of a kind. -/
@[simp] def referenceForm (T : Kind → Token → Prop) (kind : Kind) : Form (Reference Site) :=
  ⟨fun ref => T kind ref.token, fun ref => [ref.mark]⟩

/-- A reference takes the next site, and stands on a token of its kind. -/
theorem reads_newReference {kind : Kind} {t : Token} (h : T kind t) :
    Reads T [] (newReference t) (referenceForm T kind) := by
  intro c lo le _ _
  refine ⟨⟨List.suffix_refl _, rfl, Nat.le_succ _, List.prefix_refl _⟩, h, ?_⟩
  exact (Fresh.range c.nextSite 1).widen le (Nat.le_refl _)

/-- A tree that takes more sites when it is completed. -/
theorem reads_withSites {act : StateM Site α} (sites : List Site) (same : taken.Perm sites)
    (formed : ∀ n, f.formed (act n).1) (grown : ∀ n, Grown n sites (f.sites (act n).1) (act n).2) :
    Reads T taken (withSites act) f := by
  intro c lo le _ fresh
  obtain ⟨le', fresh'⟩ := (grown c.nextSite).fresh le (fresh.perm same)
  exact ⟨⟨List.suffix_refl _, rfl, le', List.prefix_refl _⟩, formed c.nextSite, fresh'⟩

/-- Behind a fault, reading goes on with a later part of the text. -/
theorem skipFaulty_suffix : ∀ ts : List Token, skipFaulty ts <:+ ts
  | [] => List.suffix_refl _
  | t :: ts => by
    rw [skipFaulty]
    split
    · exact List.suffix_cons t ts
    · exact (skipFaulty_suffix ts).trans (List.suffix_cons t ts)

/-- The form of a part that may be absent. -/
@[simp] def Form.option (f : Form α) : Form (Option α) :=
  ⟨fun o => ∀ a ∈ o, f.formed a, fun o => (o.map f.sites).getD []⟩

/-- A result that is there is one that may be there. -/
theorem Reads.option (reads : Reads T [] read f) : Reads T [] (some <$> read) f.option :=
  reads.map fun a formed => ⟨by simpa using formed, .refl _⟩

end Readers

/-! ## The forms of trees -/

section Trees

variable (T : Kind → Token → Prop)

@[simp] def exprForm : Form (Expr Site) := ⟨Expr.Formed T, fun e => sitesOf e.references⟩

@[simp] def exprsForm : Form (List (Expr Site)) :=
  ⟨Expr.FormedAll T, fun es => sitesOf (Expr.referencesAll es)⟩

@[simp] def stmtForm : Form (Stmt Site) := ⟨Stmt.Formed T, fun s => sitesOf s.references⟩

/-- The form of a statement that is no declaration. -/
@[simp] def branchForm : Form (Stmt Site) :=
  ⟨fun s => s.Formed T ∧ s.IsClosed, fun s => sitesOf s.references⟩

@[simp] def stmtsForm : Form (List (Stmt Site)) :=
  ⟨Stmt.FormedAll T, fun ss => sitesOf (Stmt.referencesAll ss)⟩

@[simp] def routineForm : Form (Routine Site) := ⟨Routine.Formed T, fun r => sitesOf r.references⟩

/-- The form of a list of references to variables. -/
@[simp] def mixinsForm : Form (List (Reference Site)) :=
  ⟨fun refs => ∀ ref ∈ refs, T .identifier ref.token, fun refs => refs.map Reference.mark⟩

/-- The form of the methods and the static methods of a class. -/
@[simp] def membersForm : Form (List (Routine Site) × List (Routine Site)) :=
  ⟨fun ms => Routine.FormedAll T ms.1 ∧ Routine.FormedAll T ms.2,
    fun ms => sitesOf (Routine.referencesAll ms.1) ++ sitesOf (Routine.referencesAll ms.2)⟩

end Trees

section Rules

variable {T : Kind → Token → Prop} {expression : Read (Expr Site)}
  {statement declaration : Read (Stmt Site)}

/-- A faulty declaration leaves a missing statement, which has no sites. -/
theorem reads_recovering {read : Read (Stmt Site)} (reads : Reads T [] read (stmtForm T)) :
    Reads T [] (recovering read) (stmtForm T) := by
  intro c lo le tokens fresh
  rw [recovering, ends_tryCatch]
  refine (reads c lo le tokens fresh).mono (fun _ _ _ h => h) fun e c' ⟨onward, new⟩ => ?_
  cases e with
  | atBound => exact ⟨onward, by simp⟩
  | atFault =>
    refine ⟨onward.trans ⟨skipFaulty_suffix _, rfl, Nat.le_refl _, List.prefix_refl _⟩, trivial, ?_⟩
    exact .nil

/-! ## Lists of names -/

/-- Parameters are names, and take no site. -/
theorem reads_parameters (allowed : Nat) :
    Reads T [] (readParameters allowed) (.plain fun ps => ∀ p ∈ ps, T .identifier p) := by
  induction allowed with
  | zero => exact reads_fail _
  | succ allowed ih =>
    refine (reads_expectName _).andThen fun name hn => ?_
    refine (reads_take _).andThen fun comma _ => ?_
    cases comma with
    | none => exact .pure (List.forall_mem_singleton.mpr hn) (.refl _)
    | some _ =>
      refine ih.andThen fun names hns => .pure ?_ (.refl _)
      exact List.forall_mem_cons.mpr ⟨hn, hns⟩

theorem reads_parameterList :
    Reads T [] readParameterList (.plain fun ps => ∀ p ∈ ps, T .identifier p) := by
  refine (reads_isAt _).andThen fun close _ => ?_
  cases close with
  | true => exact .pure (by simp) (.refl _)
  | false => exact reads_parameters maxListed

/-- Mixins are names with a site each. -/
theorem reads_mixins (bound : Nat) : Reads T [] (readMixins bound) (mixinsForm T) := by
  induction bound with
  | zero => exact reads_outOfBound
  | succ bound ih =>
    refine (reads_expectName _).andThen fun name hn => ?_
    refine (reads_newReference hn).andThen fun ref hr => ?_
    refine (reads_take _).andThen fun comma _ => ?_
    cases comma with
    | none => exact .pure (List.forall_mem_singleton.mpr hr) (.refl _)
    | some _ =>
      refine ih.andThen fun refs hrs => .pure ?_ (.refl _)
      exact List.forall_mem_cons.mpr ⟨hr, hrs⟩

/-! ## Bodies and routines -/

/-- The declarations of a block have sites that are apart, since each takes later ones. -/
theorem reads_blockItems (decl : Reads T [] declaration (stmtForm T)) :
    ∀ bound, Reads T [] (readBlockItems declaration bound) (stmtsForm T) := by
  intro bound
  induction bound with
  | zero => exact reads_outOfBound
  | succ bound ih =>
    refine (reads_isAt _).andThen fun close _ => ?_
    refine reads_isAtEnd.andThen fun ended _ => ?_
    split
    · exact .pure trivial (.refl _)
    · refine decl.andThen fun first hf => ?_
      refine ih.andThen fun rest hr => .pure ⟨hf, hr⟩ ?_
      simp [Stmt.referencesAll]

/-- The braces of a block take no site. -/
theorem reads_body (decl : Reads T [] declaration (stmtForm T)) (bound : Nat) :
    Reads T [] (readBody bound declaration) (stmtsForm T) := by
  refine (reads_blockItems decl bound).andThen fun items hi => ?_
  refine (reads_expect _ _).andThen fun _ _ => .pure hi ?_
  simp

/-- The sites of a routine are those of its body. -/
theorem reads_anonymous (decl : Reads T [] declaration (stmtForm T)) (bound : Nat)
    (keyword : Token) : Reads T [] (readAnonymous bound declaration keyword) (exprForm T) := by
  refine (reads_expect _ _).andThen fun _ _ => ?_
  refine reads_parameterList.andThen fun params hp => ?_
  refine (reads_expect _ _).andThen fun _ _ => ?_
  refine (reads_expect _ _).andThen fun _ _ => ?_
  exact (reads_body decl bound).map fun body hb => ⟨⟨hp, hb⟩, .refl _⟩

/-- A getter has no parameters. -/
theorem reads_routine (decl : Reads T [] declaration (stmtForm T)) (bound : Nat)
    (role : RoutineRole) : Reads T [] (readRoutine bound declaration role) (routineForm T) := by
  refine (reads_expectName _).andThen fun name hn => ?_
  refine (reads_take _).andThen fun paren _ => ?_
  have rest : ∀ params : Option (List Token), (∀ p ∈ params.getD [], T .identifier p) →
      Reads T [] (do
        let _ ← expect .leftBrace (.beforeRoutineBody role)
        return ⟨name, params.getD [], ← readBody bound declaration, params.isNone⟩)
        (routineForm T) := by
    intro params hp
    refine (reads_expect _ _).andThen fun _ _ => ?_
    refine (reads_body decl bound).map fun body hb => ⟨⟨hn, hp, fun h => ?_, hb⟩, .refl _⟩
    cases params with
    | none => rfl
    | some _ => exact absurd h (by simp)
  cases paren with
  | some _ =>
    refine reads_parameterList.andThen fun params hp => ?_
    exact (reads_expect _ _).andThen fun _ _ => rest (some params) hp
  | none =>
    dsimp only
    split
    · exact (reads_fail (f := .plain fun _ => False) _).andThen fun _ none => none.elim
    · exact rest none (by simp)

/-! ## Expressions -/

/-- Arguments have sites that are apart, since each takes later ones. -/
theorem reads_arguments (expr : Reads T [] expression (exprForm T)) :
    ∀ allowed, Reads T [] (readArguments expression allowed) (exprsForm T) := by
  intro allowed
  induction allowed with
  | zero => exact reads_fail _
  | succ allowed ih =>
    refine expr.andThen fun first hf => ?_
    refine (reads_take _).andThen fun comma _ => ?_
    cases comma with
    | none => exact .pure ⟨hf, trivial⟩ (by simp [Expr.referencesAll])
    | some _ =>
      refine ih.map fun rest hr => ⟨⟨hf, hr⟩, ?_⟩
      simp [Expr.referencesAll]

theorem reads_argumentList (expr : Reads T [] expression (exprForm T)) :
    Reads T [] (readArgumentList expression) (exprsForm T) := by
  refine (reads_isAt _).andThen fun close _ => ?_
  cases close with
  | true => exact .pure trivial (.refl _)
  | false => exact reads_arguments expr maxListed

/-- An operand is of the form that its first token begins. -/
theorem reads_primary (expr : Reads T [] expression (exprForm T))
    (decl : Reads T [] declaration (stmtForm T)) (bound : Nat) :
    Reads T [] (readPrimary bound expression declaration) (exprForm T) := by
  refine (reads_takeIf _).andThen fun o ho => ?_
  cases o with
  | none => exact reads_fail _
  | some t =>
    obtain ⟨ht, _⟩ := ho t rfl
    dsimp only
    split
    · exact .pure trivial (.refl _)
    · exact .pure trivial (.refl _)
    · exact .pure trivial (.refl _)
    · refine expr.andThen fun inner hi => ?_
      refine (reads_expect _ _).andThen fun _ _ => .pure hi ?_
      simp [Expr.references]
    · rename_i kind
      rw [kind] at ht
      refine (reads_expect _ _).andThen fun _ _ => ?_
      refine (reads_expectName _).andThen fun _ _ => ?_
      exact (reads_newReference ht).map fun ref hr => ⟨hr, .refl _⟩
    · rename_i kind
      rw [kind] at ht
      exact (reads_newReference ht).map fun ref hr => ⟨hr, .refl _⟩
    · rename_i kind
      rw [kind] at ht
      exact (reads_newReference ht).map fun ref hr => ⟨hr, .refl _⟩
    · exact reads_anonymous decl bound t
    · exact .pure trivial (.refl _)

/-- The sites of the callee were taken before, and are kept in what is made of it. -/
theorem reads_chain (expr : Reads T [] expression (exprForm T)) :
    ∀ bound e, e.Formed T →
    Reads T (sitesOf e.references) (readChain expression bound e) (exprForm T)
  | 0, _, _ => reads_outOfBound
  | bound + 1, e, he => by
    refine (reads_takeIf _).andThen fun o _ => ?_
    cases o with
    | none => exact .pure he (by simp)
    | some t =>
      dsimp only
      split
      · refine (reads_argumentList expr).andThen fun args ha => ?_
        refine (reads_expect _ _).andThen fun paren _ => ?_
        have tail := reads_chain expr bound (.call e paren args) ⟨he, ha⟩
        simpa [Expr.references] using tail
      · refine (reads_expectName _).andThen fun name _ => ?_
        have tail := reads_chain expr bound (.get e name) he
        simpa [Expr.references] using tail

/-- A sign in front of an operand takes no site. -/
theorem reads_unary {operand : Read (Expr Site)} (operands : Reads T [] operand (exprForm T)) :
    ∀ bound, Reads T [] (readUnary operand bound) (exprForm T) := by
  intro bound
  induction bound with
  | zero => exact reads_outOfBound
  | succ bound ih =>
    refine (reads_takeIf _).andThen fun o _ => ?_
    cases o with
    | none => exact operands
    | some op => exact ih.map fun e he => ⟨he, .refl _⟩

/-- What joins two operands is well-formed if they are. -/
theorem formed_combine {level : OperatorLevel} {l r : Expr Site} (hl : l.Formed T)
    (hr : r.Formed T) (op : Token) : (level.combine l op r).Formed T := by
  unfold OperatorLevel.combine
  split <;> exact ⟨hl, hr⟩

/-- Its references are those of the left operand and then those of the right one. -/
theorem references_combine (level : OperatorLevel) (l r : Expr Site) (op : Token) :
    (level.combine l op r).references = l.references ++ r.references := by
  unfold OperatorLevel.combine
  split <;> rfl

/-- The sites of the left operand were taken before, and are kept. -/
theorem reads_operatorTail (level : OperatorLevel) {operand : Read (Expr Site)}
    (operands : Reads T [] operand (exprForm T)) :
    ∀ bound e, e.Formed T →
      Reads T (sitesOf e.references) (readOperatorTail level operand bound e) (exprForm T)
  | 0, _, _ => reads_outOfBound
  | bound + 1, e, he => by
    refine (reads_takeIf _).andThen fun o _ => ?_
    cases o with
    | none => exact .pure he (by simp)
    | some op =>
      refine operands.andThen fun right hr => ?_
      have tail := reads_operatorTail level operands bound (level.combine e op right)
        (formed_combine he hr op)
      simpa [references_combine] using tail

/-- The operators level by level. -/
theorem reads_operators {operand : Read (Expr Site)} (operands : Reads T [] operand (exprForm T))
    (bound : Nat) : ∀ levels, Reads T [] (readOperators bound operand levels) (exprForm T)
  | [] => operands
  | level :: tighter => by
    have tight := reads_operators operands bound tighter
    exact tight.andThen fun left hl => reads_operatorTail level tight bound left hl

/-- An assignment takes over the reference of its target: no site is lost or taken twice. -/
theorem reads_assignment (expr : Reads T [] expression (exprForm T))
    (decl : Reads T [] declaration (stmtForm T)) (bound : Nat) :
    Reads T [] (readAssignment bound expression declaration) (exprForm T) := by
  have operands : Reads T [] (do
      readChain expression bound (← readPrimary bound expression declaration)) (exprForm T) :=
    (reads_primary expr decl bound).andThen fun e he => reads_chain expr bound e he
  refine (reads_operators (reads_unary operands bound) bound operatorLevels).andThen
    fun target ht => ?_
  refine (reads_take _).andThen fun equals _ => ?_
  cases equals with
  | none => exact .pure ht (by simp)
  | some equals =>
    refine expr.andThen fun value hv => ?_
    split
    · exact .pure ⟨ht, hv⟩ (by simp [Expr.references])
    · exact .pure ⟨ht, hv⟩ (by simp [Expr.references])
    · exact reads_failAt _ _

/-! ## Statements -/

/-- An expression as a statement declares nothing, so that it may be a branch. -/
theorem reads_expressionStatement (expr : Reads T [] expression (exprForm T)) :
    Reads T [] (readExpressionStatement expression) (branchForm T) := by
  refine expr.andThen fun e he => ?_
  exact (reads_expect _ _).andThen fun _ _ => .pure ⟨he, rfl⟩ (by simp [Stmt.references])

/-- A variable declaration is no branch. -/
theorem reads_variable (expr : Reads T [] expression (exprForm T)) :
    Reads T [] (readVariable expression) (stmtForm T) := by
  refine (reads_expectName _).andThen fun name hn => ?_
  refine (reads_take _).andThen fun equals _ => ?_
  cases equals with
  | none =>
    exact (reads_expect _ _).andThen fun _ _ => .pure hn (by simp [Stmt.references])
  | some _ =>
    refine expr.option.andThen fun init hi => ?_
    refine (reads_expect _ _).andThen fun _ _ => ?_
    cases init with
    | none => exact .pure hn (.refl _)
    | some e => exact .pure ⟨hn, hi e rfl⟩ (by simp [Stmt.references])

theorem reads_print (expr : Reads T [] expression (exprForm T)) :
    Reads T [] (readPrint expression) (branchForm T) := by
  refine expr.andThen fun e he => ?_
  refine (reads_expect _ _).andThen fun _ _ => .pure ⟨he, rfl⟩ ?_
  simp [Stmt.references]

/-- Its branches declare nothing in the scope around them. -/
theorem reads_if (expr : Reads T [] expression (exprForm T))
    (stmt : Reads T [] statement (branchForm T)) :
    Reads T [] (readIf expression statement) (branchForm T) := by
  refine (reads_expect _ _).andThen fun _ _ => ?_
  refine expr.andThen fun condition hc => ?_
  refine (reads_expect _ _).andThen fun _ _ => ?_
  refine stmt.andThen fun thenBranch ht => ?_
  refine (reads_take _).andThen fun o _ => ?_
  cases o with
  | none => exact .pure ⟨⟨hc, ht⟩, ht.2⟩ (by simp [Stmt.references])
  | some _ =>
    refine stmt.map fun elseBranch he => ⟨⟨⟨hc, ht, he⟩, ?_⟩, by simp [Stmt.references]⟩
    show _ ++ _ = _
    rw [ht.2, he.2, List.append_nil]

theorem reads_while (expr : Reads T [] expression (exprForm T))
    (stmt : Reads T [] statement (branchForm T)) :
    Reads T [] (readWhile expression statement) (branchForm T) := by
  refine (reads_expect _ _).andThen fun _ _ => ?_
  refine expr.andThen fun condition hc => ?_
  refine (reads_expect _ _).andThen fun _ _ => ?_
  exact stmt.map fun body hb => ⟨⟨⟨hc, hb⟩, hb.2⟩, by simp [Stmt.references]⟩

/-- An expression that is left out has no sites. -/
theorem reads_unless (expr : Reads T [] expression (exprForm T)) (mark : Kind) :
    Reads T [] (readUnless mark expression) (exprForm T).option := by
  refine (reads_isAt _).andThen fun close _ => ?_
  cases close with
  | true => exact .pure (by simp) (.refl _)
  | false => exact expr.option

/-- The copies of the increment get sites of their own, `reads_withSites`. -/
theorem reads_for (expr : Reads T [] expression (exprForm T))
    (stmt : Reads T [] statement (branchForm T)) :
    Reads T [] (readFor expression statement) (branchForm T) := by
  refine (reads_expect _ _).andThen fun _ _ => ?_
  refine (reads_takeIf _).andThen fun o _ => ?_
  have rest : ∀ init, (∀ s ∈ init, s.Formed T) → Reads T (sitesOfOption Stmt.references init) (do
      let condition ← readUnless .semicolon expression
      let _ ← expect .semicolon .afterLoopCondition
      let increment ← readUnless .rightParen expression
      let _ ← expect .rightParen .afterForClauses
      let body ← statement
      withSites (forLoop init condition increment body)) (branchForm T) := by
    intro init hi
    refine (reads_unless expr _).andThen fun condition hc => ?_
    refine (reads_expect _ _).andThen fun _ _ => ?_
    refine (reads_unless expr _).andThen fun increment hn => ?_
    refine (reads_expect _ _).andThen fun _ _ => ?_
    refine stmt.andThen fun body hb => ?_
    refine reads_withSites (sitesOfOption Stmt.references init ++
      (sitesOfOption Expr.references condition ++
        (sitesOf body.references ++ sitesOfOption Expr.references increment))) ?_
      (fun n => ?_) fun n => (formed_forLoop hi hc hn hb.1 hb.2 n).2.2
    · simp only [Form.option, exprForm, Form.plain, branchForm, List.append_nil, List.append_assoc]
      exact (List.perm_append_comm.append_left _).append_left _
    · exact ⟨(formed_forLoop hi hc hn hb.1 hb.2 n).1, (formed_forLoop hi hc hn hb.1 hb.2 n).2.1⟩
  cases o with
  | none =>
    refine (reads_expressionStatement expr).option.andThen fun init hi => ?_
    exact rest init fun s mem => (hi s mem).1
  | some t =>
    dsimp only
    split
    · exact (reads_variable expr).option.andThen fun init hi => rest init hi
    · exact rest none (by simp)

/-- A `return` has the sites of its value. -/
theorem reads_return (expr : Reads T [] expression (exprForm T)) (keyword : Token) :
    Reads T [] (readReturn expression keyword) (branchForm T) := by
  refine (reads_unless expr _).andThen fun value hv => ?_
  refine (reads_expect _ _).andThen fun _ _ => ?_
  cases value with
  | none => exact .pure ⟨trivial, rfl⟩ (.refl _)
  | some e => exact .pure ⟨hv e rfl, rfl⟩ (by simp [Stmt.references])

theorem reads_loopExit (keyword : Token) :
    Reads T [] (readLoopExit keyword) (branchForm T) :=
  (reads_expect _ _).andThen fun _ _ => .pure ⟨trivial, rfl⟩ (.refl _)

/-- A statement that is told by its first token may be a branch. -/
theorem reads_statementForm (expr : Reads T [] expression (exprForm T))
    (stmt : Reads T [] statement (branchForm T)) (decl : Reads T [] declaration (stmtForm T))
    (bound : Nat) :
    Reads T [] (readStatementForm bound expression statement declaration) (branchForm T) := by
  refine (reads_takeIf _).andThen fun o _ => ?_
  cases o with
  | none => exact reads_expressionStatement expr
  | some t =>
    dsimp only
    split
    · exact reads_if expr stmt
    · exact reads_print expr
    · exact reads_while expr stmt
    · exact reads_for expr stmt
    · exact reads_return expr t
    · exact (reads_body decl bound).map fun body hb => ⟨⟨hb, rfl⟩, by simp [Stmt.references]⟩
    · exact reads_loopExit t

/-! ## Declarations -/

/-- Members are well-formed routines with sites that are apart. -/
theorem reads_members {method : RoutineRole → Read (Routine Site)}
    (methods : ∀ role, Reads T [] (method role) (routineForm T)) :
    ∀ bound, Reads T [] (readMembers method bound) (membersForm T) := by
  intro bound
  induction bound with
  | zero => exact reads_outOfBound
  | succ bound ih =>
    refine (reads_isAt _).andThen fun close _ => ?_
    refine reads_isAtEnd.andThen fun ended _ => ?_
    split
    · exact .pure ⟨trivial, trivial⟩ (.refl _)
    · refine (reads_take _).andThen fun o _ => ?_
      cases o with
      | none =>
        refine (methods _).andThen fun first hf => ?_
        refine ih.andThen fun rest hr => ?_
        exact .pure ⟨⟨hf, hr.1⟩, hr.2⟩ (by simp [Routine.referencesAll])
      | some _ =>
        refine (methods _).andThen fun first hf => ?_
        refine ih.andThen fun rest hr => ?_
        refine .pure ⟨hr.1, hf, hr.2⟩ ?_
        simp only [routineForm, membersForm, Form.plain, Routine.referencesAll, sitesOf_append,
          List.append_nil, List.nil_append]
        exact List.perm_append_comm_assoc _ _ _

/-- The members of a class, behind a header that took some sites. -/
theorem reads_memberList (decl : Reads T [] declaration (stmtForm T)) (bound : Nat) {name : Token}
    (hn : T .identifier name) {superclass : Option (Reference Site)}
    {mixins : List (Reference Site)} {taken : List Site}
    (hs : (referenceForm T .identifier).option.formed superclass)
    (hm : (mixinsForm T).formed mixins)
    (same : taken.Perm ((referenceForm T .identifier).option.sites superclass ++
      (mixinsForm T).sites mixins)) :
    Reads T taken (do
      let _ ← expect .leftBrace .beforeClassBody
      let (methods, statics) ← readMembers (readRoutine bound declaration) bound
      let _ ← expect .rightBrace .afterClassBody
      return .classDecl name superclass mixins methods statics) (stmtForm T) := by
  refine (reads_expect _ _).andThen fun _ _ => ?_
  refine (reads_members (reads_routine decl bound) bound).andThen fun ms hms => ?_
  refine (reads_expect _ _).andThen fun _ _ => ?_
  refine .pure ⟨hn, hs, hm, hms⟩ ?_
  simp only [Form.plain, membersForm, stmtForm, Stmt.references, sitesOf_append,
    sitesOf_variables, List.append_nil, List.append_assoc, List.map_append]
  refine (same.append_right _).trans ?_
  cases superclass <;> simp

/-- The mixins and the members of a class, behind its superclass. -/
theorem reads_mixed (decl : Reads T [] declaration (stmtForm T)) (bound : Nat) {name : Token}
    (hn : T .identifier name) (superclass : Option (Reference Site))
    (hs : (referenceForm T .identifier).option.formed superclass) :
    Reads T ((referenceForm T .identifier).option.sites superclass) (do
      let mixins ← match ← take? .lessEqual with
        | some _ => readMixins bound
        | none => pure []
      let _ ← expect .leftBrace .beforeClassBody
      let (methods, statics) ← readMembers (readRoutine bound declaration) bound
      let _ ← expect .rightBrace .afterClassBody
      return .classDecl name superclass mixins methods statics) (stmtForm T) := by
  refine (reads_take _).andThen fun o _ => ?_
  cases o with
  | none => exact reads_memberList decl bound hn hs (by simp) (by simp)
  | some _ =>
    exact (reads_mixins bound).andThen fun refs hr => reads_memberList decl bound hn hs hr (by simp)

/-- The superclass, the mixins and the members take their sites in this order. -/
theorem reads_class (decl : Reads T [] declaration (stmtForm T)) (bound : Nat) :
    Reads T [] (readClass bound declaration) (stmtForm T) := by
  refine (reads_expectName _).andThen fun name hn => ?_
  refine (reads_take _).andThen fun less _ => ?_
  cases less with
  | none => exact reads_mixed decl bound hn none (by simp)
  | some _ =>
    refine (reads_expectName _).andThen fun parent hp => ?_
    refine (reads_newReference hp).andThen fun ref hr => ?_
    exact reads_mixed decl bound hn (some ref) (by simpa using hr)

/-- A function declaration is no branch; a lone routine is an expression. -/
theorem reads_function (decl : Reads T [] declaration (stmtForm T)) (bound : Nat)
    (keyword : Token) : Reads T [] (readFunction bound declaration keyword) (stmtForm T) := by
  refine (reads_isAt _).andThen fun named _ => ?_
  cases named with
  | true => exact (reads_routine decl bound _).map fun r hr => ⟨hr, by simp [Stmt.references]⟩
  | false =>
    exact (reads_expressionStatement (reads_anonymous decl bound keyword)).last
      fun s hs => ⟨hs.1, .refl _⟩

/-- A declaration that is told by its first token is well-formed. -/
theorem reads_declarationForm (expr : Reads T [] expression (exprForm T))
    (stmt : Reads T [] statement (branchForm T)) (decl : Reads T [] declaration (stmtForm T))
    (bound : Nat) :
    Reads T [] (readDeclarationForm bound expression statement declaration) (stmtForm T) := by
  refine (reads_takeIf _).andThen fun o _ => ?_
  cases o with
  | none => exact stmt.last fun s hs => ⟨hs.1, .refl _⟩
  | some t =>
    dsimp only
    split
    · exact reads_class decl bound
    · exact reads_function decl bound t
    · exact reads_variable expr

end Rules

/-! ## Whole texts -/

section Texts

variable {T : Kind → Token → Prop}

mutual

/-- An expression on any level of nesting, by induction on the bound. -/
theorem reads_expression : ∀ bound, Reads T [] (readExpression bound) (exprForm T)
  | 0 => reads_outOfBound
  | bound + 1 => reads_assignment (reads_expression bound) (reads_declaration bound) bound

theorem reads_statement : ∀ bound, Reads T [] (readStatement bound) (branchForm T)
  | 0 => reads_outOfBound
  | bound + 1 =>
    reads_statementForm (reads_expression bound) (reads_statement bound) (reads_declaration bound)
      bound

theorem reads_declaration : ∀ bound, Reads T [] (readDeclaration bound) (stmtForm T)
  | 0 => reads_outOfBound
  | bound + 1 =>
    reads_recovering (reads_declarationForm (reads_expression bound) (reads_statement bound)
      (reads_declaration bound) bound)

end

/-- The declarations of a whole text have sites that are apart. -/
theorem reads_declarations {declaration : Read (Stmt Site)}
    (decl : Reads T [] declaration (stmtForm T)) :
    ∀ bound, Reads T [] (readDeclarations declaration bound) (stmtsForm T)
  | 0 => reads_outOfBound
  | bound + 1 => by
    refine reads_isAtEnd.andThen fun ended _ => ?_
    cases ended with
    | true => exact .pure trivial (.refl _)
    | false =>
      refine decl.andThen fun first hf => ?_
      refine (reads_declarations decl bound).map fun rest hr => ⟨⟨hf, hr⟩, ?_⟩
      simp [Stmt.referencesAll]

/-- A program that was read is formed, and its references have the sites that were given out. -/
theorem reads_program (tokens : List Token) (endLine : Nat) (firstSite : Site)
    (worded : ∀ t ∈ tokens, T t.kind t) :
    let reading := Program.ofTokens tokens endLine firstSite
    Stmt.FormedAll T reading.result ∧ firstSite ≤ reading.nextSite ∧
      Fresh firstSite reading.nextSite (sitesOf (Stmt.referencesAll reading.result)) := by
  have reads := reads_declarations (reads_declaration (T := T) (nestingBound tokens))
    (nestingBound tokens) ⟨tokens, endLine, firstSite, []⟩ firstSite (Nat.le_refl _) worded .nil
  unfold Ends at reads
  dsimp only [Program.ofTokens, Reading.run, StateT.run, ExceptT.run]
  revert reads
  split
  · rename_i run
    rintro ⟨onward, formed, fresh⟩
    rw [run]
    exact ⟨formed, onward.sites, fresh⟩
  · rename_i run
    rintro ⟨onward, _⟩
    rw [run]
    exact ⟨trivial, onward.sites, .nil⟩

end Texts

end LoxLang
