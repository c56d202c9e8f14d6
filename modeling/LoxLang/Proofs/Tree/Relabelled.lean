/-
LoxLang.Proofs.Tree.Relabelled: trees with other lines and marks.

A text that stands further down yields the same tokens on other lines, and one that is read later
yields references with other sites.  Neither changes the tree otherwise.

* `Token.reline`, `Diagnostic.reline`: a token and a complaint on another line.
* `Expr.relabel`, `Stmt.relabel`, `Routine.relabel`: a tree whose tokens are on other lines and
  whose references have other marks.
* `Expr.reline`, `Stmt.reline`, `Routine.reline`: a prepared tree whose tokens are on other lines.

Main statements: `relabel_relabelStmt`, `relabel_idStmt` and `map_idStmt` with their companions;
`related_forLoop`: a `for` loop of relabelled parts is the relabelled loop.
-/
import LoxLang.Binding.Distances
import LoxLang.Fault.Diagnostic
import LoxLang.Proofs.Related
import LoxLang.Tree.ForLoop

namespace LoxLang

/-! ## Lines -/

/-- The token on another line. -/
def Token.reline (f : Nat → Nat) (t : Token) : Token := { t with line := f t.line }

namespace Token

variable (f g : Nat → Nat) (t : Token)

@[simp] theorem kind_reline : (t.reline f).kind = t.kind := rfl

@[simp] theorem lexeme_reline : (t.reline f).lexeme = t.lexeme := rfl

@[simp] theorem literal_reline : (t.reline f).literal = t.literal := rfl

@[simp] theorem isBreak_reline : (t.reline f).isBreak = t.isBreak := rfl

theorem reline_id : reline id = id := rfl

theorem reline_comp : reline g ∘ reline f = reline (g ∘ f) := rfl

end Token

/-- The complaint on another line. -/
def Diagnostic.reline (f : Nat → Nat) (d : Diagnostic) : Diagnostic := { d with line := f d.line }

@[simp] theorem Diagnostic.onToken_reline (f : Nat → Nat) (t : Token) (fault : Fault) :
    onToken (t.reline f) fault = (onToken t fault).reline f := rfl

/-! ## Trees -/

section Trees

variable {ρ σ τ : Type}

/-- The reference on another line and with another mark. -/
def Reference.relabel (f : Nat → Nat) (g : ρ → σ) (r : Reference ρ) : Reference σ :=
  ⟨r.token.reline f, g r.mark⟩

/-- A reference has the same name on another line and with another mark. -/
@[simp] theorem Reference.name_relabel (f : Nat → Nat) (g : ρ → σ) (r : Reference ρ) :
    (r.relabel f g).name = r.name := rfl

mutual

/-- The expression with its tokens on other lines and its references with other marks. -/
def Expr.relabel (f : Nat → Nat) (g : ρ → σ) : Expr ρ → Expr σ
  | .literal v => .literal v
  | .grouping e => .grouping (e.relabel f g)
  | .unary op e => .unary (op.reline f) (e.relabel f g)
  | .binary l op r => .binary (l.relabel f g) (op.reline f) (r.relabel f g)
  | .logical l op r => .logical (l.relabel f g) (op.reline f) (r.relabel f g)
  | .variable r => .variable (r.relabel f g)
  | .assign r e => .assign (r.relabel f g) (e.relabel f g)
  | .call h paren es => .call (h.relabel f g) (paren.reline f) (Expr.relabelAll f g es)
  | .get e name => .get (e.relabel f g) (name.reline f)
  | .set e name v => .set (e.relabel f g) (name.reline f) (v.relabel f g)
  | .this r => .this (r.relabel f g)
  | .super r method => .super (r.relabel f g) (method.reline f)
  | .function keyword params body =>
    .function (keyword.reline f) (params.map (Token.reline f)) (Stmt.relabelAll f g body)

def Expr.relabelAll (f : Nat → Nat) (g : ρ → σ) : List (Expr ρ) → List (Expr σ)
  | [] => []
  | e :: es => e.relabel f g :: Expr.relabelAll f g es

/-- The statement with its tokens on other lines and its references with other marks. -/
def Stmt.relabel (f : Nat → Nat) (g : ρ → σ) : Stmt ρ → Stmt σ
  | .missing => .missing
  | .expression e => .expression (e.relabel f g)
  | .print e => .print (e.relabel f g)
  | .var name none => .var (name.reline f) none
  | .var name (some e) => .var (name.reline f) (some (e.relabel f g))
  | .block body => .block (Stmt.relabelAll f g body)
  | .ifElse c t none => .ifElse (c.relabel f g) (t.relabel f g) none
  | .ifElse c t (some e) => .ifElse (c.relabel f g) (t.relabel f g) (some (e.relabel f g))
  | .whileLoop c b => .whileLoop (c.relabel f g) (b.relabel f g)
  | .ret keyword none => .ret (keyword.reline f) none
  | .ret keyword (some e) => .ret (keyword.reline f) (some (e.relabel f g))
  | .loopExit keyword => .loopExit (keyword.reline f)
  | .function r => .function (r.relabel f g)
  | .classDecl name superclass mixins methods statics =>
    .classDecl (name.reline f) (superclass.map (·.relabel f g)) (mixins.map (·.relabel f g))
      (Routine.relabelAll f g methods) (Routine.relabelAll f g statics)

def Stmt.relabelAll (f : Nat → Nat) (g : ρ → σ) : List (Stmt ρ) → List (Stmt σ)
  | [] => []
  | s :: ss => s.relabel f g :: Stmt.relabelAll f g ss

/-- The routine with its tokens on other lines and its references with other marks. -/
def Routine.relabel (f : Nat → Nat) (g : ρ → σ) : Routine ρ → Routine σ
  | ⟨name, params, body, getter⟩ =>
    ⟨name.reline f, params.map (Token.reline f), Stmt.relabelAll f g body, getter⟩

def Routine.relabelAll (f : Nat → Nat) (g : ρ → σ) : List (Routine ρ) → List (Routine σ)
  | [] => []
  | r :: rs => r.relabel f g :: Routine.relabelAll f g rs

end

/-- The companion for lists is the map of `relabel`. -/
theorem Stmt.relabelAll_eq (f : Nat → Nat) (g : ρ → σ) (ss : List (Stmt ρ)) :
    Stmt.relabelAll f g ss = ss.map (·.relabel f g) := by
  induction ss with
  | nil => rfl
  | cons s ss ih => rw [Stmt.relabelAll, ih, List.map_cons]

/-! ## Twice and once -/

section Twice

variable (f f' : Nat → Nat) (g : ρ → σ) (g' : σ → τ)

mutual

/-- Relabelled twice, a tree is relabelled once by the compositions. -/
theorem relabel_relabelExpr : ∀ e : Expr ρ,
    (e.relabel f g).relabel f' g' = e.relabel (f' ∘ f) (g' ∘ g)
  | .literal _ | .variable _ | .this _ | .super _ _ => rfl
  | .grouping e => congrArg Expr.grouping (relabel_relabelExpr e)
  | .unary op e => congrArg (Expr.unary (op.reline (f' ∘ f))) (relabel_relabelExpr e)
  | .binary l op r => by
    simp only [Expr.relabel, relabel_relabelExpr l, relabel_relabelExpr r]
    rfl
  | .logical l op r => by
    simp only [Expr.relabel, relabel_relabelExpr l, relabel_relabelExpr r]
    rfl
  | .assign r e => congrArg (Expr.assign (r.relabel (f' ∘ f) (g' ∘ g))) (relabel_relabelExpr e)
  | .call h paren es => by
    simp only [Expr.relabel, relabel_relabelExpr h, relabel_relabelExprs es]
    rfl
  | .get e name => congrArg (Expr.get · (name.reline (f' ∘ f))) (relabel_relabelExpr e)
  | .set e name v => by
    simp only [Expr.relabel, relabel_relabelExpr e, relabel_relabelExpr v]
    rfl
  | .function keyword params body => by
    simp only [Expr.relabel, relabel_relabelStmts body, List.map_map, Token.reline_comp]
    rfl

theorem relabel_relabelExprs : ∀ es : List (Expr ρ),
    Expr.relabelAll f' g' (Expr.relabelAll f g es) = Expr.relabelAll (f' ∘ f) (g' ∘ g) es
  | [] => rfl
  | e :: es => congr (congrArg List.cons (relabel_relabelExpr e)) (relabel_relabelExprs es)

/-- So it is for statements. -/
theorem relabel_relabelStmt : ∀ s : Stmt ρ,
    (s.relabel f g).relabel f' g' = s.relabel (f' ∘ f) (g' ∘ g)
  | .missing | .var _ none | .ret _ none | .loopExit _ => rfl
  | .expression e => congrArg Stmt.expression (relabel_relabelExpr e)
  | .print e => congrArg Stmt.print (relabel_relabelExpr e)
  | .var name (some e) =>
    congrArg (Stmt.var (name.reline (f' ∘ f)) ∘ some) (relabel_relabelExpr e)
  | .block body => congrArg Stmt.block (relabel_relabelStmts body)
  | .ifElse c t none => by
    simp only [Stmt.relabel, relabel_relabelExpr c, relabel_relabelStmt t]
  | .ifElse c t (some e) => by
    simp only [Stmt.relabel, relabel_relabelExpr c, relabel_relabelStmt t, relabel_relabelStmt e]
  | .whileLoop c b => by
    simp only [Stmt.relabel, relabel_relabelExpr c, relabel_relabelStmt b]
  | .ret keyword (some e) =>
    congrArg (Stmt.ret (keyword.reline (f' ∘ f)) ∘ some) (relabel_relabelExpr e)
  | .function r => congrArg Stmt.function (relabel_relabelRoutine r)
  | .classDecl name superclass mixins methods statics => by
    simp only [Stmt.relabel, Option.map_map, List.map_map, relabel_relabelRoutines methods,
      relabel_relabelRoutines statics]
    rfl

theorem relabel_relabelStmts : ∀ ss : List (Stmt ρ),
    Stmt.relabelAll f' g' (Stmt.relabelAll f g ss) = Stmt.relabelAll (f' ∘ f) (g' ∘ g) ss
  | [] => rfl
  | s :: ss => congr (congrArg List.cons (relabel_relabelStmt s)) (relabel_relabelStmts ss)

/-- And so it is for routines. -/
theorem relabel_relabelRoutine : ∀ r : Routine ρ,
    (r.relabel f g).relabel f' g' = r.relabel (f' ∘ f) (g' ∘ g)
  | ⟨name, params, body, getter⟩ => by
    simp only [Routine.relabel, relabel_relabelStmts body, List.map_map, Token.reline_comp]
    rfl

theorem relabel_relabelRoutines : ∀ rs : List (Routine ρ),
    Routine.relabelAll f' g' (Routine.relabelAll f g rs) = Routine.relabelAll (f' ∘ f) (g' ∘ g) rs
  | [] => rfl
  | r :: rs => congr (congrArg List.cons (relabel_relabelRoutine r)) (relabel_relabelRoutines rs)

end

end Twice

/-! ## The same lines -/

section Same

variable (g : ρ → σ)

mutual

/-- On the same lines only the marks are replaced. -/
theorem relabel_idExpr : ∀ e : Expr ρ, e.relabel id g = e.map g
  | .literal _ | .variable _ | .this _ | .super _ _ => rfl
  | .grouping e => congrArg Expr.grouping (relabel_idExpr e)
  | .unary op e => congrArg (Expr.unary op) (relabel_idExpr e)
  | .binary l op r => by
    simp only [Expr.relabel, Expr.map, relabel_idExpr l, relabel_idExpr r]
    rfl
  | .logical l op r => by
    simp only [Expr.relabel, Expr.map, relabel_idExpr l, relabel_idExpr r]
    rfl
  | .assign _ e => congrArg (Expr.assign _) (relabel_idExpr e)
  | .call h paren es => by
    simp only [Expr.relabel, Expr.map, relabel_idExpr h, relabel_idExprs es]
    rfl
  | .get e name => congrArg (Expr.get · name) (relabel_idExpr e)
  | .set e name v => by
    simp only [Expr.relabel, Expr.map, relabel_idExpr e, relabel_idExpr v]
    rfl
  | .function keyword params body => by
    simp only [Expr.relabel, Expr.map, relabel_idStmts body, Token.reline_id, List.map_id]
    rfl

theorem relabel_idExprs : ∀ es : List (Expr ρ), Expr.relabelAll id g es = Expr.mapAll g es
  | [] => rfl
  | e :: es => by simp only [Expr.relabelAll, Expr.mapAll, relabel_idExpr e, relabel_idExprs es]

/-- On the same lines only the marks of a statement are replaced. -/
theorem relabel_idStmt : ∀ s : Stmt ρ, s.relabel id g = s.map g
  | .missing | .var _ none | .ret _ none | .loopExit _ => rfl
  | .expression e => congrArg Stmt.expression (relabel_idExpr e)
  | .print e => congrArg Stmt.print (relabel_idExpr e)
  | .var name (some e) => congrArg (Stmt.var name ∘ some) (relabel_idExpr e)
  | .block body => congrArg Stmt.block (relabel_idStmts body)
  | .ifElse c t none => by simp only [Stmt.relabel, Stmt.map, relabel_idExpr c, relabel_idStmt t]
  | .ifElse c t (some e) => by
    simp only [Stmt.relabel, Stmt.map, relabel_idExpr c, relabel_idStmt t, relabel_idStmt e]
  | .whileLoop c b => by simp only [Stmt.relabel, Stmt.map, relabel_idExpr c, relabel_idStmt b]
  | .ret keyword (some e) => congrArg (Stmt.ret keyword ∘ some) (relabel_idExpr e)
  | .function r => congrArg Stmt.function (relabel_idRoutine r)
  | .classDecl name superclass mixins methods statics => by
    simp only [Stmt.relabel, Stmt.map, relabel_idRoutines methods, relabel_idRoutines statics]
    rfl

theorem relabel_idStmts : ∀ ss : List (Stmt ρ), Stmt.relabelAll id g ss = Stmt.mapAll g ss
  | [] => rfl
  | s :: ss => by simp only [Stmt.relabelAll, Stmt.mapAll, relabel_idStmt s, relabel_idStmts ss]

/-- And only those of a routine. -/
theorem relabel_idRoutine : ∀ r : Routine ρ, r.relabel id g = r.map g
  | ⟨name, params, body, getter⟩ => by
    simp only [Routine.relabel, Routine.map, relabel_idStmts body, Token.reline_id, List.map_id]
    rfl

theorem relabel_idRoutines :
    ∀ rs : List (Routine ρ), Routine.relabelAll id g rs = Routine.mapAll g rs
  | [] => rfl
  | r :: rs =>
    by simp only [Routine.relabelAll, Routine.mapAll, relabel_idRoutine r, relabel_idRoutines rs]

end

end Same

section Unchanged

mutual

/-- A tree with its own marks is the tree. -/
theorem map_idExpr : ∀ e : Expr ρ, e.map id = e
  | .literal _ | .variable _ | .this _ | .super _ _ => rfl
  | .grouping e => congrArg Expr.grouping (map_idExpr e)
  | .unary op e => congrArg (Expr.unary op) (map_idExpr e)
  | .binary l op r => by rw [Expr.map, map_idExpr l, map_idExpr r]
  | .logical l op r => by rw [Expr.map, map_idExpr l, map_idExpr r]
  | .assign r e => congrArg (Expr.assign r) (map_idExpr e)
  | .call h paren es => by rw [Expr.map, map_idExpr h, map_idExprs es]
  | .get e name => congrArg (Expr.get · name) (map_idExpr e)
  | .set e name v => by rw [Expr.map, map_idExpr e, map_idExpr v]
  | .function keyword params body => congrArg (Expr.function keyword params) (map_idStmts body)

theorem map_idExprs : ∀ es : List (Expr ρ), Expr.mapAll id es = es
  | [] => rfl
  | e :: es => by rw [Expr.mapAll, map_idExpr e, map_idExprs es]

theorem map_idStmt : ∀ s : Stmt ρ, s.map id = s
  | .missing | .var _ none | .ret _ none | .loopExit _ => rfl
  | .expression e => congrArg Stmt.expression (map_idExpr e)
  | .print e => congrArg Stmt.print (map_idExpr e)
  | .var name (some e) => congrArg (Stmt.var name ∘ some) (map_idExpr e)
  | .block body => congrArg Stmt.block (map_idStmts body)
  | .ifElse c t none => by rw [Stmt.map, map_idExpr c, map_idStmt t]
  | .ifElse c t (some e) => by rw [Stmt.map, map_idExpr c, map_idStmt t, map_idStmt e]
  | .whileLoop c b => by rw [Stmt.map, map_idExpr c, map_idStmt b]
  | .ret keyword (some e) => congrArg (Stmt.ret keyword ∘ some) (map_idExpr e)
  | .function r => congrArg Stmt.function (map_idRoutine r)
  | .classDecl name superclass mixins methods statics => by
    have parent : superclass.map (Reference.map id) = superclass :=
      congrFun Option.map_id superclass
    have parents : mixins.map (Reference.map id) = mixins := List.map_id mixins
    rw [Stmt.map, parent, parents, map_idRoutines methods, map_idRoutines statics]

theorem map_idStmts : ∀ ss : List (Stmt ρ), Stmt.mapAll id ss = ss
  | [] => rfl
  | s :: ss => by rw [Stmt.mapAll, map_idStmt s, map_idStmts ss]

theorem map_idRoutine : ∀ r : Routine ρ, r.map id = r
  | ⟨name, params, body, getter⟩ =>
    congrArg (Routine.mk name params · getter) (map_idStmts body)

theorem map_idRoutines : ∀ rs : List (Routine ρ), Routine.mapAll id rs = rs
  | [] => rfl
  | r :: rs => by rw [Routine.mapAll, map_idRoutine r, map_idRoutines rs]

end

end Unchanged

end Trees

/-! ## Prepared programs -/

/-- The expression with its tokens on other lines. -/
abbrev Expr.reline (f : Nat → Nat) (e : Expr Distance) : Expr Distance := e.relabel f id

/-- The statement with its tokens on other lines. -/
abbrev Stmt.reline (f : Nat → Nat) (s : Stmt Distance) : Stmt Distance := s.relabel f id

/-- The statements with their tokens on other lines. -/
abbrev Stmt.relineAll (f : Nat → Nat) (ss : List (Stmt Distance)) : List (Stmt Distance) :=
  Stmt.relabelAll f id ss

/-- The routine with its tokens on other lines. -/
abbrev Routine.reline (f : Nat → Nat) (r : Routine Distance) : Routine Distance := r.relabel f id

/-- The reference on another line. -/
abbrev Reference.reline (f : Nat → Nat) (r : Reference Distance) : Reference Distance :=
  r.relabel f id

/-- A prepared program on its own lines is the program. -/
theorem Stmt.relineAll_id (ss : List (Stmt Distance)) : Stmt.relineAll id ss = ss := by
  rw [relineAll, relabel_idStmts, map_idStmts]

/-! ## Numbering relabelled trees -/

section Numbering

variable {ρ σ : Type} (f : Nat → Nat) (k : Nat)

/-- Sites that were given out later. -/
def Later (k : Nat) (n n' : Site) : Prop := n' = n + k

/-- The reference, read later. -/
abbrev Reference.later (r : Reference Site) : Reference Site := r.relabel f (· + k)

/-- The expression, read later. -/
abbrev Expr.later (e : Expr Site) : Expr Site := e.relabel f (· + k)

/-- The statement, read later. -/
abbrev Stmt.later (s : Stmt Site) : Stmt Site := s.relabel f (· + k)

/-- The routine, read later. -/
abbrev Routine.later (r : Routine Site) : Routine Site := r.relabel f (· + k)

variable (g : ρ → σ)

/-- A reference that is numbered so many numbers later gets the later number. -/
theorem related_numberReference (r : Reference ρ) :
    Related (Later k) (fun a b => b = a.later f k) r.number (r.relabel f g).number := by
  rintro n _ rfl
  exact ⟨rfl, Nat.add_right_comm n k 1⟩

/-- So do references in a row. -/
theorem related_numberReferences : ∀ refs : List (Reference ρ),
    Related (Later k) (fun a b => b = a.map (·.later f k)) (refs.mapM Reference.number)
      ((refs.map (·.relabel f g)).mapM Reference.number)
  | [] => .pure rfl
  | r :: refs => by
    rw [List.mapM_cons, List.map_cons, List.mapM_cons]
    refine (related_numberReference f k g r).bind ?_
    rintro r' _ rfl
    refine (related_numberReferences refs).bind ?_
    rintro refs' _ rfl
    exact .pure rfl

mutual

/-- And so do those of an expression, in whatever order it numbers them. -/
theorem related_numberExpr : ∀ e : Expr ρ,
    Related (Later k) (fun a b => b = a.later f k) e.number (e.relabel f g).number
  | .literal _ => .pure rfl
  | .grouping e => (related_numberExpr e).bind fun _ _ same => .pure (congrArg _ same)
  | .unary op e => (related_numberExpr e).bind fun _ _ same => .pure (congrArg _ same)
  | .binary l op r =>
    (related_numberExpr l).bind fun _ _ same => (related_numberExpr r).bind fun _ _ same' =>
      .pure (by rw [same, same']; rfl)
  | .logical l op r =>
    (related_numberExpr l).bind fun _ _ same => (related_numberExpr r).bind fun _ _ same' =>
      .pure (by rw [same, same']; rfl)
  | .variable r => (related_numberReference f k g r).bind fun _ _ same => .pure (congrArg _ same)
  | .assign r e =>
    (related_numberReference f k g r).bind fun _ _ same =>
      (related_numberExpr e).bind fun _ _ same' =>
      .pure (by rw [same, same']; rfl)
  | .call h paren es =>
    (related_numberExpr h).bind fun _ _ same => (related_numberExprs es).bind fun _ _ same' =>
      .pure (by rw [same, same']; rfl)
  | .get e name => (related_numberExpr e).bind fun _ _ same => .pure (by rw [same]; rfl)
  | .set e name v =>
    (related_numberExpr e).bind fun _ _ same => (related_numberExpr v).bind fun _ _ same' =>
      .pure (by rw [same, same']; rfl)
  | .this r => (related_numberReference f k g r).bind fun _ _ same => .pure (congrArg _ same)
  | .super r method =>
    (related_numberReference f k g r).bind fun _ _ same => .pure (by rw [same]; rfl)
  | .function keyword params body =>
    (related_numberStmts body).bind fun _ _ same => .pure (by rw [same]; rfl)

theorem related_numberExprs : ∀ es : List (Expr ρ),
    Related (Later k) (fun a b => b = Expr.relabelAll f (· + k) a) (Expr.numberAll es)
      (Expr.numberAll (Expr.relabelAll f g es))
  | [] => .pure rfl
  | e :: es =>
    (related_numberExpr e).bind fun _ _ same => (related_numberExprs es).bind fun _ _ same' =>
      .pure (by rw [same, same']; rfl)

/-- And those of a statement. -/
theorem related_numberStmt : ∀ s : Stmt ρ,
    Related (Later k) (fun a b => b = a.later f k) s.number (s.relabel f g).number
  | .missing | .var _ none | .ret _ none | .loopExit _ => .pure rfl
  | .expression e => (related_numberExpr e).bind fun _ _ same => .pure (congrArg _ same)
  | .print e => (related_numberExpr e).bind fun _ _ same => .pure (congrArg _ same)
  | .var name (some e) => (related_numberExpr e).bind fun _ _ same => .pure (by rw [same]; rfl)
  | .block body => (related_numberStmts body).bind fun _ _ same => .pure (congrArg _ same)
  | .ifElse c t none =>
    (related_numberExpr c).bind fun _ _ same => (related_numberStmt t).bind fun _ _ same' =>
      .pure (by rw [same, same']; rfl)
  | .ifElse c t (some e) =>
    (related_numberExpr c).bind fun _ _ same => (related_numberStmt t).bind fun _ _ same' =>
      (related_numberStmt e).bind fun _ _ same'' => .pure (by rw [same, same', same'']; rfl)
  | .whileLoop c b =>
    (related_numberExpr c).bind fun _ _ same => (related_numberStmt b).bind fun _ _ same' =>
      .pure (by rw [same, same']; rfl)
  | .ret keyword (some e) => (related_numberExpr e).bind fun _ _ same => .pure (by rw [same]; rfl)
  | .function r => (related_numberRoutine r).bind fun _ _ same => .pure (congrArg _ same)
  | .classDecl name superclass mixins methods statics => by
    have parents : Related (Later k) (fun a b => b = a.map (·.later f k))
        (superclass.mapM Reference.number)
        ((superclass.map (·.relabel f g)).mapM Reference.number) := by
      cases superclass with
      | none => exact .pure rfl
      | some r => exact (related_numberReference f k g r).map fun _ _ same => congrArg some same
    refine parents.bind ?_
    rintro superclass' _ rfl
    refine (related_numberReferences f k g mixins).bind ?_
    rintro mixins' _ rfl
    refine (related_numberRoutines methods).bind ?_
    rintro methods' _ rfl
    refine (related_numberRoutines statics).bind ?_
    rintro statics' _ rfl
    exact .pure rfl

theorem related_numberStmts : ∀ ss : List (Stmt ρ),
    Related (Later k) (fun a b => b = Stmt.relabelAll f (· + k) a) (Stmt.numberAll ss)
      (Stmt.numberAll (Stmt.relabelAll f g ss))
  | [] => .pure rfl
  | s :: ss =>
    (related_numberStmt s).bind fun _ _ same => (related_numberStmts ss).bind fun _ _ same' =>
      .pure (by rw [same, same']; rfl)

/-- And those of a routine. -/
theorem related_numberRoutine : ∀ r : Routine ρ,
    Related (Later k) (fun a b => b = a.later f k) r.number (r.relabel f g).number
  | ⟨name, params, body, getter⟩ =>
    (related_numberStmts body).bind fun _ _ same => .pure (by rw [same]; rfl)

theorem related_numberRoutines : ∀ rs : List (Routine ρ),
    Related (Later k) (fun a b => b = Routine.relabelAll f (· + k) a) (Routine.numberAll rs)
      (Routine.numberAll (Routine.relabelAll f g rs))
  | [] => .pure rfl
  | r :: rs =>
    (related_numberRoutine r).bind fun _ _ same => (related_numberRoutines rs).bind fun _ _ same' =>
      .pure (by rw [same, same']; rfl)

end

end Numbering

/-! ## Loops of relabelled parts -/

section Loops

variable (f : Nat → Nat) (k : Nat) (increment : Expr Site)

mutual

/-- The copies of a relabelled increment are relabelled copies. -/
theorem related_withIncrement : ∀ s : Stmt Site,
    Related (Later k) (fun a b => b = a.later f k) (s.withIncrement increment)
      ((s.later f k).withIncrement (increment.later f k))
  | .block body => (related_withIncrementAll body).bind fun _ _ same => .pure (congrArg _ same)
  | .loopExit keyword => by
    rw [Stmt.later, Stmt.relabel, Stmt.withIncrement, Stmt.withIncrement]
    refine .ite Iff.rfl (fun _ => .pure rfl) fun _ => ?_
    refine (related_numberExpr f k (· + k) increment).bind ?_
    rintro copy _ rfl
    exact .pure rfl
  | .ifElse c t none =>
    (related_withIncrement t).bind fun _ _ same => .pure (by rw [same]; rfl)
  | .ifElse c t (some e) =>
    (related_withIncrement t).bind fun _ _ same => (related_withIncrement e).bind fun _ _ same' =>
      .pure (by rw [same, same']; rfl)
  | .missing | .expression _ | .print _ | .var _ none | .var _ (some _) => .pure rfl
  | .whileLoop _ _ | .ret _ none | .ret _ (some _) | .function _ | .classDecl .. => .pure rfl

/-- So it is for the statements of a block, one after the other. -/
theorem related_withIncrementAll : ∀ ss : List (Stmt Site),
    Related (Later k) (fun a b => b = Stmt.relabelAll f (· + k) a)
      (Stmt.withIncrementAll increment ss)
      (Stmt.withIncrementAll (increment.later f k) (Stmt.relabelAll f (· + k) ss))
  | [] => .pure rfl
  | s :: ss =>
    (related_withIncrement s).bind fun _ _ same => (related_withIncrementAll ss).bind
      fun _ _ same' => .pure (by rw [same, same']; rfl)

end

/-- A `for` loop of parts that were read later is the loop, read later. -/
theorem related_forLoop (init : Option (Stmt Site)) (condition increment : Option (Expr Site))
    (body : Stmt Site) :
    Related (Later k) (fun a b => b = a.later f k) (forLoop init condition increment body)
      (forLoop (init.map (·.later f k)) (condition.map (·.later f k))
        (increment.map (·.later f k)) (body.later f k)) := by
  have loop : Related (Later k) (fun a b => b = a.later f k) (loopBody increment body)
      (loopBody (increment.map (·.later f k)) (body.later f k)) := by
    cases increment with
    | none => exact .pure rfl
    | some e =>
      refine (related_withIncrement f k e body).bind ?_
      rintro body' _ rfl
      exact .pure rfl
  refine loop.bind ?_
  rintro body' _ rfl
  cases init <;> cases condition <;> exact .pure rfl

end Loops

end LoxLang
