/-
LoxLang.Proofs.Binding.Unassigned: a read of a variable in the place of an assignment to it.

A program in which one assignment gives way to a read of the same variable has that read at the
position of the assignment, with the same scopes around it.  An assignment means the innermost scope
that has the name.  So does the read, unless it stands in the initial value of that very variable
and nothing there has read the variable yet: then it goes past the scope of the variable, and the
assignment does not.

* `Expr.unassign`, `Stmt.unassign`, `Routine.unassign`: a tree with the read in the place of the
  assignment.
* `Position.PassesOver`: the read goes past the scope of the variable.

Main statements: `Edition.positions_unassign`, `Position.distance_eq_iff`.
-/
import LoxLang.Proofs.Binding.Recorded

namespace LoxLang

/-! ## The read in the place of the assignment -/

section Unassign

variable (site : Site)

mutual

/-- An expression with a read in the place of the assignment at a site. -/
def Expr.unassign : Expr Site → Expr Site
  | .literal v => .literal v
  | .grouping e => .grouping e.unassign
  | .unary op e => .unary op e.unassign
  | .binary l op r => .binary l.unassign op r.unassign
  | .logical l op r => .logical l.unassign op r.unassign
  | .variable ref => .variable ref
  | .assign ref e => if ref.mark = site then .variable ref else .assign ref e.unassign
  | .call f paren es => .call f.unassign paren (Expr.unassignAll es)
  | .get e name => .get e.unassign name
  | .set e name v => .set e.unassign name v.unassign
  | .this ref => .this ref
  | .super ref name => .super ref name
  | .function keyword params body => .function keyword params (Stmt.unassignAll body)

def Expr.unassignAll : List (Expr Site) → List (Expr Site)
  | [] => []
  | e :: es => e.unassign :: Expr.unassignAll es

/-- A statement with a read in the place of the assignment at a site. -/
def Stmt.unassign : Stmt Site → Stmt Site
  | .missing => .missing
  | .expression e => .expression e.unassign
  | .print e => .print e.unassign
  | .var name none => .var name none
  | .var name (some e) => .var name (some e.unassign)
  | .block body => .block (Stmt.unassignAll body)
  | .ifElse c t none => .ifElse c.unassign t.unassign none
  | .ifElse c t (some e) => .ifElse c.unassign t.unassign (some e.unassign)
  | .whileLoop c b => .whileLoop c.unassign b.unassign
  | .ret keyword none => .ret keyword none
  | .ret keyword (some e) => .ret keyword (some e.unassign)
  | .loopExit keyword => .loopExit keyword
  | .function r => .function r.unassign
  | .classDecl name superclass mixins methods statics =>
    .classDecl name superclass mixins (Routine.unassignAll methods) (Routine.unassignAll statics)

def Stmt.unassignAll : List (Stmt Site) → List (Stmt Site)
  | [] => []
  | s :: ss => s.unassign :: Stmt.unassignAll ss

/-- A routine with a read in the place of the assignment at a site. -/
def Routine.unassign : Routine Site → Routine Site
  | ⟨name, params, body, getter⟩ => ⟨name, params, Stmt.unassignAll body, getter⟩

def Routine.unassignAll : List (Routine Site) → List (Routine Site)
  | [] => []
  | r :: rs => r.unassign :: Routine.unassignAll rs

end

/-! ## References -/

mutual

/-- No reference gets another site, and none is added. -/
theorem sites_unassignExpr : ∀ e : Expr Site,
    (sitesOf (e.unassign site).references).Sublist (sitesOf e.references)
  | .literal _ | .variable _ | .this _ | .super _ _ => .refl _
  | .grouping e | .unary _ e | .get e _ => sites_unassignExpr e
  | .binary l _ r | .logical l _ r | .set l _ r => by
    simp only [Expr.unassign, Expr.references, sitesOf_append]
    exact (sites_unassignExpr l).append (sites_unassignExpr r)
  | .assign ref e => by
    rw [Expr.unassign]
    split
    · exact (List.nil_sublist _).cons_cons ref.mark
    · exact (sites_unassignExpr e).cons_cons ref.mark
  | .call f _ es => by
    simp only [Expr.unassign, Expr.references, sitesOf_append]
    exact (sites_unassignExpr f).append (sites_unassignExprs es)
  | .function _ _ body => sites_unassignStmts body

theorem sites_unassignExprs : ∀ es : List (Expr Site),
    (sitesOf (Expr.referencesAll (Expr.unassignAll site es))).Sublist
      (sitesOf (Expr.referencesAll es))
  | [] => .refl _
  | e :: es => by
    simp only [Expr.unassignAll, Expr.referencesAll, sitesOf_append]
    exact (sites_unassignExpr e).append (sites_unassignExprs es)

/-- Whatever is taken out of a statement, no site is added. -/
theorem sites_unassignStmt : ∀ s : Stmt Site,
    (sitesOf (s.unassign site).references).Sublist (sitesOf s.references)
  | .missing | .var _ none | .ret _ none | .loopExit _ => .refl _
  | .expression e | .print e | .var _ (some e) | .ret _ (some e) => sites_unassignExpr e
  | .block body => sites_unassignStmts body
  | .ifElse c t none => by
    simp only [Stmt.unassign, Stmt.references, sitesOf_append]
    exact (sites_unassignExpr c).append (sites_unassignStmt t)
  | .ifElse c t (some e) => by
    simp only [Stmt.unassign, Stmt.references, sitesOf_append]
    exact ((sites_unassignExpr c).append (sites_unassignStmt t)).append (sites_unassignStmt e)
  | .whileLoop c b => by
    simp only [Stmt.unassign, Stmt.references, sitesOf_append]
    exact (sites_unassignExpr c).append (sites_unassignStmt b)
  | .function r => sites_unassignRoutine r
  | .classDecl _ _ _ methods statics => by
    simp only [Stmt.unassign, Stmt.references, sitesOf_append]
    exact ((List.Sublist.refl _).append (sites_unassignRoutines methods)).append
      (sites_unassignRoutines statics)

theorem sites_unassignStmts : ∀ ss : List (Stmt Site),
    (sitesOf (Stmt.referencesAll (Stmt.unassignAll site ss))).Sublist
      (sitesOf (Stmt.referencesAll ss))
  | [] => .refl _
  | s :: ss => by
    simp only [Stmt.unassignAll, Stmt.referencesAll, sitesOf_append]
    exact (sites_unassignStmt s).append (sites_unassignStmts ss)

/-- Nor is one added to a routine. -/
theorem sites_unassignRoutine : ∀ r : Routine Site,
    (sitesOf (r.unassign site).references).Sublist (sitesOf r.references)
  | ⟨_, _, body, _⟩ => sites_unassignStmts body

theorem sites_unassignRoutines : ∀ rs : List (Routine Site),
    (sitesOf (Routine.referencesAll (Routine.unassignAll site rs))).Sublist
      (sitesOf (Routine.referencesAll rs))
  | [] => .refl _
  | r :: rs => by
    simp only [Routine.unassignAll, Routine.referencesAll, sitesOf_append]
    exact (sites_unassignRoutine r).append (sites_unassignRoutines rs)

end

/-- A statement declares the same names with the read. -/
theorem introduces_unassign : ∀ s : Stmt Site, (s.unassign site).introduces = s.introduces
  | .missing | .expression _ | .print _ | .var _ none | .var _ (some _) | .block _ => rfl
  | .ret _ none | .ret _ (some _) | .loopExit _ | .classDecl .. => rfl
  | .function ⟨_, _, _, _⟩ => rfl
  | .ifElse _ t none => introduces_unassign t
  | .ifElse _ t (some e) => by
    simp only [Stmt.unassign, Stmt.introduces, introduces_unassign t, introduces_unassign e]
  | .whileLoop _ b => introduces_unassign b

/-- A program with a read in the place of the assignment at a site. -/
def Edition.unassign (ed : Edition) : Edition :=
  { ed with program := Stmt.unassignAll site ed.program }

variable {ed : Edition} {site}

/-- So the sites of the program stay distinct. -/
theorem Edition.Distinct.unassign (distinct : ed.Distinct) : (ed.unassign site).Distinct :=
  (sites_unassignStmts site ed.program).nodup distinct

/-- And none of them was used before. -/
theorem Edition.Fresh.unassign (fresh : ed.Fresh) : (ed.unassign site).Fresh :=
  fun other mem => fresh other ((sites_unassignStmts site ed.program).subset mem)

end Unassign

/-! ## Positions -/

/-- The same scopes are seen. -/
structure Outlook.Alike (o o' : Outlook) : Prop where
  scopes : o'.scopes = o.scopes
  inClass : o'.inClass = o.inClass
  own : o'.own = o.own

namespace Outlook.Alike

variable {o o' : Outlook}

/-- An outlook is alike to itself. -/
theorem refl (o : Outlook) : o.Alike o := ⟨rfl, rfl, rfl⟩

/-- What was read before makes no difference to which scopes are seen. -/
theorem behind (h : o.Alike o') (ps ps' : List Position) : (o.behind ps).Alike (o'.behind ps') :=
  ⟨h.scopes, h.inClass, h.own⟩

/-- In a new scope alike outlooks are alike. -/
theorem enter (h : o.Alike o') (names : List String) : (o.enter names).Alike (o'.enter names) :=
  ⟨congrArg (names :: ·) h.scopes, h.inClass, rfl⟩

/-- They stay alike when both introduce the same names. -/
theorem introduce (h : o.Alike o') (names : List String) :
    (o.introduce names).Alike (o'.introduce names) :=
  ⟨congrArg (List.modifyHead (names ++ ·)) h.scopes, h.inClass, h.own⟩

/-- And in the initial value of the same variable. -/
theorem initial (h : o.Alike o') (name : String) : (o.initial name).Alike (o'.initial name) :=
  ⟨congrArg (List.modifyHead ([name] ++ ·)) h.scopes, h.inClass, rfl⟩

/-- And in the body of a class. -/
theorem enterClass (h : o.Alike o') (hasSuperclass : Bool) :
    (o.enterClass hasSuperclass).Alike (o'.enterClass hasSuperclass) := by
  refine ⟨?_, rfl, rfl⟩
  simp only [Outlook.enterClass, h.scopes]

end Outlook.Alike

/-- A read of a variable at the position of an assignment to it. -/
structure Position.ReadsFor (p q : Position) : Prop where
  role : p.role = .variable
  ref : p.ref = q.ref
  outlook : q.outlook.Alike p.outlook

/-- The assignments at a site have a read of the variable at their position. -/
def Supplanted (site : Site) (qs ps : List Position) : Prop :=
  ∀ q ∈ qs, q.role = .assign → q.ref.mark = site → ∃ p ∈ ps, p.ReadsFor q

namespace Supplanted

variable {site : Site} {qs ps qs' ps' : List Position}

theorem nil : Supplanted site [] ps := fun _ mem => nomatch mem

/-- Positions in a row are supplanted in a row. -/
theorem append (h : Supplanted site qs ps) (h' : Supplanted site qs' ps') :
    Supplanted site (qs ++ qs') (ps ++ ps') := by
  intro q mem role mark
  rcases List.mem_append.mp mem with mem | mem
  · obtain ⟨p, mem, reads⟩ := h q mem role mark
    exact ⟨p, List.mem_append_left _ mem, reads⟩
  · obtain ⟨p, mem, reads⟩ := h' q mem role mark
    exact ⟨p, List.mem_append_right _ mem, reads⟩

/-- Where nothing is assigned. -/
theorem of_role (none : ∀ q ∈ qs, q.role ≠ .assign) : Supplanted site qs ps :=
  fun q mem role => absurd role (none q mem)

end Supplanted

/-- Of distinct sites each part is distinct. -/
theorem nodup_sites_append {xs ys : List (Occurrence Site)} (h : (sitesOf (xs ++ ys)).Nodup) :
    (sitesOf xs).Nodup ∧ (sitesOf ys).Nodup := by
  rw [sitesOf_append] at h
  exact ⟨(List.nodup_append.mp h).1, (List.nodup_append.mp h).2.1⟩

/-- The sites at the positions of an expression are those of its references. -/
theorem mark_mem_of_position {o : Outlook} {e : Expr Site} {q : Position}
    (mem : q ∈ e.positions o) :
    q.ref.mark ∈ sitesOf e.references :=
  List.mem_map.mpr
    ⟨(q.role, q.ref), (positions_expr o e).subset (List.mem_map.mpr ⟨q, mem, rfl⟩), rfl⟩

section Positions

variable {site : Site}

mutual

/-- Where an assignment is taken out of an expression, a read of the variable stands at its
position, by induction on the expression. -/
theorem supplanted_expr : ∀ (e : Expr Site) {o o' : Outlook}, o.Alike o' →
    (sitesOf e.references).Nodup →
    Supplanted site (e.positions o) ((e.unassign site).positions o')
  | .literal _, _, _, _, _ => .nil
  | .variable _, _, _, _, _ | .this _, _, _, _, _ | .super _ _, _, _, _, _ =>
    .of_role fun q mem => by simp [List.mem_singleton.mp mem]
  | .grouping e, _, _, alike, nodup | .unary _ e, _, _, alike, nodup
  | .get e _, _, _, alike, nodup => supplanted_expr e alike nodup
  | .binary l _ r, _, _, alike, nodup | .logical l _ r, _, _, alike, nodup =>
    (supplanted_expr l alike (nodup_sites_append nodup).1).append
      (supplanted_expr r (alike.behind _ _) (nodup_sites_append nodup).2)
  | .set e _ v, _, _, alike, nodup =>
    (supplanted_expr v alike (nodup_sites_append nodup).2).append
      (supplanted_expr e (alike.behind _ _) (nodup_sites_append nodup).1)
  | .assign ref e, o, o', alike, nodup => by
    have apart : ref.mark ∉ sitesOf e.references ∧ (sitesOf e.references).Nodup :=
      List.nodup_cons.mp nodup
    rw [Expr.unassign]
    split
    · rename_i here
      -- The read takes the place of the whole assignment, so the site may not occur in the value.
      intro q mem role mark
      rcases List.mem_append.mp mem with mem | mem
      · rw [here, ← mark] at apart
        exact absurd (mark_mem_of_position mem) apart.1
      · rw [List.mem_singleton.mp mem]
        exact ⟨⟨.variable, ref, o'⟩, List.mem_singleton.mpr rfl, rfl, rfl,
          alike.scopes, alike.inClass, alike.own⟩
    · rename_i elsewhere
      refine (supplanted_expr e alike apart.2).append fun q mem role mark => ?_
      rw [List.mem_singleton.mp mem] at mark
      exact absurd mark elsewhere
  | .call f _ es, _, _, alike, nodup =>
    (supplanted_expr f alike (nodup_sites_append nodup).1).append
      (supplanted_exprs es (alike.behind _ _) (nodup_sites_append nodup).2)
  | .function _ _ body, _, _, alike, nodup => supplanted_stmts body (alike.enter _) nodup

theorem supplanted_exprs : ∀ (es : List (Expr Site)) {o o' : Outlook}, o.Alike o' →
    (sitesOf (Expr.referencesAll es)).Nodup →
    Supplanted site (Expr.positionsAll o es) (Expr.positionsAll o' (Expr.unassignAll site es))
  | [], _, _, _, _ => .nil
  | e :: es, _, _, alike, nodup =>
    (supplanted_expr e alike (nodup_sites_append nodup).1).append
      (supplanted_exprs es (alike.behind _ _) (nodup_sites_append nodup).2)

/-- So it is for a statement. -/
theorem supplanted_stmt : ∀ (s : Stmt Site) {o o' : Outlook}, o.Alike o' →
    (sitesOf s.references).Nodup →
    Supplanted site (s.positions o) ((s.unassign site).positions o')
  | .missing, _, _, _, _ | .var _ none, _, _, _, _ | .ret _ none, _, _, _, _
  | .loopExit _, _, _, _, _ => .nil
  | .expression e, _, _, alike, nodup | .print e, _, _, alike, nodup
  | .ret _ (some e), _, _, alike, nodup => supplanted_expr e alike nodup
  | .var name (some e), _, _, alike, nodup => supplanted_expr e (alike.initial name.lexeme) nodup
  | .block body, _, _, alike, nodup => supplanted_stmts body (alike.enter []) nodup
  | .ifElse c t none, _, _, alike, nodup =>
    (supplanted_expr c alike (nodup_sites_append nodup).1).append
      (supplanted_stmt t alike (nodup_sites_append nodup).2)
  | .ifElse c t (some e), _, _, alike, nodup => by
    obtain ⟨branches, ofElse⟩ := nodup_sites_append nodup
    obtain ⟨ofCondition, ofThen⟩ := nodup_sites_append branches
    rw [Stmt.unassign, Stmt.positions, Stmt.positions, introduces_unassign]
    exact (supplanted_expr c alike ofCondition).append
      ((supplanted_stmt t alike ofThen).append
        (supplanted_stmt e (alike.introduce t.introduces) ofElse))
  | .whileLoop c b, _, _, alike, nodup =>
    (supplanted_expr c alike (nodup_sites_append nodup).1).append
      (supplanted_stmt b alike (nodup_sites_append nodup).2)
  | .function ⟨name, params, body, getter⟩, _, _, alike, nodup =>
    supplanted_routine ⟨name, params, body, getter⟩ (alike.introduce [name.lexeme]) nodup
  | .classDecl name superclass mixins methods statics, _, _, alike, nodup => by
    obtain ⟨header, ofStatics⟩ := nodup_sites_append nodup
    obtain ⟨_, ofMethods⟩ := nodup_sites_append header
    have inside := (alike.introduce [name.lexeme]).enterClass superclass.isSome
    refine .append (.of_role fun q mem => ?_)
      ((supplanted_routines methods inside ofMethods).append
        (supplanted_routines statics inside ofStatics))
    obtain ⟨ref, _, rfl⟩ := List.mem_map.mp mem
    simp

theorem supplanted_stmts : ∀ (ss : List (Stmt Site)) {o o' : Outlook}, o.Alike o' →
    (sitesOf (Stmt.referencesAll ss)).Nodup →
    Supplanted site (Stmt.positionsAll o ss) (Stmt.positionsAll o' (Stmt.unassignAll site ss))
  | [], _, _, _, _ => .nil
  | s :: ss, _, _, alike, nodup => by
    rw [Stmt.unassignAll, Stmt.positionsAll, Stmt.positionsAll, introduces_unassign]
    exact (supplanted_stmt s alike (nodup_sites_append nodup).1).append
      (supplanted_stmts ss (alike.introduce _) (nodup_sites_append nodup).2)

/-- And so it is for a routine. -/
theorem supplanted_routine : ∀ (r : Routine Site) {o o' : Outlook}, o.Alike o' →
    (sitesOf r.references).Nodup →
    Supplanted site (r.positions o) ((r.unassign site).positions o')
  | ⟨_, _, body, _⟩, _, _, alike, nodup => supplanted_stmts body (alike.enter _) nodup

theorem supplanted_routines : ∀ (rs : List (Routine Site)) {o o' : Outlook}, o.Alike o' →
    (sitesOf (Routine.referencesAll rs)).Nodup →
    Supplanted site (Routine.positionsAll o rs)
      (Routine.positionsAll o' (Routine.unassignAll site rs))
  | [], _, _, _, _ => .nil
  | r :: rs, _, _, alike, nodup =>
    (supplanted_routine r alike (nodup_sites_append nodup).1).append
      (supplanted_routines rs alike (nodup_sites_append nodup).2)

end

/-- In a program with a read in the place of an assignment, the read stands at its position. -/
theorem Edition.positions_unassign {ed : Edition} (distinct : ed.Distinct) {q : Position}
    (mem : q ∈ ed.positions) (role : q.role = .assign) :
    ∃ p ∈ (ed.unassign q.ref.mark).positions, p.ReadsFor q :=
  supplanted_stmts ed.program (.refl .top) distinct q mem role rfl

end Positions

/-! ## Distances -/

namespace Position

variable {p q : Position}

/-- The reference reads a variable in its own initial value, where nothing has read it yet.  Such a
read goes past the scope of the variable. -/
def PassesOver (p : Position) : Prop :=
  p.IsOwnRead ∧ p.outlook.reread = false ∧ ∃ names, p.outlook.scopes[0]? = some names ∧
    p.name ∈ names

/-- A position that passes over its own scope is not reread. -/
theorem PassesOver.plain (passes : p.PassesOver) : ¬ p.Reread := by
  rintro ⟨-, again, -⟩
  rw [passes.2.1] at again
  cases again

/-- An assignment means the innermost scope that has the name. -/
theorem distance_of_assign (role : q.role = .assign) :
    q.distance = q.outlook.scopes.findIdx? (·.contains q.name) := by
  have stray : ¬ q.IsStray := by simp [IsStray, role]
  have skip : q.skip = 0 := by simp [Position.skip, IsOwnRead, role]
  rw [distance, if_neg stray, skip]
  simp

/-- A read that passes over nothing means the innermost scope that has the name. -/
theorem distance_of_variable (role : p.role = .variable) (passes : ¬ p.PassesOver) :
    p.distance = p.outlook.scopes.findIdx? (·.contains p.name) := by
  have stray : ¬ p.IsStray := by simp [IsStray, role]
  rw [distance, if_neg stray]
  by_cases skips : p.IsOwnRead ∧ p.outlook.reread = false
  · rw [skip, if_pos skips]
    cases scopes : p.outlook.scopes with
    | nil => rfl
    | cons names outer =>
      -- The innermost scope does not have the name, so it does not matter that it is left out.
      have absent : names.contains p.name = false := by
        refine Bool.eq_false_iff.mpr fun has => passes ⟨skips.1, skips.2, names, ?_, ?_⟩
        · rw [scopes]
          rfl
        · exact List.contains_iff_mem.mp has
      rw [List.findIdx?_cons, absent]
      rfl
  · rw [skip, if_neg skips]
    simp

/-- An assignment to a variable in its own initial value means the variable itself. -/
theorem distance_assign_of_passesOver (reads : p.ReadsFor q) (role : q.role = .assign)
    (passes : p.PassesOver) : q.distance = some 0 := by
  obtain ⟨_, _, names, innermost, has⟩ := passes
  have same : p.name = q.name := congrArg Reference.name reads.ref
  rw [reads.outlook.scopes, ← List.head?_eq_getElem?] at innermost
  obtain ⟨outer, scopes⟩ := List.head?_eq_some_iff.mp innermost
  have here : names.contains q.name = true := by rwa [← same, List.contains_iff_mem]
  rw [distance_of_assign role, scopes, List.findIdx?_cons, here]
  rfl

/-- A read at the position of an assignment means the same, unless it passes over the scope of the
variable. -/
theorem distance_eq_iff (reads : p.ReadsFor q) (role : q.role = .assign) :
    p.distance = q.distance ↔ ¬ p.PassesOver := by
  constructor
  · intro same passes
    rw [distance_assign_of_passesOver reads role passes, distance_eq_some_iff passes.plain] at same
    exact same.2.1.2 ⟨rfl, passes.1⟩
  · intro passes
    rw [distance_of_variable reads.role passes, distance_of_assign role, reads.outlook.scopes, name,
      name, reads.ref]

end Position

end LoxLang
