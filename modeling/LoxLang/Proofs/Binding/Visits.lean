/-
LoxLang.Proofs.Binding.Visits: the nodes that the walk of the static rules comes to.

The walk is a function of the whole tree.  Statements about what it finds at one node speak about a
visit: the node, what is around it, and the state in which the walk comes to it.  One visit leads to
another when the walk of the one node begins that of the other.

* `Opener`, `Level`: the scopes around a node, each with the construct that opened it.
* `Item`, `Visit`: what is visited, and in which state.
* `Visit.Enters`: from a node to a part of it.
* `Edition`, `Edition.Visits`: a program as it was bound, and all visits of it.

Main statements: `Visit.Enters.holds`, and from it `Edition.Visits.recorded`: what a visit records
for a reference is what the finished table says.
-/
import LoxLang.Proofs.Binding.Effect
import Mathlib.Logic.Relation

namespace LoxLang

/-! ## Scopes around a node -/

/-- What opens a scope: a block, a routine, a class for `this`, or a class with a superclass for
`super`. -/
inductive Opener (ρ : Type) where
  | block (body : List (Stmt ρ))
  | routine (params : List Token) (body : List (Stmt ρ))
  | object
  | parent

/-- A scope around a node. -/
structure Level where
  opener : Opener Site
  /-- The variable of this scope whose initial value the node stands in. -/
  pending : Option String

/-- The scopes around the initial value of a variable. -/
def pend (name : String) (levels : List Level) : List Level :=
  levels.modifyHead fun level => { level with pending := some name }

/-- The scopes around the members of a class. -/
def classLevels (hasSuperclass : Bool) (levels : List Level) : List Level :=
  ⟨.object, none⟩ :: if hasSuperclass then ⟨.parent, none⟩ :: levels else levels

/-! ## Visits -/

/-- What the walk comes to. -/
inductive Item where
  | expr (e : Expr Site)
  | stmt (s : Stmt Site)
  | stmts (ss : List (Stmt Site))
  /-- A parent in the header of a class. -/
  | header (cls : Token) (fault : BindingFault) (ref : Reference Site)

namespace Item

/-- The walk over an item. -/
def bind (around : Surroundings) : Item → Bind Unit
  | expr e => bindExpr around e
  | stmt s => bindStmt around s
  | stmts ss => bindStmts around ss
  | header cls fault ref => bindParent around cls fault ref

/-- The sites of an item. -/
def sites : Item → List Site
  | expr e => sitesOf e.references
  | stmt s => sitesOf s.references
  | stmts ss => sitesOf (Stmt.referencesAll ss)
  | header _ _ ref => [ref.mark]

end Item

/-- The walk comes to an item. -/
structure Visit where
  around : Surroundings
  levels : List Level
  item : Item
  walk : Walk

/-- The walk behind the item. -/
def Visit.after (v : Visit) : Walk := v.walk.after (v.item.bind v.around)

/-- The walk comes to the body of a routine. -/
def bodyVisit (around : Surroundings) (levels : List Level) (context : RoutineContext)
    (params : List Token) (body : List (Stmt Site)) (w : Walk) : Visit :=
  ⟨{ around with routine := context }, ⟨.routine params body, none⟩ :: levels, .stmts body,
    w.opened.after (bindParams params)⟩

/-! ## Parts -/

/-- The parts of an expression in the order in which they are bound. -/
def Expr.operands {ρ : Type} : Expr ρ → List (Expr ρ)
  | .grouping e => [e]
  | .unary _ e => [e]
  | .binary l _ r => [l, r]
  | .logical l _ r => [l, r]
  | .assign _ e => [e]
  | .call f _ es => f :: es
  | .get e _ => [e]
  | .set e _ v => [v, e]
  | _ => []

/-- What binding an expression does after its operands. -/
def bindOwn (around : Surroundings) : Expr Site → Bind Unit
  | .variable ref => bindVariable around ref
  | .assign ref _ => do
    let _ ← bindLocal ref false 0
  | .this ref => bindExpr around (.this ref)
  | .super ref method => bindExpr around (.super ref method)
  | .function keyword params body => bindExpr around (.function keyword params body)
  | _ => return

/-- An expression is walked over by its operands, and then for itself. -/
theorem after_bindExpr (around : Surroundings) (e : Expr Site) (w : Walk) :
    w.after (bindExpr around e) =
      (w.after (bindExprs around e.operands)).after (bindOwn around e) := by
  cases e <;> rfl

/-- Operands in a row are walked over in a row. -/
theorem after_bindExprs_append (around : Surroundings) (es es' : List (Expr Site)) (w : Walk) :
    w.after (bindExprs around (es ++ es')) =
      (w.after (bindExprs around es)).after (bindExprs around es') := by
  induction es generalizing w with
  | nil => rfl
  | cons e es ih => exact ih (w.after (bindExpr around e))

/-- The expression that a statement evaluates in the scope it stands in. -/
def Stmt.operand? {ρ : Type} : Stmt ρ → Option (Expr ρ)
  | .expression e => some e
  | .print e => some e
  | .ifElse c _ _ => some c
  | .whileLoop c _ => some c
  | .ret _ value => value
  | _ => none

/-- What binding a statement does before its operand. -/
def bindPreface (around : Surroundings) : Stmt Site → Bind Unit
  | .ret keyword value => checkReturn around keyword value.isSome
  | _ => return

/-- Declares a name that is defined at once. -/
def introduce (name : Token) : Bind Unit := do
  declareName name
  defineName name

/-- The walk in the header of a class, behind its superclass and some of its mixins. -/
def headerWalk (around : Surroundings) (name : Token) (superclass : Option (Reference Site))
    (mixins : List (Reference Site)) (w : Walk) : Walk :=
  ((w.after (introduce name)).after
    (superclass.forM (bindParent around name .inheritsItself))).after
    (mixins.forM (bindParent around name .mixesInItself))

/-- The walk behind the opening brace of a class. -/
def membersWalk (around : Surroundings) (name : Token) (superclass : Option (Reference Site))
    (mixins : List (Reference Site)) (w : Walk) : Walk :=
  (headerWalk around name superclass mixins w).after (openClass superclass.isSome)

/-- The walk comes from an item to a part of it. -/
inductive Visit.Enters : Visit → Visit → Prop
  | operand {around levels e w before e' behind} (parts : e.operands = before ++ e' :: behind) :
    Enters ⟨around, levels, .expr e, w⟩
      ⟨around, levels, .expr e', w.after (bindExprs around before)⟩
  | anonymous {around levels w keyword params body} :
    Enters ⟨around, levels, .expr (.function keyword params body), w⟩
      (bodyVisit around levels .function params body w)
  | first {around levels w s ss} :
    Enters ⟨around, levels, .stmts (s :: ss), w⟩ ⟨around, levels, .stmt s, w⟩
  | rest {around levels w s ss} :
    Enters ⟨around, levels, .stmts (s :: ss), w⟩
      ⟨around, levels, .stmts ss, w.after (bindStmt around s)⟩
  | value {around levels w s e} (part : s.operand? = some e) :
    Enters ⟨around, levels, .stmt s, w⟩ ⟨around, levels, .expr e, w.after (bindPreface around s)⟩
  | initial {around levels w name e} :
    Enters ⟨around, levels, .stmt (.var name (some e)), w⟩
      ⟨around, pend name.lexeme levels, .expr e, w.after (declareName name)⟩
  | block {around levels w body} :
    Enters ⟨around, levels, .stmt (.block body), w⟩
      ⟨around, ⟨.block body, none⟩ :: levels, .stmts body, w.opened⟩
  | thenBranch {around levels w c t e} :
    Enters ⟨around, levels, .stmt (.ifElse c t e), w⟩
      ⟨around, levels, .stmt t, w.after (bindExpr around c)⟩
  | elseBranch {around levels w c t e} :
    Enters ⟨around, levels, .stmt (.ifElse c t (some e)), w⟩
      ⟨around, levels, .stmt e, (w.after (bindExpr around c)).after (bindStmt around t)⟩
  | loopBody {around levels w c b} :
    Enters ⟨around, levels, .stmt (.whileLoop c b), w⟩
      ⟨around, levels, .stmt b, w.after (bindExpr around c)⟩
  | function {around levels w name params body getter} :
    Enters ⟨around, levels, .stmt (.function ⟨name, params, body, getter⟩), w⟩
      (bodyVisit around levels .function params body
        (((w.after (introduce name)).after (useName name)).after
          (checkGetter around (⟨name, params, body, getter⟩ : Routine Site))))
  | superclass {around levels w name ref mixins methods statics} :
    Enters ⟨around, levels, .stmt (.classDecl name (some ref) mixins methods statics), w⟩
      ⟨around, levels, .header name .inheritsItself ref, w.after (introduce name)⟩
  | mixin {around levels w name superclass before ref behind methods statics} :
    Enters
      ⟨around, levels, .stmt (.classDecl name superclass (before ++ ref :: behind) methods statics),
        w⟩
      ⟨around, levels, .header name .mixesInItself ref,
        headerWalk around name superclass before w⟩
  | method {around levels w name superclass mixins before m params body getter behind statics} :
    Enters
      ⟨around, levels, .stmt (.classDecl name superclass mixins
        (before ++ ⟨m, params, body, getter⟩ :: behind) statics), w⟩
      (let inside := around.inClass superclass.isSome
        let r : Routine Site := ⟨m, params, body, getter⟩
        let reached :=
          (membersWalk around name superclass mixins w).after (bindMethods inside before)
        bodyVisit inside (classLevels superclass.isSome levels) (methodContext r reached).1 params
          body ((reached.after (methodContext r)).after (checkGetter inside r)))
  | static {around levels w name superclass mixins methods before m params body getter behind} :
    Enters
      ⟨around, levels, .stmt (.classDecl name superclass mixins methods
        (before ++ ⟨m, params, body, getter⟩ :: behind)), w⟩
      (let inside := around.inClass superclass.isSome
        let r : Routine Site := ⟨m, params, body, getter⟩
        let reached := ((membersWalk around name superclass mixins w).after
          (bindMethods inside methods)).after (bindStatics inside before)
        bodyVisit inside (classLevels superclass.isSome levels) .method params body
          (reached.after (checkGetter inside r)))

/-! ## Behind a part -/

/-- What a stretch of the walk records and complains about: only some sites get a distance, and
complaints stay. -/
structure Walk.Later (sites : List Site) (w w' : Walk) : Prop where
  distances : ∀ site, site ∉ sites → w'.distances.get? site = w.distances.get? site
  complaints : w.complaints <+: w'.complaints

namespace Walk.Later

variable {s t : List Site} {names : List String} {w w' w'' : Walk}

/-- Behind nothing the walk is where it was. -/
theorem refl (w : Walk) : w.Later [] w := ⟨fun _ _ => rfl, List.prefix_refl _⟩

/-- What a stretch of the walk records, it records at its own sites. -/
theorem of_step (step : Walk.Step s names w w') : w.Later s w' := ⟨step.distances, step.complaints⟩

/-- Behind two stretches, at the sites of either. -/
theorem trans (first : w.Later s w') (second : w'.Later t w'') : w.Later (s ++ t) w'' where
  distances site h := by
    rw [List.mem_append, not_or] at h
    rw [second.distances site h.2, first.distances site h.1]
  complaints := first.complaints.trans second.complaints

/-- More sites may be listed than were visited. -/
theorem mono (later : w.Later s w') (sites : s ⊆ t) : w.Later t w' :=
  ⟨fun site h => later.distances site fun mem => h (sites mem), later.complaints⟩

/-- To open a scope records nothing. -/
theorem opened (w : Walk) : w.Later [] w.opened := ⟨fun _ _ => rfl, List.prefix_refl _⟩

/-- Nor does it to close one. -/
theorem closeScope (w : Walk) : w.Later [] (w.after closeScope) := by
  obtain ⟨_, distances, complaints⟩ := w.after_closeScope
  exact ⟨fun site _ => by rw [distances], complaints⟩

theorem openClass (hasSuperclass : Bool) (w : Walk) :
    w.Later [] (w.after (openClass hasSuperclass)) := by
  have one : ∀ (name : String) (w : Walk), w.Later [] (w.opened.after (declareImplicit name)) :=
    fun name w => (opened w).trans (of_step (step_declareImplicit name w.opened))
  cases hasSuperclass with
  | false => exact one thisName w
  | true => exact (one superName w).trans (one thisName _)

theorem closeClass (hasSuperclass : Bool) (w : Walk) :
    w.Later [] (w.after (closeClass hasSuperclass)) := by
  cases hasSuperclass with
  | false => exact closeScope w
  | true => exact (closeScope w).trans (closeScope _)

end Walk.Later

/-- One visit is part of another: it happens in the middle of it. -/
def Visit.Holds (v v' : Visit) : Prop :=
  ∃ before behind, (before ++ (v'.item.sites ++ behind)).Perm v.item.sites ∧
    v.walk.Later before v'.walk ∧ v'.after.Later behind v.after

/-- A visit holds itself. -/
theorem Visit.Holds.refl (v : Visit) : v.Holds v :=
  ⟨[], [], by simp, .refl _, .refl _⟩

/-- A part of a part is a part. -/
theorem Visit.Holds.trans {v v' v'' : Visit} (outer : v.Holds v') (inner : v'.Holds v'') :
    v.Holds v'' := by
  obtain ⟨before, behind, perm, into, out⟩ := outer
  obtain ⟨before', behind', perm', into', out'⟩ := inner
  refine ⟨before ++ before', behind' ++ behind, ?_, into.trans into', out'.trans out⟩
  have widened := ((perm'.append_right behind).append_left before).trans perm
  simpa only [List.append_assoc] using widened

/-- The sites that an expression has beside those of its operands. -/
def ownSites : Expr Site → List Site
  | .variable ref => [ref.mark]
  | .assign ref _ => [ref.mark]
  | .this ref => [ref.mark]
  | .super ref _ => [ref.mark]
  | .function _ _ body => sitesOf (Stmt.referencesAll body)
  | _ => []

/-- The sites of an expression are those of its operands and its own one. -/
theorem perm_operands (e : Expr Site) :
    (sitesOf (Expr.referencesAll e.operands) ++ ownSites e).Perm (sitesOf e.references) := by
  cases e with
  | assign ref e =>
    simp only [Expr.operands, Expr.referencesAll, ownSites, Expr.references, List.append_nil]
    exact List.perm_append_comm
  | set e _ v =>
    simp only [Expr.operands, Expr.referencesAll, ownSites, Expr.references, List.append_nil,
      sitesOf_append]
    exact List.perm_append_comm
  | _ => simp [Expr.operands, Expr.referencesAll, ownSites, Expr.references]

/-- For itself an expression records at its own site, if it has one. -/
theorem later_bindOwn (around : Surroundings) :
    ∀ (e : Expr Site) (w : Walk), w.Later (ownSites e) (w.after (bindOwn around e))
  | .variable ref, w => .of_step (step_bindVariable around ref w)
  | .assign ref _, w => .of_step (step_bindLocal ref false 0 w)
  | .this ref, w => .of_step (step_bindExpr around (.this ref) w)
  | .super ref method, w => .of_step (step_bindExpr around (.super ref method) w)
  | .function keyword params body, w =>
    .of_step (step_bindExpr around (.function keyword params body) w)
  | .literal _, w | .grouping _, w | .unary _ _, w | .binary .., w | .logical .., w => .refl w
  | .call .., w | .get .., w | .set .., w => .refl w

theorem referencesAll_append (es es' : List (Expr Site)) :
    Expr.referencesAll (es ++ es') = Expr.referencesAll es ++ Expr.referencesAll es' := by
  induction es with
  | nil => rfl
  | cons e es ih => simp [Expr.referencesAll, ih]

/-- A visit of an expression holds the visit of each operand. -/
theorem holds_operand {around : Surroundings} {levels : List Level} {e e' : Expr Site}
    {before behind : List (Expr Site)} {w : Walk} (parts : e.operands = before ++ e' :: behind) :
    Visit.Holds ⟨around, levels, .expr e, w⟩
      ⟨around, levels, .expr e', w.after (bindExprs around before)⟩ := by
  refine ⟨sitesOf (Expr.referencesAll before),
    sitesOf (Expr.referencesAll behind) ++ ownSites e, ?_,
    .of_step (step_bindExprs around before w), ?_⟩
  · have perm := perm_operands e
    rw [parts, referencesAll_append, Expr.referencesAll] at perm
    simpa [Item.sites] using perm
  · unfold Visit.after
    simp only [Item.bind]
    rw [after_bindExpr around e, parts, after_bindExprs_append]
    exact (Walk.Later.of_step (step_bindExprs around behind _)).trans (later_bindOwn around e _)

/-- The walk enters the body of a routine in a scope of its own. -/
theorem later_bodyVisit (around : Surroundings) (levels : List Level) (context : RoutineContext)
    (params : List Token) (body : List (Stmt Site)) (w : Walk) :
    w.Later [] (bodyVisit around levels context params body w).walk :=
  (Walk.Later.opened w).trans (.of_step (step_bindParams params w.opened))

/-- To introduce a name records nothing. -/
theorem later_introduce (name : Token) (w : Walk) : w.Later [] (w.after (introduce name)) :=
  .of_step ((step_declareName name w).trans (step_defineName name _))

/-- The header of a class records at its parents. -/
theorem later_headerWalk (around : Surroundings) (name : Token)
    (superclass : Option (Reference Site)) (mixins : List (Reference Site)) (w : Walk) :
    w.Later ((superclass.toList ++ mixins).map Reference.mark)
      (headerWalk around name superclass mixins w) := by
  have parents := (Walk.Later.of_step (step_superclass around name superclass
    (w.after (introduce name)))).trans (.of_step (step_bindParents around name
      .mixesInItself mixins _))
  exact ((later_introduce name w).trans parents).mono (by simp)

/-- So does the way to its members. -/
theorem later_members (around : Surroundings) (name : Token)
    (superclass : Option (Reference Site)) (mixins : List (Reference Site)) (w : Walk) :
    w.Later ((superclass.toList ++ mixins).map Reference.mark)
      (membersWalk around name superclass mixins w) :=
  ((later_headerWalk around name superclass mixins w).trans (.openClass _ _)).mono (by simp)

/-- A class is walked over by its header, its methods and its static methods, in this order. -/
theorem after_classDecl (around : Surroundings) (name : Token)
    (superclass : Option (Reference Site)) (mixins : List (Reference Site))
    (methods statics : List (Routine Site)) (w : Walk) :
    w.after (bindStmt around (.classDecl name superclass mixins methods statics)) =
      (((membersWalk around name superclass mixins w).after
        (bindMethods (around.inClass superclass.isSome) methods)).after
          (bindStatics (around.inClass superclass.isSome) statics)).after
            (closeClass superclass.isSome) := by
  simp only [bindStmt, Walk.after_bind]
  rfl

/-- Methods in a row are walked over in a row. -/
theorem after_bindMethods_append (around : Surroundings) (rs rs' : List (Routine Site)) (w : Walk) :
    w.after (bindMethods around (rs ++ rs')) =
      (w.after (bindMethods around rs)).after (bindMethods around rs') := by
  induction rs generalizing w with
  | nil => rfl
  | cons r rs ih =>
    exact ih ((w.after (methodContext r)).after (bindRoutine around (methodContext r w).1 r))

theorem after_bindStatics_append (around : Surroundings) (rs rs' : List (Routine Site)) (w : Walk) :
    w.after (bindStatics around (rs ++ rs')) =
      (w.after (bindStatics around rs)).after (bindStatics around rs') := by
  induction rs generalizing w with
  | nil => rfl
  | cons r rs ih => exact ih (w.after (bindRoutine around .method r))

/-- The sites of a class are those of its parents and of its members. -/
theorem sites_classDecl (name : Token) (superclass : Option (Reference Site))
    (mixins : List (Reference Site)) (methods statics : List (Routine Site)) :
    (Item.stmt (.classDecl name superclass mixins methods statics)).sites =
      superclass.toList.map Reference.mark ++ (mixins.map Reference.mark ++
        (sitesOf (Routine.referencesAll methods) ++ sitesOf (Routine.referencesAll statics))) := by
  simp only [Item.sites, Stmt.references, sitesOf_append, sitesOf_variables, List.map_append,
    List.append_assoc]

/-- The walk over the members of a class, up to its end. -/
theorem later_classBody (inside : Surroundings) (hasSuperclass : Bool)
    (methods statics : List (Routine Site)) (w : Walk) :
    w.Later (sitesOf (Routine.referencesAll methods) ++ sitesOf (Routine.referencesAll statics))
      ((((w.after (openClass hasSuperclass)).after (bindMethods inside methods)).after
        (bindStatics inside statics)).after (closeClass hasSuperclass)) := by
  have members := (Walk.Later.of_step (step_bindMethods inside methods
    (w.after (openClass hasSuperclass)))).trans (.of_step (step_bindStatics inside statics _))
  exact (((Walk.Later.openClass hasSuperclass w).trans members).trans (.closeClass _ _)).mono
    (by simp)

/-- Mixins record at their own sites. -/
theorem later_mixins (around : Surroundings) (name : Token) (mixins : List (Reference Site))
    (w : Walk) :
    w.Later (mixins.map Reference.mark)
      (w.after (mixins.forM (bindParent around name .mixesInItself))) :=
  .of_step (step_bindParents around name .mixesInItself mixins w)

theorem after_forM_append {α : Type} (w : Walk) (f : α → Bind PUnit) (as bs : List α) :
    w.after ((as ++ bs).forM f) = (w.after (as.forM f)).after (bs.forM f) := by
  induction as generalizing w with
  | nil => rfl
  | cons a as ih => exact ih (w.after (f a))

/-- The way to a mixin leads through those before it. -/
theorem headerWalk_append (around : Surroundings) (name : Token)
    (superclass : Option (Reference Site)) (before behind : List (Reference Site))
    (ref : Reference Site) (w : Walk) :
    headerWalk around name superclass (before ++ ref :: behind) w =
      ((headerWalk around name superclass before w).after
        (bindParent around name .mixesInItself ref)).after
          (behind.forM (bindParent around name .mixesInItself)) := by
  rw [headerWalk, after_forM_append]
  rfl

theorem routineReferences_append (rs rs' : List (Routine Site)) :
    Routine.referencesAll (rs ++ rs') = Routine.referencesAll rs ++ Routine.referencesAll rs' := by
  induction rs with
  | nil => rfl
  | cons r rs ih => simp [Routine.referencesAll, ih]

/-- What binding a statement does after its operand. -/
def bindBranches (around : Surroundings) : Stmt Site → Bind Unit
  | .ifElse _ t none => bindStmt around t
  | .ifElse _ t (some e) => do
    bindStmt around t
    bindStmt around e
  | .whileLoop _ b => bindStmt around b
  | _ => return

/-- The sites of the branches of a statement. -/
def branchSites : Stmt Site → List Site
  | .ifElse _ t none => sitesOf t.references
  | .ifElse _ t (some e) => sitesOf t.references ++ sitesOf e.references
  | .whileLoop _ b => sitesOf b.references
  | _ => []

/-- A statement with an expression is walked over by it, between what comes before and after. -/
theorem after_bindStmt_operand (around : Surroundings) {s : Stmt Site} {e : Expr Site}
    (part : s.operand? = some e) (w : Walk) :
    w.after (bindStmt around s) =
      ((w.after (bindPreface around s)).after (bindExpr around e)).after
        (bindBranches around s) := by
  cases s with
  | ifElse c t f =>
    cases part
    cases f <;> rw [bindStmt] <;> rfl
  | ret keyword value =>
    cases part
    rw [bindStmt]
    rfl
  | expression _ => cases part; rw [bindStmt]; rfl
  | print _ => cases part; rw [bindStmt]; rfl
  | whileLoop _ _ => cases part; rw [bindStmt]; rfl
  | _ => cases part

/-- What comes before the expression records nothing. -/
theorem later_bindPreface (around : Surroundings) (s : Stmt Site) (w : Walk) :
    w.Later [] (w.after (bindPreface around s)) := by
  cases s with
  | ret keyword value => exact .of_step (step_checkReturn around keyword value.isSome w)
  | _ => exact .refl w

/-- What comes after it are the branches, with their own sites. -/
theorem later_bindBranches (around : Surroundings) (s : Stmt Site) (w : Walk) :
    w.Later (branchSites s) (w.after (bindBranches around s)) := by
  cases s with
  | ifElse c t f =>
    cases f with
    | none => exact .of_step (step_bindStmt around t w)
    | some f =>
      exact (Walk.Later.of_step (step_bindStmt around t w)).trans
        (.of_step (step_bindStmt around f _))
  | whileLoop c b => exact .of_step (step_bindStmt around b w)
  | _ => exact .refl w

/-- A visit of a statement holds the visit of its expression. -/
theorem holds_value (around : Surroundings) (levels : List Level) {s : Stmt Site} {e : Expr Site}
    (part : s.operand? = some e) (w : Walk) :
    Visit.Holds ⟨around, levels, .stmt s, w⟩
      ⟨around, levels, .expr e, w.after (bindPreface around s)⟩ := by
  refine ⟨[], branchSites s, ?_, later_bindPreface around s w, ?_⟩
  · cases s with
    | ifElse c t f => cases part; cases f <;> simp [Item.sites, Stmt.references, branchSites]
    | ret keyword value => cases part; simp [Item.sites, Stmt.references, branchSites]
    | expression _ => cases part; simp [Item.sites, Stmt.references, branchSites]
    | print _ => cases part; simp [Item.sites, Stmt.references, branchSites]
    | whileLoop _ _ => cases part; simp [Item.sites, Stmt.references, branchSites]
    | _ => cases part
  · unfold Visit.after
    simp only [Item.bind]
    rw [after_bindStmt_operand around part]
    exact later_bindBranches around s _

/-- The walk comes to a part in the middle of an item. -/
theorem Visit.Enters.holds {v v' : Visit} (enters : v.Enters v') : v.Holds v' := by
  cases enters with
  | operand parts => exact holds_operand parts
  | @anonymous around levels w keyword params body =>
    refine ⟨[], [], by simp [bodyVisit, Item.sites, Expr.references],
      later_bodyVisit around levels .function params body w, ?_⟩
    exact .closeScope _
  | @first around levels w s ss =>
    refine ⟨[], sitesOf (Stmt.referencesAll ss), ?_, .refl w, ?_⟩
    · simp [Item.sites, Stmt.referencesAll]
    · exact .of_step (step_bindStmts around ss _)
  | @rest around levels w s ss =>
    refine ⟨sitesOf s.references, [], ?_, .of_step (step_bindStmt around s w), .refl _⟩
    simp [Item.sites, Stmt.referencesAll]
  | @value around levels w s e part => exact holds_value around levels part w
  | @initial around levels w name e =>
    refine ⟨[], [], by simp [Item.sites, Stmt.references],
      .of_step (step_declareName name w), .of_step (step_defineName name _)⟩
  | @block around levels w body =>
    refine ⟨[], [], by simp [Item.sites, Stmt.references], .opened w, .closeScope _⟩
  | @thenBranch around levels w c t e =>
    cases e with
    | none =>
      refine ⟨sitesOf c.references, [], by simp [Item.sites, Stmt.references],
        .of_step (step_bindExpr around c w), .refl _⟩
    | some e =>
      refine ⟨sitesOf c.references, sitesOf e.references, by simp [Item.sites, Stmt.references],
        .of_step (step_bindExpr around c w), .of_step (step_bindStmt around e _)⟩
  | @elseBranch around levels w c t e =>
    refine ⟨sitesOf c.references ++ sitesOf t.references, [], ?_, ?_, .refl _⟩
    · simp [Item.sites, Stmt.references]
    · exact (Walk.Later.of_step (step_bindExpr around c w)).trans
        (.of_step (step_bindStmt around t _))
  | @loopBody around levels w c b =>
    refine ⟨sitesOf c.references, [], by simp [Item.sites, Stmt.references],
      .of_step (step_bindExpr around c w), .refl _⟩
  | @function around levels w name params body getter =>
    refine ⟨[], [], by simp [bodyVisit, Item.sites, Stmt.references, Routine.references], ?_, ?_⟩
    · have declared := ((later_introduce name w).trans (.of_step (step_useName name _))).trans
        (.of_step (step_checkGetter around (⟨name, params, body, getter⟩ : Routine Site) _))
      exact declared.trans (later_bodyVisit around levels .function params body _)
    · exact .closeScope _
  | @superclass around levels w name ref mixins methods statics =>
    refine ⟨[], mixins.map Reference.mark ++ (sitesOf (Routine.referencesAll methods) ++
      sitesOf (Routine.referencesAll statics)), ?_, later_introduce name w, ?_⟩
    · rw [sites_classDecl]
      exact .refl _
    · unfold Visit.after
      simp only [Item.bind]
      rw [after_classDecl]
      exact (later_mixins around name mixins _).trans (later_classBody _ true methods statics _)
  | @mixin around levels w name superclass before ref behind methods statics =>
    refine ⟨(superclass.toList ++ before).map Reference.mark, behind.map Reference.mark ++
      (sitesOf (Routine.referencesAll methods) ++ sitesOf (Routine.referencesAll statics)), ?_,
      later_headerWalk around name superclass before w, ?_⟩
    · rw [sites_classDecl]
      simp [Item.sites]
    · unfold Visit.after
      simp only [Item.bind]
      rw [after_classDecl, membersWalk, headerWalk_append]
      exact (later_mixins around name behind _).trans (later_classBody _ _ methods statics _)
  | @method around levels w name superclass mixins before m params body getter behind statics =>
    refine ⟨(superclass.toList ++ mixins).map Reference.mark ++
      sitesOf (Routine.referencesAll before),
      sitesOf (Routine.referencesAll behind) ++ sitesOf (Routine.referencesAll statics), ?_, ?_, ?_⟩
    · rw [sites_classDecl, routineReferences_append]
      simp [Item.sites, bodyVisit, Routine.referencesAll, Routine.references]
    · have reached := (later_members around name superclass mixins w).trans
        (.of_step (step_bindMethods (around.inClass superclass.isSome) before _))
      have checked :=
        (reached.trans (.of_step (step_methodContext ⟨m, params, body, getter⟩ _))).trans
        (.of_step (step_checkGetter (around.inClass superclass.isSome)
          (⟨m, params, body, getter⟩ : Routine Site) _))
      exact (checked.trans (later_bodyVisit _ (classLevels superclass.isSome levels) _ params body
        _)).mono (by simp)
    · unfold Visit.after
      simp only [Item.bind]
      rw [after_classDecl, after_bindMethods_append]
      have rest := fun w : Walk => (Walk.Later.closeScope w).trans
        ((Walk.Later.of_step (step_bindMethods (around.inClass superclass.isSome) behind _)).trans
          ((Walk.Later.of_step
            (step_bindStatics (around.inClass superclass.isSome) statics _)).trans
            (.closeClass superclass.isSome _)))
      exact (rest _).mono (by simp)
  | @static around levels w name superclass mixins methods before m params body getter behind =>
    refine ⟨(superclass.toList ++ mixins).map Reference.mark ++
      (sitesOf (Routine.referencesAll methods) ++ sitesOf (Routine.referencesAll before)),
      sitesOf (Routine.referencesAll behind), ?_, ?_, ?_⟩
    · rw [sites_classDecl, routineReferences_append]
      simp [Item.sites, bodyVisit, Routine.referencesAll, Routine.references]
    · have reached := ((later_members around name superclass mixins w).trans
        (.of_step (step_bindMethods (around.inClass superclass.isSome) methods _))).trans
          (.of_step (step_bindStatics (around.inClass superclass.isSome) before _))
      have checked := reached.trans (.of_step (step_checkGetter (around.inClass superclass.isSome)
        (⟨m, params, body, getter⟩ : Routine Site) _))
      exact (checked.trans (later_bodyVisit _ (classLevels superclass.isSome levels) _ params body
        _)).mono (by simp)
    · unfold Visit.after
      simp only [Item.bind]
      rw [after_classDecl, after_bindStatics_append]
      have rest := fun w : Walk => (Walk.Later.closeScope w).trans
        ((Walk.Later.of_step (step_bindStatics (around.inClass superclass.isSome) behind _)).trans
          (.closeClass superclass.isSome _))
      exact (rest _).mono (by simp)

/-! ## Programs -/

/-- A program as it was bound: the names that were global before, and the table to which its
distances were added. -/
structure Edition where
  program : List (Stmt Site)
  isGlobal : String → Bool
  before : Distances

namespace Edition

/-- The walk comes to the program. -/
def root (ed : Edition) : Visit := ⟨.top ed.isGlobal, [], .stmts ed.program, .start ed.before⟩

/-- The walk behind the program. -/
def walked (ed : Edition) : Walk := bindProgram ed.isGlobal ed.before ed.program

/-- The distances behind the program. -/
def table (ed : Edition) : Distances := ed.walked.distances

/-- The visits of a program. -/
def Visits (ed : Edition) (v : Visit) : Prop := Relation.ReflTransGen Visit.Enters ed.root v

variable {ed : Edition} {v v' : Visit}

/-- From a visit of a program to a part of it is a visit of the program. -/
theorem Visits.enter (visits : ed.Visits v) (enters : v.Enters v') : ed.Visits v' :=
  Relation.ReflTransGen.tail visits enters

/-- The visit of the whole program holds all others. -/
theorem Visits.holds (visits : ed.Visits v) : ed.root.Holds v := by
  induction visits with
  | refl => exact .refl _
  | tail _ enters ih => exact ih.trans enters.holds

/-- Each reference of a program has a site of its own. -/
def Distinct (ed : Edition) : Prop := (sitesOf (Stmt.referencesAll ed.program)).Nodup

/-- Where sites are distinct in the whole program, they are so in each part. -/
theorem Visits.nodup (visits : ed.Visits v) (distinct : ed.Distinct) : v.item.sites.Nodup := by
  obtain ⟨before, behind, perm, _, _⟩ := visits.holds
  have nodup : (before ++ (v.item.sites ++ behind)).Nodup := perm.nodup_iff.mpr distinct
  exact (List.nodup_append.mp (List.nodup_append.mp nodup).2.1).1

/-- The table had nothing for the references of a program. -/
def Fresh (ed : Edition) : Prop :=
  ∀ site ∈ sitesOf (Stmt.referencesAll ed.program), ed.before.get? site = none

/-- What the walk records for a reference while it is in an item is final: declarations that come
later do not change it. -/
theorem Visits.recorded (visits : ed.Visits v) (distinct : ed.Distinct) {site : Site}
    (mem : site ∈ v.item.sites) : ed.table.get? site = v.after.distances.get? site := by
  obtain ⟨before, behind, perm, _, out⟩ := visits.holds
  refine out.distances site fun later => ?_
  have nodup : (before ++ (v.item.sites ++ behind)).Nodup := perm.nodup_iff.mpr distinct
  have apart := (List.nodup_append.mp (List.nodup_append.mp nodup).2.1).2.2
  exact apart site mem site later rfl

/-- What the walk complained about before it came to an item, or in it, stays. -/
theorem Visits.complaints (visits : ed.Visits v) : v.after.complaints <+: ed.walked.complaints := by
  obtain ⟨_, _, _, _, out⟩ := visits.holds
  exact out.complaints

/-- The table has nothing for the sites of an item before the walk comes to it. -/
theorem Visits.unrecorded (visits : ed.Visits v) (distinct : ed.Distinct) (fresh : ed.Fresh)
    {site : Site} (mem : site ∈ v.item.sites) : v.walk.distances.get? site = none := by
  obtain ⟨before, behind, perm, into, _⟩ := visits.holds
  have nodup : (before ++ (v.item.sites ++ behind)).Nodup := perm.nodup_iff.mpr distinct
  rw [into.distances site fun earlier => ?_]
  · exact fresh site (perm.subset (by simp [mem]))
  · exact (List.nodup_append.mp nodup).2.2 site earlier site (by simp [mem]) rfl

end Edition

end LoxLang
