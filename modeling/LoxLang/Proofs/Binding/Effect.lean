/-
LoxLang.Proofs.Binding.Effect: what the walk of the static rules changes.

A part of a program leaves the scopes around it as they are, apart from the names that it declares
in the innermost one; it records distances for its own references only, and takes no complaint
back.

* `Walk.after`: the walk after a step of it.
* `Walk.Declares`: a scope of the walk has a name.
* `Walk.Step`: the four effects above, between two states of the walk.

Main statements: `step_bindExpr`, `step_bindStmt`, `step_bindRoutine` and their companions.
-/
import LoxLang.Binding.Rules
import LoxLang.Proofs.Tree.Formed

namespace LoxLang

/-! ## States of the walk -/

/-- The walk after a step of it. -/
def Walk.after {α : Type} (w : Walk) (act : Bind α) : Walk := (act w).2

/-- Behind two steps in a row is behind the second one, from where the first one led. -/
theorem Walk.after_bind {α β : Type} (w : Walk) (act : Bind α) (next : α → Bind β) :
    w.after (act >>= next) = (w.after act).after (next (act w).1) := rfl

@[simp] theorem Walk.after_pure {α : Type} (w : Walk) (a : α) : w.after (pure a : Bind α) = w := rfl

/-- The scope that is so many scopes outwards has the name. -/
def Walk.Declares (w : Walk) (d : Nat) (name : String) : Prop :=
  ∃ scope, w.scopes[d]? = some scope ∧ scope.contains name = true

/-- What a part of a program does to the walk: the scopes around it keep their names, and the
innermost one gets some more; only some sites get a distance; complaints stay. -/
structure Walk.Step (sites : List Site) (names : List String) (w w' : Walk) : Prop where
  height : w'.scopes.length = w.scopes.length
  declares : ∀ d x, w'.Declares d x ↔ w.Declares d x ∨ (d = 0 ∧ w.scopes ≠ [] ∧ x ∈ names)
  distances : ∀ site, site ∉ sites → w'.distances.get? site = w.distances.get? site
  complaints : w.complaints <+: w'.complaints

namespace Walk.Step

/-- A step that leaves the scopes alone and records nothing. -/
theorem of_eq {w w' : Walk} (scopes : w'.scopes = w.scopes) (distances : w'.distances = w.distances)
    (complaints : w.complaints <+: w'.complaints) : Walk.Step [] [] w w' where
  height := by rw [scopes]
  declares d x := by simp [Walk.Declares, scopes]
  distances site _ := by rw [distances]
  complaints := complaints

/-- Standing still records nothing and introduces nothing. -/
theorem refl (w : Walk) : Walk.Step [] [] w w := of_eq rfl rfl (List.prefix_refl _)

/-- Two stretches record at the sites of both, and introduce the names of both. -/
theorem trans {s t : List Site} {xs ys : List String} {w w' w'' : Walk}
    (first : Walk.Step s xs w w') (second : Walk.Step t ys w' w'') :
    Walk.Step (s ++ t) (xs ++ ys) w w'' where
  height := second.height.trans first.height
  declares d x := by
    have nonempty : w'.scopes ≠ [] ↔ w.scopes ≠ [] := by
      rw [← List.length_pos_iff, ← List.length_pos_iff, first.height]
    rw [second.declares, first.declares, nonempty, List.mem_append, or_assoc, ← and_or_left,
      ← and_or_left]
  distances site h := by
    rw [List.mem_append, not_or] at h
    rw [second.distances site h.2, first.distances site h.1]
  complaints := first.complaints.trans second.complaints

/-- More sites may be named than are recorded, and the names are a set. -/
theorem mono {s t : List Site} {xs ys : List String} {w w' : Walk} (step : Walk.Step s xs w w')
    (sites : s ⊆ t) (names : ∀ x, x ∈ xs ↔ x ∈ ys) : Walk.Step t ys w w' where
  height := step.height
  declares d x := by rw [step.declares, names]
  distances site h := step.distances site fun mem => h (sites mem)
  complaints := step.complaints

end Walk.Step

/-! ## Scopes -/

namespace Scope

@[simp] theorem contains_empty (name : String) : Scope.empty.contains name = false := rfl

/-- A declared name is in the scope, with those that were. -/
theorem contains_declare (s : Scope) (b : Binding) (name : String) :
    (s.declare b).contains name = true ↔ s.contains name = true ∨ name = b.name := by
  by_cases h : name = b.name
  · subst h
    simp [contains]
  · simp [contains, find?_declare_of_ne s h, h]

/-- To define a name adds none. -/
@[simp] theorem contains_define (s : Scope) (x name : String) :
    (s.define x).contains name = s.contains name := by
  by_cases h : name = x
  · subst h
    simp [contains]
  · simp [contains, find?_define_of_ne s h]

@[simp] theorem contains_use (s : Scope) (x name : String) :
    (s.use x).contains name = s.contains name := by
  by_cases h : name = x
  · subst h
    simp [contains]
  · simp [contains, find?_use_of_ne s h]

end Scope

/-- Changing a scope without changing its names changes nothing for the walk. -/
theorem Walk.Step.of_modify {w : Walk} (d : Nat) (f : Scope → Scope)
    (keep : ∀ s x, (f s).contains x = s.contains x) {distances : Distances} {sites : List Site}
    (recorded : ∀ site, site ∉ sites → distances.get? site = w.distances.get? site) :
    Walk.Step sites [] w { w with scopes := w.scopes.modify d f, distances } where
  height := by simp
  declares i x := by
    simp only [Walk.Declares, List.getElem?_modify, List.not_mem_nil, and_false, or_false]
    by_cases same : d = i
    · subst same
      cases w.scopes[d]? <;> simp [keep]
    · simp [same]
  distances := recorded
  complaints := List.prefix_refl _

/-! ## The steps that declare and use -/

/-- A complaint is all that is added. -/
theorem step_complain (t : Token) (fault : BindingFault) (w : Walk) :
    Walk.Step [] [] w (w.after (complain t fault)) :=
  .of_eq rfl rfl ⟨[(t, fault)], rfl⟩

theorem step_complainIf (wrong : Bool) (t : Token) (fault : BindingFault) (w : Walk) :
    Walk.Step [] [] w (w.after (complainIf wrong t fault)) := by
  unfold complainIf
  split
  · exact step_complain t fault w
  · exact .refl w

theorem modifyHead_eq_modify {α : Type} (l : List α) (f : α → α) :
    l.modifyHead f = l.modify 0 f := by
  cases l <;> rfl

/-- A name that is defined was introduced before. -/
theorem step_defineName (name : Token) (w : Walk) :
    Walk.Step [] [] w (w.after (defineName name)) := by
  obtain ⟨scopes, pending, defined, distances, complaints⟩ := w
  cases scopes with
  | nil => exact .of_eq rfl rfl (List.prefix_refl _)
  | cons scope outer =>
    exact .of_modify 0 (·.define name.lexeme) (fun s x => Scope.contains_define s _ x)
      (fun _ _ => rfl)

theorem step_useName (name : Token) (w : Walk) : Walk.Step [] [] w (w.after (useName name)) := by
  have same : w.after (useName name) =
      { w with scopes := w.scopes.modify 0 (·.use name.lexeme), distances := w.distances } := by
    show { w with scopes := w.scopes.modifyHead _ } = _
    rw [modifyHead_eq_modify]
  rw [same]
  exact .of_modify 0 _ (fun s x => Scope.contains_use s _ x) (fun _ _ => rfl)

/-- Declaring a name adds it to the innermost scope, if there is one. -/
theorem Walk.Step.of_declare {w w' : Walk} {b : Binding} {scope : Scope} {outer : List Scope}
    (h : w.scopes = scope :: outer) (scopes : w'.scopes = scope.declare b :: outer)
    (distances : w'.distances = w.distances) (complaints : w.complaints <+: w'.complaints) :
    Walk.Step [] [b.name] w w' where
  height := by simp [h, scopes]
  declares d x := by
    cases d with
    | zero => simp [Walk.Declares, h, scopes, Scope.contains_declare]
    | succ d => simp [Walk.Declares, h, scopes]
  distances site _ := by rw [distances]
  complaints := complaints

/-- A declared name is introduced in the innermost scope. -/
theorem step_declareName (name : Token) (w : Walk) :
    Walk.Step [] [name.lexeme] w (w.after (declareName name)) := by
  obtain ⟨scopes, pending, defined, distances, complaints⟩ := w
  cases scopes with
  | nil =>
    refine ⟨rfl, fun d x => ?_, fun _ _ => rfl, List.prefix_refl _⟩
    simp only [ne_eq, not_true_eq_false, false_and, and_false, or_false]
    rfl
  | cons scope outer =>
    let w : Walk := ⟨scope :: outer, pending, defined, distances, complaints⟩
    have declared : Walk.Step [] [name.lexeme] w
        (w.after (onInnermost (·.declare ⟨name.lexeme, .declared, some name⟩))) :=
      .of_declare (b := ⟨name.lexeme, .declared, some name⟩) rfl rfl rfl (List.prefix_refl _)
    exact declared.trans (step_complainIf _ name .redeclared _)

/-- A name without a token is declared like any other. -/
theorem step_declareImplicit (name : String) (w : Walk) :
    Walk.Step [] [name] w (w.after (declareImplicit name)) := by
  obtain ⟨scopes, pending, defined, distances, complaints⟩ := w
  cases scopes with
  | nil =>
    refine ⟨rfl, fun d x => ?_, fun _ _ => rfl, List.prefix_refl _⟩
    simp only [ne_eq, not_true_eq_false, false_and, and_false, or_false]
    rfl
  | cons scope outer =>
    exact .of_declare (b := ⟨name, .used, none⟩) rfl rfl rfl (List.prefix_refl _)

/-! ## The steps that look a name up -/

/-- What looking a local name up does, and what it answers. -/
theorem run_bindLocal (ref : Reference Site) (read : Bool) (skip : Nat) (w : Walk) :
    (bindLocal ref read skip w : Bool × Walk) =
      match locate w.scopes ref.name skip with
      | none => (false, w)
      | some d =>
        (true, { w with
          distances := w.distances.record ref.mark d
          scopes := if read then w.scopes.modify d (·.use ref.name) else w.scopes }) := by
  show (match locate w.scopes ref.name skip with
    | none => (pure false : Bind Bool)
    | some d => (do
      set { w with
        distances := w.distances.record ref.mark d
        scopes := if read then w.scopes.modify d (·.use ref.name) else w.scopes }
      pure true : Bind Bool)) w = _
  cases locate w.scopes ref.name skip <;> rfl

/-- A reference that is found records its distance, and notes a use. -/
theorem step_bindLocal (ref : Reference Site) (read : Bool) (skip : Nat) (w : Walk) :
    Walk.Step [ref.mark] [] w (w.after (bindLocal ref read skip)) := by
  unfold Walk.after
  rw [run_bindLocal]
  split
  · exact (Walk.Step.refl w).mono (List.nil_subset _) (by simp)
  · rename_i d _
    have recorded : ∀ site, site ∉ [ref.mark] →
        (w.distances.record ref.mark d).get? site = w.distances.get? site := fun site h =>
      Distances.get?_record_of_ne w.distances (by simpa using h) d
    cases read with
    | true => exact .of_modify d _ (fun s x => Scope.contains_use s _ x) recorded
    | false =>
      exact ⟨rfl, fun d x => by simp [Walk.Declares], recorded, List.prefix_refl _⟩

/-- What reading a variable does depends on whether a scope is open. -/
theorem after_bindVariable (around : Surroundings) (ref : Reference Site) (w : Walk) :
    w.after (bindVariable around ref) = w.after (match w.scopes with
      | [] =>
        complainIf (w.pendingGlobals.contains ref.name && !isKnownGlobal around w ref.name)
          ref.token .ownInitializer
      | scope :: _ =>
        if scope.status? ref.name = some .declared then do
          let found ← bindLocal ref true 1
          complainIf (!found && !isKnownGlobal around w ref.name) ref.token .ownInitializer
        else do
          let _ ← bindLocal ref true 0) := by
  obtain ⟨scopes, pending, defined, distances, complaints⟩ := w
  cases scopes with
  | nil => rfl
  | cons scope outer => rfl

/-- So does a variable, wherever its own scope is passed over. -/
theorem step_bindVariable (around : Surroundings) (ref : Reference Site) (w : Walk) :
    Walk.Step [ref.mark] [] w (w.after (bindVariable around ref)) := by
  rw [after_bindVariable]
  split
  · exact (step_complainIf _ ref.token .ownInitializer w).mono (List.nil_subset _) (by simp)
  · split
    · rw [Walk.after_bind]
      exact (step_bindLocal ref true 1 w).trans (step_complainIf _ ref.token .ownInitializer _)
    · exact step_bindLocal ref true 0 w

/-- And so does a parent, whether it is the class itself or not. -/
theorem step_bindParent (around : Surroundings) (cls : Token) (fault : BindingFault)
    (ref : Reference Site) (w : Walk) :
    Walk.Step [ref.mark] [] w (w.after (bindParent around cls fault ref)) := by
  rw [bindParent, Walk.after_bind]
  exact (step_complainIf _ ref.token fault w).trans (step_bindVariable around ref _)

/-! ## Sequences of steps -/

theorem Walk.after_forM_cons {α : Type} (w : Walk) (f : α → Bind PUnit) (a : α) (as : List α) :
    w.after ((a :: as).forM f) = (w.after (f a)).after (as.forM f) := rfl

/-- A step for each member of a list. -/
theorem step_forM {α : Type} {f : α → Bind PUnit} (sites : α → List Site)
    (names : α → List String) (step : ∀ a w, Walk.Step (sites a) (names a) w (w.after (f a))) :
    ∀ (as : List α) (w : Walk),
      Walk.Step (as.flatMap sites) (as.flatMap names) w (w.after (as.forM f))
  | [], w => .refl w
  | a :: as, w => (step a w).trans (step_forM sites names step as _)

/-- Parameters are introduced in their order. -/
theorem step_bindParams (params : List Token) (w : Walk) :
    Walk.Step [] (params.map Token.lexeme) w (w.after (bindParams params)) := by
  have param : ∀ (p : Token) w, Walk.Step [] [p.lexeme] w
      (w.after (do declareName p; defineName p; useName p : Bind Unit)) := fun p w =>
    ((step_declareName p w).trans (step_defineName p _)).trans (step_useName p _)
  refine (step_forM (fun _ => []) (fun p => [p.lexeme]) param params w).mono ?_ fun x => ?_
  · simp
  · simp [← List.map_eq_flatMap]

theorem step_checkGetter (around : Surroundings) (r : Routine Site) (w : Walk) :
    Walk.Step [] [] w (w.after (checkGetter around r)) :=
  step_complainIf _ r.name .getterOutsideClass w

theorem step_methodContext (r : Routine Site) (w : Walk) :
    Walk.Step [] [] w (w.after (methodContext r)) := by
  unfold methodContext
  split
  · exact step_complainIf r.getter r.name .initializerAsGetter w
  · exact .refl w

/-- A misplaced `return` is complained about. -/
theorem step_checkReturn (around : Surroundings) (keyword : Token) (hasValue : Bool) (w : Walk) :
    Walk.Step [] [] w (w.after (checkReturn around keyword hasValue)) := by
  rw [checkReturn, Walk.after_bind]
  exact (step_complainIf _ keyword .returnAtTopLevel w).trans
    (step_complainIf _ keyword .returnFromInitializer _)

/-! ## Opening and closing scopes -/

/-- The walk with one more scope, which has no names. -/
def Walk.opened (w : Walk) : Walk := { w with scopes := .empty :: w.scopes }

/-- In a new scope the names of the others are one scope further out. -/
theorem Walk.declares_opened_succ (w : Walk) (d : Nat) (x : String) :
    w.opened.Declares (d + 1) x ↔ w.Declares d x := Iff.rfl

/-- And it has no names of its own. -/
theorem Walk.not_declares_opened_zero (w : Walk) (x : String) : ¬ w.opened.Declares 0 x := by
  simp [Walk.opened, Walk.Declares]

/-- Ending a scope takes it off and complains. -/
theorem Walk.after_closeScope (w : Walk) :
    (w.after closeScope).scopes = w.scopes.tail ∧
      (w.after closeScope).distances = w.distances ∧
      w.complaints <+: (w.after closeScope).complaints := by
  have complained : ∀ (us : List (String × Token)) (w : Walk),
      (w.after (us.forM fun u => complain u.2 (.unused u.1))).scopes = w.scopes ∧
        (w.after (us.forM fun u => complain u.2 (.unused u.1))).distances = w.distances ∧
        w.complaints <+: (w.after (us.forM fun u => complain u.2 (.unused u.1))).complaints := by
    intro us
    induction us with
    | nil => exact fun w => ⟨rfl, rfl, List.prefix_refl _⟩
    | cons u us ih =>
      intro w
      rw [Walk.after_forM_cons]
      obtain ⟨scopes, distances, complaints⟩ := ih (w.after (complain u.2 (.unused u.1)))
      exact ⟨scopes, distances, (step_complain u.2 (.unused u.1) w).complaints.trans complaints⟩
  obtain ⟨scopes, pending, defined, distances, complaints⟩ := w
  cases scopes with
  | nil => exact ⟨rfl, rfl, List.prefix_refl _⟩
  | cons scope outer =>
    exact complained scope.unused ⟨outer, pending, defined, distances, complaints⟩

/-- What happens inside a scope changes no names outside of it. -/
theorem Walk.Step.scope {sites : List Site} {names : List String} {w w' : Walk}
    (inside : Walk.Step sites names w.opened w') :
    Walk.Step sites [] w (w'.after closeScope) := by
  obtain ⟨scopes, distances, complaints⟩ := w'.after_closeScope
  obtain ⟨scope, outer, h⟩ : ∃ scope outer, w'.scopes = scope :: outer :=
    List.exists_cons_of_length_eq_add_one inside.height
  have declares : ∀ d x, (w'.after closeScope).Declares d x ↔ w'.Declares (d + 1) x := by
    intro d x
    simp [Walk.Declares, scopes, h]
  refine ⟨?_, fun d x => ?_, fun site mem => ?_, ?_⟩
  · have height := inside.height
    rw [h] at height
    rw [scopes, h]
    simpa [Walk.opened] using height
  · rw [declares, inside.declares, Walk.declares_opened_succ]
    simp
  · rw [distances, inside.distances site mem]
    rfl
  · exact inside.complaints.trans complaints

/-- The scopes of a class are gone behind it, with what was declared in them. -/
theorem step_openClass_closeClass (hasSuperclass : Bool) {sites : List Site} {names : List String}
    {w w' : Walk} (inside : Walk.Step sites names (w.after (openClass hasSuperclass)) w') :
    Walk.Step sites [] w (w'.after (closeClass hasSuperclass)) := by
  cases hasSuperclass with
  | false => exact ((step_declareImplicit thisName w.opened).trans inside).scope
  | true =>
    let outer := w.opened.after (declareImplicit superName)
    have this : Walk.Step sites [] outer (w'.after closeScope) :=
      ((step_declareImplicit thisName outer.opened).trans inside).scope
    exact ((step_declareImplicit superName w.opened).trans this).scope

/-- Some parents of a class. -/
theorem step_bindParents (around : Surroundings) (cls : Token) (fault : BindingFault)
    (refs : List (Reference Site)) (w : Walk) :
    Walk.Step (refs.map Reference.mark) [] w (w.after (refs.forM (bindParent around cls fault))) :=
  (step_forM (fun ref => [ref.mark]) (fun _ => []) (step_bindParent around cls fault) refs w).mono
    (by simp [← List.map_eq_flatMap]) (by simp)

/-- The superclass of a class, if there is one. -/
theorem step_superclass (around : Surroundings) (cls : Token) (superclass : Option (Reference Site))
    (w : Walk) :
    Walk.Step (superclass.toList.map Reference.mark) [] w
      (w.after (superclass.forM (bindParent around cls .inheritsItself))) := by
  cases superclass with
  | none => exact .refl w
  | some ref => exact step_bindParent around cls .inheritsItself ref w

/-! ## The walk over a tree -/

mutual

/-- An expression declares nothing and records distances for its own references. -/
theorem step_bindExpr (around : Surroundings) :
    ∀ (e : Expr Site) (w : Walk),
      Walk.Step (sitesOf e.references) [] w (w.after (bindExpr around e))
  | .literal _, w => .refl w
  | .grouping e, w => step_bindExpr around e w
  | .unary _ e, w => step_bindExpr around e w
  | .binary l _ r, w => by
    rw [bindExpr, Walk.after_bind, Expr.references, sitesOf_append]
    exact (step_bindExpr around l w).trans (step_bindExpr around r _)
  | .logical l _ r, w => by
    rw [bindExpr, Walk.after_bind, Expr.references, sitesOf_append]
    exact (step_bindExpr around l w).trans (step_bindExpr around r _)
  | .variable ref, w => step_bindVariable around ref w
  | .assign ref e, w => by
    rw [bindExpr, Walk.after_bind, Walk.after_bind]
    have both := (step_bindExpr around e w).trans (step_bindLocal ref false 0 _)
    exact both.mono (by simp [sitesOf, Expr.references]) (by simp)
  | .call f _ es, w => by
    rw [bindExpr, Walk.after_bind, Expr.references, sitesOf_append]
    exact (step_bindExpr around f w).trans (step_bindExprs around es _)
  | .get e _, w => step_bindExpr around e w
  | .set e _ v, w => by
    rw [bindExpr, Walk.after_bind]
    have both := (step_bindExpr around v w).trans (step_bindExpr around e _)
    exact both.mono (by simp [sitesOf, Expr.references]) (by simp)
  | .this ref, w => by
    rw [bindExpr]
    split
    · exact (step_complain ref.token .thisOutsideClass w).mono (List.nil_subset _) (by simp)
    · exact step_bindLocal ref true 0 w
  | .super ref _, w => by
    rw [bindExpr]
    split
    · exact (step_complain ref.token .superOutsideClass w).mono (List.nil_subset _) (by simp)
    · rw [Walk.after_bind]
      exact (step_complainIf _ ref.token .superWithoutSuperclass w).trans
        (step_bindLocal ref true 0 _)
  | .function _ params body, w => by
    rw [bindExpr, Walk.after_bind, Walk.after_bind, Walk.after_bind]
    exact ((step_bindParams params w.opened).trans (step_bindStmts _ body _)).scope

/-- Expressions in a row record at their sites. -/
theorem step_bindExprs (around : Surroundings) :
    ∀ (es : List (Expr Site)) (w : Walk),
      Walk.Step (sitesOf (Expr.referencesAll es)) [] w (w.after (bindExprs around es))
  | [], w => .refl w
  | e :: es, w => by
    rw [bindExprs, Walk.after_bind, Expr.referencesAll, sitesOf_append]
    exact (step_bindExpr around e w).trans (step_bindExprs around es _)

/-- A statement declares the names that it introduces and records distances for its own
references. -/
theorem step_bindStmt (around : Surroundings) :
    ∀ (s : Stmt Site) (w : Walk),
      Walk.Step (sitesOf s.references) s.introduces w (w.after (bindStmt around s))
  | .missing, w => .refl w
  | .expression e, w => step_bindExpr around e w
  | .print e, w => step_bindExpr around e w
  | .var name none, w => by
    rw [bindStmt, Walk.after_bind]
    exact (step_declareName name w).trans (step_defineName name _)
  | .var name (some e), w => by
    rw [bindStmt, Walk.after_bind, Walk.after_bind]
    have all := ((step_declareName name w).trans (step_bindExpr around e _)).trans
      (step_defineName name _)
    exact all.mono (by simp [Stmt.references]) (by simp [Stmt.introduces])
  | .block body, w => by
    rw [bindStmt, Walk.after_bind, Walk.after_bind]
    exact (step_bindStmts around body w.opened).scope
  | .ifElse c t none, w => by
    rw [bindStmt, Walk.after_bind, Stmt.references, sitesOf_append]
    exact (step_bindExpr around c w).trans (step_bindStmt around t _)
  | .ifElse c t (some e), w => by
    rw [bindStmt, Walk.after_bind, Walk.after_bind, Stmt.references, sitesOf_append, sitesOf_append,
      List.append_assoc]
    exact (step_bindExpr around c w).trans
      ((step_bindStmt around t _).trans (step_bindStmt around e _))
  | .whileLoop c b, w => by
    rw [bindStmt, Walk.after_bind, Stmt.references, sitesOf_append]
    exact (step_bindExpr around c w).trans (step_bindStmt around b _)
  | .ret keyword none, w => by
    rw [bindStmt]
    exact step_checkReturn around keyword false w
  | .ret keyword (some e), w => by
    rw [bindStmt, Walk.after_bind]
    exact (step_checkReturn around keyword true w).trans (step_bindExpr around e _)
  | .loopExit _, w => .refl w
  | .function r, w => by
    rw [bindStmt, Walk.after_bind, Walk.after_bind, Walk.after_bind]
    have all := (((step_declareName r.name w).trans (step_defineName r.name _)).trans
      (step_useName r.name _)).trans (step_bindRoutine around .function r _)
    exact all.mono (by simp [Stmt.references]) (by simp [Stmt.introduces])
  | .classDecl name superclass mixins methods statics, w => by
    simp only [bindStmt, Walk.after_bind]
    let inside := around.inClass superclass.isSome
    have declared := (step_declareName name w).trans (step_defineName name _)
    have parents := declared.trans ((step_superclass inside name superclass _).trans
      (step_bindParents inside name .mixesInItself mixins _))
    have members := fun w : Walk => step_openClass_closeClass superclass.isSome
      ((step_bindMethods inside methods (w.after (openClass superclass.isSome))).trans
        (step_bindStatics inside statics _))
    refine (parents.trans (members _)).mono ?_ ?_
    · simp [Stmt.references, sitesOf_append, sitesOf_variables]
    · simp [Stmt.introduces]

/-- Statements in a row introduce their names in the same scope. -/
theorem step_bindStmts (around : Surroundings) :
    ∀ (ss : List (Stmt Site)) (w : Walk),
      Walk.Step (sitesOf (Stmt.referencesAll ss)) (Stmt.introducesAll ss) w
        (w.after (bindStmts around ss))
  | [], w => .refl w
  | s :: ss, w => by
    rw [bindStmts, Walk.after_bind, Stmt.referencesAll, sitesOf_append]
    exact (step_bindStmt around s w).trans (step_bindStmts around ss _)

/-- A routine declares nothing outside of itself. -/
theorem step_bindRoutine (around : Surroundings) (context : RoutineContext) :
    ∀ (r : Routine Site) (w : Walk),
      Walk.Step (sitesOf r.references) [] w (w.after (bindRoutine around context r))
  | ⟨name, params, body, getter⟩, w => by
    rw [bindRoutine, Walk.after_bind, Walk.after_bind, Walk.after_bind, Walk.after_bind]
    exact (step_checkGetter around ⟨name, params, body, getter⟩ w).trans
      ((step_bindParams params _).trans (step_bindStmts _ body _)).scope

/-- Methods introduce nothing in the scope around the class. -/
theorem step_bindMethods (around : Surroundings) :
    ∀ (rs : List (Routine Site)) (w : Walk),
      Walk.Step (sitesOf (Routine.referencesAll rs)) [] w (w.after (bindMethods around rs))
  | [], w => .refl w
  | r :: rs, w => by
    rw [bindMethods, Walk.after_bind, Walk.after_bind, Routine.referencesAll, sitesOf_append]
    exact (step_methodContext r w).trans
      ((step_bindRoutine around _ r _).trans (step_bindMethods around rs _))

theorem step_bindStatics (around : Surroundings) :
    ∀ (rs : List (Routine Site)) (w : Walk),
      Walk.Step (sitesOf (Routine.referencesAll rs)) [] w (w.after (bindStatics around rs))
  | [], w => .refl w
  | r :: rs, w => by
    rw [bindStatics, Walk.after_bind, Routine.referencesAll, sitesOf_append]
    exact (step_bindRoutine around .method r w).trans (step_bindStatics around rs _)

end

end LoxLang
