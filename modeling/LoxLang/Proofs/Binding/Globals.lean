/-
LoxLang.Proofs.Binding.Globals: what the walk of the static rules notes about global names.

Outside all scopes a declared name is global.  The walk notes that it is declared when it comes to
it, and that it is defined when it has passed the initial value; inside a scope it notes nothing.
So behind a program the names that it introduces are defined, and none is left that is only
declared.

* `Walk.Notes`: the global names that a part of a program defines.

Main statements: `notes_bindStmt` with its companions, and `bindProgram_append`, for a program in
two parts.
-/
import LoxLang.Proofs.Binding.Effect
import LoxLang.Proofs.Binding.Later

namespace LoxLang

/-- What a part of a program does to the global names: outside all scopes it defines some. -/
structure Walk.Notes (names : List String) (w w' : Walk) : Prop where
  height : w'.scopes.length = w.scopes.length
  pending : ∀ x, x ∈ w'.pendingGlobals ↔ x ∈ w.pendingGlobals ∧ ¬ (w.scopes = [] ∧ x ∈ names)
  defined : ∀ x, x ∈ w'.definedGlobals ↔ x ∈ w.definedGlobals ∨ (w.scopes = [] ∧ x ∈ names)

namespace Walk.Notes

variable {w w' w'' : Walk} {xs ys : List String}

/-- Where the two lists of names stay the same nothing is noted. -/
theorem of_eq (height : w'.scopes.length = w.scopes.length)
    (pending : w'.pendingGlobals = w.pendingGlobals)
    (defined : w'.definedGlobals = w.definedGlobals) :
    Walk.Notes [] w w' where
  height := height
  pending x := by simp [pending]
  defined x := by simp [defined]

theorem refl (w : Walk) : Walk.Notes [] w w := of_eq rfl rfl rfl

/-- Behind a part of the program the walk is inside a scope if it was. -/
theorem empty_iff (notes : Walk.Notes xs w w') : w'.scopes = [] ↔ w.scopes = [] := by
  rw [← List.length_eq_zero_iff, notes.height, List.length_eq_zero_iff]

/-- What two stretches note is what each of them notes. -/
theorem trans (first : Walk.Notes xs w w') (second : Walk.Notes ys w' w'') :
    Walk.Notes (xs ++ ys) w w'' where
  height := second.height.trans first.height
  pending x := by
    rw [second.pending, first.pending, first.empty_iff, List.mem_append]
    grind
  defined x := by
    rw [second.defined, first.defined, first.empty_iff, List.mem_append]
    grind

end Walk.Notes

/-! ## Single steps -/

/-- A complaint is no note. -/
theorem notes_complain (t : Token) (fault : BindingFault) (w : Walk) :
    Walk.Notes [] w (w.after (complain t fault)) := .of_eq rfl rfl rfl

theorem notes_complainIf (wrong : Bool) (t : Token) (fault : BindingFault) (w : Walk) :
    Walk.Notes [] w (w.after (complainIf wrong t fault)) := by
  unfold complainIf
  split
  · exact notes_complain t fault w
  · exact .refl w

theorem notes_useName (name : Token) (w : Walk) : Walk.Notes [] w (w.after (useName name)) :=
  .of_eq (List.length_modifyHead ..) rfl rfl

theorem notes_declareImplicit (name : String) (w : Walk) :
    Walk.Notes [] w (w.after (declareImplicit name)) := .of_eq (List.length_modifyHead ..) rfl rfl

/-- Outside all scopes a declared name is pending. -/
theorem globals_declareName (name : Token) (w : Walk) :
    (w.after (declareName name)).pendingGlobals =
        (if w.scopes = [] then name.lexeme :: w.pendingGlobals else w.pendingGlobals) ∧
      (w.after (declareName name)).definedGlobals = w.definedGlobals := by
  obtain ⟨_ | ⟨scope, outer⟩, pending, defined, distances, complaints⟩ := w
  · exact ⟨rfl, rfl⟩
  · let w : Walk := ⟨scope :: outer, pending, defined, distances, complaints⟩
    have unfolded : w.after (declareName name) =
        (w.after (onInnermost (·.declare ⟨name.lexeme, .declared, some name⟩))).after
          (complainIf (scope.contains name.lexeme) name .redeclared) := rfl
    rw [unfolded, complainIf]
    split <;> exact ⟨rfl, rfl⟩

/-- And a defined one is pending no more. -/
theorem globals_defineName (name : Token) (w : Walk) :
    (w.after (defineName name)).pendingGlobals =
        (if w.scopes = [] then w.pendingGlobals.filter (· ≠ name.lexeme) else w.pendingGlobals) ∧
      (w.after (defineName name)).definedGlobals =
        if w.scopes = [] then name.lexeme :: w.definedGlobals else w.definedGlobals := by
  obtain ⟨_ | ⟨scope, outer⟩, pending, defined, distances, complaints⟩ := w <;> exact ⟨rfl, rfl⟩

/-- A declaration, in the course of which nothing else is declared. -/
theorem Walk.Notes.declared {name : Token} {w w' : Walk}
    (between : Walk.Notes [] (w.after (declareName name)) w') :
    Walk.Notes [name.lexeme] w (w'.after (defineName name)) := by
  have height := (step_declareName name w).height
  have empty : w'.scopes = [] ↔ w.scopes = [] := by
    rw [between.empty_iff, ← List.length_eq_zero_iff, height, List.length_eq_zero_iff]
  have pending := between.pending
  have defined := between.defined
  simp only [List.not_mem_nil, and_false, not_false_eq_true, and_true, or_false,
    globals_declareName] at pending defined
  refine ⟨((step_defineName name w').height.trans between.height).trans height, fun x => ?_,
    fun x => ?_⟩
  · rw [(globals_defineName name w').1]
    by_cases top : w.scopes = []
    · rw [if_pos (empty.mpr top), List.mem_filter, pending, if_pos top]
      simp [top]
      grind
    · rw [if_neg fun h => top (empty.mp h), pending, if_neg top]
      simp [top]
  · rw [(globals_defineName name w').2]
    by_cases top : w.scopes = []
    · rw [if_pos (empty.mpr top), List.mem_cons, defined]
      simp [top, or_comm]
    · rw [if_neg fun h => top (empty.mp h), defined]
      simp [top]

/-! ## Steps that look a name up -/

/-- To look a reference up notes nothing. -/
theorem notes_bindLocal (ref : Reference Site) (read : Bool) (skip : Nat) (w : Walk) :
    Walk.Notes [] w (w.after (bindLocal ref read skip)) := by
  have same : (w.after (bindLocal ref read skip)).pendingGlobals = w.pendingGlobals ∧
      (w.after (bindLocal ref read skip)).definedGlobals = w.definedGlobals := by
    unfold Walk.after
    rw [run_bindLocal]
    split <;> exact ⟨rfl, rfl⟩
  exact .of_eq (step_bindLocal ref read skip w).height same.1 same.2

theorem notes_bindVariable (around : Surroundings) (ref : Reference Site) (w : Walk) :
    Walk.Notes [] w (w.after (bindVariable around ref)) := by
  rw [after_bindVariable]
  split
  · exact notes_complainIf _ ref.token .ownInitializer w
  · split
    · rw [Walk.after_bind]
      exact (notes_bindLocal ref true 1 w).trans (notes_complainIf _ ref.token .ownInitializer _)
    · exact notes_bindLocal ref true 0 w

theorem notes_bindParent (around : Surroundings) (cls : Token) (fault : BindingFault)
    (ref : Reference Site) (w : Walk) :
    Walk.Notes [] w (w.after (bindParent around cls fault ref)) := by
  rw [bindParent, Walk.after_bind]
  exact (notes_complainIf _ ref.token fault w).trans (notes_bindVariable around ref _)

theorem notes_checkReturn (around : Surroundings) (keyword : Token) (hasValue : Bool) (w : Walk) :
    Walk.Notes [] w (w.after (checkReturn around keyword hasValue)) := by
  rw [checkReturn, Walk.after_bind]
  exact (notes_complainIf _ keyword .returnAtTopLevel w).trans
    (notes_complainIf _ keyword .returnFromInitializer _)

theorem notes_methodContext (r : Routine Site) (w : Walk) :
    Walk.Notes [] w (w.after (methodContext r)) := by
  unfold methodContext
  split
  · exact notes_complainIf r.getter r.name .initializerAsGetter w
  · exact .refl w

/-! ## Sequences and scopes -/

/-- Steps that define nothing by themselves, one for each member of a list. -/
theorem notes_forM {α : Type} {f : α → Bind PUnit} (step : ∀ a w, Walk.Notes [] w (w.after (f a))) :
    ∀ (as : List α) (w : Walk), Walk.Notes [] w (w.after (as.forM f))
  | [], w => .refl w
  | a :: as, w => (step a w).trans (notes_forM step as _)

/-- Ending a scope does not touch the global names. -/
theorem globals_closeScope (w : Walk) :
    (w.after closeScope).pendingGlobals = w.pendingGlobals ∧
      (w.after closeScope).definedGlobals = w.definedGlobals := by
  have complained : ∀ (us : List (String × Token)) (w : Walk),
      (w.after (us.forM fun u => complain u.2 (.unused u.1))).pendingGlobals = w.pendingGlobals ∧
        (w.after (us.forM fun u => complain u.2 (.unused u.1))).definedGlobals =
          w.definedGlobals := by
    intro us
    induction us with
    | nil => exact fun w => ⟨rfl, rfl⟩
    | cons u us ih => exact fun w => ih (w.after (complain u.2 (.unused u.1)))
  obtain ⟨_ | ⟨scope, outer⟩, pending, defined, distances, complaints⟩ := w
  · exact ⟨rfl, rfl⟩
  · exact complained scope.unused ⟨outer, pending, defined, distances, complaints⟩

/-- What happens inside a scope defines no global name. -/
theorem Walk.Notes.scope {names : List String} {w w' : Walk}
    (inside : Walk.Notes names w.opened w') :
    Walk.Notes [] w (w'.after closeScope) where
  height := by
    have height := inside.height
    rw [w'.after_closeScope.1, List.length_tail, height]
    rfl
  pending x := by
    rw [(globals_closeScope w').1, inside.pending]
    simp [Walk.opened]
  defined x := by
    rw [(globals_closeScope w').2, inside.defined]
    simp [Walk.opened]

/-- Whatever is introduced inside a class is none of the global names. -/
theorem notes_openClass_closeClass (hasSuperclass : Bool) {names : List String} {w w' : Walk}
    (inside : Walk.Notes names (w.after (openClass hasSuperclass)) w') :
    Walk.Notes [] w (w'.after (closeClass hasSuperclass)) := by
  cases hasSuperclass with
  | false => exact ((notes_declareImplicit thisName w.opened).trans inside).scope
  | true =>
    let outer := w.opened.after (declareImplicit superName)
    have this : Walk.Notes [] outer (w'.after closeScope) :=
      ((notes_declareImplicit thisName outer.opened).trans inside).scope
    exact ((notes_declareImplicit superName w.opened).trans this).scope

/-- Parameters are inside a scope. -/
theorem notes_bindParams (params : List Token) (w : Walk) :
    Walk.Notes (params.map Token.lexeme) w (w.after (bindParams params)) := by
  induction params generalizing w with
  | nil => exact .refl w
  | cons p params ih =>
    have declared : Walk.Notes [p.lexeme] w ((w.after (declareName p)).after (defineName p)) :=
      (Walk.Notes.refl _).declared
    exact (declared.trans (notes_useName p _)).trans (ih _)

/-! ## The walk over a tree -/

mutual

/-- An expression defines no global name. -/
theorem notes_bindExpr (around : Surroundings) :
    ∀ (e : Expr Site) (w : Walk), Walk.Notes [] w (w.after (bindExpr around e))
  | .literal _, w => .refl w
  | .grouping e, w => notes_bindExpr around e w
  | .unary _ e, w => notes_bindExpr around e w
  | .binary l _ r, w => by
    rw [bindExpr, Walk.after_bind]
    exact (notes_bindExpr around l w).trans (notes_bindExpr around r _)
  | .logical l _ r, w => by
    rw [bindExpr, Walk.after_bind]
    exact (notes_bindExpr around l w).trans (notes_bindExpr around r _)
  | .variable ref, w => notes_bindVariable around ref w
  | .assign ref e, w => by
    rw [bindExpr, Walk.after_bind, Walk.after_bind]
    exact (notes_bindExpr around e w).trans (notes_bindLocal ref false 0 _)
  | .call f _ es, w => by
    rw [bindExpr, Walk.after_bind]
    exact (notes_bindExpr around f w).trans (notes_bindExprs around es _)
  | .get e _, w => notes_bindExpr around e w
  | .set e _ v, w => by
    rw [bindExpr, Walk.after_bind]
    exact (notes_bindExpr around v w).trans (notes_bindExpr around e _)
  | .this ref, w => by
    rw [bindExpr]
    split
    · exact notes_complain ref.token .thisOutsideClass w
    · exact notes_bindLocal ref true 0 w
  | .super ref _, w => by
    rw [bindExpr]
    split
    · exact notes_complain ref.token .superOutsideClass w
    · rw [Walk.after_bind]
      exact (notes_complainIf _ ref.token .superWithoutSuperclass w).trans
        (notes_bindLocal ref true 0 _)
  | .function _ params body, w => by
    rw [bindExpr, Walk.after_bind, Walk.after_bind, Walk.after_bind]
    exact ((notes_bindParams params w.opened).trans (notes_bindStmts _ body _)).scope

/-- An expression introduces no name. -/
theorem notes_bindExprs (around : Surroundings) :
    ∀ (es : List (Expr Site)) (w : Walk), Walk.Notes [] w (w.after (bindExprs around es))
  | [], w => .refl w
  | e :: es, w => by
    rw [bindExprs, Walk.after_bind]
    exact (notes_bindExpr around e w).trans (notes_bindExprs around es _)

/-- A statement defines the names that it introduces. -/
theorem notes_bindStmt (around : Surroundings) :
    ∀ (s : Stmt Site) (w : Walk), Walk.Notes s.introduces w (w.after (bindStmt around s))
  | .missing, w => .refl w
  | .expression e, w => notes_bindExpr around e w
  | .print e, w => notes_bindExpr around e w
  | .var name none, w => by
    rw [bindStmt, Walk.after_bind]
    exact (Walk.Notes.refl _).declared
  | .var name (some e), w => by
    rw [bindStmt, Walk.after_bind, Walk.after_bind]
    exact (notes_bindExpr around e _).declared
  | .block body, w => by
    rw [bindStmt, Walk.after_bind, Walk.after_bind]
    exact (notes_bindStmts around body w.opened).scope
  | .ifElse c t none, w => by
    rw [bindStmt, Walk.after_bind]
    exact (notes_bindExpr around c w).trans (notes_bindStmt around t _)
  | .ifElse c t (some e), w => by
    rw [bindStmt, Walk.after_bind, Walk.after_bind]
    exact (notes_bindExpr around c w).trans
      ((notes_bindStmt around t _).trans (notes_bindStmt around e _))
  | .whileLoop c b, w => by
    rw [bindStmt, Walk.after_bind]
    exact (notes_bindExpr around c w).trans (notes_bindStmt around b _)
  | .ret keyword none, w => by
    rw [bindStmt]
    exact notes_checkReturn around keyword false w
  | .ret keyword (some e), w => by
    rw [bindStmt, Walk.after_bind]
    exact (notes_checkReturn around keyword true w).trans (notes_bindExpr around e _)
  | .loopExit _, w => .refl w
  | .function r, w => by
    rw [bindStmt, Walk.after_bind, Walk.after_bind, Walk.after_bind]
    exact ((Walk.Notes.refl _).declared.trans (notes_useName r.name _)).trans
      (notes_bindRoutine around .function r _)
  | .classDecl name superclass mixins methods statics, w => by
    simp only [bindStmt, Walk.after_bind]
    let inside := around.inClass superclass.isSome
    have declared :
        Walk.Notes [name.lexeme] w ((w.after (declareName name)).after (defineName name)) :=
      (Walk.Notes.refl _).declared
    have parent : ∀ w : Walk,
        Walk.Notes [] w (w.after (superclass.forM (bindParent inside name .inheritsItself))) := by
      intro w
      cases superclass with
      | none => exact .refl w
      | some ref => exact notes_bindParent inside name .inheritsItself ref w
    have mixed := notes_forM (notes_bindParent inside name .mixesInItself) mixins
    have members := fun w : Walk => notes_openClass_closeClass superclass.isSome
      ((notes_bindMethods inside methods (w.after (openClass superclass.isSome))).trans
        (notes_bindStatics inside statics _))
    exact ((declared.trans (parent _)).trans (mixed _)).trans (members _)

/-- Statements in a row note their names in their order. -/
theorem notes_bindStmts (around : Surroundings) :
    ∀ (ss : List (Stmt Site)) (w : Walk),
      Walk.Notes (Stmt.introducesAll ss) w (w.after (bindStmts around ss))
  | [], w => .refl w
  | s :: ss, w => by
    rw [bindStmts, Walk.after_bind]
    exact (notes_bindStmt around s w).trans (notes_bindStmts around ss _)

/-- A routine notes nothing, for its body is inside a scope. -/
theorem notes_bindRoutine (around : Surroundings) (context : RoutineContext) :
    ∀ (r : Routine Site) (w : Walk), Walk.Notes [] w (w.after (bindRoutine around context r))
  | ⟨name, params, body, getter⟩, w => by
    rw [bindRoutine, Walk.after_bind, Walk.after_bind, Walk.after_bind, Walk.after_bind]
    exact (notes_complainIf _ name .getterOutsideClass w).trans
      ((notes_bindParams params _).trans (notes_bindStmts _ body _)).scope

theorem notes_bindMethods (around : Surroundings) :
    ∀ (rs : List (Routine Site)) (w : Walk), Walk.Notes [] w (w.after (bindMethods around rs))
  | [], w => .refl w
  | r :: rs, w => by
    rw [bindMethods, Walk.after_bind, Walk.after_bind]
    exact (notes_methodContext r w).trans
      ((notes_bindRoutine around _ r _).trans (notes_bindMethods around rs _))

theorem notes_bindStatics (around : Surroundings) :
    ∀ (rs : List (Routine Site)) (w : Walk), Walk.Notes [] w (w.after (bindStatics around rs))
  | [], w => .refl w
  | r :: rs, w => by
    rw [bindStatics, Walk.after_bind]
    exact (notes_bindRoutine around .method r w).trans (notes_bindStatics around rs _)

end

/-! ## A program in two parts -/

/-- Behind two parts of a program is behind the second one, from where the first one led. -/
theorem after_bindStmts_append (around : Surroundings) (p q : List (Stmt Site)) (w : Walk) :
    w.after (bindStmts around (p ++ q)) =
      (w.after (bindStmts around p)).after (bindStmts around q) := by
  induction p generalizing w with
  | nil => rfl
  | cons s p ih =>
    rw [List.cons_append, bindStmts, Walk.after_bind, ih, bindStmts, Walk.after_bind]

/-- The second part of a program is bound as it would be by itself after the first part has run:
what the first part introduces is global then. -/
theorem bindProgram_append {isGlobal isGlobal' : String → Bool} {before : Distances}
    {p : List (Stmt Site)} (accepted : (bindProgram isGlobal before p).complaints = [])
    (known : ∀ x, isGlobal' x = true ↔ isGlobal x = true ∨ x ∈ Stmt.introducesAll p)
    (f : Nat → Nat) (lo : Site) (q : List (Stmt Site)) :
    (bindProgram isGlobal' (bindProgram isGlobal before p).distances q).Beside f 0 lo isGlobal'
      isGlobal (bindProgram isGlobal before (p ++ Stmt.relabelAll f (· + 0) q)) := by
  have alike : (Surroundings.top isGlobal').Alike isGlobal' isGlobal (.top isGlobal) :=
    ⟨rfl, rfl, rfl, rfl⟩
  have notes := notes_bindStmts (.top isGlobal) p (.start before)
  have between : (Walk.start (bindProgram isGlobal before p).distances).Beside f 0 lo isGlobal'
      isGlobal (bindProgram isGlobal before p) := by
    refine ⟨List.eq_nil_of_length_eq_zero notes.height, ?_, fun x => ?_, fun _ _ => rfl, accepted⟩
    · refine List.eq_nil_iff_forall_not_mem.mpr fun x mem => ?_
      exact nomatch ((notes.pending x).mp mem).1
    · rw [Bool.eq_iff_iff, Bool.or_eq_true, Bool.or_eq_true, known x, List.contains_iff_mem]
      have defined := notes.defined x
      simp only [Walk.start, List.not_mem_nil, true_and, false_or] at defined
      have same : x ∈ (bindProgram isGlobal before p).definedGlobals ↔ x ∈ Stmt.introducesAll p :=
        defined
      rw [same, or_comm]
      simp [Walk.start]
  have joined : bindProgram isGlobal before (p ++ Stmt.relabelAll f (· + 0) q) =
      (bindProgram isGlobal before p).after
        (bindStmts (.top isGlobal) (Stmt.relabelAll f (· + 0) q)) :=
    after_bindStmts_append (.top isGlobal) p _ (.start before)
  rw [joined]
  exact (bound_bindStmts alike q _ _ between).2

end LoxLang
