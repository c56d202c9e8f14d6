/-
LoxLang.Proofs.Binding.Later: binding a program that was read later.

The walk of the static rules does not depend on lines and sites, nor on what the table of distances
holds already.  Of the global names it only asks whether they are known, be it from this program or
from before.  So two walks over one program, which was read with other lines and sites the second
time, make the same complaints and record the same distances.

* `Scope.reline`: a scope whose declarations are on other lines.
* `Walk.Beside`: a walk over the program that was read later.

Main statements: `bound_bindStmts`, `bindProgram_later`.
-/
import LoxLang.Binding.Rules
import LoxLang.Proofs.Tree.Relabelled
import LoxLang.Proofs.Tree.Remarked

namespace LoxLang

/-! ## Scopes -/

/-- The binding with its token on another line. -/
def Binding.reline (f : Nat → Nat) (b : Binding) : Binding :=
  { b with token := b.token.map (Token.reline f) }

/-- The scope with its declarations on other lines. -/
def Scope.reline (f : Nat → Nat) (s : Scope) : Scope := ⟨s.bindings.map (Binding.reline f)⟩

namespace Scope

variable (f : Nat → Nat)

/-- A binding takes the same place among those on other lines. -/
theorem place_reline (b : Binding) (bs : List Binding) :
    place (b.reline f) (bs.map (Binding.reline f)) = (place b bs).map (Binding.reline f) := by
  induction bs with
  | nil => rfl
  | cons first rest ih =>
    rw [List.map_cons, place, place, ih]
    show ite (first.name = b.name) _ _ = _
    split <;> rfl

/-- A change that does not look at lines changes the same binding. -/
theorem adjust_reline {change : Binding → Binding}
    (same : ∀ b, change (b.reline f) = (change b).reline f) (name : String) (bs : List Binding) :
    adjust change name (bs.map (Binding.reline f)) =
      (adjust change name bs).map (Binding.reline f) := by
  induction bs with
  | nil => rfl
  | cons first rest ih =>
    rw [List.map_cons, adjust, adjust, ih, same]
    show ite (first.name = name) _ _ = _
    split <;> rfl

/-- A declaration on another line takes the same place. -/
theorem declare_reline (s : Scope) (b : Binding) :
    (s.reline f).declare (b.reline f) = (s.declare b).reline f :=
  congrArg Scope.mk (place_reline f b s.bindings)

theorem define_reline (s : Scope) (name : String) :
    (s.reline f).define name = (s.define name).reline f := by
  refine congrArg Scope.mk (adjust_reline f (fun b => ?_) name s.bindings)
  show ite (b.status = _) _ _ = _
  unfold Binding.defined
  split <;> rfl

theorem use_reline (s : Scope) (name : String) : (s.reline f).use name = (s.use name).reline f :=
  congrArg Scope.mk (@adjust_reline f Binding.used (fun _ => rfl) name s.bindings)

/-- A name finds its binding, on its other line. -/
theorem find?_reline (s : Scope) (name : String) :
    (s.reline f).find? name = (s.find? name).map (Binding.reline f) := List.find?_map

/-- Which names a scope has does not depend on lines. -/
@[simp] theorem contains_reline (s : Scope) (name : String) :
    (s.reline f).contains name = s.contains name := by
  simp [contains, find?_reline]

/-- Nor does how far a name has come. -/
@[simp] theorem status?_reline (s : Scope) (name : String) :
    (s.reline f).status? name = s.status? name := by
  rw [status?, find?_reline, status?, Option.map_map]
  rfl

/-- The unused names are the same, with their tokens on other lines. -/
theorem unused_reline (s : Scope) :
    (s.reline f).unused = s.unused.map (Prod.map id (Token.reline f)) := by
  obtain ⟨bs⟩ := s
  induction bs with
  | nil => rfl
  | cons b bs ih =>
    have rest : (bs.map (Binding.reline f)).filterMap _ = List.map _ (bs.filterMap _) := ih
    obtain ⟨name, status, token⟩ := b
    simp only [unused, reline, List.map_cons, List.filterMap_cons, Binding.reline]
    rw [rest]
    cases status <;> cases token <;> rfl

end Scope

/-- So a name is found in the same scope. -/
theorem locate_reline (f : Nat → Nat) (scopes : List Scope) (name : String) (skip : Nat) :
    locate (scopes.map (Scope.reline f)) name skip = locate scopes name skip := by
  have same : ((·.contains name) ∘ Scope.reline f) = (·.contains name) :=
    funext fun s => s.contains_reline f name
  rw [locate, ← List.map_drop, List.findIdx?_map, same, locate]

/-! ## Walks -/

/-- The surroundings are the same, apart from the names that are global before. -/
structure Surroundings.Alike (isGlobal isGlobal' : String → Bool) (around around' : Surroundings) :
    Prop where
  routine : around'.routine = around.routine
  cls : around'.cls = around.cls
  before : around.isGlobal = isGlobal
  before' : around'.isGlobal = isGlobal'

/-- The second walk is over the program that was read later.  Both know the same global names, and
from a site on they have recorded the same. -/
structure Walk.Beside (f : Nat → Nat) (k : Nat) (lo : Site) (isGlobal isGlobal' : String → Bool)
    (w w' : Walk) : Prop where
  scopes : w'.scopes = w.scopes.map (Scope.reline f)
  pending : w'.pendingGlobals = w.pendingGlobals
  known : ∀ name, (w'.definedGlobals.contains name || isGlobal' name) =
    (w.definedGlobals.contains name || isGlobal name)
  distances : ∀ site, lo ≤ site → w'.distances.get? (site + k) = w.distances.get? site
  complaints : w'.complaints = w.complaints.map (Prod.map (Token.reline f) id)

section Steps

variable {f : Nat → Nat} {k : Nat} {lo : Site} {isGlobal isGlobal' : String → Bool}
  {around around' : Surroundings} {w w' : Walk}

/-- What a step does, done to a program that was read later. -/
abbrev Bound (f : Nat → Nat) (k : Nat) (lo : Site) (isGlobal isGlobal' : String → Bool) {α : Type}
    (act act' : Bind α) : Prop := Related (Walk.Beside f k lo isGlobal isGlobal') Eq act act'

/-- The same names are known to be global. -/
theorem Surroundings.Alike.isKnownGlobal (alike : around.Alike isGlobal isGlobal' around')
    (beside : w.Beside f k lo isGlobal isGlobal' w') (name : String) :
    isKnownGlobal around' w' name = isKnownGlobal around w name := by
  rw [LoxLang.isKnownGlobal, LoxLang.isKnownGlobal, alike.before, alike.before', beside.known]

/-- A complaint is about the same token, on its other line. -/
theorem bound_complain (t : Token) (fault : BindingFault) :
    Bound f k lo isGlobal isGlobal' (complain t fault) (complain (t.reline f) fault) := by
  refine .modifies fun w w' beside => { beside with complaints := ?_ }
  simp [beside.complaints]

/-- Whether there is one does not depend on lines. -/
theorem bound_complainIf {wrong wrong' : Bool} (same : wrong' = wrong) (t : Token)
    (fault : BindingFault) :
    Bound f k lo isGlobal isGlobal' (complainIf wrong t fault)
      (complainIf wrong' (t.reline f) fault) := by
  subst same
  exact .ite Iff.rfl (fun _ => bound_complain t fault) fun _ => .pure rfl

/-- A change of the innermost scope that does not look at lines. -/
theorem bound_onInnermost {change change' : Scope → Scope}
    (same : ∀ s : Scope, change' (s.reline f) = (change s).reline f) :
    Bound f k lo isGlobal isGlobal' (onInnermost change) (onInnermost change') := by
  refine .modifies fun w w' beside => { beside with scopes := ?_ }
  simp only [beside.scopes]
  cases w.scopes with
  | nil => rfl
  | cons scope outer => simp [same]

/-- A new scope is empty on both sides. -/
theorem bound_openScope : Bound f k lo isGlobal isGlobal' openScope openScope := by
  refine .modifies fun w w' beside => { beside with scopes := ?_ }
  simp only [beside.scopes, List.map_cons]
  rfl

/-- One step for each member of a list. -/
theorem bound_forM {α α' : Type} {act : α → Bind PUnit} {act' : α' → Bind PUnit} (g : α → α')
    (same : ∀ a, Bound f k lo isGlobal isGlobal' (act a) (act' (g a))) :
    ∀ as : List α, Bound f k lo isGlobal isGlobal' (as.forM act) ((as.map g).forM act')
  | [] => .pure rfl
  | a :: as => (same a).bind fun _ _ _ => bound_forM g same as

/-- What ends with a scope is complained about in the same order. -/
theorem bound_closeScope : Bound f k lo isGlobal isGlobal' closeScope closeScope := by
  refine Related.bind .gets fun w w' beside => ?_
  rw [beside.scopes]
  cases w.scopes with
  | nil => exact .pure rfl
  | cons scope outer =>
    refine Related.bind (.modifies fun v v' beside' => { beside' with scopes := rfl })
      fun _ _ _ => ?_
    rw [Scope.unused_reline]
    exact bound_forM (Prod.map id (Token.reline f)) (fun u => bound_complain u.2 (.unused u.1))
      scope.unused

/-- A second declaration of a name is one on both sides. -/
theorem bound_declareName (name : Token) :
    Bound f k lo isGlobal isGlobal' (declareName name) (declareName (name.reline f)) := by
  refine Related.bind .gets fun w w' beside => ?_
  rw [beside.scopes]
  cases w.scopes with
  | nil =>
    refine .modifies fun v v' beside' => { beside' with pending := ?_ }
    simp [beside'.pending]
  | cons scope outer =>
    refine (bound_onInnermost fun s => s.declare_reline f ⟨name.lexeme, .declared, some name⟩).bind
      fun _ _ _ => ?_
    refine .ite ?_ (fun _ => bound_complain name .redeclared) fun _ => .pure rfl
    rw [Token.lexeme_reline, Scope.contains_reline]

theorem bound_defineName (name : Token) :
    Bound f k lo isGlobal isGlobal' (defineName name) (defineName (name.reline f)) := by
  refine .modifies fun w w' beside => ?_
  have atTop : w'.scopes.isEmpty = w.scopes.isEmpty := by rw [beside.scopes, List.isEmpty_map]
  rw [atTop]
  split
  · refine { beside with pending := ?_, known := fun other => ?_ }
    · simp only [beside.pending, Token.lexeme_reline]
      rfl
    · have known := beside.known other
      simp only [Token.lexeme_reline, List.contains_cons, Bool.or_assoc, known]
  · refine { beside with scopes := ?_ }
    simp only [beside.scopes]
    cases w.scopes with
    | nil => rfl
    | cons scope outer =>
      simp only [List.map_cons, List.modifyHead_cons, Token.lexeme_reline, Scope.define_reline]

/-- A use is noted in the same scope. -/
theorem bound_useName (name : Token) :
    Bound f k lo isGlobal isGlobal' (useName name) (useName (name.reline f)) :=
  bound_onInnermost fun s => s.use_reline f name.lexeme

theorem bound_declareImplicit (name : String) :
    Bound f k lo isGlobal isGlobal' (declareImplicit name) (declareImplicit name) :=
  bound_onInnermost fun s => s.declare_reline f ⟨name, .used, none⟩

/-- A use in a scope further out, too. -/
theorem modify_use_reline (scopes : List Scope) (d : Nat) (name : String) :
    (scopes.map (Scope.reline f)).modify d (·.use name) =
      (scopes.modify d (·.use name)).map (Scope.reline f) := by
  induction scopes generalizing d with
  | nil => cases d <;> rfl
  | cons scope outer ih =>
    cases d with
    | zero => simp [Scope.use_reline]
    | succ d => simp [ih]

/-- The distance that is recorded is the same, for the site that is so many numbers later. -/
theorem bound_bindLocal (ref : Reference Site) (read : Bool) (skip : Nat) :
    Bound f k lo isGlobal isGlobal' (bindLocal ref read skip)
      (bindLocal (ref.later f k) read skip) := by
  refine Related.bind .gets fun w w' beside => ?_
  rw [beside.scopes, locate_reline, Reference.name_relabel]
  cases locate w.scopes ref.name skip with
  | none => exact .pure rfl
  | some d =>
    refine Related.bind (.sets { beside with scopes := ?_, distances := fun site le => ?_ })
      fun _ _ _ => .pure rfl
    · cases read with
      | true => exact modify_use_reline w.scopes d ref.name
      | false => rfl
    · by_cases same : site = ref.mark
      · subst same
        rw [Distances.get?_record_self]
        exact Distances.get?_record_self _ _ _
      · have apart : site + k ≠ (ref.later f k).mark := fun h => same (Nat.add_right_cancel h)
        rw [Distances.get?_record_of_ne _ same, ← beside.distances site le]
        exact Distances.get?_record_of_ne _ apart d

section Around

variable (alike : around.Alike isGlobal isGlobal' around')
include alike

/-- Whether a variable is read in its own initial value is told by the scopes. -/
theorem bound_bindVariable (ref : Reference Site) :
    Bound f k lo isGlobal isGlobal' (bindVariable around ref)
      (bindVariable around' (ref.later f k)) := by
  refine Related.bind .gets fun w w' beside => ?_
  have known := alike.isKnownGlobal beside ref.name
  rw [beside.scopes, beside.pending, Reference.name_relabel, known]
  cases w.scopes with
  | nil => exact bound_complainIf rfl ref.token .ownInitializer
  | cons scope outer =>
    refine .ite ?_ (fun _ => ?_) fun _ => ?_
    · rw [Scope.status?_reline]
    · refine (bound_bindLocal ref true 1).bind ?_
      rintro found _ rfl
      exact bound_complainIf rfl ref.token .ownInitializer
    · exact (bound_bindLocal ref true 0).bind fun _ _ _ => .pure rfl

/-- A class that is its own parent is complained about on both sides. -/
theorem bound_bindParent (cls : Token) (fault : BindingFault) (ref : Reference Site) :
    Bound f k lo isGlobal isGlobal' (bindParent around cls fault ref)
      (bindParent around' (cls.reline f) fault (ref.later f k)) :=
  (bound_complainIf rfl ref.token fault).bind fun _ _ _ => bound_bindVariable alike ref

omit alike in
/-- Parameters are declared in their order. -/
theorem bound_bindParams (params : List Token) :
    Bound f k lo isGlobal isGlobal' (bindParams params)
      (bindParams (params.map (Token.reline f))) := by
  refine bound_forM (Token.reline f) (fun param => ?_) params
  refine (bound_declareName param).bind fun _ _ _ => ?_
  exact (bound_defineName param).bind fun _ _ _ => bound_useName param

/-- A getter outside a class is complained about on both sides. -/
theorem bound_checkGetter (r : Routine Site) :
    Bound f k lo isGlobal isGlobal' (checkGetter around r) (checkGetter around' (r.later f k)) := by
  obtain ⟨name, params, body, getter⟩ := r
  refine bound_complainIf ?_ name .getterOutsideClass
  rw [alike.cls]
  rfl

omit alike in
/-- What a method is called for is told by its name. -/
theorem bound_methodContext (r : Routine Site) :
    Bound f k lo isGlobal isGlobal' (methodContext r) (methodContext (r.later f k)) := by
  obtain ⟨name, params, body, getter⟩ := r
  refine .ite Iff.rfl (fun _ => ?_) fun _ => .pure rfl
  exact (bound_complainIf rfl name .initializerAsGetter).bind fun _ _ _ => .pure rfl

/-- Whether a `return` may stand here is told by the surroundings. -/
theorem bound_checkReturn (keyword : Token) (hasValue : Bool) :
    Bound f k lo isGlobal isGlobal' (checkReturn around keyword hasValue)
      (checkReturn around' (keyword.reline f) hasValue) := by
  refine (bound_complainIf ?_ keyword .returnAtTopLevel).bind fun _ _ _ => ?_
  · rw [alike.routine]
  · refine bound_complainIf ?_ keyword .returnFromInitializer
    rw [alike.routine]

/-- The surroundings inside a routine are alike. -/
theorem Surroundings.Alike.inRoutine (context : RoutineContext) :
    Surroundings.Alike isGlobal isGlobal' { around with routine := context }
      { around' with routine := context } :=
  { alike with routine := rfl }

/-- So are those inside a class. -/
theorem Surroundings.Alike.inClass (hasSuperclass : Bool) :
    (around.inClass hasSuperclass).Alike isGlobal isGlobal' (around'.inClass hasSuperclass) :=
  { alike with cls := rfl }

omit alike in
/-- The scopes of a class are opened on both sides. -/
theorem bound_openClass (hasSuperclass : Bool) :
    Bound f k lo isGlobal isGlobal' (openClass hasSuperclass) (openClass hasSuperclass) := by
  have inner : Bound f k lo isGlobal isGlobal' (do openScope; declareImplicit thisName : Bind Unit)
      (do openScope; declareImplicit thisName : Bind Unit) :=
    bound_openScope.bind fun _ _ _ => bound_declareImplicit thisName
  cases hasSuperclass with
  | false => exact inner
  | true =>
    refine bound_openScope.bind fun _ _ _ => ?_
    exact (bound_declareImplicit superName).bind fun _ _ _ => inner

omit alike in
theorem bound_closeClass (hasSuperclass : Bool) :
    Bound f k lo isGlobal isGlobal' (closeClass hasSuperclass) (closeClass hasSuperclass) := by
  refine bound_closeScope.bind fun _ _ _ => ?_
  exact .ite Iff.rfl (fun _ => bound_closeScope) fun _ => .pure rfl

end Around

/-! ## The walk -/

mutual

/-- The walk over an expression, by induction on the tree. -/
theorem bound_bindExpr {around around' : Surroundings}
    (alike : around.Alike isGlobal isGlobal' around') : ∀ e : Expr Site,
    Bound f k lo isGlobal isGlobal' (bindExpr around e) (bindExpr around' (e.later f k))
  | .literal _ => .pure rfl
  | .grouping e => bound_bindExpr alike e
  | .unary _ e => bound_bindExpr alike e
  | .binary l _ r => (bound_bindExpr alike l).bind fun _ _ _ => bound_bindExpr alike r
  | .logical l _ r => (bound_bindExpr alike l).bind fun _ _ _ => bound_bindExpr alike r
  | .variable ref => bound_bindVariable alike ref
  | .assign ref e => (bound_bindExpr alike e).bind fun _ _ _ =>
    (bound_bindLocal ref false 0).bind fun _ _ _ => .pure rfl
  | .call h _ es => (bound_bindExpr alike h).bind fun _ _ _ => bound_bindExprs alike es
  | .get e _ => bound_bindExpr alike e
  | .set e _ v => (bound_bindExpr alike v).bind fun _ _ _ => bound_bindExpr alike e
  | .this ref => by
    refine .ite ?_ (fun _ => bound_complain ref.token .thisOutsideClass) fun _ => ?_
    · rw [alike.cls]
    · exact (bound_bindLocal ref true 0).bind fun _ _ _ => .pure rfl
  | .super ref _ => by
    refine .ite ?_ (fun _ => bound_complain ref.token .superOutsideClass) fun _ => ?_
    · rw [alike.cls]
    · refine (bound_complainIf ?_ ref.token .superWithoutSuperclass).bind fun _ _ _ => ?_
      · rw [alike.cls]
      · exact (bound_bindLocal ref true 0).bind fun _ _ _ => .pure rfl
  | .function _ params body =>
    bound_openScope.bind fun _ _ _ => (bound_bindParams params).bind fun _ _ _ =>
      (bound_bindStmts (alike.inRoutine .function) body).bind fun _ _ _ => bound_closeScope

theorem bound_bindExprs {around around' : Surroundings}
    (alike : around.Alike isGlobal isGlobal' around') : ∀ es : List (Expr Site),
    Bound f k lo isGlobal isGlobal' (bindExprs around es)
      (bindExprs around' (Expr.relabelAll f (· + k) es))
  | [] => .pure rfl
  | e :: es => (bound_bindExpr alike e).bind fun _ _ _ => bound_bindExprs alike es

/-- The walk over a statement. -/
theorem bound_bindStmt {around around' : Surroundings}
    (alike : around.Alike isGlobal isGlobal' around') : ∀ s : Stmt Site,
    Bound f k lo isGlobal isGlobal' (bindStmt around s) (bindStmt around' (s.later f k))
  | .missing | .loopExit _ => .pure rfl
  | .expression e => bound_bindExpr alike e
  | .print e => bound_bindExpr alike e
  | .var name none => (bound_declareName name).bind fun _ _ _ => bound_defineName name
  | .var name (some e) =>
    (bound_declareName name).bind fun _ _ _ => (bound_bindExpr alike e).bind fun _ _ _ =>
      bound_defineName name
  | .block body =>
    bound_openScope.bind fun _ _ _ => (bound_bindStmts alike body).bind fun _ _ _ =>
      bound_closeScope
  | .ifElse c t none => (bound_bindExpr alike c).bind fun _ _ _ => bound_bindStmt alike t
  | .ifElse c t (some e) =>
    (bound_bindExpr alike c).bind fun _ _ _ => (bound_bindStmt alike t).bind fun _ _ _ =>
      bound_bindStmt alike e
  | .whileLoop c b => (bound_bindExpr alike c).bind fun _ _ _ => bound_bindStmt alike b
  | .ret keyword none => bound_checkReturn alike keyword false
  | .ret keyword (some e) =>
    (bound_checkReturn alike keyword true).bind fun _ _ _ => bound_bindExpr alike e
  | .function ⟨name, params, body, getter⟩ =>
    (bound_declareName name).bind fun _ _ _ => (bound_defineName name).bind fun _ _ _ =>
      (bound_useName name).bind fun _ _ _ =>
        bound_bindRoutine alike .function ⟨name, params, body, getter⟩
  | .classDecl name superclass mixins methods statics => by
    have opened : (superclass.map (Reference.later f k)).isSome = superclass.isSome :=
      Option.isSome_map
    refine (bound_declareName name).bind fun _ _ _ => ?_
    refine (bound_defineName name).bind fun _ _ _ => ?_
    dsimp only
    rw [opened]
    have inside := alike.inClass superclass.isSome
    refine Related.bind (A := Eq) ?_ fun _ _ _ => ?_
    · cases superclass with
      | none => exact .pure rfl
      | some ref => exact bound_bindParent inside name .inheritsItself ref
    refine (bound_forM (Reference.later f k)
      (fun ref => bound_bindParent inside name .mixesInItself ref) mixins).bind fun _ _ _ => ?_
    refine (bound_openClass superclass.isSome).bind fun _ _ _ => ?_
    refine (bound_bindMethods inside methods).bind fun _ _ _ => ?_
    refine (bound_bindStatics inside statics).bind fun _ _ _ => ?_
    exact bound_closeClass superclass.isSome

theorem bound_bindStmts {around around' : Surroundings}
    (alike : around.Alike isGlobal isGlobal' around') : ∀ ss : List (Stmt Site),
    Bound f k lo isGlobal isGlobal' (bindStmts around ss)
      (bindStmts around' (Stmt.relabelAll f (· + k) ss))
  | [] => .pure rfl
  | s :: ss => (bound_bindStmt alike s).bind fun _ _ _ => bound_bindStmts alike ss

/-- The walk over a routine, in a scope of its own. -/
theorem bound_bindRoutine {around around' : Surroundings}
    (alike : around.Alike isGlobal isGlobal' around') (context : RoutineContext) :
    ∀ r : Routine Site,
    Bound f k lo isGlobal isGlobal' (bindRoutine around context r)
      (bindRoutine around' context (r.later f k))
  | ⟨name, params, body, getter⟩ =>
    (bound_checkGetter alike ⟨name, params, body, getter⟩).bind fun _ _ _ =>
      bound_openScope.bind fun _ _ _ => (bound_bindParams params).bind fun _ _ _ =>
        (bound_bindStmts (alike.inRoutine context) body).bind fun _ _ _ => bound_closeScope

/-- The walk over the methods of a class, in their order. -/
theorem bound_bindMethods {around around' : Surroundings}
    (alike : around.Alike isGlobal isGlobal' around') : ∀ rs : List (Routine Site),
    Bound f k lo isGlobal isGlobal' (bindMethods around rs)
      (bindMethods around' (Routine.relabelAll f (· + k) rs))
  | [] => .pure rfl
  | r :: rs => by
    refine (bound_methodContext r).bind ?_
    rintro context _ rfl
    exact (bound_bindRoutine alike context r).bind fun _ _ _ => bound_bindMethods alike rs

theorem bound_bindStatics {around around' : Surroundings}
    (alike : around.Alike isGlobal isGlobal' around') : ∀ rs : List (Routine Site),
    Bound f k lo isGlobal isGlobal' (bindStatics around rs)
      (bindStatics around' (Routine.relabelAll f (· + k) rs))
  | [] => .pure rfl
  | r :: rs =>
    (bound_bindRoutine alike .method r).bind fun _ _ _ => bound_bindStatics alike rs

end

/-- Binding a program that was read later, beside the same global names. -/
theorem bindProgram_later {before before' : Distances}
    (known : ∀ name, isGlobal' name = isGlobal name)
    (same : ∀ site, lo ≤ site → before'.get? (site + k) = before.get? site)
    (program : List (Stmt Site)) :
    (bindProgram isGlobal before program).Beside f k lo isGlobal isGlobal'
      (bindProgram isGlobal' before' (Stmt.relabelAll f (· + k) program)) := by
  have alike : (Surroundings.top isGlobal).Alike isGlobal isGlobal' (.top isGlobal') :=
    ⟨rfl, rfl, rfl, rfl⟩
  have start : (Walk.start before).Beside f k lo isGlobal isGlobal' (.start before') :=
    ⟨rfl, rfl, fun name => known name, same, rfl⟩
  exact (bound_bindStmts alike program _ _ start).2

/-- The reported complaints are on other lines. -/
theorem Walk.Beside.diagnostics (beside : w.Beside f k lo isGlobal isGlobal' w') :
    w'.diagnostics = w.diagnostics.map (Diagnostic.reline f) := by
  rw [Walk.diagnostics, beside.complaints, Walk.diagnostics, List.map_map, List.map_map]
  rfl

/-- As they run, the two programs differ in their lines only. -/
theorem Walk.Beside.withDistances (beside : w.Beside f k lo isGlobal isGlobal' w')
    {program : List (Stmt Site)}
    (fresh : ∀ site ∈ sitesOf (Stmt.referencesAll program), lo ≤ site) :
    (Stmt.relabelAll f (· + k) program).map (Stmt.withDistances w'.distances) =
      Stmt.relabelAll f w.distances.get? program := by
  have agree : AgreeOn (w'.distances.get? ∘ (· + k)) w.distances.get?
      (Stmt.referencesAll program) := fun o mem =>
    beside.distances o.2.mark (fresh _ (List.mem_map.mpr ⟨o, mem, rfl⟩))
  calc (Stmt.relabelAll f (· + k) program).map (Stmt.withDistances w'.distances)
      = Stmt.mapAll w'.distances.get? (Stmt.relabelAll f (· + k) program) :=
        (Stmt.mapAll_eq _ _).symm
    _ = Stmt.relabelAll f id (Stmt.mapAll (w'.distances.get? ∘ (· + k)) program) := by
        rw [← relabel_idStmts, relabel_relabelStmts, ← relabel_idStmts, relabel_relabelStmts]
        rfl
    _ = Stmt.relabelAll f w.distances.get? program := by
        rw [mapStmts_congr agree, ← relabel_idStmts, relabel_relabelStmts]
        rfl

end Steps

end LoxLang
