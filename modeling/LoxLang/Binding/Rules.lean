/-
LoxLang.Binding.Rules: the static rules on names.

One walk over a program keeps a stack of scopes, the innermost first.  It records for every
reference to a local name how many scopes separate it from its declaration, and complains about
every violation of the rules; it never stops at a complaint.

* Blocks and routines open a scope; a class opens one for `this`, inside one for `super` if it has a
  superclass.
* A name is bound from its declaration on.  A reference in the initial value of a variable to that
  variable's own name means the binding of an enclosing scope, if there is one.
* A local name that is declared by `var` or `class` has to be read somewhere.
* Outside all scopes names are global.  They are looked up when the program runs, so the walk only
  notes which of them are declared and defined so far.

The class and the routine that surround a node are arguments of the walk; scopes, distances and
complaints are its state.

* `bindExpr`, `bindStmt`, `bindRoutine`: the walk.
* `Program.bind`: the walk over a program.
-/
import LoxLang.Binding.Distances
import LoxLang.Binding.Scope
import LoxLang.Fault.Diagnostic

namespace LoxLang

/-! ## Surroundings and state -/

/-- The routine that surrounds a node. -/
inductive RoutineContext where
  | none | function | method | initializer
  deriving DecidableEq, Repr

/-- The class that surrounds a node. -/
inductive ClassContext where
  | none | plain | subclass
  deriving DecidableEq, Repr

/-- What surrounds a node. -/
structure Surroundings where
  routine : RoutineContext
  cls : ClassContext
  /-- The names that are global before the program begins. -/
  isGlobal : String → Bool

/-- The state of the walk. -/
structure Walk where
  /-- The scopes around the node, the innermost first. -/
  scopes : List Scope
  /-- Globals that are declared and whose initial value has not been passed yet. -/
  pendingGlobals : List String
  /-- Globals that are declared and defined. -/
  definedGlobals : List String
  distances : Distances
  complaints : List (Token × BindingFault)

/-- A step of the walk. -/
abbrev Bind := StateM Walk

/-- Complains about a token. -/
def complain (t : Token) (fault : BindingFault) : Bind Unit :=
  modify fun w => { w with complaints := w.complaints ++ [(t, fault)] }

/-- Complains about a token if something is wrong with it. -/
def complainIf (wrong : Bool) (t : Token) (fault : BindingFault) : Bind Unit :=
  if wrong then complain t fault else return

/-! ## Scopes -/

/-- Changes the innermost scope, if there is one. -/
def onInnermost (f : Scope → Scope) : Bind Unit :=
  modify fun w => { w with scopes := w.scopes.modifyHead f }

/-- Opens a scope. -/
def openScope : Bind Unit := modify fun w => { w with scopes := .empty :: w.scopes }

/-- Ends the innermost scope and complains about the names in it that were never read. -/
def closeScope : Bind Unit := do
  match (← get).scopes with
  | [] => return
  | scope :: outer =>
    modify fun w => { w with scopes := outer }
    scope.unused.forM fun (name, token) => complain token (.unused name)

/-- Declares a name in the innermost scope, or as a global. -/
def declareName (name : Token) : Bind Unit := do
  match (← get).scopes with
  | [] => modify fun w => { w with pendingGlobals := name.lexeme :: w.pendingGlobals }
  | scope :: _ =>
    onInnermost (·.declare ⟨name.lexeme, .declared, some name⟩)
    if scope.contains name.lexeme then complain name .redeclared

/-- Marks a declared name as defined. -/
def defineName (name : Token) : Bind Unit :=
  modify fun w =>
    if w.scopes.isEmpty then
      { w with
        pendingGlobals := w.pendingGlobals.filter (· ≠ name.lexeme)
        definedGlobals := name.lexeme :: w.definedGlobals }
    else { w with scopes := w.scopes.modifyHead (·.define name.lexeme) }

/-- Marks a name of the innermost scope as read. -/
def useName (name : Token) : Bind Unit := onInnermost (·.use name.lexeme)

/-- Binds a name that has no token; nobody has to read it. -/
def declareImplicit (name : String) : Bind Unit := onInnermost (·.declare ⟨name, .used, none⟩)

/-- The distance of the innermost scope that declares a name, at least `skip`. -/
def locate (scopes : List Scope) (name : String) (skip : Nat) : Distance :=
  ((scopes.drop skip).findIdx? (·.contains name)).map (· + skip)

/-- Records the distance of a reference if a scope declares its name, from `skip` scopes outwards; a
read marks the name there.  The answer is whether there was such a scope. -/
def bindLocal (ref : Reference Site) (read : Bool) (skip : Nat) : Bind Bool := do
  let w ← get
  match locate w.scopes ref.name skip with
  | none => return false
  | some distance =>
    set { w with
      distances := w.distances.record ref.mark distance
      scopes := if read then w.scopes.modify distance (·.use ref.name) else w.scopes }
    return true

/-- The name is global already, from before or from this program. -/
def isKnownGlobal (around : Surroundings) (w : Walk) (name : String) : Bool :=
  w.definedGlobals.contains name || around.isGlobal name

/-- Binds a reference that reads a variable. -/
def bindVariable (around : Surroundings) (ref : Reference Site) : Bind Unit := do
  let w ← get
  match w.scopes with
  | [] =>
    complainIf (w.pendingGlobals.contains ref.name && !isKnownGlobal around w ref.name) ref.token
      .ownInitializer
  | scope :: _ =>
    if scope.status? ref.name = some .declared then
      let found ← bindLocal ref true 1
      complainIf (!found && !isKnownGlobal around w ref.name) ref.token .ownInitializer
    else
      let _ ← bindLocal ref true 0

/-- Binds the superclass or a mixin of a class, which may not be the class itself. -/
def bindParent (around : Surroundings) (cls : Token) (fault : BindingFault)
    (ref : Reference Site) : Bind Unit := do
  complainIf (ref.name = cls.lexeme) ref.token fault
  bindVariable around ref

/-- Binds the parameters of a routine; nobody has to read them. -/
def bindParams (params : List Token) : Bind Unit :=
  params.forM fun param => do
    declareName param
    defineName param
    useName param

/-- A getter belongs into a class. -/
def checkGetter {ρ : Type} (around : Surroundings) (r : Routine ρ) : Bind Unit :=
  complainIf (r.getter && around.cls = .none) r.name .getterOutsideClass

/-- What a method is for the rules; the initializer is no getter. -/
def methodContext {ρ : Type} (r : Routine ρ) : Bind RoutineContext := do
  if r.name.lexeme = initName then
    complainIf r.getter r.name .initializerAsGetter
    return .initializer
  else return .method

/-- A return belongs into a routine, and an initializer returns no value. -/
def checkReturn (around : Surroundings) (keyword : Token) (hasValue : Bool) : Bind Unit := do
  complainIf (around.routine = .none) keyword .returnAtTopLevel
  complainIf (hasValue && around.routine = .initializer) keyword .returnFromInitializer

/-! ## Classes -/

/-- The surroundings of what stands in a class. -/
def Surroundings.inClass (around : Surroundings) (hasSuperclass : Bool) : Surroundings :=
  { around with cls := if hasSuperclass then .subclass else .plain }

/-- Opens the scopes of a class: one for `this`, inside one for `super` if there is a superclass. -/
def openClass (hasSuperclass : Bool) : Bind Unit := do
  if hasSuperclass then
    openScope
    declareImplicit superName
  openScope
  declareImplicit thisName

/-- Ends the scopes of a class. -/
def closeClass (hasSuperclass : Bool) : Bind Unit := do
  closeScope
  if hasSuperclass then closeScope

/-! ## The walk -/

mutual

/-- Binds the references of an expression.  An assignment binds its value first and does not count
as a read. -/
def bindExpr (around : Surroundings) : Expr Site → Bind Unit
  | .literal _ => return
  | .grouping e => bindExpr around e
  | .unary _ e => bindExpr around e
  | .binary l _ r => do
    bindExpr around l
    bindExpr around r
  | .logical l _ r => do
    bindExpr around l
    bindExpr around r
  | .variable ref => bindVariable around ref
  | .assign ref e => do
    bindExpr around e
    let _ ← bindLocal ref false 0
  | .call f _ es => do
    bindExpr around f
    bindExprs around es
  | .get e _ => bindExpr around e
  | .set e _ v => do
    bindExpr around v
    bindExpr around e
  | .this ref => do
    if around.cls = .none then complain ref.token .thisOutsideClass
    else
      let _ ← bindLocal ref true 0
  | .super ref _ => do
    if around.cls = .none then complain ref.token .superOutsideClass
    else
      complainIf (around.cls ≠ .subclass) ref.token .superWithoutSuperclass
      let _ ← bindLocal ref true 0
  | .function _ params body => do
    openScope
    bindParams params
    bindStmts { around with routine := .function } body
    closeScope

def bindExprs (around : Surroundings) : List (Expr Site) → Bind Unit
  | [] => return
  | e :: es => do
    bindExpr around e
    bindExprs around es

/-- Binds the references of a statement. -/
def bindStmt (around : Surroundings) : Stmt Site → Bind Unit
  | .missing => return
  | .expression e => bindExpr around e
  | .print e => bindExpr around e
  | .var name none => do
    declareName name
    defineName name
  | .var name (some e) => do
    declareName name
    bindExpr around e
    defineName name
  | .block body => do
    openScope
    bindStmts around body
    closeScope
  | .ifElse c t none => do
    bindExpr around c
    bindStmt around t
  | .ifElse c t (some e) => do
    bindExpr around c
    bindStmt around t
    bindStmt around e
  | .whileLoop c b => do
    bindExpr around c
    bindStmt around b
  | .ret keyword none => checkReturn around keyword false
  | .ret keyword (some e) => do
    checkReturn around keyword true
    bindExpr around e
  | .loopExit _ => return
  | .function r => do
    declareName r.name
    defineName r.name
    useName r.name
    bindRoutine around .function r
  | .classDecl name superclass mixins methods statics => do
    declareName name
    defineName name
    let inside := around.inClass superclass.isSome
    superclass.forM (bindParent inside name .inheritsItself)
    mixins.forM (bindParent inside name .mixesInItself)
    openClass superclass.isSome
    bindMethods inside methods
    bindStatics inside statics
    closeClass superclass.isSome

def bindStmts (around : Surroundings) : List (Stmt Site) → Bind Unit
  | [] => return
  | s :: ss => do
    bindStmt around s
    bindStmts around ss

/-- Binds the references of a routine, whose parameters and body share a scope. -/
def bindRoutine (around : Surroundings) (context : RoutineContext) : Routine Site → Bind Unit
  | ⟨name, params, body, getter⟩ => do
    checkGetter around (⟨name, params, body, getter⟩ : Routine Site)
    openScope
    bindParams params
    bindStmts { around with routine := context } body
    closeScope

/-- Binds the methods of a class. -/
def bindMethods (around : Surroundings) : List (Routine Site) → Bind Unit
  | [] => return
  | r :: rs => do
    bindRoutine around (← methodContext r) r
    bindMethods around rs

/-- Binds the static methods of a class; none of them is an initializer. -/
def bindStatics (around : Surroundings) : List (Routine Site) → Bind Unit
  | [] => return
  | r :: rs => do
    bindRoutine around .method r
    bindStatics around rs

end

/-- The surroundings of top-level code. -/
def Surroundings.top (isGlobal : String → Bool) : Surroundings := ⟨.none, .none, isGlobal⟩

/-- The walk at its beginning. -/
def Walk.start (distances : Distances) : Walk := ⟨[], [], [], distances, []⟩

/-- The walk over a program.  `isGlobal` tells the names that are global before it, and its
distances are added to those of a table. -/
def bindProgram (isGlobal : String → Bool) (distances : Distances) (program : List (Stmt Site)) :
    Walk :=
  ((bindStmts (.top isGlobal) program).run (.start distances)).2

/-- The complaints of a walk as they are reported. -/
def Walk.diagnostics (w : Walk) : List Diagnostic :=
  w.complaints.map fun (t, fault) => .onToken t (.binding fault)

end LoxLang
