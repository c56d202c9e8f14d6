/-
LoxLang.Proofs.Binding.Levels: the scopes of the walk at every visit.

A visit carries the constructs that opened the scopes around its node.  At every visit there is one
scope for each of them, in the same order; the scopes of a class have `this` and `super` and nothing
else, and all other scopes have names that are written in the program.

* `Opener.Fits`, `LevelsFit`: the names of the scopes suit what opened them.
* `Visit.Sound`: what holds at every visit.

Main statement: `Edition.Visits.sound`.
-/
import LoxLang.Proofs.Binding.Visits

namespace LoxLang

variable {T : Kind → Token → Prop}

/-- A name that is written where the grammar asks for an identifier. -/
def Named (T : Kind → Token → Prop) (x : String) : Prop := ∃ t, T .identifier t ∧ t.lexeme = x

/-- What a well-formed statement introduces stands on a token that may stand there. -/
theorem named_introduces {ρ : Type} : ∀ {s : Stmt ρ}, s.Formed T → ∀ x ∈ s.introduces, Named T x
  | .var name none, h, _, mem => ⟨name, h, (List.mem_singleton.mp mem).symm⟩
  | .var name (some _), h, _, mem => ⟨name, h.1, (List.mem_singleton.mp mem).symm⟩
  | .function ⟨name, _, _, _⟩, h, _, mem => ⟨name, h.1, (List.mem_singleton.mp mem).symm⟩
  | .classDecl name _ _ _ _, h, _, mem => ⟨name, h.1, (List.mem_singleton.mp mem).symm⟩
  | .ifElse _ _ none, h, _, mem => named_introduces h.2.1 _ mem
  | .ifElse _ _ (some _), h, _, mem =>
    (List.mem_append.mp mem).elim (named_introduces h.2.1.1 _) (named_introduces h.2.2.1 _)
  | .whileLoop _ _, h, _, mem => named_introduces h.2.1 _ mem

/-! ## Levels and scopes -/

/-- The names of a scope suit what opened it. -/
def Opener.Fits {ρ : Type} (T : Kind → Token → Prop) (names : String → Prop) : Opener ρ → Prop
  | .object => ∀ x, names x ↔ x = thisName
  | .parent => ∀ x, names x ↔ x = superName
  | _ => ∀ x, names x → Named T x

/-- A scope that declarations can go into. -/
def Opener.IsOpen {ρ : Type} : Opener ρ → Prop
  | .object => False
  | .parent => False
  | _ => True

/-- There is one scope for each level, in the same order. -/
structure LevelsFit (T : Kind → Token → Prop) (levels : List Level) (w : Walk) : Prop where
  height : w.scopes.length = levels.length
  fits : ∀ d (level : Level), levels[d]? = some level → level.opener.Fits T (w.Declares d)

namespace LevelsFit

variable {levels : List Level} {w w' : Walk}

/-- Declarations go into the innermost scope. -/
theorem step (h : LevelsFit T levels w) {sites : List Site} {names : List String}
    (step : Walk.Step sites names w w') (named : ∀ x ∈ names, Named T x)
    (head : ∀ level : Level, levels[0]? = some level → level.opener.IsOpen) :
    LevelsFit T levels w' where
  height := step.height.trans h.height
  fits d level found := by
    have before := h.fits d level found
    cases d with
    | zero =>
      have isOpen := head level found
      revert before isOpen
      cases level.opener with
      | object => exact fun _ isOpen => isOpen.elim
      | parent => exact fun _ isOpen => isOpen.elim
      | block _ =>
        intro before _ x has
        rcases (step.declares 0 x).mp has with has | ⟨_, _, mem⟩
        · exact before x has
        · exact named x mem
      | routine _ _ =>
        intro before _ x has
        rcases (step.declares 0 x).mp has with has | ⟨_, _, mem⟩
        · exact before x has
        · exact named x mem
    | succ d =>
      have same : w'.Declares (d + 1) = w.Declares (d + 1) := by
        funext x
        rw [step.declares]
        simp
      rwa [same]

/-- A step that declares nothing. -/
theorem quiet (h : LevelsFit T levels w) {sites : List Site} (step : Walk.Step sites [] w w') :
    LevelsFit T levels w' where
  height := step.height.trans h.height
  fits d level found := by
    have same : w'.Declares d = w.Declares d := by
      funext x
      rw [step.declares]
      simp
    rw [same]
    exact h.fits d level found

/-- One more scope. -/
theorem push (h : LevelsFit T levels w) {level : Level}
    (height : w'.scopes.length = w.scopes.length + 1) (inner : level.opener.Fits T (w'.Declares 0))
    (outer : ∀ d x, w'.Declares (d + 1) x ↔ w.Declares d x) : LevelsFit T (level :: levels) w' where
  height := by rw [height, h.height, List.length_cons]
  fits d level' found := by
    cases d with
    | zero =>
      cases found
      exact inner
    | succ d =>
      have same : w'.Declares (d + 1) = w.Declares d := funext fun x => propext (outer d x)
      rw [same]
      exact h.fits d level' found

/-- That a name is pending changes nothing of what the levels declare. -/
theorem pend (h : LevelsFit T levels w) (name : String) : LevelsFit T (pend name levels) w := by
  cases levels with
  | nil => exact h
  | cons level levels =>
    refine ⟨h.height, fun d level' found => ?_⟩
    cases d with
    | zero =>
      cases found
      exact h.fits 0 level rfl
    | succ d => exact h.fits (d + 1) level' found

end LevelsFit

/-- The scope for `super` is just outside the scope for `this`. -/
def Nested (levels : List Level) : Prop :=
  ∀ d (level : Level), levels[d]? = some level → level.opener = .parent →
    ∃ i, ∃ inner : Level, d = i + 1 ∧ levels[i]? = some inner ∧ inner.opener = .object

/-- A level that is not for `super` may be opened anywhere. -/
theorem Nested.push {levels : List Level} (h : Nested levels) {level : Level}
    (isOpen : level.opener ≠ .parent) : Nested (level :: levels) := by
  intro d level' found parent
  cases d with
  | zero =>
    cases found
    exact absurd parent isOpen
  | succ d =>
    obtain ⟨i, inner, rfl, at_i, object⟩ := h d level' found parent
    exact ⟨i + 1, inner, rfl, at_i, object⟩

/-- The level for `super` is opened right around the one for `this`. -/
theorem Nested.class {levels : List Level} (h : Nested levels) (hasSuperclass : Bool) :
    Nested (classLevels hasSuperclass levels) := by
  cases hasSuperclass with
  | false => exact h.push (by simp)
  | true =>
    intro d level found parent
    match d with
    | 0 => cases found; cases parent
    | 1 => exact ⟨0, ⟨.object, none⟩, rfl, rfl, rfl⟩
    | d + 2 =>
      obtain ⟨i, inner, rfl, at_i, object⟩ := h d level found parent
      exact ⟨i + 2, inner, rfl, at_i, object⟩

/-- A pending name does not change what opened a level. -/
theorem opener_pend {levels : List Level} (name : String) {d : Nat} {level : Level}
    (found : levels[d]? = some level) :
    ∃ level', (pend name levels)[d]? = some level' ∧ level'.opener = level.opener := by
  cases levels with
  | nil => cases found
  | cons first levels =>
    cases d with
    | zero => cases found; exact ⟨_, rfl, rfl⟩
    | succ d => exact ⟨level, found, rfl⟩

theorem opener_of_pend {levels : List Level} {name : String} {d : Nat} {level : Level}
    (found : (pend name levels)[d]? = some level) :
    ∃ level', levels[d]? = some level' ∧ level'.opener = level.opener := by
  cases levels with
  | nil => cases found
  | cons first levels =>
    cases d with
    | zero => cases found; exact ⟨_, rfl, rfl⟩
    | succ d => exact ⟨level, found, rfl⟩

theorem Nested.pend {levels : List Level} (h : Nested levels) (name : String) :
    Nested (pend name levels) := by
  intro d level found parent
  obtain ⟨level', found', same⟩ := opener_of_pend found
  obtain ⟨i, inner, rfl, at_i, object⟩ := h d level' found' (same.trans parent)
  obtain ⟨inner', at_i', same'⟩ := opener_pend name at_i
  exact ⟨i, inner', rfl, at_i', same'.trans object⟩

/-! ## Visits -/

/-- The form of an item. -/
def Item.Formed (T : Kind → Token → Prop) : Item → Prop
  | expr e => e.Formed T
  | stmt s => s.Formed T
  | stmts ss => Stmt.FormedAll T ss
  | header _ _ ref => T .identifier ref.token

/-- A statement stands behind all initial values of its scope. -/
def Item.IsStatement : Item → Prop
  | expr _ => False
  | _ => True

/-- What holds of the scopes around a node. -/
structure Enclosed (T : Kind → Token → Prop) (around : Surroundings) (levels : List Level)
    (w : Walk) : Prop where
  fit : LevelsFit T levels w
  nested : Nested levels
  subclass : around.cls = .subclass →
    ∃ d : Nat, ∃ level : Level, levels[d]? = some level ∧ level.opener = .parent

/-- What holds at every visit. -/
structure Visit.Sound (T : Kind → Token → Prop) (v : Visit) : Prop where
  enclosed : Enclosed T v.around v.levels v.walk
  head : ∀ level : Level, v.levels[0]? = some level → level.opener.IsOpen
  settled : v.item.IsStatement → ∀ level : Level, v.levels[0]? = some level → level.pending = none
  formed : v.item.Formed T

namespace Enclosed

variable {around : Surroundings} {levels : List Level} {w w' : Walk}

/-- A stretch that introduces nothing leaves the levels as they are. -/
theorem quiet (h : Enclosed T around levels w) {sites : List Site}
    (step : Walk.Step sites [] w w') : Enclosed T around levels w' :=
  ⟨h.fit.quiet step, h.nested, h.subclass⟩

/-- In the body of a class. -/
theorem inClass (h : Enclosed T around levels w) (hasSuperclass : Bool) :
    Enclosed T (around.inClass hasSuperclass) (classLevels hasSuperclass levels)
      (w.after (openClass hasSuperclass)) where
  fit := by
    have one : ∀ {w : Walk} {levels : List Level} (name : String) (opener : Opener Site),
        LevelsFit T levels w →
        (∀ names : String → Prop, (∀ x, names x ↔ x = name) → opener.Fits T names) →
        LevelsFit T (⟨opener, none⟩ :: levels) (w.opened.after (declareImplicit name)) := by
      intro w levels name opener fit fits
      have step := step_declareImplicit name w.opened
      refine fit.push (step.height.trans rfl) (fits _ fun x => ?_) fun d x => ?_
      · have nonempty : w.opened.scopes ≠ [] := List.cons_ne_nil _ _
        rw [step.declares]
        simp [w.not_declares_opened_zero x, nonempty]
      · rw [step.declares, Walk.declares_opened_succ]
        simp
    cases hasSuperclass with
    | false => exact one thisName .object h.fit fun _ same => same
    | true =>
      exact one thisName .object (one superName .parent h.fit fun _ same => same)
        fun _ same => same
  nested := h.nested.class hasSuperclass
  subclass cls := by
    cases hasSuperclass with
    | false => cases cls
    | true => exact ⟨1, ⟨.parent, none⟩, rfl, rfl⟩

/-- In the body of a routine or a block, in a scope of its own. -/
theorem body (h : Enclosed T around levels w) (context : RoutineContext) (params : List Token)
    (named : ∀ p ∈ params, T .identifier p) {body : List (Stmt Site)} {opener : Opener Site}
    (isOpen : opener.IsOpen) (formed : Stmt.FormedAll T body) :
    Visit.Sound T ⟨{ around with routine := context }, ⟨opener, none⟩ :: levels, .stmts body,
      w.opened.after (bindParams params)⟩ where
  enclosed := by
    have step := step_bindParams params w.opened
    have names : ∀ x, (w.opened.after (bindParams params)).Declares 0 x → Named T x := by
      intro x has
      rcases (step.declares 0 x).mp has with has | ⟨_, _, mem⟩
      · exact absurd has (w.not_declares_opened_zero x)
      · obtain ⟨p, mem, same⟩ := List.mem_map.mp mem
        exact ⟨p, named p mem, same⟩
    refine ⟨h.fit.push (step.height.trans rfl) ?_ fun d x => ?_, h.nested.push ?_, fun cls => ?_⟩
    · revert isOpen
      cases opener with
      | object => exact False.elim
      | parent => exact False.elim
      | block _ => exact fun _ => names
      | routine _ _ => exact fun _ => names
    · rw [step.declares, Walk.declares_opened_succ]
      simp
    · intro same
      have same : opener = .parent := same
      rw [same] at isOpen
      exact isOpen
    · obtain ⟨d, level, found, parent⟩ := h.subclass cls
      exact ⟨d + 1, level, found, parent⟩
  head level found := by
    cases found
    exact isOpen
  settled _ level found := by
    cases found
    rfl
  formed := formed

end Enclosed

namespace Visit.Sound

variable {around : Surroundings} {levels : List Level} {item item' : Item} {w w' : Walk}

/-- Behind a step in the same scopes. -/
theorem behind (h : Visit.Sound T ⟨around, levels, item, w⟩) {sites : List Site}
    {names : List String} (step : Walk.Step sites names w w') (named : ∀ x ∈ names, Named T x) :
    Enclosed T around levels w' :=
  ⟨h.enclosed.fit.step step named h.head, h.enclosed.nested, h.enclosed.subclass⟩

/-- To a part in the same scopes. -/
theorem part (h : Visit.Sound T ⟨around, levels, item, w⟩) {sites : List Site} {names : List String}
    (step : Walk.Step sites names w w') (named : ∀ x ∈ names, Named T x)
    (statement : item'.IsStatement → item.IsStatement) (formed : item'.Formed T) :
    Visit.Sound T ⟨around, levels, item', w'⟩ :=
  ⟨h.behind step named, h.head, fun isStatement => h.settled (statement isStatement), formed⟩

/-- In the header of a class, and behind it. -/
theorem header (h : Visit.Sound T ⟨around, levels, item, w⟩) {name : Token}
    (named : T .identifier name) (superclass : Option (Reference Site))
    (mixins : List (Reference Site)) :
    Enclosed T around levels (headerWalk around name superclass mixins w) := by
  have introduced := h.behind ((step_declareName name w).trans (step_defineName name _))
    fun x mem => ⟨name, named, (List.mem_singleton.mp mem).symm⟩
  exact (introduced.quiet (step_superclass around name superclass _)).quiet
    (step_bindParents around name .mixesInItself mixins _)

end Visit.Sound

/-- An operand of a well-formed expression is well-formed. -/
theorem Expr.Formed.operand {e e' : Expr Site} (h : e.Formed T) (mem : e' ∈ e.operands) :
    e'.Formed T := by
  cases e <;> grind [Expr.operands, Expr.Formed, Expr.formedAll_iff]

/-- So is the expression of a well-formed statement. -/
theorem Stmt.Formed.operand {s : Stmt Site} {e : Expr Site} (h : s.Formed T)
    (part : s.operand? = some e) : e.Formed T := by
  cases s with
  | ifElse c t f =>
    cases part
    cases f with
    | none => exact h.1
    | some f => exact h.1
  | ret _ value => cases part; exact h
  | expression _ => cases part; exact h
  | print _ => cases part; exact h
  | whileLoop _ _ => cases part; exact h.1
  | _ => cases part

/-- From every visit to the next. -/
theorem Visit.Enters.sound {v v' : Visit} (enters : v.Enters v') (h : v.Sound T) : v'.Sound T := by
  cases enters with
  | @operand around levels e w before e' behind parts =>
    refine h.part (step_bindExprs around before w) (by simp) (fun statement => statement)
      (h.formed.operand ?_)
    rw [parts]
    simp
  | @anonymous around levels w keyword params body =>
    exact h.enclosed.body .function params h.formed.1 trivial h.formed.2
  | @first around levels w s ss =>
    exact h.part (.refl w) (by simp) (fun _ => trivial) h.formed.1
  | @rest around levels w s ss =>
    exact h.part (step_bindStmt around s w) (named_introduces h.formed.1) (fun _ => trivial)
      h.formed.2
  | @value around levels w s e part =>
    have step : Walk.Step [] [] w (w.after (bindPreface around s)) := by
      cases s with
      | ret keyword value => exact step_checkReturn around keyword value.isSome w
      | _ => exact .refl w
    exact h.part step (by simp) (fun _ => trivial) (h.formed.operand part)
  | @initial around levels w name e =>
    have behind := h.behind (step_declareName name w)
      fun x mem => ⟨name, h.formed.1, (List.mem_singleton.mp mem).symm⟩
    refine ⟨⟨behind.fit.pend _, behind.nested.pend _, fun cls => ?_⟩, fun level found => ?_,
      fun no => no.elim, h.formed.2⟩
    · obtain ⟨d, level, found, parent⟩ := behind.subclass cls
      obtain ⟨level', found', same⟩ := opener_pend name.lexeme found
      exact ⟨d, level', found', same.trans parent⟩
    · obtain ⟨level', found', same⟩ := opener_of_pend found
      rw [← same]
      exact h.head level' found'
  | @block around levels w body =>
    exact h.enclosed.body around.routine [] (by simp) trivial h.formed
  | @thenBranch around levels w c t e =>
    have formed : t.Formed T := by
      cases e with
      | none => exact h.formed.2.1
      | some e => exact h.formed.2.1.1
    exact h.part (step_bindExpr around c w) (by simp) (fun _ => trivial) formed
  | @elseBranch around levels w c t e =>
    have step := (step_bindExpr around c w).trans (step_bindStmt around t _)
    exact h.part step (named_introduces h.formed.2.1.1) (fun _ => trivial) h.formed.2.2.1
  | @loopBody around levels w c b =>
    exact h.part (step_bindExpr around c w) (by simp) (fun _ => trivial) h.formed.2.1
  | @function around levels w name params body getter =>
    have introduced := h.behind
      (((step_declareName name w).trans (step_defineName name _)).trans (step_useName name _))
      fun x mem => ⟨name, h.formed.1, (List.mem_singleton.mp mem).symm⟩
    exact (introduced.quiet (step_checkGetter around _ _)).body .function params h.formed.2.1
      trivial
      h.formed.2.2.2
  | @superclass around levels w name ref mixins methods statics =>
    exact h.part ((step_declareName name w).trans (step_defineName name _))
      (fun x mem => ⟨name, h.formed.1, (List.mem_singleton.mp mem).symm⟩) (fun _ => trivial)
      (h.formed.2.1 ref rfl)
  | @mixin around levels w name superclass before ref behind methods statics =>
    exact ⟨h.header h.formed.1 superclass before, h.head, fun _ => h.settled trivial,
      h.formed.2.2.1 ref (by simp)⟩
  | @method around levels w name superclass mixins before m params body getter behind statics =>
    have formed := Routine.formedAll_iff.mp h.formed.2.2.2.1 ⟨m, params, body, getter⟩ (by simp)
    have reached := ((h.header h.formed.1 superclass mixins).inClass superclass.isSome).quiet
      (step_bindMethods (around.inClass superclass.isSome) before _)
    exact ((reached.quiet (step_methodContext _ _)).quiet (step_checkGetter _ _ _)).body _
      params formed.2.1 trivial formed.2.2.2
  | @static around levels w name superclass mixins methods before m params body getter behind =>
    have formed := Routine.formedAll_iff.mp h.formed.2.2.2.2 ⟨m, params, body, getter⟩ (by simp)
    have reached := (((h.header h.formed.1 superclass mixins).inClass superclass.isSome).quiet
      (step_bindMethods (around.inClass superclass.isSome) methods _)).quiet
        (step_bindStatics (around.inClass superclass.isSome) before _)
    exact (reached.quiet (step_checkGetter _ _ _)).body _ params formed.2.1 trivial formed.2.2.2

/-- What holds at every visit of a program that was read. -/
theorem Edition.Visits.sound {ed : Edition} (formed : Stmt.FormedAll T ed.program) {v : Visit}
    (visits : ed.Visits v) : v.Sound T := by
  induction visits with
  | refl =>
    refine ⟨⟨⟨rfl, fun d level found => ?_⟩, fun d level found => ?_, fun cls => ?_⟩,
      fun level found => ?_, fun _ level found => ?_, formed⟩
    · cases found
    · cases found
    · cases cls
    · cases found
    · cases found
  | tail _ enters ih => exact enters.sound ih

/-! ## References -/

/-- The reference that is bound at an item, if there is one. -/
def Item.ref? : Item → Option (Reference Site)
  | expr (.variable ref) => some ref
  | expr (.assign ref _) => some ref
  | expr (.this ref) => some ref
  | expr (.super ref _) => some ref
  | header _ _ ref => some ref
  | _ => none

/-- The scope in which a name is found declares it. -/
theorem declares_of_locate {w : Walk} {name : String} {skip d : Nat}
    (located : locate w.scopes name skip = some d) : w.Declares d name := by
  obtain ⟨i, found, rfl⟩ := Option.map_eq_some_iff.mp located
  obtain ⟨h, hit, _⟩ := List.findIdx?_eq_some_iff_getElem.mp found
  refine ⟨(w.scopes.drop skip)[i], ?_, hit⟩
  rw [List.getElem_drop, Nat.add_comm i skip]
  exact List.getElem?_eq_getElem _

/-- A name that some scope declares is found in some scope. -/
theorem exists_locate {w : Walk} {name : String} {d : Nat} (declares : w.Declares d name) :
    ∃ k, locate w.scopes name 0 = some k := by
  obtain ⟨scope, found, hit⟩ := declares
  unfold locate
  cases searched : (w.scopes.drop 0).findIdx? (·.contains name) with
  | some k => exact ⟨k + 0, rfl⟩
  | none =>
    have absent := List.findIdx?_eq_none_iff.mp searched scope (List.mem_of_getElem? found)
    exact absurd hit (by simp [absent])

/-- So the scope that a recorded distance leads to declares the name. -/
theorem declares_of_bindLocal {w : Walk} {ref : Reference Site} {read : Bool} {skip d : Nat}
    (before : w.distances.get? ref.mark = none)
    (recorded : (w.after (bindLocal ref read skip)).distances.get? ref.mark = some d) :
    w.Declares d ref.name := by
  unfold Walk.after at recorded
  rw [run_bindLocal] at recorded
  cases located : locate w.scopes ref.name skip with
  | none =>
    rw [located] at recorded
    exact absurd (before.symm.trans recorded) (by simp)
  | some k =>
    rw [located] at recorded
    have same := (Distances.get?_record_self w.distances ref.mark k).symm.trans recorded
    cases same
    exact declares_of_locate located

theorem after_complainIf_distances (wrong : Bool) (t : Token) (fault : BindingFault) (w : Walk) :
    (w.after (complainIf wrong t fault)).distances = w.distances := by
  cases wrong <;> rfl

/-- And so it is for a variable, whether its own scope is passed over or not. -/
theorem declares_of_bindVariable {around : Surroundings} {w : Walk} {ref : Reference Site} {d : Nat}
    (before : w.distances.get? ref.mark = none)
    (recorded : (w.after (bindVariable around ref)).distances.get? ref.mark = some d) :
    w.Declares d ref.name := by
  rw [after_bindVariable] at recorded
  split at recorded
  · rw [after_complainIf_distances] at recorded
    exact absurd (before.symm.trans recorded) (by simp)
  · split at recorded
    · rw [Walk.after_bind, after_complainIf_distances] at recorded
      exact declares_of_bindLocal before recorded
    · exact declares_of_bindLocal before recorded

/-- The reference that an item looks up is at one of its sites. -/
theorem Item.mem_sites_of_ref {item : Item} {ref : Reference Site} (h : item.ref? = some ref) :
    ref.mark ∈ item.sites := by
  cases item with
  | header => cases h; simp [Item.sites]
  | stmt => cases h
  | stmts => cases h
  | expr e => cases e <;> cases h <;> simp [Item.sites, Expr.references]

/-- So it is for the target of an assignment, which is recorded behind the value. -/
theorem declares_of_assign {around : Surroundings} {w : Walk} {ref : Reference Site} {e : Expr Site}
    {d : Nat} (nodup : (ref.mark :: sitesOf e.references).Nodup)
    (before : w.distances.get? ref.mark = none)
    (recorded : (w.after (bindExpr around (.assign ref e))).distances.get? ref.mark = some d) :
    w.Declares d ref.name := by
  have step := step_bindExpr around e w
  have apart : ref.mark ∉ sitesOf e.references := (List.nodup_cons.mp nodup).1
  have later := declares_of_bindLocal ((step.distances _ apart).trans before) recorded
  exact ((step.declares d ref.name).mp later).resolve_right (by simp)

/-- So it is for `this`. -/
theorem declares_of_this {around : Surroundings} {w : Walk} {ref : Reference Site} {d : Nat}
    (before : w.distances.get? ref.mark = none)
    (recorded : (w.after (bindExpr around (.this ref))).distances.get? ref.mark = some d) :
    w.Declares d ref.name := by
  rw [bindExpr] at recorded
  split at recorded
  · exact absurd (before.symm.trans recorded) (by simp)
  · exact declares_of_bindLocal before recorded

/-- And so it is for `super`. -/
theorem declares_of_super {around : Surroundings} {w : Walk} {ref : Reference Site} (method : Token)
    {d : Nat} (before : w.distances.get? ref.mark = none)
    (recorded : (w.after (bindExpr around (.super ref method))).distances.get? ref.mark = some d) :
    w.Declares d ref.name := by
  rw [bindExpr] at recorded
  split at recorded
  · exact absurd (before.symm.trans recorded) (by simp)
  · rw [Walk.after_bind] at recorded
    have step := step_complainIf (decide (around.cls ≠ .subclass)) ref.token
      .superWithoutSuperclass w
    have later := declares_of_bindLocal ((step.distances _ (by simp)).trans before) recorded
    exact ((step.declares d ref.name).mp later).resolve_right (by simp)

/-- A reference is bound in a scope that declares its name when the walk comes to it. -/
theorem Edition.Visits.declares {ed : Edition} {v : Visit} (visits : ed.Visits v)
    (distinct : ed.Distinct) (fresh : ed.Fresh) {ref : Reference Site}
    (item : v.item.ref? = some ref) {d : Nat} (recorded : ed.table.get? ref.mark = some d) :
    v.walk.Declares d ref.name := by
  have mem := Item.mem_sites_of_ref item
  have before := visits.unrecorded distinct fresh mem
  have nodup := visits.nodup distinct
  rw [visits.recorded distinct mem] at recorded
  obtain ⟨around, levels, item', w⟩ := v
  cases item' with
  | stmt => cases item
  | stmts => cases item
  | header cls fault ref' =>
    cases item
    have checked := step_complainIf (decide (ref.name = cls.lexeme)) ref.token fault w
    have unrecorded := (checked.distances _ (by simp)).trans before
    have later := declares_of_bindVariable unrecorded recorded
    exact ((checked.declares d ref.name).mp later).resolve_right (by simp)
  | expr e =>
    cases e <;> cases item
    · exact declares_of_bindVariable before recorded
    · exact declares_of_assign nodup before recorded
    · exact declares_of_this before recorded
    · rename_i method
      exact declares_of_super method before recorded

/-! ## Programs without complaints -/

/-- Nothing was complained about. -/
def Edition.Accepted (ed : Edition) : Prop := ed.walked.complaints = []

/-- In an accepted program no part is complained about. -/
theorem Edition.Visits.accepted {ed : Edition} {v : Visit} (visits : ed.Visits v)
    (accepted : ed.Accepted) : v.after.complaints = [] := by
  have stays := visits.complaints
  rw [accepted] at stays
  exact List.prefix_nil.mp stays

/-- A class that was accepted is not its own parent. -/
theorem Edition.Visits.header_ne {ed : Edition} {around : Surroundings} {levels : List Level}
    {cls : Token} {fault : BindingFault} {ref : Reference Site} {w : Walk}
    (visits : ed.Visits ⟨around, levels, .header cls fault ref, w⟩) (accepted : ed.Accepted) :
    ref.name ≠ cls.lexeme := by
  intro same
  have none := visits.accepted accepted
  have later := (step_bindVariable around ref
    (w.after (complainIf (decide (ref.name = cls.lexeme)) ref.token fault))).complaints
  rw [decide_eq_true same] at later
  have none' : ((w.after (complainIf true ref.token fault)).after
      (bindVariable around ref)).complaints = [] := by
    rw [← decide_eq_true same]
    exact none
  rw [none', List.prefix_nil] at later
  exact List.append_ne_nil_of_right_ne_nil _ (List.cons_ne_nil _ _) later

/-- A name that is found records its distance. -/
theorem distances_of_locate {w : Walk} {ref : Reference Site} {d : Nat}
    (located : locate w.scopes ref.name 0 = some d) :
    (w.after (bindLocal ref true 0)).distances.get? ref.mark = some d := by
  unfold Walk.after
  rw [run_bindLocal, located]
  exact Distances.get?_record_self w.distances ref.mark d

/-- `this` in a program that was accepted stands in a class, and has the distance of the first scope
that declares it. -/
theorem Edition.Visits.this_located {ed : Edition} {around : Surroundings} {levels : List Level}
    {ref : Reference Site} {w : Walk} (visits : ed.Visits ⟨around, levels, .expr (.this ref), w⟩)
    (distinct : ed.Distinct) (accepted : ed.Accepted) :
    around.cls ≠ .none ∧
      ∀ d, locate w.scopes ref.name 0 = some d → ed.table.get? ref.mark = some d := by
  have none := visits.accepted accepted
  have inside : around.cls ≠ .none := by
    intro outside
    unfold Visit.after at none
    simp only [Item.bind, bindExpr, if_pos outside] at none
    exact absurd none (List.append_ne_nil_of_right_ne_nil _ (List.cons_ne_nil _ _))
  refine ⟨inside, fun d located => ?_⟩
  rw [visits.recorded distinct (by simp [Item.sites, Expr.references])]
  unfold Visit.after
  simp only [Item.bind, bindExpr, if_neg inside]
  exact distances_of_locate located

/-- `super` in a program that was accepted stands in a class with a superclass, and has the distance
of the first scope that declares it. -/
theorem Edition.Visits.super_located {ed : Edition} {around : Surroundings} {levels : List Level}
    {ref : Reference Site} {method : Token} {w : Walk}
    (visits : ed.Visits ⟨around, levels, .expr (.super ref method), w⟩) (distinct : ed.Distinct)
    (accepted : ed.Accepted) :
    around.cls = .subclass ∧
      ∀ d, locate w.scopes ref.name 0 = some d → ed.table.get? ref.mark = some d := by
  have none := visits.accepted accepted
  rw [visits.recorded distinct (by simp [Item.sites, Expr.references])]
  unfold Visit.after at none ⊢
  simp only [Item.bind, bindExpr] at none ⊢
  split at none
  · exact absurd none (List.append_ne_nil_of_right_ne_nil _ (List.cons_ne_nil _ _))
  · rename_i inside
    have subclass : around.cls = .subclass := by
      by_cases cls : around.cls = .subclass
      · exact cls
      · rw [Walk.after_bind, decide_eq_true cls] at none
        have later := (step_bindLocal ref true 0
          (w.after (complainIf true ref.token .superWithoutSuperclass))).complaints
        have none' : ((w.after (complainIf true ref.token .superWithoutSuperclass)).after
          (bindLocal ref true 0)).complaints = [] := none
        rw [none', List.prefix_nil] at later
        exact absurd later (List.append_ne_nil_of_right_ne_nil _ (List.cons_ne_nil _ _))
    refine ⟨subclass, fun d located => ?_⟩
    have same : w.after (complainIf (decide (around.cls ≠ .subclass)) ref.token
        .superWithoutSuperclass) = w := by
      simp [subclass, complainIf]
    rw [if_neg inside, Walk.after_bind, same]
    exact distances_of_locate located

/-- `super` in a program that was accepted has a distance. -/
theorem Edition.Visits.super_recorded {ed : Edition} {around : Surroundings} {levels : List Level}
    {ref : Reference Site} {method : Token} {w : Walk}
    (visits : ed.Visits ⟨around, levels, .expr (.super ref method), w⟩) (distinct : ed.Distinct)
    (sound : Visit.Sound T ⟨around, levels, .expr (.super ref method), w⟩)
    (accepted : ed.Accepted) (word : ref.name = superName) :
    ∃ d, ed.table.get? ref.mark = some d := by
  obtain ⟨subclass, recorded⟩ := visits.super_located distinct accepted
  obtain ⟨d, level, found, parent⟩ := sound.enclosed.subclass subclass
  have fits := sound.enclosed.fit.fits d level found
  rw [parent] at fits
  obtain ⟨k, located⟩ := exists_locate ((fits ref.name).mpr word)
  exact ⟨k, recorded k located⟩

end LoxLang
