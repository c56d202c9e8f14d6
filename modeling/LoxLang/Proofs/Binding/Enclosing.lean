/-
LoxLang.Proofs.Binding.Enclosing: the innermost class around a node.

The walk comes to a node in a class through the body of a member of that class.  From there it goes
into blocks and routines, which have scopes of their own, but not into the members of another class.
So the scopes between the node and the scope for `this` are those of blocks and routines, and none
of them declares `this` or `super`.

* `Visit.Hosts`: from the declaration of a class to the body of a member.
* `Visit.Within`: a node in a body, and in no class inside of it.

Main statements: `Within.levels`, the scopes around such a node, and `Sound.locate_this` and
`Sound.locate_super`, the distances of `this` and `super` there.
-/
import LoxLang.Proofs.Binding.Levels

namespace LoxLang

/-! ## Members -/

/-- The superclass of a class declaration. -/
def Item.superclass? : Item → Option (Reference Site)
  | stmt (.classDecl _ superclass _ _ _) => superclass
  | _ => none

/-- The methods and static methods of a class declaration. -/
def Item.members : Item → List (Routine Site)
  | stmt (.classDecl _ _ _ methods statics) => methods ++ statics
  | _ => []

namespace Visit

/-- The walk comes from the declaration of a class to the body of one of its members. -/
structure Hosts (declaration : Visit) (r : Routine Site) (body : Visit) : Prop where
  enters : declaration.Enters body
  member : r ∈ declaration.item.members
  code : body.item = .stmts r.body
  levels : body.levels = ⟨.routine r.params r.body, none⟩ ::
    classLevels declaration.item.superclass?.isSome declaration.levels
  cls : body.around.cls = if declaration.item.superclass?.isSome then .subclass else .plain

/-- The node is in the body, and in no class inside of it: the walk comes there without going into
the members of another class. -/
def Within : Visit → Visit → Prop :=
  Relation.ReflTransGen fun v v' => v.Enters v' ∧ ∀ r, ¬ v.Hosts r v'

variable {v v' body declaration : Visit} {r : Routine Site}

/-- A member has more scopes around it than the declaration of its class. -/
theorem Hosts.lt_length (h : declaration.Hosts r body) :
    declaration.levels.length < body.levels.length := by
  rw [h.levels, classLevels]
  split
  · simp only [List.length_cons]
    omega
  · simp only [List.length_cons]
    omega

/-- A part in the same scopes is in the same class. -/
theorem Within.part (h : body.Within v) (enters : v.Enters v') (same : v'.levels = v.levels) :
    body.Within v' := by
  refine h.tail ⟨enters, fun r hosts => ?_⟩
  have more := hosts.lt_length
  rw [same] at more
  exact Nat.lt_irrefl _ more

/-- What stands in anything but a class declaration is in the same class. -/
theorem Within.enter (h : body.Within v) (enters : v.Enters v') (none : v.item.members = []) :
    body.Within v' := by
  refine h.tail ⟨enters, fun r hosts => ?_⟩
  have member := hosts.member
  rw [none] at member
  cases member

/-! ## Scopes between a node and its class -/

/-- What one step of the walk does to the scopes: it goes to a member of a class, stays where it is,
or opens the scope of a block or a routine. -/
theorem Enters.levels (enters : v.Enters v') :
    (∃ r, v.Hosts r v') ∨ v'.around.cls = v.around.cls ∧
      (v'.levels = v.levels ∨ (∃ name, v'.levels = pend name v.levels) ∨
        ∃ opener : Opener Site, opener.IsOpen ∧ v'.levels = ⟨opener, none⟩ :: v.levels) := by
  cases enters with
  | @method _ _ _ _ _ _ _ m params body getter _ _ =>
    exact .inl ⟨⟨m, params, body, getter⟩, .method, by simp [Item.members], rfl, rfl, rfl⟩
  | @static _ _ _ _ _ _ _ _ m params body getter _ =>
    exact .inl ⟨⟨m, params, body, getter⟩, .static, by simp [Item.members], rfl, rfl, rfl⟩
  | initial => exact .inr ⟨rfl, .inr (.inl ⟨_, rfl⟩)⟩
  | @block _ _ _ body => exact .inr ⟨rfl, .inr (.inr ⟨.block body, trivial, rfl⟩)⟩
  | @anonymous _ _ _ _ params body =>
    exact .inr ⟨rfl, .inr (.inr ⟨.routine params body, trivial, rfl⟩)⟩
  | @function _ _ _ _ params body _ =>
    exact .inr ⟨rfl, .inr (.inr ⟨.routine params body, trivial, rfl⟩)⟩
  | _ => exact .inr ⟨rfl, .inl rfl⟩

/-- Between a node and the scope around the member that it is in there are blocks and routines
only. -/
theorem Within.levels (h : body.Within v) {level : Level} {outer : List Level}
    (levels : body.levels = level :: outer) (isOpen : level.opener.IsOpen) :
    v.around.cls = body.around.cls ∧ ∃ first between,
      v.levels = first :: between ++ outer ∧ ∀ l ∈ first :: between, l.opener.IsOpen := by
  induction h with
  | refl => exact ⟨rfl, level, [], levels, by simpa using isOpen⟩
  | tail _ step ih =>
    obtain ⟨cls, first, between, before, opens⟩ := ih
    obtain ⟨enters, inner⟩ := step
    rcases enters.levels with
      ⟨r, hosts⟩ | ⟨sameClass, same | ⟨name, pends⟩ | ⟨opener, isOpen, pushed⟩⟩
    · exact absurd hosts (inner r)
    · exact ⟨sameClass.trans cls, first, between, same.trans before, opens⟩
    · refine ⟨sameClass.trans cls, { first with pending := some name }, between, ?_, ?_⟩
      · rw [pends, before]
        rfl
      · rw [List.forall_mem_cons] at opens ⊢
        exact opens
    · refine ⟨sameClass.trans cls, ⟨opener, none⟩, first :: between, ?_, ?_⟩
      · rw [pushed, before]
        rfl
      · rw [List.forall_mem_cons]
        exact ⟨isOpen, opens⟩

end Visit

/-! ## Distances -/

/-- The distance of a name is that of the first scope that declares it. -/
theorem locate_eq_some {w : Walk} {x : String} {d : Nat} (declares : w.Declares d x)
    (first : ∀ i < d, ¬ w.Declares i x) : locate w.scopes x 0 = some d := by
  obtain ⟨scope, at_d, has⟩ := declares
  obtain ⟨inside, same⟩ := List.getElem?_eq_some_iff.mp at_d
  have found : (w.scopes.drop 0).findIdx? (·.contains x) = some d := by
    rw [List.drop_zero, List.findIdx?_eq_some_iff_getElem]
    refine ⟨inside, same ▸ has, fun i before hit => ?_⟩
    exact first i before ⟨_, List.getElem?_eq_getElem (Nat.lt_trans before inside), hit⟩
  rw [locate, found]
  rfl

namespace Visit.Sound

variable {T : Kind → Token → Prop} {v : Visit} {between outer : List Level}

/-- Blocks and routines have no scope for `this` or `super`. -/
theorem not_declares (h : v.Sound T)
    (plain : ∀ t, T .identifier t → t.lexeme ≠ thisName ∧ t.lexeme ≠ superName)
    (levels : v.levels = between ++ outer) (opens : ∀ l ∈ between, l.opener.IsOpen) {i : Nat}
    (inside : i < between.length) {x : String} (word : x = thisName ∨ x = superName) :
    ¬ v.walk.Declares i x := by
  intro declares
  have at_i : v.levels[i]? = some between[i] := by
    rw [levels, List.getElem?_append_left inside, List.getElem?_eq_getElem inside]
  have fits := h.enclosed.fit.fits i _ at_i
  have isOpen := opens _ (List.getElem_mem inside)
  have named : Named T x := by
    revert fits isOpen
    cases between[i].opener with
    | object => exact fun _ no => no.elim
    | parent => exact fun _ no => no.elim
    | block _ => exact fun fits _ => fits x declares
    | routine _ _ => exact fun fits _ => fits x declares
  obtain ⟨t, identifier, rfl⟩ := named
  obtain ⟨notThis, notSuper⟩ := plain t identifier
  exact word.elim notThis notSuper

/-- `this` is as far away as there are blocks and routines around the node in its class. -/
theorem locate_this (h : v.Sound T)
    (plain : ∀ t, T .identifier t → t.lexeme ≠ thisName ∧ t.lexeme ≠ superName)
    (levels : v.levels = between ++ ⟨.object, none⟩ :: outer)
    (opens : ∀ l ∈ between, l.opener.IsOpen) :
    locate v.walk.scopes thisName 0 = some between.length := by
  have object := h.enclosed.fit.fits between.length ⟨.object, none⟩ (by simp [levels])
  exact locate_eq_some ((object thisName).mpr rfl)
    fun i inside => h.not_declares plain levels opens inside (.inl rfl)

/-- `super` is one scope outside of `this`. -/
theorem locate_super (h : v.Sound T)
    (plain : ∀ t, T .identifier t → t.lexeme ≠ thisName ∧ t.lexeme ≠ superName)
    (levels : v.levels = between ++ ⟨.object, none⟩ :: ⟨.parent, none⟩ :: outer)
    (opens : ∀ l ∈ between, l.opener.IsOpen) :
    locate v.walk.scopes superName 0 = some (between.length + 1) := by
  have object := h.enclosed.fit.fits between.length ⟨.object, none⟩ (by simp [levels])
  have parent := h.enclosed.fit.fits (between.length + 1) ⟨.parent, none⟩ (by simp [levels])
  refine locate_eq_some ((parent superName).mpr rfl) fun i before declares => ?_
  rcases Nat.lt_succ_iff_lt_or_eq.mp before with inside | rfl
  · exact h.not_declares plain levels opens inside (.inr rfl) declares
  · exact absurd ((object superName).mp declares) (by decide)

end Visit.Sound

end LoxLang
