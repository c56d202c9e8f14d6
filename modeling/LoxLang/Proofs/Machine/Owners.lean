/-
LoxLang.Proofs.Machine.Owners: the objects that `this` and `super` mean.

A node in a class stands in a member that was bound to an object, and its environment ends in the
frame of that binding, with the frames of the class behind it.  In front of that frame there is one
frame for each block and routine between the node and its class, and no other.  So the distances
that were recorded for `this` and `super` lead to the frame of the binding and to the one behind it.

* `Lends`: what gives an object to the method that it binds.

Main statements: `Stands.readThis` and `Stands.readParent`, for nodes in accepted programs, and
`Moment.Sound.boundSelf`, for initializers.
-/
import LoxLang.Proofs.Machine.Reached

namespace LoxLang

variable {W : World} {m m' : Machine} {ed : Edition} {v : Visit} {around : Surroundings}
  {levels : List Level} {w : Walk} {env : Environment} {owner : Owner}

/-! ## Where the object comes from -/

/-- The moment binds a method to an object: to the receiver of a property access, to an instance
that it makes, or to the object of the method that it stands in, for an access through `super`. -/
inductive Lends (turns : Nat) : Moment → Value → Prop
  | receiver {n : Nat} {e : Expr Distance} {name : Token} {m m₁ : Machine} {self : Value}
      (run : eval turns n e m = (.ok self, m₁)) :
    Lends turns ⟨.eval (n + 1) (.get e name), m⟩ self
  | created {n : Nat} {f : Expr Distance} {paren : Token} {es : List (Expr Distance)}
      {m m₁ m₂ m₃ : Machine} {c : Class} {vs : List Value} {o : ObjectId}
      (run : eval turns n f m = (.ok (.class c), m₁))
      (run₁ : evalAll (eval turns n) es m₁ = (.ok vs, m₂)) (run₂ : newObject m₂ = (.ok o, m₃)) :
    Lends turns ⟨.eval (n + 1) (.call f paren es), m⟩ (.instance ⟨o, c⟩)
  | current {n : Nat} {ref : Reference Distance} {name : Token} {m : Machine} {d : Nat}
      {self : Value} (mark : ref.mark = some d)
      (object : m.store.readAt m.environment (d - 1) thisName (some ref.token) = .ok self) :
    Lends turns ⟨.eval (n + 1) (.super ref name), m⟩ self

/-- Whatever binds a method has an object for it. -/
theorem Starts.lends {turns : Nat} {M : Moment} {method : Closure} {self : Value}
    (starts : Starts turns M ⟨.bind method self, m⟩) : Lends turns M self := by
  cases starts with
  | bindInit run run₁ _ _ run₂ => exact .created run run₁ run₂
  | method run _ _ _ _ => exact .receiver run
  | superMethod mark _ object _ => exact .current mark object

/-! ## Frames of a class -/

theorem HeaderRead.isSome_eq {passes : Moment → Prop} {declaration : Visit}
    {superclass : Option Class} (h : HeaderRead passes ed declaration superclass m) :
    superclass.isSome = declaration.item.superclass?.isSome := by
  obtain @⟨around, levels, w, name, sup, mixins, methods, statics, n, m, m₁, m₂, m₃, superclass,
    classes, passed, run, run₁, run₂⟩ := h
  show superclass.isSome = sup.isSome
  cases sup with
  | none =>
    cases run
    rfl
  | some ref =>
    rw [Option.map_some, readSuperclass, map_eq_pure_bind] at run
    obtain ⟨c, m', _, run⟩ := run_bind_ok_iff.mp run
    cases run
    rfl

namespace Owner.Owns

variable {passes : Moment → Prop}

/-- Only blocks and routines stand between a node and the scopes of its class, and their frames are
in front of the frame in which the member was bound. -/
theorem between (h : owner.Owns passes ed v env) (length : env.length = v.levels.length + 1) :
    ∃ between, v.levels =
        between ++ classLevels owner.superclass.isSome owner.declaration.levels ∧
      (∀ l ∈ between, l.opener.IsOpen) ∧
      env.drop between.length =
        owner.binder.store.frames.size :: owner.method.environment := by
  have same := h.made.header.isSome_eq
  obtain ⟨_, first, rest, around, opens⟩ := h.within.levels h.made.hosts.levels trivial
  obtain ⟨front, split⟩ := h.inside
  refine ⟨first :: rest, ?_, opens, ?_⟩
  · rw [same]
    exact around
  · have height := h.height
    rw [h.made.hosts.levels, List.length_cons] at height
    rw [around, ← split, List.length_append, List.length_append, List.length_cons] at length
    have front_length : front.length = (first :: rest).length := by omega
    rw [← split, ← front_length, List.drop_left]

/-- A node is in a class with a superclass if the declaration of the class that it stands in has a
superclass. -/
theorem cls (h : owner.Owns passes ed v env) :
    v.around.cls = if owner.superclass.isSome then .subclass else .plain := by
  obtain ⟨same, _⟩ := h.within.levels h.made.hosts.levels trivial
  rw [same, h.made.hosts.cls, h.made.header.isSome_eq]

end Owner.Owns

/-! ## Reading the frames -/

theorem readAt_of_slot {k : FrameId} {d : Nat} {x : String} {a : Value} (found : env[d]? = some k)
    (slot : m.store.slot? k x = some (.value a)) (token : Option Token) :
    m.store.readAt env d x token = .ok a := by
  simp [Store.readAt_eq, Store.ancestor, found, slot, bind, Except.bind]

namespace Stands

/-- The owner of a node in a class of an accepted program: the first frame with `this` is that of
the binding, and its superclass is one frame behind. -/
theorem exists_owner (lawful : W.Lawful) (plain : W.Plain) (h : Stands W m ed v)
    (inside : v.around.cls ≠ .none) :
    ∃ (owner : Owner) (d : Nat), owner.Owns W.passes ed v m.environment ∧
      locate v.walk.scopes thisName 0 = some d ∧
      (∀ token, m.store.readAt m.environment d thisName token = .ok owner.self) ∧
      (v.around.cls = .subclass → locate v.walk.scopes superName 0 = some (d + 1) ∧
        ∃ c, owner.superclass = some c ∧
          ∀ token, m.store.readAt m.environment (d + 1) superName token = .ok (.class c)) := by
  obtain ⟨owner, owns, held⟩ := h.owned inside
  obtain ⟨object, parent⟩ := held plain
  have sound := h.sound lawful
  obtain ⟨between, around, opens, frames⟩ := owns.between h.frames.mirrors.length
  have at_d : m.environment[between.length]? = some owner.binder.store.frames.size := by
    rw [← Nat.add_zero between.length, ← List.getElem?_drop, frames]
    rfl
  refine ⟨owner, between.length, owns, sound.locate_this plain.identifiers around opens,
    readAt_of_slot at_d object, fun subclass => ?_⟩
  have cls := owns.cls
  cases superclass : owner.superclass with
  | none =>
    rw [superclass, subclass] at cls
    cases cls
  | some c =>
    rw [superclass] at around
    have environment := owns.made.environment
    rw [superclass] at environment
    have behind : m.environment[between.length + 1]? = some owner.maker.store.frames.size := by
      rw [← List.getElem?_drop, frames, environment]
      rfl
    exact ⟨sound.locate_super plain.identifiers around opens, c, rfl,
      readAt_of_slot behind (parent c superclass)⟩

/-- `this` yields the object to which the member around it was bound. -/
theorem readThis {ref : Reference Site} (lawful : W.Lawful) (clean : W.Clean)
    (h : Stands W m ed ⟨around, levels, .expr (.this ref), w⟩) :
    ∃ owner : Owner, owner.Owns W.passes ed ⟨around, levels, .expr (.this ref), w⟩ m.environment ∧
      (LoxLang.readRef (ref.map ed.table.get?) m : Except Failure Value × Machine) =
        (.ok owner.self, m) := by
  have plain := clean.plain
  have word : ref.name = thisName := plain.thisWord _ (h.sound lawful).formed
  obtain ⟨inside, recorded⟩ :=
    h.visits.this_located (lawful.distinct h.edition) (clean.accepted h.edition)
  obtain ⟨owner, d, owns, located, reads, _⟩ := h.exists_owner lawful plain inside
  refine ⟨owner, owns, ?_⟩
  have mark : (ref.map ed.table.get?).mark = some d := recorded d (by rw [word]; exact located)
  have name : (ref.map ed.table.get?).name = thisName := word
  rw [run_readRef_some mark, name, reads]
  rfl

/-- The frames that `super` reads have the class that the superclass expression of the class around
it yielded, and the object to which the member around it was bound. -/
theorem superFrames {ref : Reference Site} {name : Token} (lawful : W.Lawful) (clean : W.Clean)
    (h : Stands W m ed ⟨around, levels, .expr (.super ref name), w⟩) :
    ∃ (owner : Owner) (c : Class) (d : Nat),
      owner.Owns W.passes ed ⟨around, levels, .expr (.super ref name), w⟩ m.environment ∧
      owner.superclass = some c ∧ (ref.map ed.table.get?).mark = some d ∧
      m.store.readAt m.environment d superName (some ref.token) = .ok (.class c) ∧
      m.store.readAt m.environment (d - 1) thisName (some ref.token) = .ok owner.self := by
  have plain := clean.plain
  have word : ref.name = superName := plain.superWord _ (h.sound lawful).formed
  obtain ⟨subclass, recorded⟩ :=
    h.visits.super_located (lawful.distinct h.edition) (clean.accepted h.edition)
  have inside : around.cls ≠ .none := by
    rw [subclass]
    exact fun no => nomatch no
  obtain ⟨owner, d, owns, _, readsThis, behind⟩ := h.exists_owner lawful plain inside
  obtain ⟨located, c, superclass, readsSuper⟩ := behind subclass
  have mark : (ref.map ed.table.get?).mark = some (d + 1) :=
    recorded (d + 1) (by rw [word]; exact located)
  exact ⟨owner, c, d + 1, owns, superclass, mark, readsSuper _, readsThis _⟩

/-- `super` searches the class that the superclass expression of the class around it yielded, and
binds what it finds to the object to which the member around it was bound. -/
theorem readParent {ref : Reference Site} {name : Token} (lawful : W.Lawful) (clean : W.Clean)
    (h : Stands W m ed ⟨around, levels, .expr (.super ref name), w⟩) :
    ∃ (owner : Owner) (c : Class),
      owner.Owns W.passes ed ⟨around, levels, .expr (.super ref name), w⟩ m.environment ∧
      owner.superclass = some c ∧
      (∀ found, c.findMethod name.lexeme = some found → ∃ f m',
        bindMethod found owner.self m = (.ok f, m') ∧
          LoxLang.readSuper (ref.map ed.table.get?) name m = (.ok (.function f), m')) ∧
      (c.findMethod name.lexeme = none →
        LoxLang.readSuper (ref.map ed.table.get?) name m =
          (.error (.runtime (some name) (.undefinedProperty name.lexeme)), m)) := by
  obtain ⟨owner, c, d, owns, superclass, mark, readsSuper, readsThis⟩ := h.superFrames lawful clean
  have run := run_readSuper mark readsSuper readsThis name
  refine ⟨owner, c, owns, superclass, fun found method => ?_, fun none => ?_⟩
  · rw [run, method]
    exact ⟨_, _, rfl, rfl⟩
  · rw [run, none]
    rfl

end Stands

/-! ## Initializers -/

/-- A bound member whose body the walk comes to has the frame of its binding in front. -/
theorem Owner.Owns.environment {context : RoutineContext} {params : List Token}
    {body : List (Stmt Site)} {outer : List Level} {passes : Moment → Prop}
    (h : owner.Owns passes ed
      (bodyVisit around (⟨.object, none⟩ :: outer) context params body w) env)
    (length : env.length = outer.length + 2) :
    env = owner.binder.store.frames.size :: owner.method.environment := by
  -- The frame of the call is still to come; any frame may stand for it.
  have called : owner.Owns passes ed
      (bodyVisit around (⟨.object, none⟩ :: outer) context params body w) (0 :: env) :=
    ⟨h.made, h.within, h.bound, h.inside.trans (List.suffix_cons _ _), h.height⟩
  obtain ⟨between, levels, opens, frames⟩ := called.between (by simp [bodyVisit, length])
  rcases between with _ | ⟨first, _ | ⟨second, more⟩⟩
  · cases levels
  · exact frames
  · cases levels
    exact (opens ⟨.object, none⟩ (by simp)).elim

/-- The object that an initializer yields is the one to which it was bound. -/
theorem Ready.boundSelf {f : Closure} (plain : W.Plain) (ready : Ready W m [] f)
    (kind : f.kind = .initializer) :
    ∃ (ed : Edition) (owner : Owner), W.editions ed ∧ owner.Made W.passes ed owner.method ∧
      W.passes ⟨.bind owner.method owner.self, owner.binder⟩ ∧
      f.environment = owner.binder.store.frames.size :: owner.method.environment ∧
      (callClosure.boundObject f m : Except Failure Value × Machine) = (.ok owner.self, m) := by
  obtain @⟨ed, around, outer, context, body, w, edition, _, _, frames, _, object, _, owned⟩ := ready
  obtain ⟨first, inside⟩ := object kind
  cases outer with
  | nil => cases first
  | cons level outer =>
    cases first
    obtain ⟨owner, owns, held⟩ := owned rfl inside
    have environment := owns.environment frames.mirrors.length
    refine ⟨ed, owner, edition, owns.made, owns.bound, environment, ?_⟩
    have found : f.environment[0]? = some owner.binder.store.frames.size := by
      rw [environment]
      rfl
    show (orFail (m.store.readAt f.environment 0 thisName none) m :
      Except Failure Value × Machine) = _
    rw [readAt_of_slot found (held plain).object]
    rfl

/-- However the body of an initializer ends, its object is still in the frame in front. -/
theorem Moment.Sound.boundSelf {n : Nat} {f : Closure} {arguments : List Value} {m₁ m₂ : Machine}
    {completion : Completion} (lawful : W.Lawful) (plain : W.Plain)
    (sound : Moment.Sound W ⟨.call n f arguments, m⟩) (kind : f.kind = .initializer)
    (opening : openCall f arguments m = (.ok env, m₁))
    (body : runAll (exec W.turns n) f.body (m₁.within env) = (.ok completion, m₂))
    (saved : Environment) :
    ∃ self method binder, W.passes ⟨.bind method self, binder⟩ ∧
      f.environment = binder.store.frames.size :: method.environment ∧
      (callClosure.boundObject f (m₂.within saved) : Except Failure Value × Machine) =
        (.ok self, m₂.within saved) := by
  obtain ⟨ready, length, values⟩ := sound.placed
  have opened := (ends_openCall lawful sound.good ready length values).ok opening
  have inside := (keeps_runAll lawful (keeps lawful n).2 (sound_body lawful sound opening)).ok body
  have entered : Grows W m₁ (m₁.within env) := .of_store rfl (Nat.le_refl _)
  have left : Grows W m₂ (m₂.within saved) := .of_store rfl (Nat.le_refl _)
  have grows := ((opened.1.grows.trans entered).trans inside.1.grows).trans left
  obtain ⟨_, owner, _, _, bound, environment, object⟩ := (ready.grow grows).boundSelf plain kind
  exact ⟨owner.self, owner.method, owner.binder, bound, environment, object⟩

end LoxLang
