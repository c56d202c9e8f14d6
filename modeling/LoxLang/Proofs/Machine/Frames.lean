/-
LoxLang.Proofs.Machine.Frames: frames at run time and scopes in the text.

The walk of the static rules and a run open scopes and frames in places of their own.  What links
them is stated here: an environment mirrors the scopes around a node if it has a frame for each of
them, which was made for the construct that opened the scope.

* `World`: the moments and the editions that the statements are about.
* `Mirrors`: the frames of an environment, one for each scope, down to the globals.
* `Frames`: such frames in a machine, with the names that they are known to have.
* `Ready`, `Value.Sound`: a closure whose environment mirrors the scopes around its routine, and
  values that lead to no other closures.
* `Class.Declared`: a class that came from a declaration, like all that it inherits from.
* `Member`, `Owner`: a member of a class, and the object that it was bound to.
* `Grows`: what never gets lost in a machine.

Main statements: `Mirrors.frameAt`, `Frames.push`, `Value.Sound.grow`.
-/
import LoxLang.Proofs.Binding.Enclosing
import LoxLang.Proofs.Machine.Moments

namespace LoxLang

/-! ## Worlds -/

/-- The moments of a history, and the programs that were bound in it. -/
structure World where
  turns : Nat
  passes : Moment → Prop
  editions : Edition → Prop
  /-- The tokens that may stand where the grammar asks for one of a kind. -/
  worded : Kind → Token → Prop

namespace World

/-- The words for the current object and for the superclass are not used as names. -/
structure Plain (W : World) : Prop where
  identifiers : ∀ t, W.worded .identifier t → t.lexeme ≠ thisName ∧ t.lexeme ≠ superName
  thisWord : ∀ t, W.worded .thisWord t → t.lexeme = thisName
  superWord : ∀ t, W.worded .superWord t → t.lexeme = superName

/-- Whatever a moment starts has its place in the history too, and every program was read from
tokens and has sites of its own. -/
structure Lawful (W : World) : Prop where
  starts : ∀ {M M' : Moment}, W.passes M → Starts W.turns M M' → W.passes M'
  distinct : ∀ {ed : Edition}, W.editions ed → ed.Distinct
  fresh : ∀ {ed : Edition}, W.editions ed → ed.Fresh
  formed : ∀ {ed : Edition}, W.editions ed → Stmt.FormedAll W.worded ed.program

/-- All programs were accepted. -/
structure Clean (W : World) : Prop where
  plain : W.Plain
  accepted : ∀ {ed : Edition}, W.editions ed → ed.Accepted

end World

/-! ## Mirrors -/

/-- The environment has a frame for each scope in the same order, made for the construct that opened
the scope; the frame of the globals stands at its end. -/
inductive Mirrors (passes : Moment → Prop) (table : Distances) : List Level → Environment → Prop
  | globals : Mirrors passes table [] Store.globalEnvironment
  | frame {M : Moment} {level : Level} {levels : List Level} {k : FrameId} {env : Environment}
      (passed : passes M) (opens : M.Opens (level.opener.map table.get?) k env)
      (above : ∀ j ∈ env, j < k) (outer : Mirrors passes table levels env) :
    Mirrors passes table (level :: levels) (k :: env)

namespace Mirrors

variable {passes : Moment → Prop} {table : Distances} {levels : List Level} {env : Environment}

theorem length (h : Mirrors passes table levels env) : env.length = levels.length + 1 := by
  induction h with
  | globals => rfl
  | frame _ _ _ _ ih => simp [ih]

/-- Every frame of an environment is a frame of its own. -/
theorem nodup (h : Mirrors passes table levels env) : env.Nodup := by
  induction h with
  | globals => exact List.nodup_cons.mpr ⟨List.not_mem_nil, List.nodup_nil⟩
  | frame _ _ above _ ih =>
    exact List.nodup_cons.mpr ⟨fun mem => Nat.lt_irrefl _ (above _ mem), ih⟩

/-- The frame that is so many links outwards was made for the scope that is so many scopes
outwards, inside the rest of the environment. -/
theorem frameAt (h : Mirrors passes table levels env) {d : Nat} {level : Level}
    (found : levels[d]? = some level) :
    ∃ k, ∃ M : Moment, env[d]? = some k ∧ passes M ∧
      M.Opens (level.opener.map table.get?) k (env.drop (d + 1)) := by
  induction h generalizing d with
  | globals => cases found
  | @frame M _ _ k _ passed opens _ _ ih =>
    cases d with
    | zero =>
      cases found
      exact ⟨k, M, rfl, passed, opens⟩
    | succ d => exact ih found

theorem mem_globals (h : Mirrors passes table levels env) : 0 ∈ env := by
  induction h with
  | globals => exact List.mem_singleton_self 0
  | frame _ _ _ _ ih => exact List.mem_cons_of_mem _ ih

/-- The frame of a scope is not that of the globals. -/
theorem ne_globals (h : Mirrors passes table levels env) {d : Nat} {level : Level}
    (found : levels[d]? = some level) : env[d]? ≠ some 0 := by
  induction h generalizing d with
  | globals => cases found
  | frame _ _ above outer ih =>
    cases d with
    | zero =>
      rintro ⟨⟩
      exact Nat.lt_irrefl 0 (above 0 outer.mem_globals)
    | succ d => exact ih found

theorem pend (h : Mirrors passes table levels env) (name : String) :
    Mirrors passes table (pend name levels) env := by
  cases h with
  | globals => exact .globals
  | frame passed opens above outer => exact .frame passed opens above outer

theorem exists_cons (h : Mirrors passes table levels env) : ∃ k outer, env = k :: outer := by
  cases h with
  | globals => exact ⟨_, _, rfl⟩
  | frame => exact ⟨_, _, rfl⟩

end Mirrors

/-! ## Growth -/

/-- What never gets lost in a machine: its frames, the names in them, the values of `this` and
`super`, and its objects. -/
structure Grows (W : World) (m m' : Machine) : Prop where
  size : m.store.frames.size ≤ m'.store.frames.size
  slots : ∀ k x, m.store.contains k x = true → m'.store.contains k x = true
  exact : W.Plain → ∀ k x v, x = thisName ∨ x = superName →
    m.store.slot? k x = some (.value v) → m'.store.slot? k x = some (.value v)
  objects : m.fields.size ≤ m'.fields.size

namespace Grows

variable {W : World} {m m' m'' : Machine}

theorem of_store (same : m'.store = m.store) (objects : m.fields.size ≤ m'.fields.size) :
    Grows W m m' where
  size := Nat.le_of_eq (by rw [same])
  slots k x h := by rwa [same]
  exact _ k x v _ h := by rwa [same]
  objects := objects

theorem refl (m : Machine) : Grows W m m := of_store rfl (Nat.le_refl _)

theorem trans (first : Grows W m m') (second : Grows W m' m'') : Grows W m m'' where
  size := Nat.le_trans first.size second.size
  slots k x h := second.slots k x (first.slots k x h)
  exact plain k x v word h := second.exact plain k x v word (first.exact plain k x v word h)
  objects := Nat.le_trans first.objects second.objects

end Grows

/-! ## Frames with names -/

/-- The variable is declared in an open scope, and the node stands in its initial value. -/
def Pends (levels : List Level) (d : Nat) (x : String) : Prop :=
  ∃ level : Level, levels[d]? = some level ∧ level.opener.IsOpen ∧ level.pending = some x

/-- An environment in a machine that mirrors scopes and has some names.  The frame for `super` holds
a class. -/
structure Frames (W : World) (table : Distances) (levels : List Level)
    (names : Nat → String → Prop) (env : Environment) (m : Machine) : Prop where
  mirrors : Mirrors W.passes table levels env
  alive : ∀ k ∈ env, k < m.store.frames.size
  filled : ∀ (d : Nat) k x, env[d]? = some k → names d x → m.store.contains k x = true
  supers : W.Plain → ∀ (d : Nat) (level : Level) k, levels[d]? = some level →
    level.opener = .parent → env[d]? = some k →
    ∃ c, m.store.slot? k superName = some (.value (.class c))

namespace Frames

variable {W : World} {table : Distances} {levels : List Level} {names names' : Nat → String → Prop}
  {env : Environment} {m m' : Machine}

theorem grow (h : Frames W table levels names env m) (grows : Grows W m m') :
    Frames W table levels names env m' where
  mirrors := h.mirrors
  alive k mem := Nat.lt_of_lt_of_le (h.alive k mem) grows.size
  filled d k x found has := grows.slots k x (h.filled d k x found has)
  supers plain d level k found parent at_d := by
    obtain ⟨c, slot⟩ := h.supers plain d level k found parent at_d
    exact ⟨c, grows.exact plain k superName _ (.inr rfl) slot⟩

theorem sub (h : Frames W table levels names env m) (le : ∀ d x, names' d x → names d x) :
    Frames W table levels names' env m :=
  ⟨h.mirrors, h.alive, fun d k x found has => h.filled d k x found (le d x has), h.supers⟩

theorem pend (h : Frames W table levels names env m) (name : String) :
    Frames W table (pend name levels) names env m where
  mirrors := h.mirrors.pend name
  alive := h.alive
  filled := h.filled
  supers plain d level k found parent at_d := by
    obtain ⟨level', found', same⟩ := opener_of_pend found
    exact h.supers plain d level' k found' (same.trans parent) at_d

/-- A new frame in front of an environment. -/
theorem push (h : Frames W table levels names env m) {M : Moment} {level : Level} {k : FrameId}
    (passed : W.passes M) (opens : M.Opens (level.opener.map table.get?) k env)
    (size : k = m.store.frames.size) (grows : Grows W m m') (alive : k < m'.store.frames.size)
    (filled : ∀ x, names' 0 x → m'.store.contains k x = true)
    (outer : ∀ d x, names' (d + 1) x → names d x)
    (supers : W.Plain → level.opener = .parent →
      ∃ c, m'.store.slot? k superName = some (.value (.class c))) :
    Frames W table (level :: levels) names' (k :: env) m' where
  mirrors := .frame passed opens (fun j mem => size ▸ h.alive j mem) h.mirrors
  alive j mem := by
    rcases List.mem_cons.mp mem with rfl | mem
    · exact alive
    · exact (h.grow grows).alive j mem
  filled d j x found has := by
    cases d with
    | zero =>
      cases found
      exact filled x has
    | succ d => exact (h.grow grows).filled d j x found (outer d x has)
  supers plain d level' j found parent at_d := by
    cases d with
    | zero =>
      cases found
      cases at_d
      exact supers plain parent
    | succ d => exact (h.grow grows).supers plain d level' j found parent at_d

end Frames

/-! ## Members of classes -/

/-- The environment of the members of a class that is made on a machine: if there is a superclass, a
new frame holds it. -/
def Machine.memberEnvironment (m : Machine) : Option Class → Environment
  | none => m.environment
  | some _ => m.store.frames.size :: m.environment

/-- The declaration of a class was executed as far as its members: the class that the superclass
expression yielded, if there is one, and the machine on which the closures of the members are
made. -/
inductive HeaderRead (passes : Moment → Prop) (ed : Edition) : Visit → Option Class → Machine → Prop
  | intro {around : Surroundings} {levels : List Level} {w : Walk} {name : Token}
      {sup : Option (Reference Site)} {mixins : List (Reference Site)}
      {methods statics : List (Routine Site)} {n : Nat} {m m₁ m₂ m₃ : Machine}
      {superclass : Option Class} {classes : List Class}
      (passed : passes ⟨.exec (n + 1)
        ((Stmt.classDecl name sup mixins methods statics).map ed.table.get?), m⟩)
      (run : readSuperclass (sup.map (·.map ed.table.get?)) m = (.ok superclass, m₁))
      (run₁ : readMixinClasses (mixins.map (·.map ed.table.get?)) m₁ = (.ok classes, m₂))
      (run₂ : declareHere name.lexeme m₂ = (.ok (), m₃)) :
    HeaderRead passes ed ⟨around, levels, .stmt (.classDecl name sup mixins methods statics), w⟩
      superclass m₃

/-- A member of a class, in the text and in a run. -/
structure Member where
  /-- The declaration of its class. -/
  declaration : Visit
  routine : Routine Site
  body : Visit
  /-- What the superclass expression of the class yielded. -/
  superclass : Option Class
  /-- The machine on which its closure was made. -/
  maker : Machine

/-- The closure was made for the member when the declaration of its class was executed. -/
structure Member.Made (member : Member) (passes : Moment → Prop) (ed : Edition) (f : Closure) :
    Prop where
  visits : ed.Visits member.declaration
  hosts : member.declaration.Hosts member.routine member.body
  header : HeaderRead passes ed member.declaration member.superclass member.maker
  name : f.name = some member.routine.name
  params : f.params = member.routine.params
  code : f.body = Stmt.mapAll ed.table.get? member.routine.body
  environment : f.environment = member.maker.memberEnvironment member.superclass

/-- The frame for `super` has the superclass. -/
def Member.Held (member : Member) (m : Machine) : Prop :=
  ∀ c, member.superclass = some c →
    m.store.slot? member.maker.store.frames.size superName = some (.value (.class c))

/-- A member that was bound to an object. -/
structure Owner extends Member where
  /-- The closure of the member, which lacks the frame for `this`. -/
  method : Closure
  self : Value
  /-- The machine on which it was bound. -/
  binder : Machine

/-- The node stands in the member, and the environment has the frame in which the member was bound
to its object: inside the frames of the class, and around those of the call of the member. -/
structure Owner.Owns (owner : Owner) (passes : Moment → Prop) (ed : Edition) (v : Visit)
    (env : Environment) : Prop where
  made : owner.Made passes ed owner.method
  within : owner.body.Within v
  bound : passes ⟨.bind owner.method owner.self, owner.binder⟩
  inside : owner.binder.store.frames.size :: owner.method.environment <:+ env
  height : owner.method.environment.length + 1 = owner.body.levels.length

/-- The frames for `this` and `super` have the object and the superclass. -/
structure Owner.Held (owner : Owner) (m : Machine) : Prop where
  object : m.store.slot? owner.binder.store.frames.size thisName = some (.value owner.self)
  parent : owner.toMember.Held m

/-- A node in a class stands in a member that was bound to an object. -/
def Owned (W : World) (ed : Edition) (v : Visit) (env : Environment) (m : Machine) : Prop :=
  v.around.cls ≠ .none →
    ∃ owner : Owner, owner.Owns W.passes ed v env ∧ (W.Plain → owner.Held m)

section Members

variable {W : World} {m m' : Machine} {ed : Edition} {v v' : Visit} {env : Environment}

theorem Member.Held.grow {member : Member} (h : member.Held m) (plain : W.Plain)
    (grows : Grows W m m') : member.Held m' :=
  fun c same => grows.exact plain _ _ _ (.inr rfl) (h c same)

theorem Owned.grow (h : Owned W ed v env m) (grows : Grows W m m') : Owned W ed v env m' := by
  intro cls
  obtain ⟨owner, owns, held⟩ := h cls
  refine ⟨owner, owns, fun plain => ⟨?_, (held plain).parent.grow plain grows⟩⟩
  exact grows.exact plain _ _ _ (.inl rfl) (held plain).object

/-- A part of a node is in the same class as the node, also in an environment further inside. -/
theorem Owned.enter {env' : Environment} (h : Owned W ed v env m)
    (same : v'.around.cls = v.around.cls) (inner : ∀ {body : Visit}, body.Within v → body.Within v')
    (further : env <:+ env') :
    Owned W ed v' env' m := by
  intro cls
  rw [same] at cls
  obtain ⟨owner, owns, held⟩ := h cls
  exact ⟨owner, ⟨owns.made, inner owns.within, owns.bound, owns.inside.trans further, owns.height⟩,
    held⟩

end Members

/-! ## Values -/

/-- A closure whose environment mirrors the scopes around its routine, apart from some inner ones
that are still to be opened.  A method lacks the scope for `this` until it is bound to an object. -/
inductive Ready (W : World) (m : Machine) (inner : List Level) (f : Closure) : Prop
  | intro {ed : Edition} {around : Surroundings} {outer : List Level} {context : RoutineContext}
      {body : List (Stmt Site)} {w : Walk} (edition : W.editions ed)
      (visits : ed.Visits (bodyVisit around (inner ++ outer) context f.params body w))
      (code : f.body = Stmt.mapAll ed.table.get? body)
      (frames : Frames W ed.table outer
        (fun d x => w.Declares (d + inner.length) x ∧ ¬ Pends outer d x) f.environment m)
      (getter : f.kind = .getter → f.params = [])
      (object : f.kind = .initializer →
        (inner ++ outer)[0]? = some ⟨.object, none⟩ ∧ around.cls ≠ .none)
      (made : inner = [⟨.object, none⟩] → ∃ member : Member, member.Made W.passes ed f ∧
        member.body = bodyVisit around (inner ++ outer) context f.params body w ∧
        (W.Plain → member.Held m))
      (owned : inner = [] →
        Owned W ed (bodyVisit around (inner ++ outer) context f.params body w) f.environment m)

/-- A method is ready once it is bound to an object. -/
abbrev ReadyMethod (W : World) (m : Machine) (f : Closure) : Prop :=
  Ready W m [⟨.object, none⟩] f

/-- The class was made when its declaration was executed, and so were all classes that it inherits
from. -/
inductive Class.Declared (passes : Moment → Prop) : Class → Prop
  | intro {n : Nat} {name : Token} {superclass : Option Class} {mixins : List Class}
      {methods statics : List (Routine Distance)} {m m' : Machine} {c : Class}
      (passed : passes ⟨.makeClass n name superclass mixins methods statics, m⟩)
      (run : makeClass n name superclass mixins methods statics m = (.ok c, m'))
      (parents : ∀ p, superclass = some p ∨ p ∈ mixins → Declared passes p) : Declared passes c

/-- A class that was declared before, whose methods are ready, and that has a metaclass. -/
structure Class.Ready (W : World) (m : Machine) (c : Class) : Prop where
  declared : c.Declared W.passes
  born : c.id < m.fields.size
  methods : ∀ name f, c.findMethod name = some f → ReadyMethod W m f
  statics : ∃ inner, c.metaclass = some inner ∧
    ∀ name f, inner.findMethod name = some f → ReadyMethod W m f

/-- Every closure that a value leads to is ready, and every object has its place in the machine. -/
def Value.Sound (W : World) (m : Machine) : Value → Prop
  | .function f => LoxLang.Ready W m [] f
  | .class c => c.Ready W m
  | .instance o => o.id < m.fields.size ∧ o.cls.Ready W m
  | _ => True

section Growth

variable {W : World} {m m' : Machine} (grows : Grows W m m')

include grows

theorem Ready.grow {inner : List Level} {f : Closure} (h : Ready W m inner f) :
    Ready W m' inner f := by
  obtain ⟨edition, visits, code, frames, getter, object, made, owned⟩ := h
  refine ⟨edition, visits, code, frames.grow grows, getter, object, fun unbound => ?_, fun bound =>
    (owned bound).grow grows⟩
  obtain ⟨member, made, body, held⟩ := made unbound
  exact ⟨member, made, body, fun plain => (held plain).grow plain grows⟩

theorem Class.Ready.grow {c : Class} (h : c.Ready W m) : c.Ready W m' where
  declared := h.declared
  born := Nat.lt_of_lt_of_le h.born grows.objects
  methods name f found := (h.methods name f found).grow grows
  statics := by
    obtain ⟨inner, cls, methods⟩ := h.statics
    exact ⟨inner, cls, fun name f found => (methods name f found).grow grows⟩

theorem Value.Sound.grow {v : Value} (h : v.Sound W m) : v.Sound W m' := by
  cases v with
  | function f => exact LoxLang.Ready.grow grows h
  | «class» c => exact Class.Ready.grow grows h
  | «instance» o => exact ⟨Nat.lt_of_lt_of_le h.1 grows.objects, Class.Ready.grow grows h.2⟩
  | _ => trivial

end Growth

end LoxLang
