/-
LoxLang.Proofs.Machine.Metaclasses: static methods are inherited as methods are.

A metaclass is made together with its class, and its parents are the metaclasses that the parents of
the class have at that time.  A parent without a metaclass would be left out without notice.  No
class that was declared lacks one, so the order of a metaclass is that of its class, one metaclass
for each class.

* `Class.ownStatic`: a static method that a class declares itself.
* `Routine.Makes`, `Covers`: the closures in a table of methods, and the routines that they were
  made for.
* `Class.Declares`: a class, and the methods in the text of its declaration.

Main statements: `Class.findMethod_eq`, `Class.Declared.mirror` and `Class.IsMirrored.findMethod`.
-/
import LoxLang.Proofs.Machine.Frames

namespace LoxLang

/-! ## The order of a class -/

namespace Class

/-- The static method that the class itself declares under a name. -/
def ownStatic (c : Class) (name : String) : Option Closure :=
  c.metaclass.bind fun inner => inner.ownMethod name

theorem orderOf_eq (cs : List Class) : orderOf cs = cs.flatMap order := by
  induction cs with
  | nil => rfl
  | cons c cs ih => rw [orderOf, ih, List.flatMap_cons]

/-- A class, the order of its superclass, and the orders of its mixins. -/
theorem order_eq (c : Class) :
    c.order = c :: ((c.superclass.map order).getD [] ++ c.mixins.flatMap order) := by
  rcases c with ⟨id, name, _ | superclass, mixins, methods, inner⟩ <;>
    simp [order, orderOf_eq]

mutual

/-- The method that is found is that of the first class in the order that declares one. -/
theorem findMethod_eq (name : String) : ∀ c : Class,
    c.findMethod name = c.order.findSome? (·.ownMethod name)
  | ⟨_, _, none, mixins, _, _⟩ => by
    simp only [findMethod, order, List.findSome?_cons, ownMethod, findMethodIn_eq name mixins]
    cases entryOf? _ name <;> rfl
  | ⟨_, _, some superclass, mixins, _, _⟩ => by
    simp only [findMethod, order, List.findSome?_cons, List.findSome?_append, ownMethod,
      findMethod_eq name superclass, findMethodIn_eq name mixins]
    cases entryOf? _ name <;> rfl

theorem findMethodIn_eq (name : String) : ∀ cs : List Class,
    findMethodIn name cs = (orderOf cs).findSome? (·.ownMethod name)
  | [] => rfl
  | c :: cs => by
    rw [findMethodIn, orderOf, List.findSome?_append, findMethod_eq name c, findMethodIn_eq name cs]

end

end Class

/-! ## The tables of a class -/

/-- The closure was made for the routine. -/
structure Routine.Makes (r : Routine Distance) (kind : ClosureKind) (f : Closure) : Prop where
  name : f.name = some r.name
  params : f.params = r.params
  body : f.body = r.body
  kind : f.kind = kind

/-- The last routine of a name. -/
def lastCalled (name : String) (rs : List (Routine Distance)) : Option (Routine Distance) :=
  rs.reverse.find? (·.name.lexeme == name)

/-- The table has one closure for each name that a routine has, made for the last of them. -/
def Covers (kind : Routine Distance → ClosureKind) (rs : List (Routine Distance))
    (table : List (String × Closure)) : Prop :=
  ∀ name,
    (∀ r, lastCalled name rs = some r → ∃ f, entryOf? table name = some f ∧ r.Makes (kind r) f) ∧
      (lastCalled name rs = none → entryOf? table name = none)

/-- The class has a metaclass, which has none itself, and each class in the order of the class has
its metaclass at the same place in the order of the metaclass. -/
def Class.IsMirrored (c : Class) : Prop :=
  ∃ inner, c.metaclass = some inner ∧ inner.metaclass = none ∧
    inner.order.map some = c.order.map Class.metaclass

/-- What the declaration of a class has made of its methods and its static methods. -/
structure Class.Declares (c : Class) (methods statics : List (Routine Distance)) : Prop where
  methods : Covers methodKind methods c.methods
  statics : ∃ inner, c.metaclass = some inner ∧ Covers staticKind statics inner.methods
  /-- No closure is both a method and a static method. -/
  apart : ∀ x y f g, c.ownMethod x = some f → c.ownStatic y = some g → f.id ≠ g.id

section Tables

variable {kind : Routine Distance → ClosureKind} {env : Environment} {m m' : Machine}
  {table table' : List (String × Closure)}

theorem lastCalled_cons (name : String) (r : Routine Distance) (rs : List (Routine Distance)) :
    lastCalled name (r :: rs) =
      (lastCalled name rs).or (if r.name.lexeme = name then some r else none) := by
  simp [lastCalled, List.find?_append, List.find?_singleton]

/-- The closures of some routines take the next numbers. -/
theorem run_newMethods : ∀ {rs : List (Routine Distance)} {table : List (String × Closure)}
    {m : Machine},
    (newMethods kind env rs table m : Except Failure _ × Machine) = (.ok table', m') →
    m.nextClosure ≤ m'.nextClosure ∧ ∀ name,
      (∀ r, lastCalled name rs = some r → ∃ f, entryOf? table' name = some f ∧ r.Makes (kind r) f ∧
        m.nextClosure ≤ f.id ∧ f.id < m'.nextClosure) ∧
      (lastCalled name rs = none → entryOf? table' name = entryOf? table name)
  | [], table, m, run => by
    cases run
    exact ⟨Nat.le_refl _, fun name => ⟨fun r no => (nomatch no), fun _ => rfl⟩⟩
  | r :: rs, table, m, run => by
    let f : Closure := ⟨m.nextClosure, some r.name, r.params, r.body, env, kind r⟩
    have rest : (newMethods kind env rs (putEntry r.name.lexeme f table)
        { m with nextClosure := m.nextClosure + 1 } : Except Failure _ × Machine) =
          (.ok table', m') :=
      run
    obtain ⟨counted, entries⟩ := run_newMethods rest
    have next : m.nextClosure < m'.nextClosure := counted
    refine ⟨Nat.le_of_lt next, fun name => ?_⟩
    obtain ⟨found, missing⟩ := entries name
    rw [lastCalled_cons]
    cases later : lastCalled name rs with
    | some r' =>
      obtain ⟨f', entry, makes, low, high⟩ := found r' later
      refine ⟨fun r'' same => ?_, fun no => (nomatch no)⟩
      cases same
      exact ⟨f', entry, makes, Nat.le_of_succ_le low, high⟩
    | none =>
      have entry := missing later
      by_cases same : r.name.lexeme = name
      · subst same
        rw [entryOf?_putEntry_self] at entry
        refine ⟨fun r' is => ?_, fun no => ?_⟩
        · simp at is
          subst is
          exact ⟨f, entry, ⟨rfl, rfl, rfl, rfl⟩, Nat.le_refl _, next⟩
        · simp at no
      · rw [entryOf?_putEntry_of_ne (Ne.symm same)] at entry
        simp [same, entry]

theorem covers_newMethods {rs : List (Routine Distance)}
    (run : (newMethods kind env rs [] m : Except Failure _ × Machine) = (.ok table', m')) :
    Covers kind rs table' := fun name => by
  obtain ⟨found, missing⟩ := (run_newMethods run).2 name
  refine ⟨fun r last => ?_, fun no => (missing no).trans rfl⟩
  obtain ⟨f, entry, makes, _⟩ := found r last
  exact ⟨f, entry, makes⟩

/-- The numbers of the closures in a table that was made on an empty one. -/
theorem id_newMethods {rs : List (Routine Distance)} {name : String} {f : Closure}
    (run : (newMethods kind env rs [] m : Except Failure _ × Machine) = (.ok table', m'))
    (entry : entryOf? table' name = some f) : m.nextClosure ≤ f.id ∧ f.id < m'.nextClosure := by
  obtain ⟨found, missing⟩ := (run_newMethods run).2 name
  cases last : lastCalled name rs with
  | none =>
    rw [missing last] at entry
    cases entry
  | some r =>
    obtain ⟨f', entry', _, low, high⟩ := found r last
    cases entry.symm.trans entry'
    exact ⟨low, high⟩

/-- What is made of a class declaration whose parents are known. -/
theorem run_makeClass {left : Nat} {name : Token} {superclass : Option Class}
    {mixins : List Class} {methods statics : List (Routine Distance)} {c : Class}
    (run : makeClass left name superclass mixins methods statics m = (.ok c, m')) :
    c.superclass = superclass ∧ c.mixins = mixins ∧ c.Declares methods statics ∧
      ∃ inner, c.metaclass = some inner ∧ inner.superclass = superclass.bind Class.metaclass ∧
        inner.mixins = mixins.filterMap Class.metaclass ∧ inner.metaclass = none := by
  rw [makeClass_eq] at run
  obtain ⟨env, _, _, run⟩ := run_bind_ok_iff.mp run
  obtain ⟨_, m₁, _, run⟩ := run_bind_ok_iff.mp run
  obtain ⟨own, m₂, run₁, run⟩ := run_bind_ok_iff.mp run
  obtain ⟨inner, m₃, run₂, run⟩ := run_bind_ok_iff.mp run
  cases run
  refine ⟨rfl, rfl, ⟨covers_newMethods run₁, ⟨_, rfl, covers_newMethods run₂⟩, ?_⟩,
    _, rfl, rfl, rfl,
    rfl⟩
  intro x y f g method static
  have below := (id_newMethods run₁ method).2
  have above := (id_newMethods run₂ static).1
  exact Nat.ne_of_lt (Nat.lt_of_lt_of_le below above)

end Tables

/-! ## Mirrored parents -/

section Mirrored

variable {c : Class}

theorem mirrored_superclass {superclass : Option Class}
    (parents : ∀ p, superclass = some p → p.IsMirrored) :
    (((superclass.bind Class.metaclass).map Class.order).getD []).map some =
      ((superclass.map Class.order).getD []).map Class.metaclass := by
  cases superclass with
  | none => rfl
  | some p =>
    obtain ⟨inner, isMeta, -, orders⟩ := parents p rfl
    simpa [isMeta] using orders

theorem mirrored_mixins {mixins : List Class} (parents : ∀ p ∈ mixins, p.IsMirrored) :
    ((mixins.filterMap Class.metaclass).flatMap Class.order).map some =
      (mixins.flatMap Class.order).map Class.metaclass := by
  induction mixins with
  | nil => rfl
  | cons p mixins ih =>
    obtain ⟨first, others⟩ := List.forall_mem_cons.mp parents
    obtain ⟨inner, isMeta, -, orders⟩ := first
    rw [List.filterMap_cons_some isMeta, List.flatMap_cons, List.flatMap_cons, List.map_append,
      List.map_append, orders, ih others]

/-- A static method is found where a method would be found. -/
theorem Class.IsMirrored.findMethod {inner : Class} (mirrored : c.IsMirrored)
    (isMeta : c.metaclass = some inner) (name : String) :
    inner.findMethod name = c.order.findSome? (·.ownStatic name) := by
  obtain ⟨inner', isMeta', -, orders⟩ := mirrored
  cases isMeta.symm.trans isMeta'
  have search := congrArg (List.findSome? fun d : Option Class => d.bind (·.ownMethod name)) orders
  rw [List.findSome?_map, List.findSome?_map] at search
  rw [Class.findMethod_eq]
  exact search

end Mirrored

/-! ## Classes that were declared -/

namespace Class.Declared

variable {passes : Moment → Prop} {c : Class}

/-- A class that was declared came from a declaration, with the methods that it has there. -/
theorem declares (declared : c.Declared passes) :
    ∃ left name superclass mixins methods statics m,
      passes ⟨.makeClass left name superclass mixins methods statics, m⟩ ∧
        c.superclass = superclass ∧ c.mixins = mixins ∧ c.Declares methods statics := by
  obtain ⟨passed, run, parents⟩ := declared
  obtain ⟨superclass, mixins, declares, -⟩ := run_makeClass run
  exact ⟨_, _, _, _, _, _, _, passed, superclass, mixins, declares⟩

/-- All classes in the order of a class were declared. -/
theorem of_mem_order (declared : c.Declared passes) : ∀ d ∈ c.order, d.Declared passes := by
  induction declared with
  | @intro left name superclass mixins methods statics m m' c passed run parents ih =>
    obtain ⟨isSuper, areMixins, -⟩ := run_makeClass run
    rw [order_eq, isSuper, areMixins]
    intro d mem
    rcases List.mem_cons.mp mem with rfl | mem
    · exact .intro passed run parents
    rcases List.mem_append.mp mem with mem | mem
    · cases superclass with
      | none => cases mem
      | some p => exact ih p (.inl rfl) d mem
    · obtain ⟨p, parent, mem⟩ := List.mem_flatMap.mp mem
      exact ih p (.inr parent) d mem

/-- The metaclass mirrors the class: the parents of the class have metaclasses, so none of them is
left out. -/
theorem mirror (declared : c.Declared passes) : c.IsMirrored := by
  induction declared with
  | @intro left name superclass mixins methods statics m m' c passed run parents ih =>
    obtain ⟨isSuper, areMixins, -, inner, isMeta, metaSuper, metaMixins, last⟩ := run_makeClass run
    refine ⟨inner, isMeta, last, ?_⟩
    rw [order_eq inner, order_eq c, isSuper, areMixins, metaSuper, metaMixins, List.map_cons,
      List.map_append, List.map_cons, List.map_append, isMeta,
      mirrored_superclass fun p is => ih p (.inl is), mirrored_mixins fun p mem => ih p (.inr mem)]

end Class.Declared

end LoxLang
