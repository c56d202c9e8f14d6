/-
LoxLang.Proofs.Session.Ancestry: what a class inherits, and from where.

A class is linked to its superclass and its mixins.  Whatever classes a program gets hold of, a
parent is an older object than its child: it was made before the child was, and the links of a class
never change.  So the links form no cycle, and following them depth first comes to an end.  The
method that is found is that of the first class which declares one on this way.

* `Class.Parent`: a link of a class.
* `Value.LeadsTo`: the classes behind a value.
* `Session.Links`: all links between objects in the course of a history.

Main statement: `methods_found_in_order`.
-/
import LoxLang.Proofs.Session.Statics

namespace LoxLang

open Relation (ReflTransGen TransGen)

/-! ## Links -/

namespace Class

/-- The class has the other as its superclass, or among its mixins. -/
def Parent (c p : Class) : Prop := c.superclass = some p ∨ p ∈ c.mixins

variable {c d p : Class} {name : String}

theorem self_mem_order (c : Class) : c ∈ c.order := by simp [order_eq c]

theorem Parent.mem_order (parent : c.Parent p) (mem : d ∈ p.order) : d ∈ c.order := by
  rw [order_eq]
  refine List.mem_cons_of_mem c (List.mem_append.mpr ?_)
  rcases parent with isSuper | isMixin
  · exact .inl (by simpa [isSuper] using mem)
  · exact .inr (List.mem_flatMap.mpr ⟨p, isMixin, mem⟩)

mutual

theorem reaches_of_mem_order : ∀ {c : Class}, d ∈ c.order → ReflTransGen Parent c d
  | ⟨_, _, none, mixins, _, _⟩, mem => by
    rw [order] at mem
    rcases List.mem_cons.mp mem with rfl | mem
    · exact .refl
    · obtain ⟨p, isMixin, reaches⟩ := reaches_of_mem_orderOf mem
      exact .head (.inr isMixin) reaches
  | ⟨_, _, some superclass, mixins, _, _⟩, mem => by
    rw [order] at mem
    rcases List.mem_cons.mp mem with rfl | mem
    · exact .refl
    rcases List.mem_append.mp mem with mem | mem
    · exact .head (.inl rfl) (reaches_of_mem_order mem)
    · obtain ⟨p, isMixin, reaches⟩ := reaches_of_mem_orderOf mem
      exact .head (.inr isMixin) reaches

theorem reaches_of_mem_orderOf :
    ∀ {cs : List Class}, d ∈ orderOf cs → ∃ p ∈ cs, ReflTransGen Parent p d
  | c :: cs, mem => by
    rw [orderOf] at mem
    rcases List.mem_append.mp mem with mem | mem
    · exact ⟨c, List.mem_cons_self, reaches_of_mem_order mem⟩
    · obtain ⟨p, isMixin, reaches⟩ := reaches_of_mem_orderOf mem
      exact ⟨p, List.mem_cons_of_mem c isMixin, reaches⟩

end

/-- The classes that are searched are those that the links lead to. -/
theorem mem_order_iff : d ∈ c.order ↔ ReflTransGen Parent c d := by
  refine ⟨reaches_of_mem_order, fun reaches => ?_⟩
  induction reaches using ReflTransGen.head_induction_on with
  | refl => exact self_mem_order d
  | head parent _ mem => exact parent.mem_order mem

/-! ## The look-up -/

/-- The class itself, or one that the links of its superclass lead to. -/
def InLine (c d : Class) : Prop := d = c ∨ ∃ p, c.superclass = some p ∧ ReflTransGen Parent p d

theorem inLine_iff :
    c.InLine d ↔ d ∈ c :: (c.superclass.map order).getD [] := by
  cases h : c.superclass with
  | none => simp [InLine, h]
  | some p => simp [InLine, h, mem_order_iff]

/-- A method is found if it is that of the first class in the order which declares one. -/
theorem findMethod_eq_some_iff {f : Closure} : c.findMethod name = some f ↔
    ∃ before d behind, c.order = before ++ d :: behind ∧ d.ownMethod name = some f ∧
      ∀ e ∈ before, e.ownMethod name = none := by
  rw [findMethod_eq, List.findSome?_eq_some_iff]

theorem findMethod_eq_none_iff :
    c.findMethod name = none ↔ ∀ d ∈ c.order, d.ownMethod name = none := by
  rw [findMethod_eq, List.findSome?_eq_none_iff]

/-- The mixins of a class are left aside if it declares the method itself, or inherits it. -/
theorem findMethod_of_inLine (line : c.InLine d) (declares : d.ownMethod name ≠ none) :
    ∃ e f, c.InLine e ∧ e.ownMethod name = some f ∧ c.findMethod name = some f := by
  have found : (c :: (c.superclass.map order).getD []).findSome? (·.ownMethod name) ≠ none :=
    fun missing => declares (List.findSome?_eq_none_iff.mp missing d (inLine_iff.mp line))
  obtain ⟨f, first⟩ := Option.ne_none_iff_exists'.mp found
  obtain ⟨e, mem, own⟩ := List.exists_of_findSome?_eq_some first
  refine ⟨e, f, inLine_iff.mpr mem, own, ?_⟩
  rw [findMethod_eq, order_eq, ← List.cons_append, List.findSome?_append, first]
  rfl

end Class

/-! ## Numbers of classes -/

section Numbers

variable {m m' : Machine}

theorem fields_newMethods {kind : Routine Distance → ClosureKind} {env : Environment} :
    ∀ {rs : List (Routine Distance)} {table table' : List (String × Closure)} {m : Machine},
      (newMethods kind env rs table m : Except Failure _ × Machine) = (.ok table', m') →
      m'.fields = m.fields
  | [], _, _, _, run => by
    cases run
    rfl
  | r :: rs, table, _, m, run => by
    let m₁ : Machine := { m with nextClosure := m.nextClosure + 1 }
    have rest : (newMethods kind env rs (putEntry r.name.lexeme
      ⟨m.nextClosure, some r.name, r.params, r.body, env, kind r⟩ table) m₁ :
        Except Failure _ × Machine) = (.ok _, m') := run
    have same : m'.fields = m₁.fields := fields_newMethods rest
    exact same

theorem fields_memberEnvironment {superclass : Option Class} {env : Environment}
    (run : (memberEnvironment superclass m : Except Failure _ × Machine) = (.ok env, m')) :
    m'.fields = m.fields := by
  cases superclass with
  | none =>
    cases run
    rfl
  | some c =>
    cases run
    rfl

/-- A class takes the next number but one, and its metaclass the next. -/
theorem id_makeClass {left : Nat} {name : Token} {superclass : Option Class} {mixins : List Class}
    {methods statics : List (Routine Distance)} {c : Class}
    (run : makeClass left name superclass mixins methods statics m = (.ok c, m')) :
    c.id = m.fields.size + 1 ∧ ∃ inner, c.metaclass = some inner ∧ inner.id = m.fields.size := by
  rw [makeClass_eq] at run
  obtain ⟨env, m₁, run₁, run⟩ := run_bind_ok_iff.mp run
  obtain ⟨_, _, room, run⟩ := run_bind_ok_iff.mp run
  cases (ends_needLevel left m₁).ok room
  obtain ⟨own, m₂, run₂, run⟩ := run_bind_ok_iff.mp run
  obtain ⟨inner, m₃, run₃, run⟩ := run_bind_ok_iff.mp run
  have same : m₃.fields = m.fields := by
    rw [fields_newMethods run₃, fields_newMethods run₂, fields_memberEnvironment run₁]
  cases run
  simp [Class.build, same]

end Numbers

/-! ## Parents are older -/

section Older

variable {passes : Moment → Prop} {c d p : Class}

/-- The parents of a class were there when the class was made. -/
def ParentsKnown (passes : Moment → Prop) : Prop :=
  ∀ n name superclass mixins methods statics m,
    passes ⟨.makeClass n name superclass mixins methods statics, m⟩ →
      ∀ p, superclass = some p ∨ p ∈ mixins → p.id < m.fields.size

namespace Class.Declared

theorem parent_lt (declared : c.Declared passes) (known : ParentsKnown passes)
    (parent : c.Parent p) : p.id < c.id := by
  obtain ⟨passed, run, -⟩ := declared
  obtain ⟨isSuper, areMixins, -⟩ := run_makeClass run
  rw [Parent, isSuper, areMixins] at parent
  rw [(id_makeClass run).1]
  exact Nat.lt_succ_of_lt (known _ _ _ _ _ _ _ passed p parent)

/-- A metaclass has the number before that of its class. -/
theorem metaclass_id {inner : Class} (declared : c.Declared passes)
    (isMeta : c.metaclass = some inner) : inner.id + 1 = c.id := by
  obtain ⟨_, run, -⟩ := declared
  obtain ⟨id, inner', isMeta', metaId⟩ := id_makeClass run
  cases isMeta.symm.trans isMeta'
  rw [id, metaId]

/-- The parents of a metaclass are the metaclasses of older classes. -/
theorem metaclass_parent_lt {inner : Class} (declared : c.Declared passes)
    (known : ParentsKnown passes) (isMeta : c.metaclass = some inner) (parent : inner.Parent p) :
    p.id < inner.id := by
  have last := declared.metaclass_id isMeta
  cases declared with
  | @intro n name superclass mixins methods statics m m' _ passed run parents =>
    obtain ⟨-, -, -, inner', isMeta', metaSuper, metaMixins, -⟩ := run_makeClass run
    cases isMeta.symm.trans isMeta'
    have linked : ∃ q, (superclass = some q ∨ q ∈ mixins) ∧ q.metaclass = some p := by
      rcases parent with isSuper | isMixin
      · obtain ⟨q, linked, ofParent⟩ := Option.bind_eq_some_iff.mp (metaSuper ▸ isSuper)
        exact ⟨q, .inl linked, ofParent⟩
      · obtain ⟨q, linked, ofParent⟩ := List.mem_filterMap.mp (metaMixins ▸ isMixin)
        exact ⟨q, .inr linked, ofParent⟩
    obtain ⟨q, linked, ofParent⟩ := linked
    have older := known _ _ _ _ _ _ _ passed q linked
    rw [← (parents q linked).metaclass_id ofParent] at older
    have own : inner.id = m.fields.size := Nat.succ.inj (last.trans (id_makeClass run).1)
    rw [own]
    exact Nat.lt_of_succ_lt older

end Class.Declared

end Older

/-! ## Classes that a program gets hold of -/

/-- The class that the value is, or is an instance of, or its metaclass, or a class that their links
lead to. -/
def Value.LeadsTo (v : Value) (d : Class) : Prop :=
  ∃ c, v.Involves c ∧ (ReflTransGen Class.Parent c d ∨
    ∃ inner, c.metaclass = some inner ∧ ReflTransGen Class.Parent inner d)

namespace Session

/-- A link between two objects, behind any value that a program gets hold of. -/
def Links (s : Session) (history : List Move) (child parent : ObjectId) : Prop :=
  ∃ v c p, s.Holds history v ∧ v.LeadsTo c ∧ c.Parent p ∧ c.id = child ∧ p.id = parent

variable {bounds : Bounds} {now : Clock} {history : List Move} {v : Value} {c p : Class}

theorem parentsKnown (bounds : Bounds) (now : Clock) (history : List Move) :
    ParentsKnown ((start bounds now).Passes history) := by
  intro n name superclass mixins methods statics m passes p parent
  have sound := (sound_of_passes (fun move _ => move.words_true) passes).1
  obtain ⟨_, _, _, _, _, _, _, _, _, _, _, _, parents, _⟩ := sound.placed
  exact (parents p parent).born

/-- Behind a value that a program gets hold of, parents have lower numbers. -/
theorem Holds.parent_lt (holds : (start bounds now).Holds history v) (leads : v.LeadsTo c)
    (parent : c.Parent p) : p.id < c.id := by
  obtain ⟨d, involves, leads⟩ := leads
  have declared := holds.declared involves
  have known := parentsKnown bounds now history
  rcases leads with reaches | ⟨inner, isMeta, reaches⟩
  · exact (declared.of_mem_order c (Class.mem_order_iff.mpr reaches)).parent_lt known parent
  · obtain ⟨inner', isMeta', -, orders⟩ := declared.mirror
    cases isMeta.symm.trans isMeta'
    -- The class is the metaclass of one in the order of the class that the value involves.
    have mirrored : some c ∈ d.order.map Class.metaclass :=
      orders ▸ List.mem_map_of_mem (Class.mem_order_iff.mpr reaches)
    obtain ⟨e, mem, ofClass⟩ := List.mem_map.mp mirrored
    exact (declared.of_mem_order e mem).metaclass_parent_lt known ofClass parent

theorem Links.lt {child parent : ObjectId} (links : (start bounds now).Links history child parent) :
    parent < child := by
  obtain ⟨v, c, p, holds, leads, isParent, rfl, rfl⟩ := links
  exact holds.parent_lt leads isParent

/-- Methods are found in order.  The links of all classes that a program gets hold of form no cycle.
The order of a class is the class itself, the order of its superclass, and those of its mixins one
after the other; the links lead to the classes in it and to no others.  What is found is the method
of the first class in the order that declares one, and nothing if none does.  A mixin is left aside
if the class itself, or a class that the links of its superclass lead to, declares the method. -/
theorem methods_found_in_order (bounds : Bounds) (now : Clock) (history : List Move) :
    let s := start bounds now
    (∀ id, ¬ TransGen (s.Links history) id id) ∧
    ∀ v, s.Holds history v → ∀ c, v.LeadsTo c →
      (∀ p, c.Parent p → p.id < c.id) ∧
      c.order = c :: ((c.superclass.map Class.order).getD [] ++ c.mixins.flatMap Class.order) ∧
      (∀ d, d ∈ c.order ↔ ReflTransGen Class.Parent c d) ∧
      ∀ name,
        (∀ f, c.findMethod name = some f ↔
          ∃ before d behind, c.order = before ++ d :: behind ∧ d.ownMethod name = some f ∧
            ∀ e ∈ before, e.ownMethod name = none) ∧
        (c.findMethod name = none ↔ ∀ d ∈ c.order, d.ownMethod name = none) ∧
        ∀ d, c.InLine d → d.ownMethod name ≠ none →
          ∃ e f, c.InLine e ∧ e.ownMethod name = some f ∧ c.findMethod name = some f := by
  intro s
  refine ⟨fun id cycle => ?_, fun v holds c leads => ?_⟩
  · have descends : ∀ {a b}, TransGen (s.Links history) a b → b < a := by
      intro a b path
      induction path with
      | single link => exact link.lt
      | tail _ link ih => exact Nat.lt_trans link.lt ih
    exact Nat.lt_irrefl id (descends cycle)
  · refine ⟨fun p parent => holds.parent_lt leads parent, c.order_eq, fun d => Class.mem_order_iff,
      fun name => ⟨fun f => Class.findMethod_eq_some_iff, Class.findMethod_eq_none_iff, ?_⟩⟩
    exact fun d line declares => Class.findMethod_of_inLine line declares

/-! ## A class with a superclass and a mixin -/

/-- A class whose superclass and mixin declare methods of one name. -/
def mixedIn : String :=
  "class M\x7bm()\x7b\x7dn()\x7b\x7d\x7dclass A\x7bm()\x7b\x7d\x7dclass C<A<=M\x7b\x7d"

/-- An empty method that is declared at top level. -/
def mixedIn.method (id : Nat) (name : String) : Closure :=
  ⟨id, some (identifier name), [], [], [0], .plain⟩

def mixedIn.mixin : Class :=
  ⟨1, "M", none, [], [("m", mixedIn.method 0 "m"), ("n", mixedIn.method 1 "n")],
    some ⟨0, "M metaclass", none, [], [], none⟩⟩

def mixedIn.parent : Class :=
  ⟨3, "A", none, [], [("m", mixedIn.method 2 "m")], some ⟨2, "A metaclass", none, [], [], none⟩⟩

def mixedIn.heir : Class :=
  ⟨5, "C", some mixedIn.parent, [mixedIn.mixin], [],
    some ⟨4, "C metaclass", some ⟨2, "A metaclass", none, [], [], none⟩,
      [⟨0, "M metaclass", none, [], [], none⟩], [], none⟩⟩

theorem slot_mixedIn : (begun.after [.run mixedIn]).machine.store.slot? 0 "C" =
    some (.value (.class mixedIn.heir)) := by
  cbv

/-- The superclass wins over the mixin, which is asked for what the superclass lacks. -/
theorem methods_found_in_order_mixedIn :
    begun.Holds [.run mixedIn] (.class mixedIn.heir) ∧
      mixedIn.heir.order = [mixedIn.heir, mixedIn.parent, mixedIn.mixin] ∧
      mixedIn.heir.findMethod "m" = some (mixedIn.method 2 "m") ∧
      mixedIn.heir.findMethod "n" = some (mixedIn.method 1 "n") ∧
      mixedIn.heir.findMethod "s" = none := by
  have split : [Move.run mixedIn] = [.run mixedIn] ++ [] := rfl
  have holds : begun.Holds [.run mixedIn] (.class mixedIn.heir) := .variable split slot_mixedIn
  have leads : (Value.class mixedIn.heir).LeadsTo mixedIn.heir := ⟨_, .inl rfl, .inl .refl⟩
  obtain ⟨-, -, -, search⟩ :=
    (methods_found_in_order ⟨9, 0⟩ 0 [.run mixedIn]).2 _ holds mixedIn.heir leads
  have order : mixedIn.heir.order = [mixedIn.heir, mixedIn.parent, mixedIn.mixin] := by
    simp [Class.order_eq, mixedIn.heir, mixedIn.parent, mixedIn.mixin]
  refine ⟨holds, order, ?_, ?_, ?_⟩
  · exact ((search "m").1 _).mpr ⟨[mixedIn.heir], _, _, order, rfl, by simp [mixedIn.heir]; rfl⟩
  · exact ((search "n").1 _).mpr
      ⟨[mixedIn.heir, mixedIn.parent], _, _, order, rfl, by simp; exact ⟨rfl, rfl⟩⟩
  · refine (search "s").2.1.mpr ?_
    rw [order]
    simp
    exact ⟨rfl, rfl, rfl⟩

end Session

end LoxLang
