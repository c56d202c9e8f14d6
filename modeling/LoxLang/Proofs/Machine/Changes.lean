/-
LoxLang.Proofs.Machine.Changes: what single steps of a run keep.

* `Machine.Good`: all values in a machine are sound.
* `Kept`: a machine is good, lacks nothing that an earlier one had, and is in the same environment.

Main statements: `Kept.put`, `Kept.addFrame` and `Kept.writeField`, for the three changes that a run
is made of.
-/
import LoxLang.Proofs.Machine.Frames

namespace LoxLang

/-! ## Stores -/

namespace Store

variable {α : Type}

@[simp] theorem size_addFrame (s : Store α) : s.addFrame.frames.size = s.frames.size + 1 := by
  simp [addFrame]

@[simp] theorem slot?_addFrame (s : Store α) (id : FrameId) (name : String) :
    s.addFrame.slot? id name = s.slot? id name := slot?_child s [] id name

@[simp] theorem contains_addFrame (s : Store α) (id : FrameId) (name : String) :
    s.addFrame.contains id name = s.contains id name := by
  rw [contains_eq, contains_eq, slot?_addFrame]

theorem slot?_eq_none_of_le (s : Store α) {id : FrameId} (h : s.frames.size ≤ id) (name : String) :
    s.slot? id name = none := by
  rw [slot?, Array.getElem?_eq_none h]
  rfl

/-- A frame that there is not cannot be changed. -/
theorem put_of_le (s : Store α) {id : FrameId} (h : s.frames.size ≤ id) (name : String)
    (slot : Slot α) (id' : FrameId) (name' : String) :
    (s.put id name slot).slot? id' name' = s.slot? id' name' := by
  by_cases same : id' = id
  · subst same
    rw [s.slot?_eq_none_of_le h, slot?_eq_none_of_le _ (by rwa [size_put])]
  · exact s.slot?_put_of_ne (.inl same) slot

/-- What is read after a change was either put or there before. -/
theorem of_slot?_put {s : Store α} {id id' : FrameId} {name name' : String} {slot slot' : Slot α}
    (h : (s.put id name slot).slot? id' name' = some slot') :
    (id' = id ∧ name' = name ∧ slot' = slot) ∨ s.slot? id' name' = some slot' := by
  by_cases same : id' = id ∧ name' = name
  · obtain ⟨rfl, rfl⟩ := same
    by_cases inside : id' < s.frames.size
    · rw [s.slot?_put_self inside] at h
      cases h
      exact .inl ⟨rfl, rfl, rfl⟩
    · rw [s.put_of_le (Nat.le_of_not_lt inside)] at h
      exact .inr h
  · rw [s.slot?_put_of_ne (Decidable.not_and_iff_not_or_not.mp same)] at h
    exact .inr h

theorem contains_put_self (s : Store α) {id : FrameId} (h : id < s.frames.size) (name : String)
    (slot : Slot α) : (s.put id name slot).contains id name = true := by
  rw [contains_eq, s.slot?_put_self h]
  rfl

theorem contains_put (s : Store α) {id' : FrameId} {name' : String}
    (h : s.contains id' name' = true) (id : FrameId) (name : String) (slot : Slot α) :
    (s.put id name slot).contains id' name' = true := by
  by_cases same : id' = id ∧ name' = name
  · obtain ⟨rfl, rfl⟩ := same
    refine s.contains_put_self (Nat.lt_of_not_le fun le => ?_) name' slot
    rw [contains_eq, s.slot?_eq_none_of_le le] at h
    cases h
  · rw [contains_eq, s.slot?_put_of_ne (Decidable.not_and_iff_not_or_not.mp same), ← contains_eq]
    exact h

end Store

/-- No frame loses a name when another name gets a state; `this` and `super` get one in frames that
do not have them. -/
theorem Grows.put {W : World} (m : Machine) (k : FrameId) {x : String} {slot : Slot Value}
    (fresh : W.Plain → x = thisName ∨ x = superName → m.store.slot? k x = none) :
    Grows W m { m with store := m.store.put k x slot } := by
  refine ⟨Nat.le_of_eq (Store.size_put ..).symm, fun k' x' has => ?_,
    fun plain k' x' v word held => ?_, Nat.le_refl _⟩
  · exact m.store.contains_put has k x slot
  · by_cases same : k' = k ∧ x' = x
    · obtain ⟨rfl, rfl⟩ := same
      rw [fresh plain word] at held
      cases held
    · exact (m.store.slot?_put_of_ne (Decidable.not_and_iff_not_or_not.mp same) slot).trans held

/-- A name that is written in a program is neither of them. -/
theorem Grows.named {W : World} (m : Machine) (k : FrameId) {x : String} {slot : Slot Value}
    (apart : W.Plain → x ≠ thisName ∧ x ≠ superName) :
    Grows W m { m with store := m.store.put k x slot } :=
  .put m k fun plain word => absurd word (not_or.mpr (apart plain))

/-! ## Good machines -/

/-- All values in the machine are sound. -/
structure Machine.Good (W : World) (m : Machine) : Prop where
  slots : ∀ k x v, m.store.slot? k x = some (.value v) → v.Sound W m
  fields : ∀ id x v, m.field? id x = some v → v.Sound W m
  globals : 0 < m.store.frames.size

/-- A good machine that lacks nothing and is in the same environment. -/
structure Kept (W : World) (m m' : Machine) : Prop where
  good : m'.Good W
  grows : Grows W m m'
  environment : m'.environment = m.environment

namespace Kept

variable {W : World} {m m' m'' : Machine}

theorem refl (good : m.Good W) : Kept W m m := ⟨good, .refl m, rfl⟩

theorem trans (first : Kept W m m') (second : Kept W m' m'') : Kept W m m'' :=
  ⟨second.good, first.grows.trans second.grows, second.environment.trans first.environment⟩

/-- Nothing changed in the frames and fields. -/
theorem of_same (good : m.Good W) (store : m'.store = m.store) (fields : m'.fields = m.fields)
    (environment : m'.environment = m.environment) : Kept W m m' where
  good := by
    have same : m.fields.size ≤ m'.fields.size := Nat.le_of_eq (by rw [fields])
    refine ⟨fun k x v slot => ?_, fun id x v field => ?_, ?_⟩
    · rw [store] at slot
      exact (good.slots k x v slot).grow (.of_store store same)
    · rw [Machine.field?, fields] at field
      exact (good.fields id x v field).grow (.of_store store same)
    · rw [store]
      exact good.globals
  grows := .of_store store (Nat.le_of_eq (by rw [fields]))
  environment := environment

/-- The environment is left again. -/
theorem leave {env : Environment} (inside : Kept W (m.within env) m') :
    Kept W m { m' with environment := m.environment } where
  good := by
    have grows : Grows W m' { m' with environment := m.environment } :=
      .of_store rfl (Nat.le_refl _)
    exact ⟨fun k x v slot => (inside.good.slots k x v slot).grow grows,
      fun id x v field => (inside.good.fields id x v field).grow grows, inside.good.globals⟩
  grows := ⟨inside.grows.size, inside.grows.slots, inside.grows.exact, inside.grows.objects⟩
  environment := rfl

/-- A name gets a value, or is declared without one. -/
theorem put (good : m.Good W) {k : FrameId} {x : String} {slot : Slot Value}
    (grows : Grows W m { m with store := m.store.put k x slot })
    (sound : ∀ v, slot = .value v → v.Sound W { m with store := m.store.put k x slot }) :
    Kept W m { m with store := m.store.put k x slot } := by
  refine ⟨⟨fun k' x' v has => ?_, fun id x' v field => ?_, ?_⟩, grows, rfl⟩
  · rcases Store.of_slot?_put has with ⟨_, _, same⟩ | before
    · exact sound v same.symm
    · exact (good.slots k' x' v before).grow grows
  · exact (good.fields id x' v field).grow grows
  · exact (Store.size_put ..).symm ▸ good.globals

/-- A value for a name that is written in a program. -/
theorem define (good : m.Good W) (k : FrameId) {x : String} {v : Value} (sound : v.Sound W m)
    (apart : W.Plain → x ≠ thisName ∧ x ≠ superName) :
    Kept W m { m with store := m.store.define k x v } := by
  have grows : Grows W m { m with store := m.store.put k x (.value v) } := .named m k apart
  refine put good grows fun v' same => ?_
  cases same
  exact sound.grow grows

/-- A new frame. -/
theorem addFrame (good : m.Good W) : Kept W m { m with store := m.store.addFrame } := by
  have grows : Grows W m { m with store := m.store.addFrame } :=
    ⟨by simp, fun k x has => by simpa using has, fun _ k x v _ held => by simpa using held,
      Nat.le_refl _⟩
  refine ⟨⟨fun k x v has => ?_, fun id x v field => ?_, by simp⟩, grows, rfl⟩
  · exact (good.slots k x v (by simpa using has)).grow grows
  · exact (good.fields id x v field).grow grows

/-- A value for a field. -/
theorem writeField (good : m.Good W) (id : ObjectId) (x : String) {v : Value}
    (sound : v.Sound W m) :
    Kept W m { m with fields := m.fields.modify id (putEntry x v) } := by
  have grows : Grows W m { m with fields := m.fields.modify id (putEntry x v) } :=
    .of_store rfl (by simp)
  refine ⟨⟨fun k x' v' has => ?_, fun id' x' v' field => ?_, good.globals⟩, grows, rfl⟩
  · exact (good.slots k x' v' has).grow grows
  · refine Value.Sound.grow grows ?_
    simp only [Machine.field?, Array.getElem?_modify] at field
    split at field
    · cases found : m.fields[id']? with
      | none => simp [found] at field
      | some entries =>
        simp only [found, Option.map_some, Option.bind_some] at field
        by_cases same : x' = x
        · subst same
          rw [entryOf?_putEntry_self] at field
          cases field
          exact sound
        · rw [entryOf?_putEntry_of_ne same] at field
          exact good.fields id' x' v' (by rw [Machine.field?, found]; exact field)
    · exact good.fields id' x' v' field

/-- A new object. -/
theorem newObject (good : m.Good W) : Kept W m { m with fields := m.fields.push [] } := by
  have grows : Grows W m { m with fields := m.fields.push [] } := .of_store rfl (by simp)
  refine ⟨⟨fun k x v has => ?_, fun id x v field => ?_, good.globals⟩, grows, rfl⟩
  · exact (good.slots k x v has).grow grows
  · refine Value.Sound.grow grows ?_
    simp only [Machine.field?, Array.getElem?_push] at field
    split at field
    · cases field
    · exact good.fields id x v field

end Kept

end LoxLang
