/-
LoxLang.Store.Basic: frames of variables.

A frame keeps the names that have values apart from those that are declared and have none yet; a
name that is neither is absent.  Frames are shared by everything that was created while they were
current, so they live in a store and are referred to by number.  An environment is the list of the
frames that are in scope, the innermost first; the last one holds the globals.

* `Frame`, `Store`, `Environment`: the data.
* `define`, `declare`, `child`: changes that cannot fail.
* `read`, `assign`: by name, in the nearest frame that has it.
* `readAt`, `assignAt`: in the frame that is so many links outwards.
* `Slot`, `slot?`: the state of a name that a frame has.
* `put`: either of the two changes of a name, by the state that it sets.

The store is generic in the values that it holds.

Main statements: `slot?_put_self` and `slot?_put_of_ne`, what a change does to the states;
`read_eq` and `readAt_eq`, what is read is told by the states.
-/
import LoxLang.Fault.Diagnostic
import LoxLang.Store.Assoc

namespace LoxLang

/-! ## Frames -/

/-- The names of one scope: those that have values, and those that are declared and have none. -/
structure Frame (α : Type) where
  values : List (String × α)
  uninitialized : List String

namespace Frame

variable {α : Type}

/-- A frame without names. -/
def empty : Frame α := ⟨[], []⟩

/-- The value of a name. -/
def value? (frame : Frame α) (name : String) : Option α := entryOf? frame.values name

/-- The name is declared and has no value. -/
def isUninitialized (frame : Frame α) (name : String) : Bool := frame.uninitialized.contains name

/-- The frame has the name, with a value or without. -/
def contains (frame : Frame α) (name : String) : Bool :=
  (frame.value? name).isSome || frame.isUninitialized name

/-- Gives a name a value; it is not one of those without any more. -/
def define (frame : Frame α) (name : String) (a : α) : Frame α where
  values := putEntry name a frame.values
  uninitialized := frame.uninitialized.filter (· ≠ name)

/-- Declares a name without a value; a value that it had is forgotten. -/
def declare (frame : Frame α) (name : String) : Frame α where
  values := removeEntry name frame.values
  uninitialized := frame.uninitialized.insert name

end Frame

/-- The number of a frame in its store. -/
abbrev FrameId := Nat

/-- The frames in scope, the innermost first. -/
abbrev Environment := List FrameId

/-- All frames. -/
structure Store (α : Type) where
  frames : Array (Frame α)

namespace Store

variable {α : Type}

/-- A store with a single frame, in which no name is present. -/
def start : Store α := ⟨#[.empty]⟩

/-- The environment of the globals, whose frame is the first one. -/
def globalEnvironment : Environment := [0]

/-- The value of a name in a frame. -/
def value? (s : Store α) (id : FrameId) (name : String) : Option α :=
  s.frames[id]?.bind (·.value? name)

/-- The name is declared in a frame and has no value there. -/
def isUninitialized (s : Store α) (id : FrameId) (name : String) : Bool :=
  s.frames[id]?.any (·.isUninitialized name)

/-- The frame has the name, with a value or without. -/
def contains (s : Store α) (id : FrameId) (name : String) : Bool :=
  s.frames[id]?.any (·.contains name)

/-- Gives a name a value in a frame. -/
def define (s : Store α) (id : FrameId) (name : String) (a : α) : Store α :=
  ⟨s.frames.modify id (·.define name a)⟩

/-- Declares a name in a frame without a value. -/
def declare (s : Store α) (id : FrameId) (name : String) : Store α :=
  ⟨s.frames.modify id (·.declare name)⟩

/-- Adds a frame without names. -/
def addFrame (s : Store α) : Store α := ⟨s.frames.push .empty⟩

/-- A new frame inside an environment. -/
def child (s : Store α) (env : Environment) : Environment × Store α :=
  (s.frames.size :: env, s.addFrame)

/-! ## Access by name -/

/-- The value of a name in the nearest frame that has it.  A name without a value is not looked for
any further. -/
def read (s : Store α) (env : Environment) (name : Token) : Except Failure α :=
  match env with
  | [] => .error (.runtime (some name) (.undefinedRead name.lexeme))
  | id :: outer =>
    match s.value? id name.lexeme with
    | some a => .ok a
    | none =>
      if s.isUninitialized id name.lexeme then
        .error (.runtime (some name) (.uninitialized name.lexeme))
      else s.read outer name

/-- The nearest frame that has a name. -/
def owner? (s : Store α) (env : Environment) (name : String) : Option FrameId :=
  env.find? (s.contains · name)

/-- The frame in which an assignment by name takes place. -/
def target (s : Store α) (env : Environment) (name : Token) : Except Failure FrameId :=
  match s.owner? env name.lexeme with
  | some id => .ok id
  | none => .error (.runtime (some name) (.undefinedWrite name.lexeme))

/-- Gives a name a value in the nearest frame that has it. -/
def assign (s : Store α) (env : Environment) (name : Token) (a : α) :
    Except Failure (Store α) := do
  let id ← s.target env name
  return s.define id name.lexeme a

/-! ## Access by distance -/

/-- The frame that is so many links outwards. -/
def ancestor (env : Environment) (distance : Nat) : Except Failure FrameId :=
  match env[distance]? with
  | some id => .ok id
  | none => .error (.internal none (.noScope distance))

/-- The value of a name in the frame that is so many links outwards; the token is blamed if there is
none. -/
def readAt (s : Store α) (env : Environment) (distance : Nat) (name : String)
    (token : Option Token) : Except Failure α := do
  let id ← ancestor env distance
  match s.value? id name with
  | some a => .ok a
  | none =>
    if s.isUninitialized id name then .error (.runtime token (.uninitialized name))
    else .error (.internal token (.missingFromScope name))

/-- Gives a name a value in the frame that is so many links outwards. -/
def assignAt (s : Store α) (env : Environment) (distance : Nat) (name : String) (a : α) :
    Except Failure (Store α) := do
  let id ← ancestor env distance
  return s.define id name a

end Store

/-! ## States -/

/-- The state of a name that a frame has. -/
inductive Slot (α : Type) where
  /-- Declared, and not given a value yet. -/
  | uninitialized
  | value (a : α)
  deriving DecidableEq, Repr

namespace Frame

variable {α : Type}

/-- The state of a name; nothing if it is absent. -/
def slot? (frame : Frame α) (name : String) : Option (Slot α) :=
  match frame.value? name with
  | some a => some (.value a)
  | none => if frame.isUninitialized name then some .uninitialized else none

/-- Sets the state of a name. -/
def put (frame : Frame α) (name : String) : Slot α → Frame α
  | .value a => frame.define name a
  | .uninitialized => frame.declare name

@[simp] theorem slot?_empty (name : String) : (empty : Frame α).slot? name = none := rfl

/-- A frame has the names that have a state. -/
theorem contains_eq (frame : Frame α) (name : String) :
    frame.contains name = (frame.slot? name).isSome := by
  rw [contains, slot?]
  cases frame.value? name with
  | some a => rfl
  | none => cases frame.isUninitialized name <;> rfl

/-- The state that was set reads back. -/
theorem slot?_put_self (frame : Frame α) (name : String) (slot : Slot α) :
    (frame.put name slot).slot? name = some slot := by
  cases slot with
  | value a => simp [put, define, slot?, value?]
  | uninitialized => simp [put, declare, slot?, value?, isUninitialized]

/-- Setting the state of a name leaves every other name alone. -/
theorem slot?_put_of_ne (frame : Frame α) {name name' : String} (other : name' ≠ name)
    (slot : Slot α) : (frame.put name slot).slot? name' = frame.slot? name' := by
  cases slot with
  | value a =>
    simp [put, define, slot?, value?, isUninitialized, entryOf?_putEntry_of_ne other, other]
  | uninitialized =>
    simp [put, declare, slot?, value?, isUninitialized, entryOf?_removeEntry_of_ne other, other]

end Frame

namespace Store

variable {α : Type}

/-- The state of a name in a frame; nothing if it is absent. -/
def slot? (s : Store α) (id : FrameId) (name : String) : Option (Slot α) :=
  s.frames[id]?.bind (·.slot? name)

/-- Sets the state of a name in a frame: gives it a value or declares it. -/
def put (s : Store α) (id : FrameId) (name : String) : Slot α → Store α
  | .value a => s.define id name a
  | .uninitialized => s.declare id name

/-- A change of a name changes a single frame. -/
theorem put_eq (s : Store α) (id : FrameId) (name : String) (slot : Slot α) :
    s.put id name slot = ⟨s.frames.modify id (·.put name slot)⟩ := by
  cases slot <;> rfl

@[simp] theorem size_put (s : Store α) (id : FrameId) (name : String) (slot : Slot α) :
    (s.put id name slot).frames.size = s.frames.size := by
  simp [put_eq]

/-- A frame has the names that have a state in it. -/
theorem contains_eq (s : Store α) (id : FrameId) (name : String) :
    s.contains id name = (s.slot? id name).isSome := by
  rw [contains, slot?]
  cases s.frames[id]? with
  | none => rfl
  | some frame => exact frame.contains_eq name

/-- The state that was set reads back. -/
theorem slot?_put_self (s : Store α) {id : FrameId} (h : id < s.frames.size) (name : String)
    (slot : Slot α) : (s.put id name slot).slot? id name = some slot := by
  simp only [slot?, put_eq, Array.getElem?_modify, if_true, Array.getElem?_eq_getElem h]
  exact Frame.slot?_put_self _ name slot

/-- Setting the state of a name leaves every other name and frame alone. -/
theorem slot?_put_of_ne (s : Store α) {id id' : FrameId} {name name' : String}
    (h : id' ≠ id ∨ name' ≠ name) (slot : Slot α) :
    (s.put id name slot).slot? id' name' = s.slot? id' name' := by
  by_cases same : id' = id
  · subst same
    have apart : name' ≠ name := h.resolve_left fun ne => ne rfl
    simp only [slot?, put_eq, Array.getElem?_modify, if_true]
    cases s.frames[id']? with
    | none => rfl
    | some frame => exact frame.slot?_put_of_ne apart slot
  · simp [slot?, put_eq, Array.getElem?_modify, Ne.symm same]

/-- A new frame is empty, and the states in all others stay. -/
theorem slot?_child (s : Store α) (env : Environment) (id : FrameId) (name : String) :
    (s.child env).2.slot? id name = s.slot? id name := by
  simp only [slot?, child, addFrame, Array.getElem?_push]
  split
  · rename_i h
    simp [h]
  · rfl

/-- The two containers of a frame are read as the states of its names are. -/
theorem slot?_cases (s : Store α) (id : FrameId) (name : String) :
    (∃ a, s.value? id name = some a ∧ s.slot? id name = some (.value a)) ∨
      (s.value? id name = none ∧ s.isUninitialized id name = true ∧
        s.slot? id name = some .uninitialized) ∨
      s.value? id name = none ∧ s.isUninitialized id name = false ∧ s.slot? id name = none := by
  unfold value? isUninitialized slot?
  cases s.frames[id]? with
  | none => exact .inr (.inr ⟨rfl, rfl, rfl⟩)
  | some frame =>
    simp only [Option.bind_some, Option.any_some, Frame.slot?]
    cases frame.value? name with
    | some a => exact .inl ⟨a, rfl, rfl⟩
    | none => cases frame.isUninitialized name <;> simp

/-- What is read by name is the state of the name in the nearest frame that has it. -/
theorem read_eq (s : Store α) (env : Environment) (name : Token) :
    s.read env name = match (s.owner? env name.lexeme).bind (s.slot? · name.lexeme) with
      | some (.value a) => .ok a
      | some .uninitialized => .error (.runtime (some name) (.uninitialized name.lexeme))
      | none => .error (.runtime (some name) (.undefinedRead name.lexeme)) := by
  induction env with
  | nil => rfl
  | cons id outer ih =>
    rw [read, owner?, List.find?_cons, contains_eq]
    obtain ⟨a, value, slot⟩ | ⟨none, pending, slot⟩ | ⟨none, absent, slot⟩ :=
      s.slot?_cases id name.lexeme
    · simp [value, slot]
    · simp [none, pending, slot]
    · simp only [none, absent, slot, Option.isSome_none, Bool.false_eq_true, if_false]
      exact ih

/-- What is read by distance is the state of the name in the frame there. -/
theorem readAt_eq (s : Store α) (env : Environment) (distance : Nat) (name : String)
    (token : Option Token) :
    s.readAt env distance name token =
      ancestor env distance >>= fun id => match s.slot? id name with
        | some (.value a) => .ok a
        | some .uninitialized => .error (.runtime token (.uninitialized name))
        | none => .error (.internal token (.missingFromScope name)) := by
  rw [readAt]
  refine bind_congr fun id => ?_
  obtain ⟨a, value, slot⟩ | ⟨none, pending, slot⟩ | ⟨none, absent, slot⟩ := s.slot?_cases id name
  · simp [value, slot]
  · simp [none, pending, slot]
  · simp [none, absent, slot]

end Store

end LoxLang
