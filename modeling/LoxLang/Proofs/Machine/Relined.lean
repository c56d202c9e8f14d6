/-
LoxLang.Proofs.Machine.Relined: machines whose tokens are on other lines.

Tokens carry the lines on which they end, and a machine holds tokens: in the routines that a program
made and in the classes that have them as methods.  With all of these on other lines a machine is
the same in every other respect: names are present in the same frames, methods are found in the
same classes, and values are tested, compared and shown alike.

* `Value.reline`, `Machine.reline`, `Failure.reline`: the same with tokens on other lines.
* `Store.map`: a store of other values.

Main statements: `Class.findMethod_reline` and `Class.build_reline`; `reline_relineMachine` and
`reline_idMachine`.
-/
import LoxLang.Machine.Eval
import LoxLang.Proofs.Tree.Relabelled

namespace LoxLang

/-! ## Named entries -/

/-- The entries with other things under the same names. -/
def mapEntries {α β : Type} (h : α → β) (entries : List (String × α)) : List (String × β) :=
  entries.map (Prod.map id h)

section Entries

variable {α β γ : Type} (h : α → β)

@[simp] theorem mapEntries_nil : mapEntries h [] = [] := rfl

/-- Values are replaced twice as they are replaced once by the composition. -/
theorem mapEntries_mapEntries (h' : β → γ) (entries : List (String × α)) :
    mapEntries h' (mapEntries h entries) = mapEntries (h' ∘ h) entries := List.map_map

theorem mapEntries_id (entries : List (String × α)) : mapEntries id entries = entries :=
  List.map_id _

/-- A name is looked up among the replaced values as among the others. -/
theorem entryOf?_mapEntries (entries : List (String × α)) (name : String) :
    entryOf? (mapEntries h entries) name = (entryOf? entries name).map h := by
  induction entries with
  | nil => rfl
  | cons first rest ih =>
    rw [mapEntries, List.map_cons, entryOf?_cons, entryOf?_cons]
    show (if name = first.1 then some (h first.2) else entryOf? (mapEntries h rest) name) = _
    rw [ih]
    split
    · rfl
    · rfl

/-- A replaced value takes the same place. -/
theorem putEntry_mapEntries (name : String) (a : α) (entries : List (String × α)) :
    putEntry name (h a) (mapEntries h entries) = mapEntries h (putEntry name a entries) := by
  induction entries with
  | nil => rfl
  | cons first rest ih =>
    simp only [mapEntries, List.map_cons, putEntry, Prod.map_fst, id_eq] at ih ⊢
    split
    · rfl
    · rw [ih]
      rfl

/-- And the same place is given up. -/
theorem removeEntry_mapEntries (name : String) (entries : List (String × α)) :
    removeEntry name (mapEntries h entries) = mapEntries h (removeEntry name entries) := by
  rw [removeEntry, mapEntries, List.filter_map]
  rfl

end Entries

/-! ## Values -/

/-- The closure with its tokens on other lines. -/
def Closure.reline (f : Nat → Nat) (c : Closure) : Closure :=
  { c with
    name := c.name.map (Token.reline f)
    params := c.params.map (Token.reline f)
    body := Stmt.relineAll f c.body }

mutual

/-- The class with the tokens of its methods on other lines. -/
def Class.reline (f : Nat → Nat) : Class → Class
  | ⟨id, name, superclass, mixins, methods, metaclass⟩ =>
    ⟨id, name, Class.reline? f superclass, Class.relineAll f mixins,
      mapEntries (Closure.reline f) methods, Class.reline? f metaclass⟩

def Class.reline? (f : Nat → Nat) : Option Class → Option Class
  | none => none
  | some c => some (c.reline f)

def Class.relineAll (f : Nat → Nat) : List Class → List Class
  | [] => []
  | c :: cs => c.reline f :: Class.relineAll f cs

end

/-- The value with its tokens on other lines. -/
def Value.reline (f : Nat → Nat) : Value → Value
  | .function c => .function (c.reline f)
  | .class c => .class (c.reline f)
  | .instance o => .instance ⟨o.id, o.cls.reline f⟩
  | .nil => .nil
  | .bool b => .bool b
  | .number x => .number x
  | .string s => .string s
  | .clock => .clock

namespace Class

variable (f g : Nat → Nat)

/-- The companion for a class that may be there is the map of `reline`. -/
theorem reline?_eq (c : Option Class) : reline? f c = c.map (reline f) := by
  cases c <;> rfl

/-- So is the companion for lists. -/
theorem relineAll_eq (cs : List Class) : relineAll f cs = cs.map (reline f) := by
  induction cs with
  | nil => rfl
  | cons c cs ih => rw [relineAll, ih, List.map_cons]

@[simp] theorem id_reline (c : Class) : (c.reline f).id = c.id := by cases c; rfl

@[simp] theorem name_reline (c : Class) : (c.reline f).name = c.name := by cases c; rfl

@[simp] theorem metaclass_reline (c : Class) :
    (c.reline f).metaclass = c.metaclass.map (reline f) := by
  cases c
  exact reline?_eq f _

mutual

/-- A class finds the same method, by induction on the classes that its links lead to. -/
theorem findMethod_reline (name : String) : ∀ c : Class,
    (c.reline f).findMethod name = (c.findMethod name).map (Closure.reline f)
  | ⟨_, _, none, mixins, methods, _⟩ => by
    simp only [reline, reline?, findMethod, entryOf?_mapEntries, findMethodIn_reline name mixins,
      Option.map_or]
  | ⟨_, _, some superclass, mixins, methods, _⟩ => by
    simp only [reline, reline?, findMethod, entryOf?_mapEntries, findMethodIn_reline name mixins,
      findMethod_reline name superclass, Option.map_or]

/-- The first of several classes that has the method is the same one. -/
theorem findMethodIn_reline (name : String) : ∀ cs : List Class,
    findMethodIn name (relineAll f cs) = (findMethodIn name cs).map (Closure.reline f)
  | [] => rfl
  | c :: cs => by
    simp only [relineAll, findMethodIn, findMethod_reline name c, findMethodIn_reline name cs,
      Option.map_or]

end

/-- The number of arguments of a class is that of its initializer. -/
@[simp] theorem arity_reline (c : Class) : (c.reline f).arity = c.arity := by
  rw [arity, findMethod_reline, Option.map_map, arity]
  congr 2
  funext method
  exact List.length_map ..

/-- To build a class commutes with the change of lines, in the class and in its metaclass. -/
theorem build_reline (id metaId : ObjectId) (name : String) (superclass : Option Class)
    (mixins : List Class) (methods statics : List (String × Closure)) :
    (build id metaId name superclass mixins methods statics).reline f =
      build id metaId name (superclass.map (reline f)) (mixins.map (reline f))
        (mapEntries (Closure.reline f) methods) (mapEntries (Closure.reline f) statics) := by
  have parent : (superclass.bind metaclass).map (reline f) =
      (superclass.map (reline f)).bind metaclass := by
    cases superclass with
    | none => rfl
    | some c => exact (metaclass_reline f c).symm
  have parents : (mixins.filterMap metaclass).map (reline f) =
      (mixins.map (reline f)).filterMap metaclass := by
    rw [List.map_filterMap, List.filterMap_map]
    congr 1
    funext c
    exact (metaclass_reline f c).symm
  simp only [build, reline, reline?, reline?_eq, relineAll_eq, parent, parents]

end Class

section Values

variable (f : Nat → Nat)

/-- Truth does not depend on lines. -/
@[simp] theorem Value.isTruthy_reline (v : Value) : (v.reline f).isTruthy = v.isTruthy := by
  cases v <;> rfl

/-- Nor does equality: objects are compared by their numbers. -/
@[simp] theorem Value.equals_reline (v w : Value) :
    (v.reline f).equals (w.reline f) = v.equals w := by
  cases v <;> cases w <;> simp only [reline, equals, Closure.reline, Class.id_reline]

/-- Nor does the text of a value: it shows names only. -/
@[simp] theorem Value.text_reline (v : Value) : (v.reline f).text = v.text := by
  cases v with
  | function c => obtain ⟨_, _ | _, _, _, _, _⟩ := c <;> rfl
  | «class» c => exact Class.name_reline f c
  | «instance» o => exact congrArg (· ++ " instance") (Class.name_reline f o.cls)
  | nil | bool | number | string | clock => rfl

/-- A literal has no lines. -/
@[simp] theorem Value.reline_literal (v : Literal) : v.value.reline f = v.value := by
  cases v <;> rfl

/-- The holder of properties with the tokens of its methods on other lines. -/
def Receiver.reline (r : Receiver) : Receiver := ⟨r.id, r.cls.map (Class.reline f)⟩

/-- What a value is an instance of is moved with it. -/
theorem Value.receiver?_reline (v : Value) :
    (v.reline f).receiver? = v.receiver?.map (Receiver.reline f) := by
  cases v with
  | «class» c =>
    simp only [reline, receiver?, Option.map_some, Receiver.reline, Class.id_reline,
      Class.metaclass_reline]
  | function | «instance» | nil | bool | number | string | clock => rfl

/-- What can be called is so on either lines. -/
@[simp] theorem Value.arity?_reline (v : Value) : (v.reline f).arity? = v.arity? := by
  cases v with
  | function c => exact congrArg some (List.length_map _)
  | «class» c => exact congrArg some (Class.arity_reline f c)
  | «instance» | nil | bool | number | string | clock => rfl

end Values

/-! ## Stores -/

section Stores

variable {α β γ : Type} (h : α → β)

/-- The state of a name with another value. -/
def Slot.map : Slot α → Slot β
  | .uninitialized => .uninitialized
  | .value a => .value (h a)

/-- The frame with other values. -/
def Frame.map (frame : Frame α) : Frame β := ⟨mapEntries h frame.values, frame.uninitialized⟩

/-- What a name is in a frame of replaced values. -/
theorem Frame.slot?_map (frame : Frame α) (name : String) :
    (frame.map h).slot? name = (frame.slot? name).map (Slot.map h) := by
  have value : (frame.map h).value? name = (frame.value? name).map h :=
    entryOf?_mapEntries h frame.values name
  rw [slot?, slot?, value]
  cases frame.value? name with
  | some a => rfl
  | none =>
    show (if frame.isUninitialized name then _ else _) = _
    cases frame.isUninitialized name <;> rfl

/-- What is put with the replacement is replaced. -/
theorem Frame.put_map (frame : Frame α) (name : String) (slot : Slot α) :
    (frame.map h).put name (slot.map h) = (frame.put name slot).map h := by
  cases slot with
  | value a => exact congrArg (Frame.mk · _) (putEntry_mapEntries h name a frame.values)
  | uninitialized => exact congrArg (Frame.mk · _) (removeEntry_mapEntries h name frame.values)

/-- The store with other values. -/
def Store.map (s : Store α) : Store β := ⟨s.frames.map (Frame.map h)⟩

namespace Store

/-- There are as many frames. -/
@[simp] theorem size_map (s : Store α) : (s.map h).frames.size = s.frames.size := Array.size_map

/-- What a name is in a store of replaced values. -/
theorem slot?_map (s : Store α) (id : FrameId) (name : String) :
    (s.map h).slot? id name = (s.slot? id name).map (Slot.map h) := by
  simp only [slot?, map, Array.getElem?_map]
  cases s.frames[id]? with
  | none => rfl
  | some frame => exact frame.slot?_map h name

/-- Which names a frame has does not depend on their values. -/
@[simp] theorem contains_map (s : Store α) (id : FrameId) (name : String) :
    (s.map h).contains id name = s.contains id name := by
  rw [contains_eq, slot?_map, Option.isSome_map, contains_eq]

/-- So a name is found in the same frame. -/
theorem owner?_map (s : Store α) (env : Environment) (name : String) :
    (s.map h).owner? env name = s.owner? env name := by
  simp only [owner?, contains_map]

/-- What is put with the replacement is replaced. -/
theorem put_map (s : Store α) (id : FrameId) (name : String) (slot : Slot α) :
    (s.map h).put id name (slot.map h) = (s.put id name slot).map h := by
  rw [put_eq, put_eq]
  refine congrArg Store.mk (Array.ext_getElem? fun i => ?_)
  simp only [map, Array.getElem?_modify, Array.getElem?_map]
  split
  · cases s.frames[i]? with
    | none => rfl
    | some frame => exact congrArg some (frame.put_map h name slot)
  · rfl

/-- A new frame is empty, and so has no values to replace. -/
theorem addFrame_map (s : Store α) : (s.map h).addFrame = s.addFrame.map h := by
  simp only [addFrame, map, Array.map_push]
  rfl

end Store

end Stores

/-! ## Machines and failures -/

/-- The machine with the tokens that it holds on other lines. -/
def Machine.reline (f : Nat → Nat) (m : Machine) : Machine :=
  { m with
    store := m.store.map (Value.reline f)
    fields := m.fields.map (mapEntries (Value.reline f)) }

/-- The failure with its token on another line. -/
def Failure.reline (f : Nat → Nat) : Failure → Failure
  | .runtime token fault => .runtime (token.map (Token.reline f)) fault
  | .internal token fault => .internal (token.map (Token.reline f)) fault
  | .overflow => .overflow
  | .unfinished => .unfinished

/-- How a statement ends, with the tokens on other lines. -/
def Completion.reline (f : Nat → Nat) : Completion → Completion
  | .normal => .normal
  | .returned v => .returned (v.reline f)
  | .exited keyword => .exited (keyword.reline f)

/-- A field on other lines is the field, on other lines. -/
theorem Machine.field?_reline (f : Nat → Nat) (m : Machine) (id : ObjectId) (name : String) :
    (m.reline f).field? id name = (m.field? id name).map (Value.reline f) := by
  simp only [field?, reline, Array.getElem?_map]
  cases m.fields[id]? with
  | none => rfl
  | some entries => exact entryOf?_mapEntries (Value.reline f) entries name

/-! ## Twice and once -/

section Twice

variable (f g : Nat → Nat)

/-- Moved twice, a closure is moved once by the composition. -/
theorem reline_relineClosure (c : Closure) : (c.reline f).reline g = c.reline (g ∘ f) := by
  simp only [Closure.reline, Option.map_map, List.map_map, Token.reline_comp, Stmt.relineAll,
    relabel_relabelStmts, Function.comp_id]

/-- Left where it is, a closure stays the same. -/
theorem reline_idClosure (c : Closure) : c.reline id = c := by
  simp only [Closure.reline, Token.reline_id, Option.map_id, List.map_id, Stmt.relineAll_id, id_eq]

mutual

/-- So it is for the whole graph of a class. -/
theorem reline_relineClass : ∀ c : Class, (c.reline f).reline g = c.reline (g ∘ f)
  | ⟨_, _, superclass, mixins, methods, metaclass⟩ => by
    have same : Closure.reline g ∘ Closure.reline f = Closure.reline (g ∘ f) :=
      funext (reline_relineClosure f g)
    simp only [Class.reline, mapEntries_mapEntries, same, reline_relineClass? superclass,
      reline_relineClasses mixins, reline_relineClass? metaclass]

theorem reline_relineClass? : ∀ c : Option Class,
    Class.reline? g (Class.reline? f c) = Class.reline? (g ∘ f) c
  | none => rfl
  | some c => congrArg some (reline_relineClass c)

theorem reline_relineClasses : ∀ cs : List Class,
    Class.relineAll g (Class.relineAll f cs) = Class.relineAll (g ∘ f) cs
  | [] => rfl
  | c :: cs => by simp only [Class.relineAll, reline_relineClass c, reline_relineClasses cs]

end

mutual

/-- A class with all its parents stays the same if no line moves. -/
theorem reline_idClass : ∀ c : Class, c.reline id = c
  | ⟨_, _, superclass, mixins, methods, metaclass⟩ => by
    have same : Closure.reline id = id := funext reline_idClosure
    simp only [Class.reline, same, mapEntries_id, reline_idClass? superclass,
      reline_idClasses mixins, reline_idClass? metaclass]

theorem reline_idClass? : ∀ c : Option Class, Class.reline? id c = c
  | none => rfl
  | some c => congrArg some (reline_idClass c)

theorem reline_idClasses : ∀ cs : List Class, Class.relineAll id cs = cs
  | [] => rfl
  | c :: cs => by rw [Class.relineAll, reline_idClass c, reline_idClasses cs]

end

/-- Moved twice, a value is moved once by the composition. -/
theorem reline_relineValue (v : Value) : (v.reline f).reline g = v.reline (g ∘ f) := by
  cases v with
  | function c => exact congrArg Value.function (reline_relineClosure f g c)
  | «class» c => exact congrArg Value.class (reline_relineClass f g c)
  | «instance» o =>
    exact congrArg (Value.instance ∘ Instance.mk o.id) (reline_relineClass f g o.cls)
  | nil | bool | number | string | clock => rfl

theorem reline_idValue (v : Value) : v.reline id = v := by
  cases v with
  | function c => exact congrArg Value.function (reline_idClosure c)
  | «class» c => exact congrArg Value.class (reline_idClass c)
  | «instance» o => exact congrArg (Value.instance ∘ Instance.mk o.id) (reline_idClass o.cls)
  | nil | bool | number | string | clock => rfl

/-- Replaced twice, the values of a store are replaced once by the composition. -/
theorem Store.map_map {α β γ : Type} (h : α → β) (h' : β → γ) (s : Store α) :
    (s.map h).map h' = s.map (h' ∘ h) := by
  have frames : Frame.map h' ∘ Frame.map h = Frame.map (h' ∘ h) := by
    funext frame
    simp only [Function.comp, Frame.map, mapEntries_mapEntries]
  simp only [map, Array.map_map, frames]

theorem Store.map_id {α : Type} (s : Store α) : s.map id = s := by
  have frames : (Frame.map id : Frame α → Frame α) = id := by
    funext frame
    simp only [Frame.map, mapEntries_id, id_eq]
  simp only [map, frames, Array.map_id]

/-- Moved twice, a machine is moved once by the composition. -/
theorem reline_relineMachine (m : Machine) : (m.reline f).reline g = m.reline (g ∘ f) := by
  have values : Value.reline g ∘ Value.reline f = Value.reline (g ∘ f) :=
    funext (reline_relineValue f g)
  have entries : mapEntries (Value.reline g) ∘ mapEntries (Value.reline f) =
      mapEntries (Value.reline (g ∘ f)) := by
    funext entries
    rw [Function.comp, mapEntries_mapEntries, values]
  simp only [Machine.reline, Store.map_map, Array.map_map, values, entries]

/-- Left where it is, a machine stays the same. -/
theorem reline_idMachine (m : Machine) : m.reline id = m := by
  have values : Value.reline id = id := funext reline_idValue
  have entries : (mapEntries id : List (String × Value) → List (String × Value)) = id :=
    funext mapEntries_id
  simp only [Machine.reline, values, Store.map_id, entries, Array.map_id]

end Twice

end LoxLang
