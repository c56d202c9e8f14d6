/-
LoxLang.Proofs.Machine.Quiet: steps of a run that set no field.

Most of what a run does beside its calls makes frames, variables, closures and objects.  All of it
ends in the environment that it began in, and leaves the fields of all objects as they are.  The
numbers of frames and objects only ever grow.

* `Machine.SameFields`: every field is as it was.
* `Machine.Ahead`: there are no fewer frames and objects than before.
* `Quiet`: a computation that leaves the environment and all fields as they are.

The statements say so of each step, up to the declaration of a class.
-/
import LoxLang.Proofs.Machine.Members

namespace LoxLang

/-- Every field is as it was. -/
def Machine.SameFields (m m' : Machine) : Prop := ∀ id x, m'.field? id x = m.field? id x

/-- Where no field changes the objects have the same fields. -/
theorem Machine.SameFields.of_eq {m m' : Machine} (same : m'.fields = m.fields) :
    m.SameFields m' := fun id x => by rw [field?, field?, same]

/-- And so they have after two such steps. -/
theorem Machine.SameFields.trans {m m₁ m₂ : Machine} (first : m.SameFields m₁)
    (second : m₁.SameFields m₂) : m.SameFields m₂ := fun id x =>
  (second id x).trans (first id x)

/-- There are no fewer frames and no fewer objects than before. -/
structure Machine.Ahead (m m' : Machine) : Prop where
  frames : m.store.frames.size ≤ m'.store.frames.size
  objects : m.fields.size ≤ m'.fields.size

theorem Machine.Ahead.refl (m : Machine) : m.Ahead m := ⟨Nat.le_refl _, Nat.le_refl _⟩

/-- Numbers that were given out stay so. -/
theorem Machine.Ahead.trans {m m₁ m₂ : Machine} (first : m.Ahead m₁) (second : m₁.Ahead m₂) :
    m.Ahead m₂ :=
  ⟨Nat.le_trans first.frames second.frames, Nat.le_trans first.objects second.objects⟩

/-- Every field is as it was, and no frame or object is lost. -/
structure Machine.Calm (m m' : Machine) : Prop where
  fields : m.SameFields m'
  ahead : m.Ahead m'

/-- The store and the fields are the same. -/
theorem Machine.Calm.of_eq {m m' : Machine} (store : m'.store = m.store)
    (fields : m'.fields = m.fields) : m.Calm m' :=
  ⟨.of_eq fields, Nat.le_of_eq (by rw [store]), Nat.le_of_eq (by rw [fields])⟩

theorem Machine.Calm.refl (m : Machine) : m.Calm m := .of_eq rfl rfl

/-- Calm steps in a row are calm. -/
theorem Machine.Calm.trans {m m₁ m₂ : Machine} (first : m.Calm m₁) (second : m₁.Calm m₂) :
    m.Calm m₂ := ⟨first.fields.trans second.fields, first.ahead.trans second.ahead⟩

/-- The environment and every field are as they were, and no frame or object is lost. -/
structure Machine.Undisturbed (m m' : Machine) : Prop where
  environment : m'.environment = m.environment
  calm : m.Calm m'

theorem Machine.Undisturbed.refl (m : Machine) : m.Undisturbed m := ⟨rfl, .refl m⟩

/-- Undisturbed steps in a row are undisturbed. -/
theorem Machine.Undisturbed.trans {m m₁ m₂ : Machine} (first : m.Undisturbed m₁)
    (second : m₁.Undisturbed m₂) : m.Undisturbed m₂ :=
  ⟨second.environment.trans first.environment, first.calm.trans second.calm⟩

/-- The computation leaves the environment and all fields as they are, and loses nothing. -/
def Quiet {α : Type} (act : Run α) : Prop :=
  ∀ m : Machine, m.Undisturbed (act m : Except Failure α × Machine).2

/-! ## Steps in a row -/

section Steps

variable {α β : Type} {act : Run α} {next : α → Run β}

/-- Quiet steps in a row are quiet, whether the first one fails or not. -/
theorem Quiet.bind (first : Quiet act) (second : ∀ a, Quiet (next a)) : Quiet (act >>= next) := by
  intro m
  have same := first m
  rw [run_bind]
  rcases run : (act m : Except Failure α × Machine) with ⟨_ | a, m₁⟩
  · rwa [run] at same
  · rw [run] at same
    exact same.trans (second a m₁)

theorem quiet_pure (a : α) : Quiet (pure a : Run α) := fun m => .refl m

theorem quiet_throw (failure : Failure) : Quiet (throw failure : Run α) := fun m => .refl m

theorem quiet_get : Quiet (get : Run Machine) := fun m => .refl m

/-- A change of anything but the environment, the frames and the fields. -/
theorem quiet_modifyGet {f : Machine → α × Machine}
    (same : ∀ m, (f m).2.environment = m.environment ∧ (f m).2.store = m.store ∧
      (f m).2.fields = m.fields) :
    Quiet (modifyGet f : Run α) := fun m => ⟨(same m).1, .of_eq (same m).2.1 (same m).2.2⟩

/-- To give up with a failure is quiet. -/
theorem quiet_orFail (r : Except Failure α) : Quiet (orFail r) := by
  cases r with
  | ok a => exact quiet_pure a
  | error failure => exact quiet_throw failure

/-- Whether an overflow is caught or not, the machine is the same. -/
theorem machine_catchOverflow (token : Option Token) (act : Run α) (m : Machine) :
    (catchOverflow token act m : Except Failure α × Machine).2 = (act m).2 := by
  rw [catchOverflow, run_tryCatch]
  rcases (act m : Except Failure α × Machine) with ⟨failure | a, m₁⟩
  · cases failure <;> rfl
  · rfl

end Steps

/-! ## Variables, closures and objects -/

/-- A name of a frame gets another state. -/
theorem quiet_put (frame : Machine → FrameId) (name : String) (slot : Slot Value) :
    Quiet (modify fun m => { m with store := m.store.put (frame m) name slot }) := fun _ =>
  ⟨rfl, .of_eq rfl, Nat.le_of_eq (Store.size_put ..).symm, Nat.le_refl _⟩

/-- To put a value into a frame changes no field. -/
theorem quiet_defineIn (env : Environment) (name : String) (v : Value) :
    Quiet (defineIn env name v) := quiet_put (fun _ => innermost env) name (.value v)

theorem quiet_defineHere (name : String) (v : Value) : Quiet (defineHere name v) :=
  quiet_get.bind fun _ => quiet_defineIn _ name v

theorem quiet_declareHere (name : String) : Quiet (declareHere name) :=
  quiet_put (fun m => innermost m.environment) name .uninitialized

/-- To read a reference changes nothing. -/
theorem quiet_readRef (ref : Reference Distance) : Quiet (readRef ref) := by
  refine quiet_get.bind fun m => ?_
  cases ref.mark with
  | none => exact quiet_orFail _
  | some distance => exact quiet_orFail _

/-- To assign to a reference changes a frame, and no field. -/
theorem quiet_writeRef (ref : Reference Distance) (v : Value) : Quiet (writeRef ref v) :=
  quiet_get.bind fun _ => (quiet_orFail _).bind fun k => quiet_put (fun _ => k) ref.name (.value v)

/-- A new frame has no fields of objects. -/
theorem quiet_newFrame (env : Environment) : Quiet (newFrame env) := fun m => by
  have more : m.store.frames.size ≤ m.store.addFrame.frames.size := by simp [Store.addFrame]
  exact ⟨rfl, .of_eq rfl, more, Nat.le_refl _⟩

/-- A closure takes a number, as every closure does. -/
theorem quiet_newClosure (name : Option Token) (params : List Token) (body : List (Stmt Distance))
    (env : Environment) (kind : ClosureKind) : Quiet (newClosure name params body env kind) :=
  quiet_modifyGet fun _ => ⟨rfl, rfl, rfl⟩

/-- A new object has no fields, no more than a number without an object. -/
theorem quiet_newObject : Quiet newObject := by
  intro m
  have more : m.fields.size ≤ (m.fields.push []).size := by simp
  refine ⟨rfl, fun id x => ?_, Nat.le_refl _, more⟩
  show (m.fields.push [])[id]?.bind _ = m.fields[id]?.bind _
  rw [Array.getElem?_push]
  split
  · rename_i is
    simp [is]
  · rfl

/-- A bound method is a closure over a new frame. -/
theorem quiet_bindMethod (method : Closure) (self : Value) : Quiet (bindMethod method self) :=
  (quiet_newFrame _).bind fun _ => (quiet_defineIn _ _ _).bind fun _ => quiet_newClosure _ _ _ _ _

/-- To read a property changes no field, although it may bind a method. -/
theorem quiet_readProperty (self : Value) (r : Receiver) (name : Token) :
    Quiet (readProperty self r name) := by
  refine quiet_get.bind fun m => ?_
  split
  · exact quiet_pure _
  · split
    · exact quiet_throw _
    · split
      · exact (quiet_bindMethod _ self).bind fun _ => quiet_pure _
      · exact quiet_throw _

/-- Nor does it to read through `super`. -/
theorem quiet_readSuper (ref : Reference Distance) (method : Token) :
    Quiet (readSuper ref method) := by
  unfold readSuper
  split
  · exact quiet_throw _
  · refine quiet_get.bind fun m => (quiet_orFail _).bind fun c => ?_
    refine (quiet_orFail _).bind fun self => ?_
    split
    · split
      · exact (quiet_bindMethod _ self).bind fun _ => quiet_pure _
      · exact quiet_throw _
    · exact quiet_throw _

theorem quiet_printLine (line : String) : Quiet (printLine line) :=
  quiet_modifyGet fun _ => ⟨rfl, rfl, rfl⟩

/-- The clock is no field. -/
theorem quiet_readClock : Quiet readClock := quiet_modifyGet fun _ => ⟨rfl, rfl, rfl⟩

/-! ## Calls and classes -/

/-- To open a call puts its arguments into a new frame. -/
theorem quiet_openCall (f : Closure) (arguments : List Value) : Quiet (openCall f arguments) := by
  have defines : ∀ (env : Environment) (ps : List (Token × Value)),
      Quiet (ps.forM fun p => defineIn env p.1.lexeme p.2) := by
    intro env ps
    induction ps with
    | nil => exact quiet_pure _
    | cons p ps ih => exact (quiet_defineIn _ _ _).bind fun _ => ih
  exact (quiet_newFrame _).bind fun env => (defines env _).bind fun _ => quiet_pure env

theorem quiet_boundObject (f : Closure) : Quiet (callClosure.boundObject f) :=
  quiet_get.bind fun _ => quiet_orFail _

theorem quiet_readParent (fault : RuntimeFault) (ref : Reference Distance) :
    Quiet (readParent fault ref) := by
  refine (quiet_readRef ref).bind fun v => ?_
  split
  · exact quiet_pure _
  · exact quiet_throw _

theorem quiet_readSuperclass (superclass : Option (Reference Distance)) :
    Quiet (readSuperclass superclass) := by
  cases superclass with
  | none => exact quiet_pure _
  | some ref =>
    rw [readSuperclass, map_eq_pure_bind]
    exact (quiet_readParent _ ref).bind fun _ => quiet_pure _

/-- To read the parents of a class changes nothing. -/
theorem quiet_readMixinClasses : ∀ refs, Quiet (readMixinClasses refs)
  | [] => quiet_pure _
  | ref :: refs =>
    (quiet_readParent _ ref).bind fun _ => (quiet_readMixinClasses refs).bind fun _ => quiet_pure _

/-- The closures of a class take a number each. -/
theorem quiet_newMethods (kind : Routine Distance → ClosureKind) (env : Environment) :
    ∀ rs methods, Quiet (newMethods kind env rs methods)
  | [], _ => quiet_pure _
  | _ :: rs, _ => (quiet_newClosure _ _ _ _ _).bind fun _ => quiet_newMethods kind env rs _

/-- The superclass is put into a new frame. -/
theorem quiet_memberEnvironment (superclass : Option Class) :
    Quiet (memberEnvironment superclass) := by
  refine quiet_get.bind fun m => ?_
  cases superclass with
  | none => exact quiet_pure _
  | some c =>
    exact (quiet_newFrame _).bind fun env => (quiet_defineIn _ _ _).bind fun _ => quiet_pure env

theorem quiet_needLevel (left : Nat) : Quiet (needLevel left) := by
  unfold needLevel
  split
  · exact quiet_throw _
  · exact quiet_pure _

/-- A class and its metaclass are new objects without fields. -/
theorem quiet_makeClass (left : Nat) (name : Token) (superclass : Option Class)
    (mixins : List Class) (methods statics : List (Routine Distance)) :
    Quiet (makeClass left name superclass mixins methods statics) := by
  rw [makeClass_eq]
  refine (quiet_memberEnvironment superclass).bind fun env => ?_
  refine (quiet_needLevel left).bind fun _ => ?_
  refine (quiet_newMethods _ env methods []).bind fun _ => ?_
  refine (quiet_newMethods _ env statics []).bind fun _ => ?_
  exact quiet_newObject.bind fun _ => quiet_newObject.bind fun _ => quiet_pure _

/-- So a class declaration changes the fields of no object that was there. -/
theorem quiet_declareClass (left : Nat) (name : Token) (superclass : Option (Reference Distance))
    (mixins : List (Reference Distance)) (methods statics : List (Routine Distance)) :
    Quiet (declareClass left name superclass mixins methods statics) := by
  refine (quiet_readSuperclass superclass).bind fun c => ?_
  refine (quiet_readMixinClasses mixins).bind fun cs => ?_
  refine (quiet_declareHere name.lexeme).bind fun _ => ?_
  exact (quiet_makeClass left name c cs methods statics).bind fun made => quiet_defineHere _ _

end LoxLang
