/-
LoxLang.Machine.Basic: the state of a running program.

* `Clock`: what a clock shows, reading after reading.
* `Machine`: frames, current environment, fields of objects, counters and printed text.
* `Run`: a computation on a machine that may fail.  A failure keeps the state that was reached.
* `inEnvironment`: runs something in another environment and comes back, however it ends.
* `enterFrame`, `leaveAfter`: the same in two steps, where the way back leads through the link of
  the current environment to the one around it.
* `readRef`, `writeRef`, `readProperty`, `writeField`: access to variables and properties.

Main statement: `environment_inEnvironment`, that the current environment afterwards is the one from
before.
-/
import LoxLang.Value.Class
import LoxLang.Value.Text

namespace LoxLang

/-- A clock: what it shows each time that it is read. -/
structure Clock where
  readings : Nat → Float

namespace Clock

/-- What the clock shows when it is read next. -/
def now (c : Clock) : Float := c.readings 0

/-- The clock behind a reading. -/
def later (c : Clock) : Clock := ⟨fun n => c.readings (n + 1)⟩

/-- The clock that moves on evenly from one reading to the next. -/
def even (first step : Float) : Clock := ⟨fun n => first + n.toFloat * step⟩

/-- A number stands for the clock that begins there and moves on by a thousandth of a second. -/
instance (n : Nat) : OfNat Clock n := ⟨even (.ofNat n) 0.001⟩

end Clock

/-- The state of a running program. -/
structure Machine where
  store : Store Value
  /-- The frames that are in scope at the moment. -/
  environment : Environment
  /-- The fields of every object, by the object's number. -/
  fields : Array (List (String × Value))
  /-- The number of the next closure. -/
  nextClosure : Nat
  clock : Clock
  /-- Everything that was printed. -/
  output : String

/-- The name of the clock, which is global from the beginning. -/
def clockName : String := "clock"

/-- The machine before anything ran. -/
def Machine.start (now : Clock) : Machine where
  store := (Store.start : Store Value).define 0 clockName .clock
  environment := Store.globalEnvironment
  fields := #[]
  nextClosure := 0
  clock := now
  output := ""

/-- A name is present in the frame of the globals. -/
def Machine.isGlobal (m : Machine) (name : String) : Bool := m.store.contains 0 name

/-- A computation on a machine that may fail. -/
abbrev Run (α : Type) := ExceptT Failure (StateM Machine) α

/-! ## Frames -/

/-- Runs something in another environment and returns to the current one, however it ends. -/
def inEnvironment {α : Type} (env : Environment) (act : Run α) : Run α := fun m =>
  let saved := m.environment
  let (result, after) := act { m with environment := env }
  (result, { after with environment := saved })

/-- Whatever runs in another environment, the current one is back afterwards. -/
theorem environment_inEnvironment {α : Type} (env : Environment) (act : Run α) (m : Machine) :
    (inEnvironment env act m).2.environment = m.environment := rfl

/-- A new frame inside an environment. -/
def newFrame (env : Environment) : Run Environment :=
  modifyGet fun m => (m.store.frames.size :: env, { m with store := m.store.addFrame })

/-- Makes a new frame inside the current environment the current one. -/
def enterFrame : Run Unit := do
  let env ← newFrame (← get).environment
  modify fun m => { m with environment := env }

/-- Runs something and then goes back to the environment around the current one, however it ends. -/
def leaveAfter {α : Type} (act : Run α) : Run α := fun m =>
  let (result, after) := act m
  (result, { after with environment := after.environment.tail })

/-- The innermost frame of an environment. -/
def innermost (env : Environment) : FrameId := env.headD 0

/-- Gives a name a value in the innermost frame of an environment. -/
def defineIn (env : Environment) (name : String) (v : Value) : Run Unit :=
  modify fun m => { m with store := m.store.define (innermost env) name v }

/-- Gives a name a value in the current frame. -/
def defineHere (name : String) (v : Value) : Run Unit := do defineIn (← get).environment name v

/-- Declares a name without a value in the current frame. -/
def declareHere (name : String) : Run Unit :=
  modify fun m => { m with store := m.store.declare (innermost m.environment) name }

/-! ## Variables -/

/-- Gives up with the failure of a computation that failed. -/
def orFail {α : Type} : Except Failure α → Run α
  | .ok a => return a
  | .error failure => throw failure

/-- The value of a reference: at its distance if it has one, and otherwise among the globals. -/
def readRef (ref : Reference Distance) : Run Value := do
  let m ← get
  match ref.mark with
  | some distance => orFail (m.store.readAt m.environment distance ref.name (some ref.token))
  | none => orFail (m.store.read Store.globalEnvironment ref.token)

/-- The frame that an assignment to a reference changes: at its distance if it has one, and
otherwise that of the globals. -/
def targetOf (ref : Reference Distance) (m : Machine) : Except Failure FrameId :=
  match ref.mark with
  | some distance => Store.ancestor m.environment distance
  | none => m.store.target Store.globalEnvironment ref.token

/-- Assigns to a reference. -/
def writeRef (ref : Reference Distance) (v : Value) : Run Unit := do
  let id ← orFail (targetOf ref (← get))
  modify fun m => { m with store := m.store.define id ref.name v }

/-! ## Closures, classes and objects -/

/-- A new closure over an environment. -/
def newClosure (name : Option Token) (params : List Token) (body : List (Stmt Distance))
    (environment : Environment) (kind : ClosureKind) : Run Closure :=
  modifyGet fun m =>
    (⟨m.nextClosure, name, params, body, environment, kind⟩,
      { m with nextClosure := m.nextClosure + 1 })

/-- A number for an object without fields. -/
def newObject : Run ObjectId :=
  modifyGet fun m => (m.fields.size, { m with fields := m.fields.push [] })

/-- Binds a method to an object: a new closure inside a new frame that holds the object. -/
def bindMethod (method : Closure) (self : Value) : Run Closure := do
  let env ← newFrame method.environment
  defineIn env thisName self
  newClosure method.name method.params method.body env method.kind

/-- The value of a field of an object. -/
def Machine.field? (m : Machine) (id : ObjectId) (name : String) : Option Value :=
  m.fields[id]?.bind fun entries => entryOf? entries name

/-- Sets a field of an object. -/
def writeField (id : ObjectId) (name : String) (v : Value) : Run Unit :=
  modify fun m => { m with fields := m.fields.modify id (putEntry name v) }

/-- The property of an object: its field of that name, or a method of its class bound to it. -/
def readProperty (self : Value) (r : Receiver) (name : Token) : Run Value := do
  match (← get).field? r.id name.lexeme with
  | some v => return v
  | none =>
    match r.cls with
    | none => throw (.internal (some name) (.propertyOfMetaclass name.lexeme))
    | some c =>
      match c.findMethod name.lexeme with
      | some method => return .function (← bindMethod method self)
      | none => throw (.runtime (some name) (.undefinedProperty name.lexeme))

/-- The method of the superclass that `super.method` means, bound to the current object.  The object
is one scope inside the superclass. -/
def readSuper (ref : Reference Distance) (method : Token) : Run Value := do
  match ref.mark with
  | none => throw (.internal (some ref.token) .superNotResolved)
  | some distance =>
    let m ← get
    let superclass ← orFail (m.store.readAt m.environment distance superName (some ref.token))
    let self ← orFail (m.store.readAt m.environment (distance - 1) thisName (some ref.token))
    match superclass with
    | .class c =>
      match c.findMethod method.lexeme with
      | some found => return .function (← bindMethod found self)
      | none => throw (.runtime (some method) (.undefinedProperty method.lexeme))
    | _ => throw (.internal (some ref.token) .superNotResolved)

/-! ## Printing and the clock -/

/-- Prints a line. -/
def printLine (line : String) : Run Unit :=
  modify fun m => { m with output := m.output ++ line ++ "\n" }

/-- Reads the clock. -/
def readClock : Run Value :=
  modifyGet fun m => (.number m.clock.now, { m with clock := m.clock.later })

end LoxLang
