/-
LoxLang.Proofs.Machine.Lines: the lines of a program do not matter to a run.

A run carries tokens along and blames them when it fails, but it never looks at a line.  A program
whose tokens are on other lines, on a machine whose tokens are on other lines in the same way, does
what the program itself does: it prints the same, and ends with the same value or the same failure,
whose tokens are on other lines.

* `Mimics`: a computation that does the same on other lines.

Main statements: `mimics_eval_exec` and `mimics_runProgram`.
-/
import LoxLang.Proofs.Machine.Members
import LoxLang.Proofs.Machine.Relined
import LoxLang.Proofs.Related

namespace LoxLang

section Steps

variable (f : Nat → Nat) {α α' β β' : Type}

/-- On other lines the second computation does what the first does, and yields what the function
makes of its results. -/
def Mimics (g : α → α') (act : Run α) (act' : Run α') : Prop :=
  Abreast (fun m m' => m' = m.reline f) (fun e e' => e' = e.reline f)
    (fun a a' => a' = g a) act act'

/-- The result of an access, on other lines. -/
def MimicsAs (g : α → α') (r : Except Failure α) (r' : Except Failure α') : Prop :=
  EndsAlike (fun e e' => e' = e.reline f) (fun a a' => a' = g a) r r'

variable {f} {g : α → α'} {h : β → β'} {act : Run α} {act' : Run α'} {next : α → Run β}
  {next' : α' → Run β'}

namespace Mimics

/-- A value is mimicked by what it becomes on the other lines. -/
theorem pure {a : α} {a' : α'} (same : a' = g a) : Mimics f g (Pure.pure a) (Pure.pure a') :=
  Abreast.pure same

/-- A failure is mimicked by the same failure on the other lines. -/
theorem fails {e e' : Failure} (same : e' = e.reline f) : Mimics f g (throw e) (throw e') :=
  Abreast.fails same

/-- Two steps in a row are mimicked if each is, whatever the first one yields. -/
theorem bind (first : Mimics f g act act') (second : ∀ a, Mimics f h (next a) (next' (g a))) :
    Mimics f h (act >>= next) (act' >>= next') := by
  refine Abreast.bind first ?_
  rintro a _ rfl
  exact second a

/-- What is made of the result of a step may differ in the same way as the result. -/
theorem map {j : α → β} {j' : α' → β'} (first : Mimics f g act act')
    (same : ∀ a, j' (g a) = h (j a)) : Mimics f h (j <$> act) (j' <$> act') := by
  refine Abreast.map first ?_
  rintro a _ rfl
  exact same a

theorem gets : Mimics f (Machine.reline f) get get := Abreast.gets

/-- A change of the machine is mimicked if it commutes with the change of lines. -/
theorem modifies {j j' : Machine → Machine} (same : ∀ m, j' (m.reline f) = (j m).reline f) :
    Mimics f id (modify j) (modify j') := by
  refine Abreast.modifies ?_
  rintro m _ rfl
  exact same m

/-- So is a change that yields something. -/
theorem modifyGets {j : Machine → α × Machine} {j' : Machine → α' × Machine}
    (same : ∀ m, j' (m.reline f) = (g (j m).1, (j m).2.reline f)) :
    Mimics f g (modifyGet j) (modifyGet j') := by
  refine Abreast.modifyGets ?_
  rintro m _ rfl
  rw [same m]
  exact ⟨rfl, rfl⟩

/-- Computations that are chosen by a condition that both sides share. -/
theorem ite {c c' : Prop} [Decidable c] [Decidable c'] {other : Run α} {other' : Run α'}
    (same : c' ↔ c) (pos : Mimics f g act act') (neg : Mimics f g other other') :
    Mimics f g (if c then act else other) (if c' then act' else other') :=
  Abreast.ite same (fun _ => pos) fun _ => neg

end Mimics

/-- To give up with a failure is mimicked where the two outcomes correspond. -/
theorem mimics_orFail {r : Except Failure α} {r' : Except Failure α'} (same : MimicsAs f g r r') :
    Mimics f g (orFail r) (orFail r') := by
  cases same with
  | ok same => exact .pure same
  | error same => exact .fails same

/-- An environment is made of frames, which have no lines. -/
theorem mimics_inEnvironment (env : Environment) (same : Mimics f g act act') :
    Mimics f g (inEnvironment env act) (inEnvironment env act') := by
  rintro m _ rfl
  obtain ⟨ends, after⟩ := same { m with environment := env } _ rfl
  exact ⟨ends, congrArg (fun m' : Machine => { m' with environment := m.environment }) after⟩

/-- An overflow is blamed on the token of the call, on whichever line it stands. -/
theorem mimics_catchOverflow (token : Option Token) (same : Mimics f g act act') :
    Mimics f g (catchOverflow token act) (catchOverflow (token.map (Token.reline f)) act') := by
  refine Abreast.catches same ?_
  rintro e _ rfl
  cases e <;> exact .fails rfl

end Steps

/-! ## Frames -/

section Access

variable {f : Nat → Nat}

/-- A new frame gets the same number, whatever the lines. -/
theorem mimics_newFrame (env : Environment) : Mimics f id (newFrame env) (newFrame env) := by
  refine .modifyGets fun m => ?_
  simp only [Machine.reline, Store.size_map, Store.addFrame_map, id_eq]

/-- Giving a name a value commutes with putting tokens on other lines. -/
theorem Store.define_reline (s : Store Value) (id : FrameId) (name : String) (v : Value) :
    (s.map (Value.reline f)).define id name (v.reline f) =
      (s.define id name v).map (Value.reline f) :=
  put_map (Value.reline f) s id name (.value v)

/-- What is stored is the value on the other lines. -/
theorem mimics_defineIn (env : Environment) (name : String) (v : Value) :
    Mimics f id (defineIn env name v) (defineIn env name (v.reline f)) :=
  .modifies fun m => congrArg ({ m.reline f with store := · }) (m.store.define_reline _ name v)

theorem mimics_defineHere (name : String) (v : Value) :
    Mimics f id (defineHere name v) (defineHere name (v.reline f)) :=
  Mimics.gets.bind fun m => mimics_defineIn m.environment name v

theorem mimics_declareHere (name : String) : Mimics f id (declareHere name) (declareHere name) :=
  .modifies fun m => congrArg ({ m.reline f with store := · })
    (Store.put_map (Value.reline f) m.store _ name .uninitialized)

/-! ## Variables -/

/-- A read at a distance finds the same slot, and complains about the same token. -/
theorem mimicsAs_readAt (s : Store Value) (env : Environment) (distance : Nat) (name : String)
    (token : Option Token) :
    MimicsAs f (Value.reline f) (s.readAt env distance name token)
      ((s.map (Value.reline f)).readAt env distance name (token.map (Token.reline f))) := by
  rw [Store.readAt_eq, Store.readAt_eq, Store.ancestor]
  cases env[distance]? with
  | none => exact .error rfl
  | some id =>
    simp only [bind, Except.bind, Store.slot?_map]
    rcases s.slot? id name with _ | _ | v
    · exact .error rfl
    · exact .error rfl
    · exact .ok rfl

/-- A read by name finds the same slot in the same frame, or none in both cases. -/
theorem mimicsAs_read (s : Store Value) (env : Environment) (name : Token) :
    MimicsAs f (Value.reline f) (s.read env name)
      ((s.map (Value.reline f)).read env (name.reline f)) := by
  have found : ((s.map (Value.reline f)).owner? env name.lexeme).bind
      ((s.map (Value.reline f)).slot? · name.lexeme) =
        ((s.owner? env name.lexeme).bind (s.slot? · name.lexeme)).map
          (Slot.map (Value.reline f)) := by
    simp only [Store.owner?_map, Store.slot?_map, Option.map_bind, Function.comp_def]
  simp only [Store.read_eq, Token.lexeme_reline, found]
  rcases (s.owner? env name.lexeme).bind (s.slot? · name.lexeme) with _ | _ | v
  · exact .error rfl
  · exact .error rfl
  · exact .ok rfl

/-- An assignment by name means the same frame. -/
theorem mimicsAs_target (s : Store Value) (env : Environment) (name : Token) :
    MimicsAs f id (s.target env name) ((s.map (Value.reline f)).target env (name.reline f)) := by
  simp only [Store.target, Token.lexeme_reline, Store.owner?_map]
  cases s.owner? env name.lexeme with
  | none => exact .error rfl
  | some id => exact .ok rfl

/-- A reference yields the same value: its distance does not depend on lines. -/
theorem mimics_readRef (ref : Reference Distance) :
    Mimics f (Value.reline f) (readRef ref) (readRef (ref.reline f)) := by
  refine Mimics.gets.bind fun m => ?_
  obtain ⟨token, _ | distance⟩ := ref
  · exact mimics_orFail (mimicsAs_read m.store _ token)
  · exact mimics_orFail (mimicsAs_readAt m.store m.environment distance _ (some token))

/-- An assignment to a reference means the same frame. -/
theorem mimicsAs_targetOf (ref : Reference Distance) (m : Machine) :
    MimicsAs f id (targetOf ref m) (targetOf (ref.reline f) (m.reline f)) := by
  obtain ⟨token, _ | distance⟩ := ref
  · exact mimicsAs_target m.store _ token
  · show MimicsAs f id (Store.ancestor m.environment distance)
      (Store.ancestor m.environment distance)
    unfold Store.ancestor
    cases m.environment[distance]? with
    | none => exact .error rfl
    | some id => exact .ok rfl

/-- A reference is assigned to in the same frame. -/
theorem mimics_writeRef (ref : Reference Distance) (v : Value) :
    Mimics f id (writeRef ref v) (writeRef (ref.reline f) (v.reline f)) := by
  refine Mimics.gets.bind fun m => ?_
  refine (mimics_orFail (mimicsAs_targetOf ref m)).bind fun id => ?_
  exact .modifies fun m => congrArg ({ m.reline f with store := · }) (m.store.define_reline id _ v)

/-! ## Closures, classes and objects -/

/-- A closure keeps its routine as it stands in the text, on its own lines. -/
theorem mimics_newClosure (name : Option Token) (params : List Token)
    (body : List (Stmt Distance)) (env : Environment) (kind : ClosureKind) :
    Mimics f (Closure.reline f) (newClosure name params body env kind)
      (newClosure (name.map (Token.reline f)) (params.map (Token.reline f)) (Stmt.relineAll f body)
        env kind) :=
  .modifyGets fun _ => rfl

theorem mimics_newObject : Mimics f id newObject newObject := by
  refine .modifyGets fun m => ?_
  simp only [Machine.reline, Array.size_map, Array.map_push, mapEntries_nil, id_eq]

/-- A bound method is a closure over a frame of the same number. -/
theorem mimics_bindMethod (method : Closure) (self : Value) :
    Mimics f (Closure.reline f) (bindMethod method self)
      (bindMethod (method.reline f) (self.reline f)) := by
  refine (mimics_newFrame method.environment).bind fun env => ?_
  exact (mimics_defineIn env _ self).bind fun _ => mimics_newClosure _ _ _ env _

/-- A field gets the value on the other lines. -/
theorem mimics_writeField (id : ObjectId) (name : String) (v : Value) :
    Mimics f (fun u => u) (writeField id name v) (writeField id name (v.reline f)) := by
  refine .modifies fun m =>
    congrArg ({ m.reline f with fields := · }) (Array.ext_getElem? fun i => ?_)
  simp only [Machine.reline, Array.getElem?_modify, Array.getElem?_map]
  split
  · cases m.fields[i]? with
    | none => rfl
    | some entries => exact congrArg some (putEntry_mapEntries _ name v entries)
  · rfl

/-- A field comes before a method, and both are found by name alone. -/
theorem mimics_readProperty (self : Value) (r : Receiver) (name : Token) :
    Mimics f (Value.reline f) (readProperty self r name)
      (readProperty (self.reline f) (r.reline f) (name.reline f)) := by
  refine Mimics.gets.bind fun m => ?_
  have field := m.field?_reline f r.id name.lexeme
  simp only [Receiver.reline, Token.lexeme_reline, field]
  cases m.field? r.id name.lexeme with
  | some v => exact .pure rfl
  | none =>
    cases r.cls with
    | none => exact .fails rfl
    | some c =>
      simp only [Option.map_none, Option.map_some, Class.findMethod_reline]
      cases c.findMethod name.lexeme with
      | some method => exact (mimics_bindMethod method self).bind fun _ => .pure rfl
      | none => exact .fails rfl

/-- The superclass and the object come from the same two frames. -/
theorem mimics_readSuper (ref : Reference Distance) (method : Token) :
    Mimics f (Value.reline f) (readSuper ref method)
      (readSuper (ref.reline f) (method.reline f)) := by
  obtain ⟨token, _ | distance⟩ := ref
  · exact .fails rfl
  · refine Mimics.gets.bind fun m => ?_
    refine (mimics_orFail (mimicsAs_readAt m.store _ distance _ (some token))).bind
      fun superclass => ?_
    refine (mimics_orFail (mimicsAs_readAt m.store _ _ _ (some token))).bind fun self => ?_
    cases superclass with
    | «class» c =>
      simp only [Value.reline, Token.lexeme_reline, Class.findMethod_reline]
      cases c.findMethod method.lexeme with
      | some found => exact (mimics_bindMethod found self).bind fun _ => .pure rfl
      | none => exact .fails rfl
    | function | «instance» | nil | bool | number | string | clock => exact .fails rfl

theorem mimics_printLine (line : String) : Mimics f id (printLine line) (printLine line) :=
  .modifies fun _ => rfl

/-- The clock goes on by one reading, whatever the lines. -/
theorem mimics_readClock : Mimics f (Value.reline f) readClock readClock :=
  .modifyGets fun _ => rfl

/-! ## Operators -/

/-- A unary operator looks at the value and complains about its own token. -/
theorem mimicsAs_applyUnary (op : Token) (v : Value) :
    MimicsAs f (Value.reline f) (applyUnary op v) (applyUnary (op.reline f) (v.reline f)) := by
  unfold applyUnary
  rw [Token.kind_reline]
  split
  · cases v <;> first | exact .ok rfl | exact .error rfl
  · exact .ok (by rw [Value.isTruthy_reline]; rfl)
  · exact .ok rfl

/-- Addition looks at the two values and complains about the operator. -/
theorem mimicsAs_applyPlus (op : Token) (v w : Value) :
    MimicsAs f (Value.reline f) (applyPlus op v w)
      (applyPlus (op.reline f) (v.reline f) (w.reline f)) := by
  cases v with
  | string s => exact .ok (by rw [Value.text_reline]; rfl)
  | number x => cases w <;> first | exact .ok rfl | exact .error rfl
  | function | «class» | «instance» | nil | bool | clock => exact .error rfl

/-- An operator on numbers yields a number or a truth value, which has no lines. -/
theorem mimicsAs_applyNumeric (op : Token) (x y : Float) :
    MimicsAs f (Value.reline f) (applyNumeric op x y) (applyNumeric (op.reline f) x y) := by
  unfold applyNumeric
  rw [Token.kind_reline]
  split
  case h_3 =>
    split
    · exact .error rfl
    · exact .ok rfl
  all_goals exact .ok rfl

/-- Equality is that of the values on either lines, `Value.equals_reline`. -/
theorem mimicsAs_applyBinary (v : Value) (op : Token) (w : Value) :
    MimicsAs f (Value.reline f) (applyBinary v op w)
      (applyBinary (v.reline f) (op.reline f) (w.reline f)) := by
  unfold applyBinary
  rw [Token.kind_reline]
  split
  · exact mimicsAs_applyPlus op v w
  · exact .ok (by rw [Value.equals_reline]; rfl)
  · exact .ok (by rw [Value.equals_reline]; rfl)
  · cases v with
    | number x =>
      cases w with
      | number y => exact mimicsAs_applyNumeric op x y
      | function | «class» | «instance» | nil | bool | string | clock => exact .error rfl
    | function | «class» | «instance» | nil | bool | string | clock => exact .error rfl

end Access

/-! ## Sequences and loops -/

section Parts

variable {f : Nat → Nat} {eval eval' : Expr Distance → Run Value}
  {exec exec' : Stmt Distance → Run Completion}

/-- Arguments are evaluated in turn; the first that fails fails on both sides. -/
theorem mimics_evalAll (evals : ∀ e, Mimics f (Value.reline f) (eval e) (eval' (e.reline f))) :
    ∀ es : List (Expr Distance),
      Mimics f (List.map (Value.reline f)) (evalAll eval es)
        (evalAll eval' (Expr.relabelAll f id es))
  | [] => .pure rfl
  | e :: es => (evals e).bind fun _ => (mimics_evalAll evals es).bind fun _ => .pure rfl

/-- Statements are executed in turn, up to the first that does not end normally. -/
theorem mimics_runAll
    (execs : ∀ s, Mimics f (Completion.reline f) (exec s) (exec' (s.reline f))) :
    ∀ ss : List (Stmt Distance),
      Mimics f (Completion.reline f) (runAll exec ss) (runAll exec' (Stmt.relineAll f ss))
  | [] => .pure rfl
  | s :: ss => (execs s).bind fun completion => by
    cases completion with
    | normal => exact mimics_runAll execs ss
    | returned | exited => exact .pure rfl

/-- A block does so in a new frame. -/
theorem mimics_runBlock
    (execs : ∀ s, Mimics f (Completion.reline f) (exec s) (exec' (s.reline f)))
    (body : List (Stmt Distance)) :
    Mimics f (Completion.reline f) (runBlock exec body)
      (runBlock exec' (Stmt.relineAll f body)) := by
  refine Mimics.gets.bind fun m => ?_
  exact (mimics_newFrame m.environment).bind fun env =>
    mimics_inEnvironment env (mimics_runAll execs body)

/-- A loop makes as many turns on both sides, by induction on the turns that it may make. -/
theorem mimics_iterate {condition condition' : Run Value} {body body' : Run Completion}
    (conditions : Mimics f (Value.reline f) condition condition')
    (bodies : Mimics f (Completion.reline f) body body') (turns : Nat) :
    Mimics f (Completion.reline f) (iterate condition body turns)
      (iterate condition' body' turns) := by
  induction turns with
  | zero => exact .fails rfl
  | succ turns ih =>
    refine conditions.bind fun v => ?_
    refine .ite (by rw [Value.isTruthy_reline]) (.pure rfl) ?_
    refine bodies.bind fun completion => ?_
    cases completion with
    | returned v => exact .pure rfl
    | exited keyword =>
      exact .ite (by rw [Token.isBreak_reline]) (.pure rfl) ih
    | normal => exact ih

/-! ## Calls -/

/-- The parameters of a call are named by their lexemes. -/
theorem mimics_openCall (c : Closure) (arguments : List Value) :
    Mimics f id (openCall c arguments)
      (openCall (c.reline f) (arguments.map (Value.reline f))) := by
  refine (mimics_newFrame c.environment).bind fun env => ?_
  refine Mimics.bind (g := fun u => u) ?_ fun _ => .pure rfl
  simp only [Closure.reline, List.zip_map]
  induction c.params.zip arguments with
  | nil => exact .pure rfl
  | cons first rest ih =>
    exact (mimics_defineIn env first.1.lexeme first.2).bind fun _ => ih

/-- The object of an initializer is read from the frame of its binding. -/
theorem mimics_boundObject (c : Closure) :
    Mimics f (Value.reline f) (callClosure.boundObject c) (callClosure.boundObject (c.reline f)) :=
  Mimics.gets.bind fun m => mimics_orFail (mimicsAs_readAt m.store c.environment 0 _ none)

/-- A call ends with the value of its body, with its object, or with a stray exit. -/
theorem mimics_callClosure
    (execs : ∀ s, Mimics f (Completion.reline f) (exec s) (exec' (s.reline f))) (c : Closure)
    (arguments : List Value) :
    Mimics f (Value.reline f) (callClosure exec c arguments)
      (callClosure exec' (c.reline f) (arguments.map (Value.reline f))) := by
  refine (mimics_openCall c arguments).bind fun env => ?_
  refine (mimics_inEnvironment env (mimics_runAll execs c.body)).bind fun completion => ?_
  cases completion with
  | exited keyword => exact .fails rfl
  | returned v => exact .ite Iff.rfl (mimics_boundObject c) (.pure rfl)
  | normal => exact .ite Iff.rfl (mimics_boundObject c) (.pure rfl)

/-- A class makes its object and calls its initializer, if it has one. -/
theorem mimics_instantiate
    (execs : ∀ s, Mimics f (Completion.reline f) (exec s) (exec' (s.reline f))) (c : Class)
    (arguments : List Value) :
    Mimics f (Value.reline f) (instantiate exec c arguments)
      (instantiate exec' (c.reline f) (arguments.map (Value.reline f))) := by
  refine mimics_newObject.bind fun id => ?_
  simp only [Class.findMethod_reline]
  cases c.findMethod initName with
  | none => exact .pure rfl
  | some method =>
    refine (mimics_bindMethod method (.instance ⟨id, c⟩)).bind fun init => ?_
    exact (mimics_callClosure execs init arguments).bind fun _ => .pure rfl

/-- What can be called, and with how many arguments, does not depend on lines. -/
theorem mimicsAs_checkCall (paren : Token) (callee : Value) (given : Nat) :
    MimicsAs f id (checkCall paren callee given)
      (checkCall (paren.reline f) (callee.reline f) given) := by
  unfold checkCall
  rw [Value.arity?_reline]
  split
  · exact .error rfl
  · split
    · exact .ok rfl
    · exact .error rfl

/-- A call of any value that can be called. -/
theorem mimics_invoke
    (execs : ∀ s, Mimics f (Completion.reline f) (exec s) (exec' (s.reline f))) (callee : Value)
    (arguments : List Value) :
    Mimics f (Value.reline f) (invoke exec callee arguments)
      (invoke exec' (callee.reline f) (arguments.map (Value.reline f))) := by
  cases callee with
  | function c => exact mimics_callClosure execs c arguments
  | «class» c => exact mimics_instantiate execs c arguments
  | clock => exact mimics_readClock
  | «instance» | nil | bool | number | string => exact .pure rfl

/-- A getter is called on access, anything else is yielded as it is. -/
theorem mimics_callIfGetter
    (execs : ∀ s, Mimics f (Completion.reline f) (exec s) (exec' (s.reline f))) (v : Value) :
    Mimics f (Value.reline f) (callIfGetter exec v) (callIfGetter exec' (v.reline f)) := by
  cases v with
  | function c => exact .ite Iff.rfl (mimics_callClosure execs c []) (.pure rfl)
  | «class» | clock | «instance» | nil | bool | number | string => exact .pure rfl

/-! ## Classes -/

/-- What a method is called for depends on its name and its form alone. -/
theorem methodKind_reline (r : Routine Distance) : methodKind (r.reline f) = methodKind r := by
  cases r
  rfl

theorem staticKind_reline (r : Routine Distance) : staticKind (r.reline f) = staticKind r := by
  cases r
  rfl

/-- The table of methods has the same names in the same order. -/
theorem mimics_newMethods {kind : Routine Distance → ClosureKind}
    (kinds : ∀ r, kind (r.reline f) = kind r) (env : Environment) :
    ∀ (rs : List (Routine Distance)) (methods : List (String × Closure)),
      Mimics f (mapEntries (Closure.reline f)) (newMethods kind env rs methods)
        (newMethods kind env (Routine.relabelAll f id rs) (mapEntries (Closure.reline f) methods))
  | [], _ => .pure rfl
  | ⟨name, params, body, getter⟩ :: rs, methods => by
    have same := kinds ⟨name, params, body, getter⟩
    simp only [Routine.relabelAll, newMethods, same]
    refine (mimics_newClosure (some name) params body env _).bind fun c => ?_
    simp only [Routine.relabel, Token.lexeme_reline, putEntry_mapEntries]
    exact mimics_newMethods kinds env rs _

/-- A parent is a class on both sides, or there is a failure on both. -/
theorem mimics_readParent (fault : RuntimeFault) (ref : Reference Distance) :
    Mimics f (Class.reline f) (readParent fault ref) (readParent fault (ref.reline f)) := by
  refine (mimics_readRef ref).bind fun v => ?_
  cases v with
  | «class» c => exact .pure rfl
  | function | clock | «instance» | nil | bool | number | string => exact .fails rfl

theorem mimics_readSuperclass (superclass : Option (Reference Distance)) :
    Mimics f (Option.map (Class.reline f)) (readSuperclass superclass)
      (readSuperclass (superclass.map (Reference.reline f))) := by
  cases superclass with
  | none => exact .pure rfl
  | some ref => exact (mimics_readParent _ ref).map fun _ => rfl

theorem mimics_readMixinClasses : ∀ refs : List (Reference Distance),
    Mimics f (List.map (Class.reline f)) (readMixinClasses refs)
      (readMixinClasses (refs.map (Reference.reline f)))
  | [] => .pure rfl
  | ref :: refs =>
    (mimics_readParent _ ref).bind fun _ => (mimics_readMixinClasses refs).bind fun _ => .pure rfl

/-- The frame of the superclass gets the same number. -/
theorem mimics_memberEnvironment (superclass : Option Class) :
    Mimics f id (memberEnvironment superclass)
      (memberEnvironment (superclass.map (Class.reline f))) := by
  refine Mimics.gets.bind fun m => ?_
  cases superclass with
  | none => exact .pure rfl
  | some c =>
    refine (mimics_newFrame m.environment).bind fun env => ?_
    exact (mimics_defineIn env _ (.class c)).bind fun _ => .pure rfl

theorem mimics_needLevel (left : Nat) : Mimics f id (needLevel left) (needLevel left) := by
  unfold needLevel
  split
  · exact .fails rfl
  · exact .pure rfl

/-- A class is made with the same numbers, and with its methods on the other lines. -/
theorem mimics_makeClass (left : Nat) (name : Token) (superclass : Option Class)
    (mixins : List Class) (methods statics : List (Routine Distance)) :
    Mimics f (Class.reline f) (makeClass left name superclass mixins methods statics)
      (makeClass left (name.reline f) (superclass.map (Class.reline f))
        (mixins.map (Class.reline f)) (Routine.relabelAll f id methods)
        (Routine.relabelAll f id statics)) := by
  rw [makeClass_eq, makeClass_eq]
  refine (mimics_memberEnvironment superclass).bind fun env => ?_
  refine (mimics_needLevel left).bind fun _ => ?_
  refine (mimics_newMethods methodKind_reline env methods []).bind fun methods => ?_
  refine (mimics_newMethods staticKind_reline env statics []).bind fun statics => ?_
  refine mimics_newObject.bind fun metaId => ?_
  exact mimics_newObject.bind fun id => .pure (Class.build_reline f ..).symm

/-- A class declaration has the same steps in the same order. -/
theorem mimics_declareClass (left : Nat) (name : Token)
    (superclass : Option (Reference Distance)) (mixins : List (Reference Distance))
    (methods statics : List (Routine Distance)) :
    Mimics f id (declareClass left name superclass mixins methods statics)
      (declareClass left (name.reline f) (superclass.map (Reference.reline f))
        (mixins.map (Reference.reline f)) (Routine.relabelAll f id methods)
        (Routine.relabelAll f id statics)) := by
  refine (mimics_readSuperclass superclass).bind fun superclass => ?_
  refine (mimics_readMixinClasses mixins).bind fun mixins => ?_
  refine (mimics_declareHere name.lexeme).bind fun _ => ?_
  refine (mimics_makeClass left name superclass mixins methods statics).bind fun c => ?_
  exact mimics_defineHere name.lexeme (.class c)

/-! ## Expressions and statements -/

/-- One level of the evaluation is mimicked if the levels below it are. -/
theorem mimics_evalForm
    (evals : ∀ e, Mimics f (Value.reline f) (eval e) (eval' (e.reline f)))
    (execs : ∀ s, Mimics f (Completion.reline f) (exec s) (exec' (s.reline f)))
    (e : Expr Distance) :
    Mimics f (Value.reline f) (evalForm eval exec e) (evalForm eval' exec' (e.reline f)) := by
  cases e with
  | literal v => exact .pure (Value.reline_literal f v).symm
  | grouping e => exact evals e
  | unary op e => exact (evals e).bind fun v => mimics_orFail (mimicsAs_applyUnary op v)
  | binary l op r =>
    exact (evals l).bind fun left => (evals r).bind fun right =>
      mimics_orFail (mimicsAs_applyBinary left op right)
  | logical l op r =>
    refine (evals l).bind fun left => ?_
    refine .ite ?_ (.pure rfl) (evals r)
    simp only [settles, Token.kind_reline, Value.isTruthy_reline]
  | «variable» ref => exact mimics_readRef ref
  | assign ref e =>
    refine (evals e).bind fun v => ?_
    exact (mimics_writeRef ref v).bind fun _ => .pure rfl
  | call h paren es =>
    refine (evals h).bind fun callee => ?_
    refine (mimics_evalAll evals es).bind fun arguments => ?_
    rw [List.length_map]
    refine (mimics_orFail (mimicsAs_checkCall paren callee arguments.length)).bind fun _ => ?_
    exact mimics_catchOverflow (some paren) (mimics_invoke execs callee arguments)
  | get e name =>
    refine (evals e).bind fun v => ?_
    rw [Value.receiver?_reline]
    cases v.receiver? with
    | none => exact .fails rfl
    | some r => exact (mimics_readProperty v r name).bind fun v => mimics_callIfGetter execs v
  | set e name value =>
    refine (evals e).bind fun v => ?_
    rw [Value.receiver?_reline]
    cases v.receiver? with
    | none => exact .fails rfl
    | some r =>
      refine (evals value).bind fun v => ?_
      exact (mimics_writeField r.id name.lexeme v).bind fun _ => .pure rfl
  | this ref => exact mimics_readRef ref
  | super ref method => exact mimics_readSuper ref method
  | function keyword params body =>
    refine Mimics.gets.bind fun m => ?_
    exact (mimics_newClosure none params body m.environment .plain).bind fun _ => .pure rfl

/-- One level of the execution is mimicked if the levels below it are. -/
theorem mimics_execForm (turns left : Nat)
    (evals : ∀ e, Mimics f (Value.reline f) (eval e) (eval' (e.reline f)))
    (execs : ∀ s, Mimics f (Completion.reline f) (exec s) (exec' (s.reline f)))
    (s : Stmt Distance) :
    Mimics f (Completion.reline f) (execForm turns left eval exec s)
      (execForm turns left eval' exec' (s.reline f)) := by
  cases s with
  | missing => exact .pure rfl
  | expression e => exact (evals e).bind fun _ => .pure rfl
  | print e =>
    refine (evals e).bind fun v => ?_
    rw [Value.text_reline]
    exact (mimics_printLine v.text).bind fun _ => .pure rfl
  | var name value =>
    cases value with
    | none => exact (mimics_declareHere name.lexeme).bind fun _ => .pure rfl
    | some e =>
      refine (evals e).bind fun v => ?_
      exact (mimics_defineHere name.lexeme v).bind fun _ => .pure rfl
  | block body => exact mimics_runBlock execs body
  | ifElse c t e =>
    cases e with
    | none =>
      refine (evals c).bind fun v => ?_
      exact .ite (by rw [Value.isTruthy_reline]) (execs t) (.pure rfl)
    | some e =>
      refine (evals c).bind fun v => ?_
      exact .ite (by rw [Value.isTruthy_reline]) (execs t) (execs e)
  | whileLoop c b => exact mimics_iterate (evals c) (execs b) turns
  | ret keyword value =>
    cases value with
    | none => exact .pure rfl
    | some e => exact (evals e).bind fun _ => .pure rfl
  | loopExit keyword => exact .pure rfl
  | function r =>
    obtain ⟨name, params, body, getter⟩ := r
    refine Mimics.gets.bind fun m => ?_
    refine (mimics_newClosure (some name) params body m.environment .plain).bind fun c => ?_
    exact (mimics_defineHere name.lexeme (.function c)).bind fun _ => .pure rfl
  | classDecl name superclass mixins methods statics =>
    exact (mimics_declareClass left name superclass mixins methods statics).bind fun _ => .pure rfl

end Parts

/-! ## Whole runs -/

section Runs

variable (f : Nat → Nat)

/-- On other lines every expression and every statement does the same, whatever the nesting
bound. -/
theorem mimics_eval_exec (turns n : Nat) :
    (∀ e, Mimics f (Value.reline f) (eval turns n e) (eval turns n (e.reline f))) ∧
      ∀ s, Mimics f (Completion.reline f) (exec turns n s) (exec turns n (s.reline f)) := by
  induction n with
  | zero => exact ⟨fun _ => .fails rfl, fun _ => .fails rfl⟩
  | succ n ih =>
    obtain ⟨evals, execs⟩ := ih
    exact ⟨mimics_evalForm evals execs, mimics_execForm turns n evals execs⟩

/-- The statements at top level run in turn, and a stray exit fails on both sides. -/
theorem mimics_runStatements {exec exec' : Stmt Distance → Run Completion}
    (execs : ∀ s, Mimics f (Completion.reline f) (exec s) (exec' (s.reline f))) :
    ∀ ss : List (Stmt Distance),
      Mimics f (fun u => u) (runStatements exec ss) (runStatements exec' (Stmt.relineAll f ss))
  | [] => .pure rfl
  | s :: ss => (execs s).bind fun completion => by
    cases completion with
    | exited keyword => exact .fails rfl
    | normal | returned => exact mimics_runStatements execs ss

/-- On other lines a program does the same. -/
theorem mimics_runProgram (bounds : Bounds) (program : List (Stmt Distance)) :
    Mimics f (fun u => u) (runProgram bounds program)
      (runProgram bounds (Stmt.relineAll f program)) :=
  mimics_catchOverflow none
    (mimics_runStatements f (mimics_eval_exec f bounds.turns bounds.nesting).2 program)

end Runs

/-! ## Programs that stand further down -/

/-- The lines of what was there before, told from those of a program that is new. -/
def oldLine (l : Nat) : Nat := 2 * l

/-- The lines of a program that is new, told from those of what was there before. -/
def newLine (l : Nat) : Nat := 2 * l + 1

/-- Where a line stands if the new program stands so much further down. -/
def placeLine (down l : Nat) : Nat := if l % 2 = 0 then l / 2 else l / 2 + down

/-- On the lines for what was there before, everything stays where it is. -/
theorem placeLine_old (down : Nat) : placeLine down ∘ oldLine = id := by
  funext l
  simp [placeLine, oldLine]

/-- On the lines for what is added, everything is so many lines further down. -/
theorem placeLine_new (down : Nat) : placeLine down ∘ newLine = (· + down) := by
  funext l
  have odd : (2 * l + 1) % 2 = 1 := by omega
  have half : (2 * l + 1) / 2 = l := by omega
  simp [placeLine, newLine, odd, half]

/-- Every line is one of those that stay or one of those that move. -/
theorem placeLine_eq (down l : Nat) :
    placeLine down l = placeLine 0 l ∨ placeLine down l = placeLine 0 l + down := by
  unfold placeLine
  split
  · exact .inl rfl
  · exact .inr rfl

/-- A failure that is blamed on the same token, or on the one so much further down. -/
def Failure.IsBelow (down : Nat) (e e' : Failure) : Prop := e' = e ∨ e' = e.reline (· + down)

/-- A failure is on the line it would be on, or so many lines further down. -/
theorem Failure.isBelow_placeLine (down : Nat) (e : Failure) :
    (e.reline (placeLine 0)).IsBelow down (e.reline (placeLine down)) := by
  have token : ∀ t : Token, t.reline (placeLine down) = t.reline (placeLine 0) ∨
      t.reline (placeLine down) = (t.reline (placeLine 0)).reline (· + down) := fun t =>
    (placeLine_eq down t.line).imp (congrArg ({ t with line := · }))
      (congrArg ({ t with line := · }))
  cases e with
  | runtime t fault =>
    cases t with
    | none => exact .inl rfl
    | some t =>
      exact (token t).imp (congrArg fun t => runtime (some t) fault)
        (congrArg fun t => runtime (some t) fault)
  | internal t fault =>
    cases t with
    | none => exact .inl rfl
    | some t =>
      exact (token t).imp (congrArg fun t => internal (some t) fault)
        (congrArg fun t => internal (some t) fault)
  | overflow => exact .inl rfl
  | unfinished => exact .inl rfl

/-- What a run shows of itself does not depend on where the program stands: it prints the same, and
a failure is the same but for the line of its token. -/
theorem runProgram_below (down : Nat) (bounds : Bounds) (program : List (Stmt Distance))
    (m : Machine) :
    let here := (runProgram bounds program m : Except Failure Unit × Machine)
    let below := (runProgram bounds (Stmt.relineAll (· + down) program) m :
      Except Failure Unit × Machine)
    below.2.output = here.2.output ∧ EndsAlike (Failure.IsBelow down) Eq here.1 below.1 := by
  -- One run over lines that tell old tokens from new ones has both runs as its images.
  have image : ∀ d : Nat,
      EndsAlike (fun e e' => e' = e.reline (placeLine d)) (fun u u' => u' = u)
          (runProgram bounds (Stmt.relineAll newLine program) (m.reline oldLine) :
            Except Failure Unit × Machine).1
          (runProgram bounds (Stmt.relineAll (· + d) program) m : Except Failure Unit × Machine).1 ∧
        (runProgram bounds (Stmt.relineAll (· + d) program) m : Except Failure Unit × Machine).2 =
          Machine.reline (placeLine d) (runProgram bounds (Stmt.relineAll newLine program)
            (m.reline oldLine) : Except Failure Unit × Machine).2 := by
    intro d
    have machine : m = (m.reline oldLine).reline (placeLine d) := by
      rw [reline_relineMachine, placeLine_old, reline_idMachine]
    have statements : Stmt.relineAll (· + d) program =
        Stmt.relineAll (placeLine d) (Stmt.relineAll newLine program) := by
      simp only [Stmt.relineAll, relabel_relabelStmts, placeLine_new, Function.comp_id]
    rw [statements]
    exact mimics_runProgram (placeLine d) bounds _ (m.reline oldLine) m machine
  obtain ⟨ends, after⟩ := image 0
  obtain ⟨ends', after'⟩ := image down
  have same : Stmt.relineAll (· + 0) program = program := Stmt.relineAll_id program
  rw [same] at ends after
  refine ⟨by rw [after, after']; rfl, ends.branch ends' ?_ fun _ _ _ _ _ => rfl⟩
  rintro e _ _ rfl rfl
  exact Failure.isBelow_placeLine down e

end LoxLang
