/-
LoxLang.Proofs.Machine.Globals: which names a run makes global.

A name is put into the frame of the globals by a declaration at top level and by nothing else.
Everything inside a block or a routine declares its names in a frame of its own, and an assignment
over a distance never reaches the globals: it stops at the frame of some scope.

* `Moment.IsInner`: the assignments that follow stop short of the globals.
* `Adds`: the names that a computation makes global.

Main statements: `Moment.Sound.isInner`; `adds_eval_exec`, that what is inner adds nothing, and
`adds_runStatements`, that a program adds the names that it introduces.
-/
import LoxLang.Proofs.Machine.Reached
import LoxLang.Proofs.Machine.Steady

namespace LoxLang

/-! ## Names that become global -/

/-- If the computation ends with a result, the names are global behind it beside those that were
before. -/
def Adds {α : Type} (names : List String) (m : Machine) (act : Run α) : Prop :=
  0 < m.store.frames.size → Ends act m
    (fun _ m' => 0 < m'.store.frames.size ∧
      ∀ x, m'.isGlobal x = true ↔ m.isGlobal x = true ∨ x ∈ names)
    fun _ _ => True

section Steps

variable {α β : Type} {m : Machine} {act : Run α} {next : α → Run β} {xs ys : List String}

namespace Adds

/-- What two steps in a row add is what each of them adds. -/
theorem bind (first : Adds xs m act)
    (second : ∀ a m', (act m : Except Failure α × Machine) = (.ok a, m') → Adds ys m' (next a)) :
    Adds (xs ++ ys) m (act >>= next) := by
  intro positive
  refine (first positive).bind (fun a m' run post => ?_) fun _ _ _ => trivial
  refine (second a m' run post.1).mono (fun b m'' _ post' => ⟨post'.1, fun x => ?_⟩) fun _ _ h => h
  rw [post'.2, post.2, List.mem_append, or_assoc]

/-- The same names may be listed in another way. -/
theorem mono (h : Adds xs m act) (same : ∀ x, x ∈ xs ↔ x ∈ ys) : Adds ys m act := by
  intro positive
  refine (h positive).mono (fun a m' _ post => ⟨post.1, fun x => ?_⟩) fun _ _ h => h
  rw [post.2, same]

/-- A change of anything but the frames. -/
theorem of_store {a : α} {m' : Machine} (run : (act m : Except Failure α × Machine) = (.ok a, m'))
    (same : m'.store = m.store) : Adds [] m act := by
  intro positive
  unfold Ends
  rw [run]
  have global : ∀ x, m'.isGlobal x = m.isGlobal x := fun x => by
    rw [Machine.isGlobal, same, Machine.isGlobal]
  refine ⟨by rwa [same], fun x => ?_⟩
  simp [global]

/-- To yield a value adds no name. -/
theorem pure (a : α) : Adds [] m (Pure.pure a : Run α) := of_store rfl rfl

/-- A failure may leave names out, but adds no others. -/
theorem throws (failure : Failure) : Adds xs m (throw failure : Run α) := fun _ => trivial

/-- What is made of the result adds nothing. -/
theorem map {f : α → β} (h : Adds xs m act) : Adds xs m (f <$> act) := by
  intro positive
  rw [ends_map]
  exact h positive

end Adds

theorem adds_get : Adds [] m (get : Run Machine) := .of_store rfl rfl

/-- To give up with a failure adds nothing. -/
theorem adds_orFail (r : Except Failure α) : Adds [] m (orFail r) := by
  cases r with
  | ok a => exact .pure a
  | error failure => exact .throws failure

/-- The store is the same one in another environment. -/
theorem adds_inEnvironment {env : Environment} (h : Adds xs (m.within env) act) :
    Adds xs m (inEnvironment env act) := fun positive =>
  ends_inEnvironment.mpr (h positive)

/-- An overflow that is caught stays a failure. -/
theorem adds_catchOverflow {token : Option Token} (h : Adds xs m act) :
    Adds xs m (catchOverflow token act) := by
  intro positive
  refine ends_tryCatch.mpr ((h positive).mono (fun _ _ _ post => post) fun failure _ _ => ?_)
  cases failure <;> exact trivial

/-! ## Changes of frames -/

/-- The name, if it is put into the frame of the globals. -/
def atTop (env : Environment) (name : String) : List String :=
  if innermost env = 0 then [name] else []

/-- Inside a frame no name is global. -/
theorem atTop_of_inside {env : Environment} (inside : innermost env ≠ 0) (name : String) :
    atTop env name = [] := if_neg inside

/-- Giving a name a state in a frame makes it global if the frame is that of the globals. -/
theorem isGlobal_put (m : Machine) (id : FrameId) (name : String) (slot : Slot Value)
    (positive : 0 < m.store.frames.size) (x : String) :
    ({ m with store := m.store.put id name slot } : Machine).isGlobal x = true ↔
      m.isGlobal x = true ∨ (id = 0 ∧ x = name) := by
  show (m.store.put id name slot).contains 0 x = true ↔ _
  by_cases same : id = 0 ∧ x = name
  · obtain ⟨rfl, rfl⟩ := same
    simp [m.store.contains_put_self positive]
  · have apart : 0 ≠ id ∨ x ≠ name := by grind
    rw [Store.contains_eq, m.store.slot?_put_of_ne apart, Machine.isGlobal, Store.contains_eq]
    simp [same]

/-- Putting a name into the innermost frame of an environment. -/
theorem adds_put {env : Environment} {name : String} (slot : Slot Value) {a : α}
    (run : (act m : Except Failure α × Machine) =
      (.ok a, { m with store := m.store.put (innermost env) name slot })) :
    Adds (atTop env name) m act := by
  intro positive
  unfold Ends
  rw [run]
  refine ⟨by simpa using positive, fun x => ?_⟩
  rw [isGlobal_put m _ name slot positive, atTop]
  split <;> simp_all

/-- A name that gets a value at top level is global from then on. -/
theorem adds_defineIn (env : Environment) (name : String) (v : Value) :
    Adds (atTop env name) m (defineIn env name v) := adds_put (.value v) rfl

theorem adds_defineHere (name : String) (v : Value) :
    Adds (atTop m.environment name) m (defineHere name v) := adds_put (.value v) rfl

/-- So is a name that is declared there without a value. -/
theorem adds_declareHere (name : String) :
    Adds (atTop m.environment name) m (declareHere name) := adds_put .uninitialized rfl

/-- A new frame is empty, and is not that of the globals. -/
theorem adds_newFrame (env : Environment) : Adds [] m (newFrame env) := by
  intro positive
  refine ⟨by simp, fun x => ?_⟩
  show m.store.addFrame.contains 0 x = true ↔ _
  simp [Machine.isGlobal]

/-- What happens behind a new frame, which is not that of the globals. -/
theorem adds_inFrame {outer : Environment} {next : Environment → Run β}
    (second : ∀ env m', (newFrame outer m : Except Failure Environment × Machine) = (.ok env, m') →
      innermost env ≠ 0 → Adds [] m' (next env)) : Adds [] m (newFrame outer >>= next) := by
  intro positive
  refine (adds_newFrame outer).bind (fun env m' run => second env m' run ?_) positive
  cases run
  exact Nat.pos_iff_ne_zero.mp positive

/-- Inside a frame nothing becomes global. -/
theorem adds_defineInside {env : Environment} (inside : innermost env ≠ 0) (name : String)
    (v : Value) : Adds [] m (defineIn env name v) := by
  have adds := adds_defineIn (m := m) env name v
  rwa [atTop_of_inside inside] at adds

/-! ## Steps that add nothing -/

/-- To read a reference adds nothing, even if it fails. -/
theorem adds_readRef (ref : Reference Distance) : Adds [] m (readRef ref) := by
  refine adds_get.bind fun m' _ _ => ?_
  cases ref.mark with
  | none => exact adds_orFail _
  | some d => exact adds_orFail _

/-- An assignment that stops short of the globals, unless it goes by the name. -/
theorem adds_writeRef {ref : Reference Distance} (v : Value)
    (inner : ∀ d, ref.mark = some d → m.environment[d]? ≠ some 0) : Adds [] m (writeRef ref v) := by
  refine adds_get.bind fun m' _ run => ?_
  cases run
  refine (adds_orFail _).bind fun id m' run => ?_
  have run : (orFail (targetOf ref m) m : Except Failure FrameId × Machine) = (.ok id, m') := run
  cases target : targetOf ref m with
  | error failure =>
    rw [target] at run
    cases run
  | ok id' =>
    rw [target] at run
    cases run
    intro positive
    refine ⟨by simpa [Store.define] using positive, fun x => ?_⟩
    have put := isGlobal_put m id ref.name (.value v) positive x
    refine put.trans ⟨?_, fun global => .inl (by simpa using global)⟩
    rintro (global | ⟨rfl, rfl⟩)
    · exact .inl global
    · refine .inl ?_
      unfold targetOf at target
      split at target
      · rename_i d mark
        rw [Store.ancestor] at target
        split at target
        · rename_i found
          cases target
          exact absurd found (inner d mark)
        · cases target
      · rw [Store.target] at target
        split at target
        · rename_i owner
          cases target
          have found := List.find?_some owner
          exact found
        · cases target

theorem adds_newClosure (name : Option Token) (params : List Token) (body : List (Stmt Distance))
    (env : Environment) (kind : ClosureKind) : Adds [] m (newClosure name params body env kind) :=
  .of_store rfl rfl

/-- The frame of a bound method is a new one. -/
theorem adds_bindMethod (method : Closure) (self : Value) : Adds [] m (bindMethod method self) :=
  adds_inFrame fun _ _ _ inside =>
    (adds_defineInside inside _ _).bind fun _ _ _ => adds_newClosure _ _ _ _ _

theorem adds_readProperty (self : Value) (r : Receiver) (name : Token) :
    Adds [] m (readProperty self r name) := by
  refine adds_get.bind fun m' _ _ => ?_
  split
  · exact .pure _
  · split
    · exact .throws _
    · split
      · exact (adds_bindMethod _ self).bind fun _ _ _ => .pure _
      · exact .throws _

theorem adds_readSuper (ref : Reference Distance) (method : Token) :
    Adds [] m (readSuper ref method) := by
  unfold readSuper
  split
  · exact .throws _
  · refine adds_get.bind fun m' _ _ => ?_
    refine (adds_orFail _).bind fun superclass _ _ => ?_
    refine (adds_orFail _).bind fun self _ _ => ?_
    split
    · split
      · exact (adds_bindMethod _ self).bind fun _ _ _ => .pure _
      · exact .throws _
    · exact .throws _

theorem adds_readParent (fault : RuntimeFault) (ref : Reference Distance) :
    Adds [] m (readParent fault ref) := by
  refine (adds_readRef ref).bind fun v _ _ => ?_
  split
  · exact .pure _
  · exact .throws _

/-- To read the parents of a class adds nothing. -/
theorem adds_readMixinClasses : ∀ (refs : List (Reference Distance)) (m : Machine),
    Adds [] m (readMixinClasses refs)
  | [], _ => .pure _
  | ref :: refs, _ => (adds_readParent _ ref).bind fun _ _ _ =>
    (adds_readMixinClasses refs _).bind fun _ _ _ => .pure _

/-- Nor does it to make closures. -/
theorem adds_newMethods (kind : Routine Distance → ClosureKind) (env : Environment) :
    ∀ (rs : List (Routine Distance)) (methods : List (String × Closure)) (m : Machine),
      Adds [] m (newMethods kind env rs methods)
  | [], _, _ => .pure _
  | _ :: rs, _, _ => (adds_newClosure _ _ _ _ _).bind fun _ _ _ => adds_newMethods kind env rs _ _

theorem adds_needLevel (left : Nat) : Adds [] m (needLevel left) := by
  unfold needLevel
  split
  · exact .throws _
  · exact .pure _

/-- The frame of the superclass is a new one, so that a class adds no global of its own. -/
theorem adds_makeClass (left : Nat) (name : Token) (superclass : Option Class)
    (mixins : List Class) (methods statics : List (Routine Distance)) :
    Adds [] m (makeClass left name superclass mixins methods statics) := by
  have environment : Adds [] m (memberEnvironment superclass) := by
    refine adds_get.bind fun m' _ _ => ?_
    cases superclass with
    | none => exact .pure _
    | some c => exact adds_inFrame fun _ _ _ inside =>
        (adds_defineInside inside _ _).bind fun _ _ _ => .pure _
  rw [makeClass_eq]
  refine environment.bind fun env _ _ => (adds_needLevel left).bind fun _ _ _ => ?_
  refine (adds_newMethods _ env methods [] _).bind fun _ _ _ => ?_
  refine (adds_newMethods _ env statics [] _).bind fun _ _ _ => ?_
  have object : ∀ m : Machine, Adds [] m newObject := fun _ => .of_store rfl rfl
  exact (object _).bind fun _ _ _ => (object _).bind fun _ _ _ => .pure _

/-- Declaring a class declares its name. -/
theorem adds_declareClass (left : Nat) (name : Token) (superclass : Option (Reference Distance))
    (mixins : List (Reference Distance)) (methods statics : List (Routine Distance)) :
    Adds (atTop m.environment name.lexeme) m
      (declareClass left name superclass mixins methods statics) := by
  have parent : Adds [] m (readSuperclass superclass) := by
    cases superclass with
    | none => exact .pure _
    | some ref => exact (adds_readParent _ ref).map
  let here := atTop m.environment name.lexeme
  have all : Adds ([] ++ ([] ++ (here ++ ([] ++ here)))) m
      (declareClass left name superclass mixins methods statics) := by
    refine parent.bind fun c m₁ run => (adds_readMixinClasses mixins m₁).bind fun cs m₂ run₁ => ?_
    have environment : m₂.environment = m.environment :=
      ((quiet_readMixinClasses mixins).steady.of_run run₁).trans
        ((quiet_readSuperclass superclass).steady.of_run run)
    refine Adds.bind ?_ fun _ m₃ run₂ =>
      (adds_makeClass left name c cs methods statics).bind fun made m₄ run₃ => ?_
    · have declared := adds_declareHere (m := m₂) name.lexeme
      rwa [environment] at declared
    · have defined := adds_defineHere (m := m₄) name.lexeme (.class made)
      cases run₂
      have kept := steady_makeClass left name c cs methods statics
      rwa [kept.of_run run₃, environment] at defined
  exact all.mono fun x => by simp [here]

end Steps

/-! ## What happens inside -/

/-- An assignment over a distance stops short of the globals. -/
def Moment.Stops (M : Moment) : Prop :=
  ∀ n ref e d, M.activity = .eval (n + 1) (.assign ref e) → ref.mark = some d →
    M.machine.environment[d]? ≠ some 0

/-- So do all assignments that follow. -/
def Moment.IsInner (turns : Nat) (M : Moment) : Prop := ∀ M', Reaches turns M M' → M'.Stops

/-- What starts from an inner moment is inner. -/
theorem Moment.IsInner.starts {turns : Nat} {M M' : Moment} (inner : M.IsInner turns)
    (starts : Starts turns M M') : M'.IsInner turns :=
  fun N reaches => inner N (.head starts reaches)

/-- Whatever follows a sound moment is inner: a recorded distance leads to the frame of a scope. -/
theorem Moment.Sound.isInner {W : World} {M : Moment} (lawful : W.Lawful) (sound : M.Sound W) :
    M.IsInner W.turns := by
  rintro ⟨activity, m⟩ reaches n ref e d rfl mark
  obtain ⟨ed, around, levels, e₀, w, stands, same⟩ :=
    placed_eval (sound.reaches lawful reaches).placed
  cases e₀ with
  | assign ref₀ e₁ =>
    cases same
    obtain ⟨_, _, _, _, _, level, _⟩ := stands.ancestor lawful rfl mark
    exact stands.frames.mirrors.ne_globals level
  | _ => cases same

/-- What is inner adds no global name: an expression wherever it stands. -/
def EvalsInside (turns n : Nat) : Prop :=
  ∀ {e m}, Moment.IsInner turns ⟨.eval n e, m⟩ → Adds [] m (eval turns n e)

/-- The same of a statement, unless it introduces a name at top level. -/
def ExecsInside (turns n : Nat) : Prop :=
  ∀ {s m}, Moment.IsInner turns ⟨.exec n s, m⟩ →
    (innermost m.environment = 0 → s.introduces = []) → Adds [] m (exec turns n s)

section Inside

variable {turns n : Nat} {m m₁ m₂ : Machine}

/-! ### Sequences and loops -/

/-- Inside a frame the statements of a block add nothing. -/
theorem adds_runAll (execs : ExecsInside turns n) : ∀ {ss : List (Stmt Distance)} {m : Machine},
    Moment.IsInner turns ⟨.runAll n ss, m⟩ → innermost m.environment ≠ 0 →
      Adds [] m (runAll (exec turns n) ss)
  | [], _, _, _ => .pure _
  | s :: ss, m, inner, inside => by
    refine (execs (inner.starts .statement) fun top => absurd top inside).bind
      fun completion m₁ run => ?_
    have environment := (steady_exec turns n s).of_run run
    cases completion with
    | normal => exact adds_runAll execs (inner.starts (.statements run)) (environment ▸ inside)
    | returned v => exact .pure _
    | exited keyword => exact .pure _

/-- Nor does a loop, at top level either: its body introduces no name there. -/
theorem adds_iterate (evals : EvalsInside turns n) (execs : ExecsInside turns n)
    {c : Expr Distance} {b : Stmt Distance} : ∀ {left : Nat} {m : Machine},
    Moment.IsInner turns ⟨.iterate n c b left, m⟩ →
      (innermost m.environment = 0 → b.introduces = []) →
      Adds [] m (iterate (eval turns n c) (exec turns n b) left)
  | 0, _, _, _ => .throws _
  | left + 1, m, inner, closed => by
    refine (evals (inner.starts .condition)).bind fun v m₁ run => ?_
    have environment := (steady_eval turns n c).of_run run
    cases holds : v.isTruthy with
    | false => exact .pure _
    | true =>
      refine (execs (inner.starts (.turn run holds)) (environment ▸ closed)).bind
        fun completion m₂ run₁ => ?_
      have environment₁ := (steady_exec turns n b).of_run run₁
      have goOn : completion.GoesOn →
          Adds [] m₂ (iterate (eval turns n c) (exec turns n b) left) := fun goesOn =>
        adds_iterate evals execs (inner.starts (.again run holds run₁ goesOn))
          (environment₁ ▸ environment ▸ closed)
      cases completion with
      | normal => exact goOn trivial
      | returned u => exact .pure _
      | exited keyword =>
        dsimp only
        cases isBreak : keyword.isBreak with
        | true => exact .pure _
        | false => exact goOn isBreak

/-- Nor do arguments, one after the other. -/
theorem adds_evalAll (evals : EvalsInside turns n) {f : Expr Distance} {paren : Token}
    {es : List (Expr Distance)} {callee : Value}
    (inner : Moment.IsInner turns ⟨.eval (n + 1) (.call f paren es), m⟩)
    (run : eval turns n f m = (.ok callee, m₁)) :
    ∀ {rest before : List (Expr Distance)} {vs : List Value} {m₂ : Machine}, es = before ++ rest →
      evalAll (eval turns n) before m₁ = (.ok vs, m₂) → Adds [] m₂ (evalAll (eval turns n) rest)
  | [], _, _, _, _, _ => .pure _
  | e :: rest, before, vs, m₂, split, run₁ => by
    have starts : Starts turns ⟨.eval (n + 1) (.call f paren es), m⟩ ⟨.eval n e, m₂⟩ := by
      subst split
      exact .argument run run₁
    refine (evals (inner.starts starts)).bind fun v m₃ run₂ => ?_
    have split' : es = (before ++ [e]) ++ rest := by simpa using split
    have behind := adds_evalAll evals inner run split' (run_evalAll_append run₁ run₂)
    exact behind.bind fun _ _ _ => .pure _

/-! ### Calls -/

/-- The frame of a call is a new one. -/
theorem adds_openCall (f : Closure) (arguments : List Value) :
    Adds [] m (openCall f arguments) := by
  refine adds_inFrame fun env m' _ inside => ?_
  have defines : ∀ (ps : List (Token × Value)) (m : Machine),
      Adds [] m (ps.forM fun p => defineIn env p.1.lexeme p.2) := by
    intro ps
    induction ps with
    | nil => exact fun _ => .pure _
    | cons p ps ih => exact fun _ => (adds_defineInside inside _ _).bind fun _ _ _ => ih _
  exact (defines _ _).bind fun _ _ _ => .pure _

/-- A call runs in a frame of its own. -/
theorem innermost_openCall {f : Closure} {arguments : List Value} {env : Environment}
    (positive : 0 < m.store.frames.size) (run : openCall f arguments m = (.ok env, m₁)) :
    innermost env ≠ 0 := by
  have opened : Ends (openCall f arguments) m (fun env _ => innermost env ≠ 0) fun _ _ => True := by
    refine (Ends.of_run (fun env m' run => ?_) fun _ _ _ => trivial :
      Ends (newFrame f.environment) m (fun env _ => innermost env ≠ 0) fun _ _ => True).bind
        (fun env m' _ inside => ?_) fun _ _ h => h
    · cases run
      exact Nat.pos_iff_ne_zero.mp positive
    · refine (Ends.of_run (fun _ _ _ => trivial) fun _ _ _ => trivial : Ends _ m' (fun _ _ => True)
        fun _ _ => True).bind (fun _ _ _ _ => inside) fun _ _ h => h
  exact opened.ok run

/-- A call runs its body inside its frame. -/
theorem adds_callClosure (execs : ExecsInside turns n) {f : Closure} {arguments : List Value}
    (inner : Moment.IsInner turns ⟨.call n f arguments, m⟩) :
    Adds [] m (callClosure (exec turns n) f arguments) := by
  intro positive
  refine ((adds_openCall f arguments).bind fun env m₁ run => ?_) positive
  have body : Adds [] m₁ (inEnvironment env (runAll (exec turns n) f.body)) :=
    adds_inEnvironment (adds_runAll execs (inner.starts (.body run))
      (innermost_openCall positive run))
  refine body.bind fun completion m₂ _ => ?_
  have object : Adds [] m₂ (callClosure.boundObject f) := adds_get.bind fun _ _ _ => adds_orFail _
  split
  · exact .throws _
  · split
    · exact object
    · exact .pure _
  · split
    · exact object
    · exact .pure _

/-- A call with its callee and its arguments adds nothing. -/
theorem adds_callExpr (evals : EvalsInside turns n) (execs : ExecsInside turns n)
    {f : Expr Distance} {paren : Token} {es : List (Expr Distance)}
    (inner : Moment.IsInner turns ⟨.eval (n + 1) (.call f paren es), m⟩) :
    Adds [] m (eval turns (n + 1) (.call f paren es)) := by
  refine (evals (inner.starts (.first rfl))).bind fun callee m₁ run => ?_
  have none : evalAll (eval turns n) [] m₁ = (.ok [], m₁) := rfl
  refine (adds_evalAll evals inner run (List.nil_append es).symm none).bind fun vs m₂ run₁ => ?_
  refine (adds_orFail _).bind fun _ m₂' run₂ => ?_
  cases check : checkCall paren callee vs.length with
  | error failure =>
    rw [check] at run₂
    cases run₂
  | ok u =>
    rw [check] at run₂
    cases run₂
    refine adds_catchOverflow ?_
    cases callee with
    | function c => exact adds_callClosure execs (inner.starts (.call run run₁ check))
    | clock => exact .of_store rfl rfl
    | «class» c =>
      have object : Adds [] m₂ newObject := .of_store rfl rfl
      refine object.bind fun o m₃ run₃ => ?_
      dsimp only
      cases found : c.findMethod initName with
      | none => exact .pure _
      | some method =>
        refine (adds_bindMethod _ _).bind fun bound m₄ run₄ => ?_
        have started := inner.starts (.callInit run run₁ check found run₃ run₄)
        exact (adds_callClosure execs started).bind fun _ _ _ => .pure _
    | _ => exact .pure _

/-! ### One level -/

/-- An expression adds nothing, given that what it starts does not. -/
theorem adds_eval_succ (evals : EvalsInside turns n) (execs : ExecsInside turns n) :
    EvalsInside turns (n + 1) := by
  intro e m inner
  cases e with
  | literal v => exact .pure _
  | grouping e => exact evals (inner.starts (.first rfl))
  | unary op e => exact (evals (inner.starts (.first rfl))).bind fun _ _ _ => adds_orFail _
  | binary l op r =>
    refine (evals (inner.starts (.first rfl))).bind fun left m₁ run => ?_
    exact (evals (inner.starts (.second rfl run rfl))).bind fun _ _ _ => adds_orFail _
  | logical l op r =>
    refine (evals (inner.starts (.first rfl))).bind fun left m₁ run => ?_
    split
    · exact .pure _
    · rename_i goesOn
      exact evals (inner.starts (.second rfl run (by simp [Expr.second?, goesOn])))
  | «variable» ref => exact adds_readRef ref
  | assign ref e =>
    refine (evals (inner.starts (.first rfl))).bind fun v m₁ run => ?_
    have environment := (steady_eval turns n e).of_run run
    have stops : ∀ d, ref.mark = some d → m₁.environment[d]? ≠ some 0 := fun d mark => by
      rw [environment]
      exact inner _ .refl n ref e d rfl mark
    exact (adds_writeRef v stops).bind fun _ _ _ => .pure _
  | call f paren es => exact adds_callExpr evals execs inner
  | get e name =>
    refine (evals (inner.starts (.first rfl))).bind fun v m₁ run => ?_
    split
    · exact .throws _
    · rename_i r receiver
      refine (adds_readProperty v r name).bind fun property m₂ run₁ => ?_
      unfold callIfGetter
      split
      · split
        · rename_i f kind
          exact adds_callClosure execs (inner.starts (.getter run receiver run₁ kind))
        · exact .pure _
      · exact .pure _
  | set e name value =>
    refine (evals (inner.starts (.first rfl))).bind fun v m₁ run => ?_
    split
    · exact .throws _
    · rename_i r receiver
      have second : (Expr.set e name value).second? v = some value := by
        simp [Expr.second?, receiver]
      refine (evals (inner.starts (.second rfl run second))).bind fun u m₂ _ => ?_
      have written : Adds [] m₂ (writeField r.id name.lexeme u) := .of_store rfl rfl
      exact written.bind fun _ _ _ => .pure _
  | this ref => exact adds_readRef ref
  | super ref method => exact adds_readSuper ref method
  | function keyword params body =>
    exact adds_get.bind fun _ _ _ => (adds_newClosure _ _ _ _ _).bind fun _ _ _ => .pure _

/-- A variable declaration adds its name at top level. -/
theorem adds_var (evals : EvalsInside turns n) {name : Token} {value : Option (Expr Distance)}
    (inner : Moment.IsInner turns ⟨.exec (n + 1) (.var name value), m⟩) :
    Adds (atTop m.environment name.lexeme) m (exec turns (n + 1) (.var name value)) := by
  cases value with
  | none =>
    have declared := (adds_declareHere (m := m) name.lexeme).bind fun _ m₁ _ =>
      Adds.pure (m := m₁) Completion.normal
    exact declared.mono fun x => by simp
  | some e =>
    have all : Adds ([] ++ (atTop m.environment name.lexeme ++ [])) m
        (exec turns (n + 1) (.var name (some e))) := by
      refine (evals (inner.starts (.value rfl))).bind fun v m₁ run => ?_
      have defined := adds_defineHere (m := m₁) name.lexeme v
      rw [(steady_eval turns n e).of_run run] at defined
      exact defined.bind fun _ _ _ => .pure _
    exact all.mono fun x => by simp

/-- So does a function declaration. -/
theorem adds_function (turns n : Nat) (m : Machine) (r : Routine Distance) :
    Adds (atTop m.environment r.name.lexeme) m (exec turns (n + 1) (.function r)) := by
  have all : Adds ([] ++ ([] ++ (atTop m.environment r.name.lexeme ++ []))) m
      (exec turns (n + 1) (.function r)) := by
    refine adds_get.bind fun m₁ m₂ run => ?_
    cases run
    refine (adds_newClosure _ _ _ _ _).bind fun f m₃ run₁ => ?_
    have defined := adds_defineHere (m := m₃) r.name.lexeme (.function f)
    rw [(quiet_newClosure _ _ _ _ _).steady.of_run run₁] at defined
    exact defined.bind fun _ _ _ => .pure _
  exact all.mono fun x => by simp

/-- And so does a class declaration, whether it gets to its end or not. -/
theorem adds_classDecl (turns n : Nat) (m : Machine) (name : Token)
    (superclass : Option (Reference Distance)) (mixins : List (Reference Distance))
    (methods statics : List (Routine Distance)) :
    Adds (atTop m.environment name.lexeme) m
      (exec turns (n + 1) (.classDecl name superclass mixins methods statics)) := by
  have all := (adds_declareClass (m := m) n name superclass mixins methods statics).bind
    fun _ m₁ _ => Adds.pure (m := m₁) Completion.normal
  exact all.mono fun x => by simp

/-- A statement adds what it introduces, given that what it starts adds no more. -/
theorem adds_exec_succ (evals : EvalsInside turns n) (execs : ExecsInside turns n) :
    ExecsInside turns (n + 1) := by
  intro s m inner closed
  -- A statement that introduces a name does so in the frame of a block or a call.
  have inside : s.introduces ≠ [] → innermost m.environment ≠ 0 := fun some top => some (closed top)
  cases s with
  | missing => exact .pure _
  | expression e => exact (evals (inner.starts (.value rfl))).bind fun _ _ _ => .pure _
  | print e =>
    refine (evals (inner.starts (.value rfl))).bind fun v m₁ _ => ?_
    have printed : Adds [] m₁ (printLine v.text) := .of_store rfl rfl
    exact printed.bind fun _ _ _ => .pure _
  | var name value =>
    have adds := adds_var evals inner
    rwa [atTop_of_inside (inside (List.cons_ne_nil _ _))] at adds
  | block body =>
    refine adds_get.bind fun m₁ m₂ run => ?_
    cases run
    refine adds_inFrame fun env m₁ run inside => ?_
    cases run
    exact adds_inEnvironment (adds_runAll execs (inner.starts .block) inside)
  | ifElse c t e =>
    refine (evals (inner.starts (.value rfl))).bind fun v m₁ run => ?_
    have environment := (steady_eval turns n c).of_run run
    split
    · rename_i holds
      have chosen : (Stmt.ifElse c t e).branch? v = some t := by simp [Stmt.branch?, holds]
      refine execs (inner.starts (.branch rfl run chosen)) fun top => ?_
      have none := closed (environment ▸ top)
      cases e with
      | none => exact none
      | some e => exact (List.append_eq_nil_iff.mp none).1
    · rename_i fails
      cases e with
      | none => exact .pure _
      | some e =>
        have chosen : (Stmt.ifElse c t (some e)).branch? v = some e := by simp [Stmt.branch?, fails]
        refine execs (inner.starts (.branch rfl run chosen)) fun top => ?_
        exact (List.append_eq_nil_iff.mp (closed (environment ▸ top))).2
  | whileLoop c b => exact adds_iterate evals execs (inner.starts .loop) closed
  | ret keyword value =>
    cases value with
    | none => exact .pure _
    | some e => exact (evals (inner.starts (.value rfl))).bind fun _ _ _ => .pure _
  | loopExit keyword => exact .pure _
  | function r =>
    have adds := adds_function turns n m r
    rwa [atTop_of_inside (inside (List.cons_ne_nil _ _))] at adds
  | classDecl name superclass mixins methods statics =>
    have adds := adds_classDecl turns n m name superclass mixins methods statics
    rwa [atTop_of_inside (inside (List.cons_ne_nil _ _))] at adds

/-- What is inner adds no global name. -/
theorem adds_eval_exec (turns n : Nat) : EvalsInside turns n ∧ ExecsInside turns n := by
  induction n with
  | zero => exact ⟨fun _ => .throws _, fun _ _ => .throws _⟩
  | succ n ih =>
    obtain ⟨evals, execs⟩ := ih
    exact ⟨adds_eval_succ evals execs, adds_exec_succ evals execs⟩

end Inside

/-! ## Top-level code -/

section Top

variable {turns n : Nat} {m : Machine} {T : Kind → Token → Prop}

/-- A statement at top level makes the names global that it introduces. -/
theorem adds_topStatement {s : Stmt Distance} (formed : s.Formed T)
    (inner : Moment.IsInner turns ⟨.exec n s, m⟩) (top : innermost m.environment = 0) :
    Adds s.introduces m (exec turns n s) := by
  cases n with
  | zero => exact .throws _
  | succ n =>
    have ⟨evals, execs⟩ := adds_eval_exec turns n
    have here : ∀ name, atTop m.environment name = [name] := fun name => if_pos top
    have closed : s.introduces = [] → Adds s.introduces m (exec turns (n + 1) s) := by
      intro none
      rw [none]
      exact adds_exec_succ evals execs inner fun _ => none
    cases s with
    | var name value =>
      have adds := adds_var evals inner
      rwa [here] at adds
    | function r =>
      have adds := adds_function turns n m r
      rwa [here] at adds
    | classDecl name superclass mixins methods statics =>
      have adds := adds_classDecl turns n m name superclass mixins methods statics
      rwa [here] at adds
    | ifElse c t e =>
      refine closed ?_
      cases e with
      | none => exact formed.2.2
      | some e => exact List.append_eq_nil_iff.mpr ⟨formed.2.1.2, formed.2.2.2⟩
    | whileLoop c b => exact closed formed.2.2
    | _ => exact closed rfl

/-- A program that runs to its end makes the names global that it introduces. -/
theorem adds_runStatements : ∀ {ss : List (Stmt Distance)} {m : Machine}, Stmt.FormedAll T ss →
    Moment.IsInner turns ⟨.runTop n ss, m⟩ → innermost m.environment = 0 →
      Adds (Stmt.introducesAll ss) m (runStatements (exec turns n) ss)
  | [], _, _, _, _ => .pure _
  | s :: ss, m, formed, inner, top => by
    refine (adds_topStatement formed.1 (inner.starts .topStatement) top).bind
      fun completion m₁ run => ?_
    have environment := (steady_exec turns n s).of_run run
    have goOn : completion.Stays → Adds (Stmt.introducesAll ss) m₁
        (runStatements (exec turns n) ss) := fun stays =>
      adds_runStatements formed.2 (inner.starts (.topStatements run stays)) (environment ▸ top)
    cases completion with
    | normal => exact goOn trivial
    | returned v => exact goOn trivial
    | exited keyword => exact .throws _

end Top

end LoxLang
