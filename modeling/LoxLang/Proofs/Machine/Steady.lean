/-
LoxLang.Proofs.Machine.Steady: every run comes back to the environment that it began in.

Two things change the current environment.  A block and a call move into an environment of their own
and put back the one that they saved.  A class with a superclass moves into the frame that holds it
while its members are made, and leaves through the link of the frame that is current by then; this
is the frame that it came from as long as the members leave the current environment as it is.  Both
ways back are taken however the part in between ends, so that the environment is the same behind
every expression and every statement as before it.

* `Steady`: a computation that leaves the current environment as it is.

Main statements: `steady_inEnvironment` and `steady_withSuperclass`, for the two of them;
`steady_eval` and `steady_exec`.
-/
import LoxLang.Proofs.Machine.Quiet

namespace LoxLang

/-- The computation ends in the environment that it began in, with a result or with a failure. -/
def Steady {α : Type} (act : Run α) : Prop :=
  ∀ m : Machine, (act m : Except Failure α × Machine).2.environment = m.environment

section Steps

variable {α β : Type} {act : Run α} {next : α → Run β}

/-- What a steady run leaves has the environment that it began with. -/
theorem Steady.of_run {m m' : Machine} {result : Except Failure α} (h : Steady act)
    (run : act m = (result, m')) : m'.environment = m.environment := by
  have kept := h m
  rwa [run] at kept

/-- Steady steps in a row are steady, whether the first one fails or not. -/
theorem Steady.bind (first : Steady act) (second : ∀ a, Steady (next a)) :
    Steady (act >>= next) := by
  intro m
  have kept := first m
  rw [run_bind]
  rcases run : (act m : Except Failure α × Machine) with ⟨_ | a, m'⟩
  · rwa [run] at kept
  · rw [run] at kept
    exact (second a m').trans kept

theorem steady_pure (a : α) : Steady (pure a : Run α) := fun _ => rfl

theorem steady_throw (failure : Failure) : Steady (throw failure : Run α) := fun _ => rfl

/-- What is quiet is steady. -/
theorem Quiet.steady (quiet : Quiet act) : Steady act := fun m => (quiet m).environment

/-- What was saved before comes back, wherever the computation ends. -/
theorem steady_inEnvironment (env : Environment) : Steady (inEnvironment env act) :=
  environment_inEnvironment env act

/-- From where a computation began and ended, the way back leads one frame outwards. -/
theorem environment_leaveAfter (h : Steady act) (m : Machine) :
    (leaveAfter act m : Except Failure α × Machine).2.environment = m.environment.tail := by
  rw [run_leaveAfter]
  exact congrArg List.tail (h m)

/-- Moving into the frame of a superclass and out of it again ends where it began, if what is done
in between does; it may fail in that frame. -/
theorem steady_withSuperclass (superclass : Option Class) (h : Steady act) :
    Steady (withSuperclass superclass act) := by
  cases superclass with
  | none => exact h
  | some c =>
    intro m
    rw [run_withSuperclass_some]
    calc (leaveAfter act (m.holding c) : Except Failure α × Machine).2.environment
        = (m.store.frames.size :: m.environment).tail := environment_leaveAfter h (m.holding c)
      _ = m.environment := rfl

/-- An overflow that is caught has been through all restores inside. -/
theorem steady_catchOverflow (token : Option Token) (h : Steady act) :
    Steady (catchOverflow token act) := by
  intro m
  rw [machine_catchOverflow]
  exact h m

end Steps

/-! ## Calls -/

section Calls

variable {exec : Stmt Distance → Run Completion}

/-- A call runs in the environment of its closure, and goes back however it ends. -/
theorem steady_callClosure (f : Closure) (arguments : List Value) :
    Steady (callClosure exec f arguments) := by
  refine (quiet_openCall f arguments).steady.bind fun env => ?_
  refine (steady_inEnvironment env).bind fun completion => ?_
  split
  · exact steady_throw _
  · split
    · exact (quiet_boundObject f).steady
    · exact steady_pure _
  · split
    · exact (quiet_boundObject f).steady
    · exact steady_pure _

/-- A class calls its initializer. -/
theorem steady_instantiate (c : Class) (arguments : List Value) :
    Steady (instantiate exec c arguments) := by
  refine quiet_newObject.steady.bind fun id => ?_
  dsimp only
  split
  · exact steady_pure _
  · refine (quiet_bindMethod _ _).steady.bind fun init => ?_
    exact (steady_callClosure init arguments).bind fun _ => steady_pure _

theorem steady_invoke (callee : Value) (arguments : List Value) :
    Steady (invoke exec callee arguments) := by
  unfold invoke
  split
  · exact steady_callClosure _ arguments
  · exact steady_instantiate _ arguments
  · exact quiet_readClock.steady
  · exact steady_pure _

theorem steady_callIfGetter (v : Value) : Steady (callIfGetter exec v) := by
  unfold callIfGetter
  split
  · split
    · exact steady_callClosure _ []
    · exact steady_pure _
  · exact steady_pure _

end Calls

/-! ## Classes -/

/-- The closures of a class are made over the current environment, and leave it. -/
theorem steady_makeMembers (left : Nat) (methods statics : List (Routine Distance)) :
    Steady (makeMembers left methods statics) := by
  refine quiet_get.steady.bind fun m => (quiet_needLevel left).steady.bind fun _ => ?_
  refine (quiet_newMethods methodKind m.environment methods []).steady.bind fun _ => ?_
  exact (quiet_newMethods staticKind m.environment statics []).steady.bind fun _ => steady_pure _

/-- So the way back out of the frame of the superclass leads to where it was entered. -/
theorem steady_makeClass (left : Nat) (name : Token) (superclass : Option Class)
    (mixins : List Class) (methods statics : List (Routine Distance)) :
    Steady (makeClass left name superclass mixins methods statics) := by
  have members := steady_makeMembers left methods statics
  refine (steady_withSuperclass superclass members).bind fun _ => ?_
  exact quiet_newObject.steady.bind fun _ => quiet_newObject.steady.bind fun _ => steady_pure _

/-- A class declaration is steady, at whichever of its steps it fails. -/
theorem steady_declareClass (left : Nat) (name : Token) (superclass : Option (Reference Distance))
    (mixins : List (Reference Distance)) (methods statics : List (Routine Distance)) :
    Steady (declareClass left name superclass mixins methods statics) := by
  refine (quiet_readSuperclass superclass).steady.bind fun parent => ?_
  refine (quiet_readMixinClasses mixins).steady.bind fun parents => ?_
  refine (quiet_declareHere name.lexeme).steady.bind fun _ => ?_
  refine (steady_makeClass left name parent parents methods statics).bind fun c => ?_
  exact (quiet_defineHere name.lexeme (.class c)).steady

/-! ## Expressions and statements -/

section Forms

variable {eval : Expr Distance → Run Value} {exec : Stmt Distance → Run Completion}

/-- Arguments in a row are steady. -/
theorem steady_evalAll (evals : ∀ e, Steady (eval e)) : ∀ es, Steady (evalAll eval es)
  | [] => steady_pure _
  | e :: es => (evals e).bind fun _ => (steady_evalAll evals es).bind fun _ => steady_pure _

/-- Statements in a row are steady. -/
theorem steady_runAll (execs : ∀ s, Steady (exec s)) : ∀ ss, Steady (runAll exec ss)
  | [] => steady_pure _
  | s :: ss => by
    refine (execs s).bind fun completion => ?_
    split
    · exact steady_runAll execs ss
    · exact steady_pure _

/-- The turns of a loop are steady, by induction on how many there can be. -/
theorem steady_iterate {condition : Run Value} {body : Run Completion} (test : Steady condition)
    (turn : Steady body) (left : Nat) : Steady (iterate condition body left) := by
  induction left with
  | zero => exact steady_throw _
  | succ left ih =>
    refine test.bind fun v => ?_
    split
    · exact steady_pure _
    · refine turn.bind fun completion => ?_
      split
      · exact steady_pure _
      · split
        · exact steady_pure _
        · exact ih
      · exact ih

/-- One level of the evaluation is steady if the levels below it are. -/
theorem steady_evalForm (evals : ∀ e, Steady (eval e)) (e : Expr Distance) :
    Steady (evalForm eval exec e) := by
  match e with
  | .literal v => exact steady_pure _
  | .grouping e => exact evals e
  | .unary op e => exact (evals e).bind fun _ => (quiet_orFail _).steady
  | .binary l op r =>
    exact (evals l).bind fun _ => (evals r).bind fun _ => (quiet_orFail _).steady
  | .logical l op r =>
    refine (evals l).bind fun left => ?_
    split
    · exact steady_pure _
    · exact evals r
  | .variable ref => exact (quiet_readRef ref).steady
  | .assign ref e =>
    exact (evals e).bind fun v => ((quiet_writeRef ref v).bind fun _ => quiet_pure _).steady
  | .call f paren es =>
    refine (evals f).bind fun callee => ?_
    refine (steady_evalAll evals es).bind fun arguments => ?_
    refine (quiet_orFail _).steady.bind fun _ => ?_
    exact steady_catchOverflow _ (steady_invoke callee arguments)
  | .get e name =>
    refine (evals e).bind fun v => ?_
    split
    · exact steady_throw _
    · exact (quiet_readProperty v _ name).steady.bind fun _ => steady_callIfGetter _
  | .set e name value =>
    refine (evals e).bind fun v => ?_
    split
    · exact steady_throw _
    · refine (evals value).bind fun v => ?_
      exact Steady.bind (fun _ => rfl) fun _ => steady_pure _
  | .this ref => exact (quiet_readRef ref).steady
  | .super ref method => exact (quiet_readSuper ref method).steady
  | .function keyword params body =>
    refine Quiet.steady (quiet_get.bind fun _ => ?_)
    exact (quiet_newClosure _ _ _ _ _).bind fun _ => quiet_pure _

/-- One level of the execution is steady if the levels below it are. -/
theorem steady_execForm (turns left : Nat) (evals : ∀ e, Steady (eval e))
    (execs : ∀ s, Steady (exec s)) (s : Stmt Distance) :
    Steady (execForm turns left eval exec s) := by
  cases s with
  | missing => exact steady_pure _
  | expression e => exact (evals e).bind fun _ => steady_pure _
  | print e =>
    exact (evals e).bind fun v => ((quiet_printLine v.text).bind fun _ => quiet_pure _).steady
  | var name init =>
    cases init with
    | none => exact ((quiet_declareHere name.lexeme).bind fun _ => quiet_pure _).steady
    | some e =>
      refine (evals e).bind fun v => ?_
      exact ((quiet_defineHere name.lexeme v).bind fun _ => quiet_pure _).steady
  | block body =>
    refine quiet_get.steady.bind fun _ => ?_
    exact (quiet_newFrame _).steady.bind fun env => steady_inEnvironment env
  | ifElse c t e =>
    refine (evals c).bind fun v => ?_
    split
    · exact execs t
    · split
      · exact steady_pure _
      · exact execs _
  | whileLoop c b => exact steady_iterate (evals c) (execs b) turns
  | ret keyword value =>
    cases value with
    | none => exact steady_pure _
    | some e => exact (evals e).bind fun _ => steady_pure _
  | loopExit keyword => exact steady_pure _
  | function r =>
    refine Quiet.steady (quiet_get.bind fun _ => (quiet_newClosure _ _ _ _ _).bind fun f => ?_)
    exact (quiet_defineHere _ _).bind fun _ => quiet_pure _
  | classDecl name superclass mixins methods statics =>
    exact (steady_declareClass left name superclass mixins methods statics).bind fun _ =>
      steady_pure _

end Forms

/-- So every expression and every statement is steady, by induction on the bound. -/
theorem steady_eval_exec (turns n : Nat) :
    (∀ e, Steady (eval turns n e)) ∧ ∀ s, Steady (exec turns n s) := by
  induction n with
  | zero => exact ⟨fun _ => steady_throw _, fun _ => steady_throw _⟩
  | succ n ih => exact ⟨steady_evalForm ih.1, steady_execForm turns n ih.1 ih.2⟩

/-- Evaluating an expression leaves the current environment as it is. -/
theorem steady_eval (turns n : Nat) (e : Expr Distance) : Steady (eval turns n e) :=
  (steady_eval_exec turns n).1 e

/-- Executing a statement leaves the current environment as it is. -/
theorem steady_exec (turns n : Nat) (s : Stmt Distance) : Steady (exec turns n s) :=
  (steady_eval_exec turns n).2 s

end LoxLang
