/-
LoxLang.Proofs.Machine.Deeper: a greater bound on the nesting matters to overflows only.

The bound on the nesting decides which runs overflow, and nothing else: a run that does not overflow
ends the same on the same machine however much deeper it may nest.  An overflow is caught only to be
turned into a failure of the program, and that one is caught nowhere.

* `Failure.IsOverflow`: an overflow, or what a call in progress made of it.
* `Deepens`: a computation that does what another one does, unless that one overflows.

Main statements: `deepens_eval` and `deepens_exec`.
-/
import LoxLang.Proofs.Machine.Moments

namespace LoxLang

/-- The failure is an overflow, or is what the call in progress turned one into. -/
def Failure.IsOverflow : Failure → Prop
  | .overflow => True
  | .runtime _ .stackOverflow => True
  | _ => False

/-- The computation ends with an overflow. -/
def Overflows {α : Type} (act : Run α) (m : Machine) : Prop :=
  ∃ failure : Failure, failure.IsOverflow ∧ Raises act m failure

/-- The second computation does what the first one does, unless the first one overflows. -/
def Deepens {α : Type} (act act' : Run α) : Prop :=
  ∀ m : Machine, Overflows act m ∨ (act' m : Except Failure α × Machine) = act m

section Steps

variable {α β : Type} {act act' : Run α} {next next' : α → Run β} {m : Machine}

/-- What overflows in its first step overflows. -/
theorem Overflows.bind (h : Overflows act m) : Overflows (act >>= next) m := by
  obtain ⟨failure, isOverflow, raises⟩ := h
  exact ⟨failure, isOverflow, raises.bind⟩

theorem Overflows.inEnvironment {env : Environment} (h : Overflows act (m.within env)) :
    Overflows (inEnvironment env act) m := by
  obtain ⟨failure, isOverflow, raises⟩ := h
  exact ⟨failure, isOverflow, raises.inEnvironment⟩

/-- A call turns an overflow into one of the program and lets all others through. -/
theorem Overflows.catchOverflow {token : Option Token} (h : Overflows act m) :
    Overflows (catchOverflow token act) m := by
  obtain ⟨failure, isOverflow, m', run⟩ := h
  cases failure with
  | overflow =>
    refine ⟨.runtime token .stackOverflow, trivial, m', ?_⟩
    rw [LoxLang.catchOverflow, run_tryCatch, run]
    rfl
  | runtime token' fault =>
    refine ⟨.runtime token' fault, isOverflow, m', ?_⟩
    rw [LoxLang.catchOverflow, run_tryCatch, run]
    rfl
  | internal _ _ => exact isOverflow.elim
  | unfinished => exact isOverflow.elim

theorem Deepens.refl (act : Run α) : Deepens act act := fun _ => .inr rfl

/-- Steps in a row do the same on more levels if each does. -/
theorem Deepens.bind (first : Deepens act act') (second : ∀ a, Deepens (next a) (next' a)) :
    Deepens (act >>= next) (act' >>= next') := by
  intro m
  rcases first m with overflows | same
  · exact .inl overflows.bind
  · rcases run : (act m : Except Failure α × Machine) with ⟨failure | a, m₁⟩
    · right
      rw [run_bind, run_bind, same, run]
    · rcases second a m₁ with ⟨failure, isOverflow, raises⟩ | same'
      · exact .inl ⟨failure, isOverflow, .bind_next run raises⟩
      · right
        rw [run_bind, run_bind, same, run]
        exact same'

/-- Only what comes behind may nest deeper. -/
theorem Deepens.behind (second : ∀ a, Deepens (next a) (next' a)) :
    Deepens (act >>= next) (act >>= next') :=
  (Deepens.refl act).bind second

theorem deepens_inEnvironment (env : Environment) (h : Deepens act act') :
    Deepens (inEnvironment env act) (inEnvironment env act') := by
  intro m
  rcases h (m.within env) with overflows | same
  · exact .inl overflows.inEnvironment
  · right
    have left (run : Run α) : (inEnvironment env run m : Except Failure α × Machine) =
        ((run (m.within env)).1, (run (m.within env)).2.within m.environment) := rfl
    rw [left, left, same]

/-- An overflow that is caught is one that was: with more levels it may be none. -/
theorem deepens_catchOverflow (token : Option Token) (h : Deepens act act') :
    Deepens (catchOverflow token act) (catchOverflow token act') := by
  intro m
  rcases h m with overflows | same
  · exact .inl overflows.catchOverflow
  · right
    rw [catchOverflow, catchOverflow, run_tryCatch, run_tryCatch, same]

end Steps

/-! ## Calls and loops -/

section Parts

variable {eval eval' : Expr Distance → Run Value} {exec exec' : Stmt Distance → Run Completion}

/-- Arguments in a row do the same on more levels. -/
theorem deepens_evalAll (evals : ∀ e, Deepens (eval e) (eval' e)) (es : List (Expr Distance)) :
    Deepens (evalAll eval es) (evalAll eval' es) := by
  induction es with
  | nil => exact .refl _
  | cons e es ih => exact (evals e).bind fun _ => ih.bind fun _ => .refl _

/-- So do statements in a row. -/
theorem deepens_runAll (execs : ∀ s, Deepens (exec s) (exec' s)) (ss : List (Stmt Distance)) :
    Deepens (runAll exec ss) (runAll exec' ss) := by
  induction ss with
  | nil => exact .refl _
  | cons s ss ih =>
    apply (execs s).bind
    intro completion
    cases completion with
    | normal => exact ih
    | returned v => exact .refl _
    | exited keyword => exact .refl _

theorem deepens_runStatements (execs : ∀ s, Deepens (exec s) (exec' s))
    (ss : List (Stmt Distance)) :
    Deepens (runStatements exec ss) (runStatements exec' ss) := by
  induction ss with
  | nil => exact .refl _
  | cons s ss ih =>
    apply (execs s).bind
    intro completion
    cases completion with
    | normal => exact ih
    | returned v => exact ih
    | exited keyword => exact .refl _

/-- So do the turns of a loop. -/
theorem deepens_iterate {condition condition' : Run Value} {body body' : Run Completion}
    (test : Deepens condition condition') (turn : Deepens body body') (left : Nat) :
    Deepens (iterate condition body left) (iterate condition' body' left) := by
  induction left with
  | zero => exact .refl _
  | succ left ih =>
    apply test.bind
    intro v
    split
    · exact .refl _
    · apply turn.bind
      intro completion
      cases completion with
      | normal => exact ih
      | returned v => exact .refl _
      | exited keyword =>
        dsimp only
        split
        · exact .refl _
        · exact ih

/-- So does a call. -/
theorem deepens_callClosure (execs : ∀ s, Deepens (exec s) (exec' s)) (f : Closure)
    (arguments : List Value) :
    Deepens (callClosure exec f arguments) (callClosure exec' f arguments) := by
  apply Deepens.behind
  intro env
  exact (deepens_inEnvironment env (deepens_runAll execs f.body)).bind fun _ => .refl _

/-- So does the call of a class. -/
theorem deepens_instantiate (execs : ∀ s, Deepens (exec s) (exec' s)) (c : Class)
    (arguments : List Value) :
    Deepens (instantiate exec c arguments) (instantiate exec' c arguments) := by
  apply Deepens.behind
  intro o
  dsimp only
  split
  · exact .refl _
  · apply Deepens.behind
    intro init
    exact (deepens_callClosure execs init arguments).bind fun _ => .refl _

theorem deepens_invoke (execs : ∀ s, Deepens (exec s) (exec' s)) (callee : Value)
    (arguments : List Value) :
    Deepens (invoke exec callee arguments) (invoke exec' callee arguments) := by
  cases callee with
  | function f => exact deepens_callClosure execs f arguments
  | «class» c => exact deepens_instantiate execs c arguments
  | _ => exact .refl _

theorem deepens_callIfGetter (execs : ∀ s, Deepens (exec s) (exec' s)) (v : Value) :
    Deepens (callIfGetter exec v) (callIfGetter exec' v) := by
  cases v with
  | function f =>
    unfold callIfGetter
    dsimp only
    split
    · exact deepens_callClosure execs f []
    · exact .refl _
  | _ => exact .refl _

/-! ## Expressions and statements -/

/-- One level of the evaluation does so if the levels below it do. -/
theorem deepens_evalForm (evals : ∀ e, Deepens (eval e) (eval' e))
    (execs : ∀ s, Deepens (exec s) (exec' s)) (e : Expr Distance) :
    Deepens (evalForm eval exec e) (evalForm eval' exec' e) := by
  match e with
  | .literal _ | .variable _ | .this _ | .super _ _ | .function _ _ _ => exact .refl _
  | .grouping e => exact evals e
  | .unary op e => exact (evals e).bind fun _ => .refl _
  | .binary l op r => exact (evals l).bind fun _ => (evals r).bind fun _ => .refl _
  | .logical l op r =>
    apply (evals l).bind
    intro left
    split
    · exact .refl _
    · exact evals r
  | .assign ref e => exact (evals e).bind fun _ => .refl _
  | .call f paren es =>
    apply (evals f).bind
    intro callee
    apply (deepens_evalAll evals es).bind
    intro arguments
    apply Deepens.behind
    intro _
    exact deepens_catchOverflow _ (deepens_invoke execs callee arguments)
  | .get e name =>
    apply (evals e).bind
    intro v
    split
    · exact .refl _
    · exact .behind fun _ => deepens_callIfGetter execs _
  | .set e name value =>
    apply (evals e).bind
    intro v
    split
    · exact .refl _
    · exact (evals value).bind fun _ => .refl _

/-- More levels are enough where fewer are. -/
theorem deepens_needLevel {left left' : Nat} (le : left ≤ left') :
    Deepens (needLevel left) (needLevel left') := by
  intro m
  cases left with
  | zero => exact .inl ⟨.overflow, trivial, m, rfl⟩
  | succ left =>
    right
    rw [needLevel, needLevel, if_neg (Nat.ne_of_gt (Nat.lt_of_lt_of_le (Nat.succ_pos left) le)),
      if_neg (Nat.succ_ne_zero left)]

/-- A class declaration needs one level below it. -/
theorem deepens_declareClass {left left' : Nat} (le : left ≤ left') (name : Token)
    (superclass : Option (Reference Distance)) (mixins : List (Reference Distance))
    (methods statics : List (Routine Distance)) :
    Deepens (declareClass left name superclass mixins methods statics)
      (declareClass left' name superclass mixins methods statics) := by
  refine .behind fun superclass => .behind fun mixins => .behind fun _ =>
    Deepens.bind ?_ fun c => .refl _
  rw [makeClass_eq, makeClass_eq]
  exact .behind fun env => (deepens_needLevel le).bind fun _ => .refl _

/-- One level of the execution does so if the levels below it do. -/
theorem deepens_execForm (turns : Nat) {left left' : Nat} (le : left ≤ left')
    (evals : ∀ e, Deepens (eval e) (eval' e)) (execs : ∀ s, Deepens (exec s) (exec' s))
    (s : Stmt Distance) :
    Deepens (execForm turns left eval exec s) (execForm turns left' eval' exec' s) := by
  match s with
  | .missing | .var _ none | .ret _ none | .loopExit _ | .function _ => exact .refl _
  | .classDecl name superclass mixins methods statics =>
    exact (deepens_declareClass le name superclass mixins methods statics).bind fun _ => .refl _
  | .expression e => exact (evals e).bind fun _ => .refl _
  | .print e => exact (evals e).bind fun _ => .refl _
  | .var name (some e) => exact (evals e).bind fun _ => .refl _
  | .block body =>
    apply Deepens.behind
    intro m
    apply Deepens.behind
    intro env
    exact deepens_inEnvironment env (deepens_runAll execs body)
  | .ifElse c t e =>
    apply (evals c).bind
    intro v
    split
    · exact execs t
    · cases e with
      | none => exact .refl _
      | some e => exact execs e
  | .whileLoop c b => exact deepens_iterate (evals c) (execs b) turns
  | .ret _ (some e) => exact (evals e).bind fun _ => .refl _

end Parts

/-- So one level more changes nothing but an overflow, by induction on the bound. -/
theorem deepens_succ (turns n : Nat) :
    (∀ e, Deepens (eval turns n e) (eval turns (n + 1) e)) ∧
      ∀ s, Deepens (exec turns n s) (exec turns (n + 1) s) := by
  induction n with
  | zero =>
    have overflows {α : Type} (m : Machine) : Overflows (throw .overflow : Run α) m :=
      ⟨.overflow, trivial, m, rfl⟩
    exact ⟨fun _ m => .inl (overflows m), fun _ m => .inl (overflows m)⟩
  | succ n ih =>
    exact ⟨deepens_evalForm ih.1 ih.2, deepens_execForm turns (Nat.le_succ n) ih.1 ih.2⟩

/-- Evaluating an expression does the same with more room, unless it overflows. -/
theorem deepens_eval (turns n : Nat) (e : Expr Distance) :
    Deepens (eval turns n e) (eval turns (n + 1) e) :=
  (deepens_succ turns n).1 e

/-- Executing a statement does the same with more room, unless it overflows. -/
theorem deepens_exec (turns n : Nat) (s : Stmt Distance) :
    Deepens (exec turns n s) (exec turns (n + 1) s) :=
  (deepens_succ turns n).2 s

/-- Running a program does the same with more room, unless it overflows. -/
theorem deepens_runProgram (bounds : Bounds) (ss : List (Stmt Distance)) :
    Deepens (runProgram bounds ss) (runProgram { bounds with nesting := bounds.nesting + 1 } ss) :=
  deepens_catchOverflow none (deepens_runStatements (deepens_exec bounds.turns bounds.nesting) ss)

end LoxLang
