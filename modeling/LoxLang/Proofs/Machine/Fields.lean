/-
LoxLang.Proofs.Machine.Fields: when the fields of objects change.

The only thing that changes a field is an assignment of it that is evaluated to its end.  All that
happens between two calls of a run leaves the fields alone, and so does the end of any other call.

* `Makes`: a computation that makes the given calls, and is quiet beside them.
* `Moment.Assigns`: the evaluation of an assignment of a property.
* `Follows`: what becomes of the fields from one instant to the next.

Main statements: `follows_timeline`, that a field stays along the timeline of a run up to the end of
an assignment of it, `field?_writeField`, what the assignment does, and `ahead_timeline`, that no
frame and no object is lost.
-/
import Mathlib.Data.List.Chain
import LoxLang.Proofs.Machine.Quiet
import LoxLang.Proofs.Machine.Timeline

namespace LoxLang

/-! ## What happens between the calls -/

/-- The machine that a call leaves, however it ends. -/
def Moment.after (turns : Nat) (M : Moment) : Machine :=
  match M.activity with
  | .eval n e => (eval turns n e M.machine : Except Failure Value × Machine).2
  | .exec n s => (exec turns n s M.machine : Ending).2
  | .runAll n ss => (runAll (exec turns n) ss M.machine : Ending).2
  | .runTop n ss => (runStatements (exec turns n) ss M.machine : Except Failure Unit × Machine).2
  | .iterate n c b left => (iterate (eval turns n c) (exec turns n b) left M.machine : Ending).2
  | .call n f arguments =>
    (callClosure (exec turns n) f arguments M.machine : Except Failure Value × Machine).2
  | .bind method self => (bindMethod method self M.machine : Except Failure Closure × Machine).2
  | .parent fault ref => (readParent fault ref M.machine : Except Failure Class × Machine).2
  | .makeClass n name superclass mixins methods statics =>
    (makeClass n name superclass mixins methods statics M.machine :
      Except Failure Class × Machine).2

/-- The calls take place one after another on the way from one machine to the other, and beside them
the fields stay and nothing is lost. -/
def Threads (turns : Nat) : Machine → List Moment → Machine → Prop
  | m, [], m' => m.Calm m'
  | m, C :: cs, m' => m.Calm C.machine ∧ Threads turns (C.after turns) cs m'

/-- The computation makes the calls, and is quiet beside them. -/
def Makes {α : Type} (turns : Nat) (act : Run α) (m : Machine) (cs : List Moment) : Prop :=
  Threads turns m cs (act m : Except Failure α × Machine).2

section Makes

variable {α β : Type} {turns n : Nat} {act : Run α} {next : α → Run β} {m m₁ m' : Machine}
  {cs cs' : List Moment}

/-- Calls in a row, and others behind them. -/
theorem Threads.append (first : Threads turns m cs m₁) (second : Threads turns m₁ cs' m') :
    Threads turns m (cs ++ cs') m' := by
  induction cs generalizing m with
  | nil =>
    cases cs' with
    | nil => exact first.trans second
    | cons C cs' => exact ⟨first.trans second.1, second.2⟩
  | cons C cs ih => exact ⟨first.1, ih first.2⟩

/-- A quiet step makes no calls. -/
theorem Quiet.makes (quiet : Quiet act) : Makes turns act m [] := (quiet m).calm

/-- Two steps in a row make the calls of the first one, and then those of the second one if it comes
to that. -/
theorem Makes.bind {cs' : α → Machine → List Moment} (first : Makes turns act m cs)
    (second : ∀ a m₁, act m = (.ok a, m₁) → Makes turns (next a) m₁ (cs' a m₁)) :
    Makes turns (act >>= next) m (cs ++ onward act m cs') := by
  unfold Makes at first ⊢
  rw [run_bind]
  rcases run : (act m : Except Failure α × Machine) with ⟨failure | a, m₁⟩
  · rw [run] at first
    exact first.append (by rw [onward, run]; exact .refl m₁)
  · rw [run] at first
    exact first.append (by rw [onward_ok run]; exact second a m₁ run)

/-- Nothing behind a step is nothing. -/
theorem onward_nothing (act : Run α) (m : Machine) : onward act m (fun _ _ => []) = [] := by
  unfold onward
  split <;> rfl

/-- A quiet step behind the calls adds none. -/
theorem Makes.bind_quiet (first : Makes turns act m cs) (second : ∀ a, Quiet (next a)) :
    Makes turns (act >>= next) m cs := by
  have makes : Makes turns (act >>= next) m (cs ++ onward act m fun _ _ => []) :=
    first.bind fun a m₁ _ => (second a).makes
  rwa [onward_nothing, List.append_nil] at makes

/-- A quiet step in front of them adds none either. -/
theorem Quiet.bind_makes {cs' : α → Machine → List Moment} (first : Quiet act)
    (second : ∀ a m₁, act m = (.ok a, m₁) → Makes turns (next a) m₁ (cs' a m₁)) :
    Makes turns (act >>= next) m (onward act m cs') := Makes.bind first.makes second

/-- What is calm behind the last call may be passed over. -/
theorem Threads.and_then (first : Threads turns m cs m₁) (second : m₁.Calm m') :
    Threads turns m cs m' := by
  have both : Threads turns m (cs ++ []) m' := first.append second
  rwa [List.append_nil] at both

/-- In another environment the same calls are made. -/
theorem Makes.inEnvironment {env : Environment} (h : Makes turns act (m.within env) cs) :
    Makes turns (inEnvironment env act) m cs := by
  have left : Threads turns (m.within env) cs (LoxLang.inEnvironment env act m).2 :=
    Threads.and_then h (.of_eq rfl rfl)
  have entered : m.Calm (m.within env) := .of_eq rfl rfl
  cases cs with
  | nil => exact entered.trans left
  | cons C cs => exact ⟨entered.trans left.1, left.2⟩

/-- And so they are if an overflow is caught. -/
theorem Makes.catchOverflow {token : Option Token} (h : Makes turns act m cs) :
    Makes turns (catchOverflow token act) m cs := by
  rw [Makes, machine_catchOverflow]
  exact h

/-- Evaluating an expression is a single call. -/
theorem makes_eval (turns n : Nat) (e : Expr Distance) (m : Machine) :
    Makes turns (eval turns n e) m [⟨.eval n e, m⟩] := ⟨.refl m, .refl _⟩

/-- To execute a statement is one call. -/
theorem makes_exec (turns n : Nat) (s : Stmt Distance) (m : Machine) :
    Makes turns (exec turns n s) m [⟨.exec n s, m⟩] := ⟨.refl m, .refl _⟩

/-- Arguments are one call each, up to the first one that fails. -/
theorem makes_evalAll (turns n : Nat) (es : List (Expr Distance)) (m : Machine) :
    Makes turns (evalAll (eval turns n) es) m (argumentCalls turns n es m) := by
  induction es generalizing m with
  | nil => exact (quiet_pure _).makes
  | cons e es ih =>
    exact (makes_eval turns n e m).bind fun _ m₁ _ => (ih m₁).bind_quiet fun _ => quiet_pure _

/-- A call of a closure makes the calls of its body. -/
theorem makes_callClosure (f : Closure) (arguments : List Value) :
    Makes turns (callClosure (exec turns n) f arguments) m
      (Moment.calls turns ⟨.call n f arguments, m⟩) := by
  refine (quiet_openCall f arguments).bind_makes fun env m₁ _ => ?_
  have body : Makes turns (runAll (exec turns n) f.body) (m₁.within env)
      [⟨.runAll n f.body, m₁.within env⟩] := ⟨.refl _, .refl _⟩
  refine body.inEnvironment.bind_quiet fun completion => ?_
  split
  · exact quiet_throw _
  · split
    · exact quiet_boundObject f
    · exact quiet_pure _
  · split
    · exact quiet_boundObject f
    · exact quiet_pure _

/-- Calling a closure is a single call. -/
theorem makes_call (f : Closure) (arguments : List Value) :
    Makes turns (callClosure (exec turns n) f arguments) m [⟨.call n f arguments, m⟩] :=
  ⟨.refl m, .refl _⟩

/-- A class makes those of its initializer. -/
theorem makes_invoke (callee : Value) (arguments : List Value) :
    Makes turns (invoke (exec turns n) callee arguments) m (invokeCalls n callee arguments m) := by
  cases callee with
  | function f => exact makes_call f arguments
  | «class» c =>
    simp only [invoke, instantiate, invokeCalls]
    refine quiet_newObject.bind_makes fun o m₁ _ => ?_
    cases c.findMethod initName with
    | none => exact (quiet_pure _).makes
    | some method =>
      refine (quiet_bindMethod _ _).bind_makes fun init m₂ _ => ?_
      exact (makes_call init arguments).bind_quiet fun _ => quiet_pure _
  | clock => exact quiet_readClock.makes
  | _ => exact (quiet_pure _).makes

/-- An access makes those of the getter, if it comes upon one. -/
theorem makes_callIfGetter (v : Value) :
    Makes turns (callIfGetter (exec turns n) v) m (getterCalls n v m) := by
  cases v with
  | function f =>
    by_cases kind : f.kind = .getter
    · simp only [callIfGetter, getterCalls, kind, if_true]
      exact makes_call f []
    · simp only [callIfGetter, getterCalls, kind, if_false]
      exact (quiet_pure _).makes
  | _ => exact (quiet_pure _).makes

end Makes

/-! ## Assignments -/

/-- The evaluation of an assignment stores a value in a field of an object. -/
inductive Moment.Assigns (turns : Nat) : Moment → ObjectId → String → Value → Prop
  | intro {n e name value m obj m₁ r v m₂} (run : eval turns n e m = (.ok obj, m₁))
      (receiver : obj.receiver? = some r) (run₁ : eval turns n value m₁ = (.ok v, m₂)) :
    Assigns turns ⟨.eval (n + 1) (.set e name value), m⟩ r.id name.lexeme v

/-- An assignment changes one field of the object, and no field of any other. -/
theorem field?_writeField (m : Machine) (id : ObjectId) (name : String) (v : Value)
    (id' : ObjectId) (x : String) :
    ({ m with fields := m.fields.modify id (putEntry name v) } : Machine).field? id' x =
      if id' = id ∧ x = name ∧ id < m.fields.size then some v else m.field? id' x := by
  simp only [Machine.field?, Array.getElem?_modify]
  by_cases same : id = id'
  · subst same
    rw [if_pos rfl]
    by_cases lt : id < m.fields.size
    · rw [Array.getElem?_eq_getElem lt]
      by_cases named : x = name
      · subst named
        simp [lt]
      · simp [named, entryOf?_putEntry_of_ne named]
    · rw [Array.getElem?_eq_none (Nat.le_of_not_lt lt)]
      simp [lt]
  · simp [same, Ne.symm same]

section Calls

variable {turns n : Nat} {m m₁ m₂ : Machine}

/-- The run of an assignment whose object and value are known. -/
theorem run_set {e value : Expr Distance} {name : Token} {obj v : Value} {r : Receiver}
    (run : eval turns n e m = (.ok obj, m₁)) (receiver : obj.receiver? = some r)
    (run₁ : eval turns n value m₁ = (.ok v, m₂)) :
    (eval turns (n + 1) (.set e name value) m : Except Failure Value × Machine) =
      (.ok v, { m₂ with fields := m₂.fields.modify r.id (putEntry name.lexeme v) }) := by
  show ((eval turns n e >>= fun obj => _) m : Except Failure Value × Machine) = _
  rw [run_bind, run]
  simp only [receiver]
  rw [run_bind, run₁]
  rfl

/-- Every expression but an assignment of a property is quiet beside its calls. -/
theorem makes_expr {e : Expr Distance} (plain : ∀ object name value, e ≠ .set object name value) :
    Makes turns (eval turns (n + 1) e) m (e.calls turns n m) := by
  have part : ∀ e m, Makes turns (eval turns n e) m [⟨.eval n e, m⟩] := makes_eval turns n
  cases e with
  | literal _ => exact (quiet_pure _).makes
  | «variable» ref => exact (quiet_readRef ref).makes
  | this ref => exact (quiet_readRef ref).makes
  | super ref name => exact (quiet_readSuper ref name).makes
  | function _ params body =>
    refine Quiet.makes (quiet_get.bind fun _ => ?_)
    exact (quiet_newClosure _ _ _ _ _).bind fun _ => quiet_pure _
  | grouping e =>
    show Makes turns _ m ([⟨.eval n e, m⟩] ++ onward (eval turns n e) m fun _ _ => [])
    rw [onward_nothing]
    exact part e m
  | unary op e => exact (part e m).bind fun _ _ _ => (quiet_orFail _).makes
  | binary l op r =>
    exact (part l m).bind fun _ m₁ _ => (part r m₁).bind_quiet fun _ => quiet_orFail _
  | logical l op r =>
    refine (part l m).bind fun v m₁ _ => ?_
    cases settled : settles op v with
    | true =>
      simp only [Expr.laterCalls, Expr.second?, settled, if_true]
      exact (quiet_pure _).makes
    | false =>
      simp only [Expr.laterCalls, Expr.second?, settled, Bool.false_eq_true, if_false]
      exact part r m₁
  | assign ref e =>
    refine (part e m).bind fun v _ _ => ?_
    exact ((quiet_writeRef ref v).bind fun _ => quiet_pure _).makes
  | call f paren es =>
    refine (part f m).bind fun callee m₁ _ => ?_
    refine (makes_evalAll turns n es m₁).bind fun vs m₂ _ => ?_
    exact (quiet_orFail _).bind_makes fun _ _ _ => (makes_invoke callee vs).catchOverflow
  | get e name =>
    refine (part e m).bind fun v m₁ _ => ?_
    cases receiver : v.receiver? with
    | none =>
      simp only [Expr.laterCalls, receiver]
      exact (quiet_throw _).makes
    | some r =>
      simp only [Expr.laterCalls, receiver]
      exact (quiet_readProperty v r name).bind_makes fun w _ _ => makes_callIfGetter w
  | set object name value => exact absurd rfl (plain object name value)

/-- A statement makes the calls of its parts. -/
theorem makes_stmt (s : Stmt Distance) :
    Makes turns (exec turns (n + 1) s) m (s.calls turns n m) := by
  have part : ∀ e m, Makes turns (eval turns n e) m [⟨.eval n e, m⟩] := makes_eval turns n
  cases s with
  | missing => exact (quiet_pure _).makes
  | loopExit _ => exact (quiet_pure _).makes
  | expression e => exact (part e m).bind fun _ _ _ => (quiet_pure _).makes
  | print e =>
    refine (part e m).bind fun v _ _ => ?_
    exact ((quiet_printLine v.text).bind fun _ => quiet_pure _).makes
  | var name value =>
    cases value with
    | none => exact ((quiet_declareHere name.lexeme).bind fun _ => quiet_pure _).makes
    | some e =>
      refine (part e m).bind fun v _ _ => ?_
      exact ((quiet_defineHere _ v).bind fun _ => quiet_pure _).makes
  | ret keyword value =>
    cases value with
    | none => exact (quiet_pure _).makes
    | some e => exact (part e m).bind fun _ _ _ => (quiet_pure _).makes
  | block body =>
    have entered : m.Calm (m.entered m.environment) :=
      (quiet_newFrame m.environment m).calm.trans (.of_eq rfl rfl)
    exact ⟨entered, .of_eq rfl rfl⟩
  | ifElse c t e =>
    refine (part c m).bind fun v m₁ _ => ?_
    cases holds : v.isTruthy with
    | true =>
      simp only [Stmt.branch?, holds, if_true]
      exact makes_exec turns n t m₁
    | false =>
      simp only [Stmt.branch?, holds, Bool.false_eq_true, if_false]
      cases e with
      | none => exact (quiet_pure _).makes
      | some e => exact makes_exec turns n e m₁
  | whileLoop c b => exact ⟨.refl m, .refl _⟩
  | function r =>
    refine Quiet.makes (quiet_get.bind fun _ => (quiet_newClosure _ _ _ _ _).bind fun f => ?_)
    exact (quiet_defineHere _ _).bind fun _ => quiet_pure _
  | classDecl name superclass mixins methods statics =>
    refine Quiet.makes ?_
    exact (quiet_declareClass n name superclass mixins methods statics).bind fun _ => quiet_pure _

/-- Statements in a row make one call for the first one, and then those of the others. -/
theorem makes_runAll (s : Stmt Distance) (ss : List (Stmt Distance)) :
    Makes turns (runAll (exec turns n) (s :: ss)) m
      (Moment.calls turns ⟨.runAll n (s :: ss), m⟩) := by
  refine (makes_exec turns n s m).bind fun completion m₁ _ => ?_
  cases completion with
  | normal => exact ⟨.refl m₁, .refl _⟩
  | _ => exact (quiet_pure _).makes

/-- So they do at top level. -/
theorem makes_runTop (s : Stmt Distance) (ss : List (Stmt Distance)) :
    Makes turns (runStatements (exec turns n) (s :: ss)) m
      (Moment.calls turns ⟨.runTop n (s :: ss), m⟩) := by
  refine (makes_exec turns n s m).bind fun completion m₁ _ => ?_
  cases completion with
  | exited keyword => exact (quiet_throw _).makes
  | _ => exact ⟨.refl m₁, .refl _⟩

/-- A turn makes the calls of the condition, of the body and of the turns behind it. -/
theorem makes_iterate (c : Expr Distance) (b : Stmt Distance) (left : Nat) :
    Makes turns (iterate (eval turns n c) (exec turns n b) (left + 1)) m
      (Moment.calls turns ⟨.iterate n c b (left + 1), m⟩) := by
  refine (makes_eval turns n c m).bind fun v m₁ _ => ?_
  cases holds : v.isTruthy with
  | false => exact (quiet_pure _).makes
  | true =>
    refine (makes_exec turns n b m₁).bind fun completion m₂ _ => ?_
    cases completion with
    | returned v => exact (quiet_pure _).makes
    | normal => exact ⟨.refl m₂, .refl _⟩
    | exited keyword =>
      have goesOn : (Completion.exited keyword).GoesOn ↔ keyword.isBreak = false := Iff.rfl
      cases leaves : keyword.isBreak with
      | true =>
        simp only [goesOn, leaves, Bool.true_eq_false, if_true, if_false]
        exact (quiet_pure _).makes
      | false =>
        simp only [goesOn, leaves, Bool.false_eq_true, if_true, if_false]
        exact ⟨.refl m₂, .refl _⟩

/-- The object and the value of an assignment of a property. -/
def evalAssignment (turns n : Nat) (e : Expr Distance) (name : Token) (value : Expr Distance) :
    Run (Receiver × Value) := do
  match (← eval turns n e).receiver? with
  | none => throw (.runtime (some name) .fieldOfNoInstance)
  | some r => return (r, ← eval turns n value)

section Assignment

variable {e value : Expr Distance} {name : Token}

/-- An assignment to a property evaluates the object and then the value. -/
theorem makes_evalAssignment : Makes turns (evalAssignment turns n e name value) m
    ((Expr.set e name value).calls turns n m) := by
  refine (makes_eval turns n e m).bind fun obj m₁ _ => ?_
  cases receiver : obj.receiver? with
  | none =>
    simp only [Expr.laterCalls, Expr.second?, receiver]
    exact (quiet_throw _).makes
  | some r =>
    simp only [Expr.laterCalls, Expr.second?, receiver]
    exact (makes_eval turns n value m₁).bind_quiet fun _ => quiet_pure _

/-- And then it writes the field, without another call. -/
theorem eval_set : eval turns (n + 1) (.set e name value) =
    (evalAssignment turns n e name value >>= fun (r, v) =>
      writeField r.id name.lexeme v >>= fun _ => pure v) := by
  show (eval turns n e >>= fun obj => _) = (eval turns n e >>= fun obj => _) >>= _
  rw [bind_assoc]
  congr
  funext obj
  cases obj.receiver? <;> simp

/-- So an assignment that gets that far writes the field of the object it was made on. -/
theorem assigns_of_run {r : Receiver} {v : Value}
    (run : evalAssignment turns n e name value m = (.ok (r, v), m₁)) :
    Moment.Assigns turns ⟨.eval (n + 1) (.set e name value), m⟩ r.id name.lexeme v := by
  obtain ⟨obj, m₂, run₁, rest⟩ := run_bind_ok_iff.mp run
  cases receiver : obj.receiver? with
  | none =>
    simp only [receiver] at rest
    cases rest
  | some r' =>
    simp only [receiver] at rest
    obtain ⟨w, m₃, run₂, rest⟩ := run_bind_ok_iff.mp rest
    cases rest
    exact .intro run₁ receiver run₂

/-- The run of an assignment is quiet beside its calls, up to the change of the field. -/
theorem threads_set :
    ∃ m', Threads turns m ((Expr.set e name value).calls turns n m) m' ∧
      m'.Ahead (Moment.after turns ⟨.eval (n + 1) (.set e name value), m⟩) ∧
      ∀ id x, (∃ v, Moment.Assigns turns ⟨.eval (n + 1) (.set e name value), m⟩ id x v) ∨
        (Moment.after turns ⟨.eval (n + 1) (.set e name value), m⟩).field? id x =
          m'.field? id x := by
  refine ⟨_, makes_evalAssignment, ?_⟩
  rw [Moment.after]
  simp only [eval_set, run_bind]
  rcases run : (evalAssignment turns n e name value m : Except Failure (Receiver × Value) × Machine)
    with ⟨failure | ⟨r, v⟩, m₁⟩
  · exact ⟨.refl m₁, fun _ _ => .inr rfl⟩
  · have ahead : m₁.Ahead { m₁ with fields := m₁.fields.modify r.id (putEntry name.lexeme v) } :=
      ⟨Nat.le_refl _, by simp⟩
    refine ⟨ahead, fun id x => ?_⟩
    by_cases same : id = r.id ∧ x = name.lexeme
    · obtain ⟨rfl, rfl⟩ := same
      exact .inl ⟨v, assigns_of_run run⟩
    · refine .inr ((field?_writeField m₁ r.id name.lexeme v id x).trans (if_neg ?_))
      exact fun h => same ⟨h.1, h.2.1⟩

end Assignment

/-- From the beginning of a call to its end the fields stay beside its calls, and the end changes a
field only if it is that of an assignment.  Nothing is lost. -/
theorem threads_calls (turns : Nat) (M : Moment) :
    ∃ m', Threads turns M.machine (M.calls turns) m' ∧ m'.Ahead (M.after turns) ∧
      ∀ id x, (∃ v, M.Assigns turns id x v) ∨ (M.after turns).field? id x = m'.field? id x := by
  have quiet : Threads turns M.machine (M.calls turns) (M.after turns) →
      ∃ m', Threads turns M.machine (M.calls turns) m' ∧ m'.Ahead (M.after turns) ∧
        ∀ id x, (∃ v, M.Assigns turns id x v) ∨ (M.after turns).field? id x = m'.field? id x :=
    fun h => ⟨_, h, .refl _, fun _ _ => .inr rfl⟩
  obtain ⟨activity, m⟩ := M
  cases activity with
  | eval n e =>
    cases n with
    | zero => exact quiet (.refl m)
    | succ n =>
      by_cases assignment : ∃ object name value, e = .set object name value
      · obtain ⟨object, name, value, rfl⟩ := assignment
        exact threads_set
      · have makes : Makes turns (eval turns (n + 1) e) m (e.calls turns n m) :=
          makes_expr fun object name value is => assignment ⟨object, name, value, is⟩
        exact quiet makes
  | exec n s =>
    cases n with
    | zero => exact quiet (.refl m)
    | succ n => exact quiet (makes_stmt s)
  | runAll n ss =>
    cases ss with
    | nil => exact quiet (.refl m)
    | cons s ss => exact quiet (makes_runAll s ss)
  | runTop n ss =>
    cases ss with
    | nil => exact quiet (.refl m)
    | cons s ss => exact quiet (makes_runTop s ss)
  | iterate n c b left =>
    cases left with
    | zero => exact quiet (.refl m)
    | succ left => exact quiet (makes_iterate c b left)
  | call n f arguments => exact quiet (makes_callClosure f arguments)
  | bind method self => exact quiet (quiet_bindMethod method self).makes
  | parent fault ref => exact quiet (quiet_readParent fault ref).makes
  | makeClass n name superclass mixins methods statics =>
    exact quiet (quiet_makeClass n name superclass mixins methods statics).makes

end Calls

/-! ## From one instant to the next -/

namespace Instant

/-- The machine at an instant. -/
def machine (turns : Nat) : Instant → Machine
  | began M => M.machine
  | ended M => M.after turns

/-- The instant is the end of an assignment of a field. -/
def Assigns (turns : Nat) (t : Instant) (id : ObjectId) (x : String) : Prop :=
  ∃ M v, t = .ended M ∧ M.Assigns turns id x v

/-- From one instant to the next, every field stays that is not assigned. -/
def Follows (turns : Nat) (t t' : Instant) : Prop :=
  ∀ id x, t'.Assigns turns id x ∨ (t'.machine turns).field? id x = (t.machine turns).field? id x

/-- From one instant to the next, no frame and no object is lost. -/
def Ahead (turns : Nat) (t t' : Instant) : Prop := (t.machine turns).Ahead (t'.machine turns)

end Instant

section Timeline

variable {turns : Nat} {m m' : Machine} {t u : Instant} {ts : List Instant}

/-- The timelines of calls that take place one after another, between two instants. -/
theorem chain_threads {Next : Instant → Instant → Prop} {cs : List Moment}
    (threads : Threads turns m cs m') (inner : ∀ C ∈ cs, (C.timeline turns).IsChain Next)
    (begins : ∀ t C, (t.machine turns).Calm C.machine → Next t (.began C))
    (first : t.machine turns = m) (last : ∀ t, (t.machine turns).Calm m' → Next t u) :
    (t :: (cs.flatMap (Moment.timeline turns) ++ [u])).IsChain Next := by
  induction cs generalizing t m with
  | nil =>
    have next := last t (first ▸ threads)
    simpa using next
  | cons C cs ih =>
    have inner' : ∀ D ∈ cs, (D.timeline turns).IsChain Next := fun D mem =>
      inner D (List.mem_cons_of_mem C mem)
    have rest := ih (t := .ended C) threads.2 inner' rfl
    have own := inner C List.mem_cons_self
    rw [Moment.timeline_eq] at own
    rw [List.flatMap_cons, Moment.timeline_eq, List.append_assoc]
    refine List.isChain_cons.mpr ⟨fun s is => ?_, own.append_overlap rest (by simp)⟩
    cases is
    exact begins t C (first ▸ threads.1)

/-- Along the timeline of a run every field stays up to the end of an assignment of it. -/
theorem follows_timeline (turns : Nat) (M : Moment) :
    (M.timeline turns).IsChain (Instant.Follows turns) := by
  induction M using Moment.timeline.induct turns with
  | _ M ih =>
    obtain ⟨m', threads, _, last⟩ := threads_calls turns M
    rw [Moment.timeline_eq]
    refine chain_threads threads (fun C mem => ih ⟨C, mem⟩)
      (fun t C calm id x => .inr (calm.fields id x)) rfl fun t calm id x => ?_
    rcases last id x with ⟨v, assigns⟩ | same
    · exact .inl ⟨M, v, rfl, assigns⟩
    · exact .inr (same.trans (calm.fields id x))

/-- Along the timeline of a run no frame and no object is lost. -/
theorem ahead_timeline (turns : Nat) (M : Moment) :
    (M.timeline turns).IsChain (Instant.Ahead turns) := by
  induction M using Moment.timeline.induct turns with
  | _ M ih =>
    obtain ⟨m', threads, ahead, _⟩ := threads_calls turns M
    rw [Moment.timeline_eq]
    exact chain_threads threads (fun C mem => ih ⟨C, mem⟩) (fun _ _ calm => calm.ahead) rfl
      fun _ calm => calm.ahead.trans ahead

/-- A field stays up to the end of an assignment of it. -/
theorem field?_of_follows {id : ObjectId} {x : String}
    (follows : (t :: ts).IsChain (Instant.Follows turns))
    (unassigned : ∀ s ∈ ts, ¬ s.Assigns turns id x) (mem : u ∈ t :: ts) :
    (u.machine turns).field? id x = (t.machine turns).field? id x := by
  induction ts generalizing t with
  | nil =>
    cases List.mem_singleton.mp mem
    rfl
  | cons s ts ih =>
    rcases List.mem_cons.mp mem with rfl | mem
    · rfl
    · obtain ⟨step, follows⟩ := List.isChain_cons_cons.mp follows
      have same := (step id x).resolve_left (unassigned s List.mem_cons_self)
      exact (ih follows (fun s' mem' => unassigned s' (List.mem_cons_of_mem s mem')) mem).trans same

end Timeline

end LoxLang
