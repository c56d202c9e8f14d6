/-
LoxLang.Proofs.Machine.Moments: what happens in the course of a run.

A run is a call of the evaluator that makes further calls.  A moment is one of them: what is being
done, and the machine at its beginning.  One moment starts another if the one call makes the other;
whatever the first did in between shows in the machine.

* `Activity`, `Moment`: a call of the evaluator.
* `Starts`, `Reaches`: the calls that a call makes, and all that follow.
* `Moment.Opens`: a call that makes a frame.
* `Moment.Fails`: a call that ends with a failure.

Main statement: `Starts.fails`, that a failure of a moment is one of the moment that started it,
unless it is an overflow.
-/
import LoxLang.Proofs.Binding.Visits
import LoxLang.Proofs.Machine.Members
import LoxLang.Proofs.Machine.Sequences

namespace LoxLang

/-! ## Moments -/

/-- What a run is busy with.  The first number is the bound on the nesting below. -/
inductive Activity where
  | eval (n : Nat) (e : Expr Distance)
  | exec (n : Nat) (s : Stmt Distance)
  /-- Statements of a block or of the body of a closure. -/
  | runAll (n : Nat) (ss : List (Stmt Distance))
  /-- Statements at top level. -/
  | runTop (n : Nat) (ss : List (Stmt Distance))
  /-- A loop that may take so many turns more. -/
  | iterate (n : Nat) (c : Expr Distance) (b : Stmt Distance) (left : Nat)
  | call (n : Nat) (f : Closure) (arguments : List Value)
  | bind (method : Closure) (self : Value)
  /-- Looking up a parent in the header of a class. -/
  | parent (fault : RuntimeFault) (ref : Reference Distance)
  /-- Making a class behind its header. -/
  | makeClass (n : Nat) (name : Token) (superclass : Option Class) (mixins : List Class)
      (methods statics : List (Routine Distance))

/-- The beginning of an activity. -/
structure Moment where
  activity : Activity
  machine : Machine

/-! ## Parts -/

/-- The part of an expression that is evaluated first. -/
def Expr.first? {ρ : Type} : Expr ρ → Option (Expr ρ)
  | .grouping e => some e
  | .unary _ e => some e
  | .binary l _ _ => some l
  | .logical l _ _ => some l
  | .assign _ e => some e
  | .call f _ _ => some f
  | .get e _ => some e
  | .set e _ _ => some e
  | _ => none

/-- The part of an expression that is evaluated when the first part has a value. -/
def Expr.second? {ρ : Type} (first : Value) : Expr ρ → Option (Expr ρ)
  | .binary _ _ r => some r
  | .logical _ op r => if settles op first then none else some r
  | .set _ _ v => if first.receiver?.isSome then some v else none
  | _ => none

/-- The expression that a statement evaluates before all else, loops apart. -/
def Stmt.first? {ρ : Type} : Stmt ρ → Option (Expr ρ)
  | .expression e => some e
  | .print e => some e
  | .var _ value => value
  | .ifElse c _ _ => some c
  | .ret _ value => value
  | _ => none

/-- The statement that is executed when the condition has a value. -/
def Stmt.branch? {ρ : Type} (condition : Value) : Stmt ρ → Option (Stmt ρ)
  | .ifElse _ t e => if condition.isTruthy then some t else e
  | _ => none

/-- A loop goes on behind its body. -/
def Completion.GoesOn : Completion → Prop
  | .normal => True
  | .returned _ => False
  | .exited keyword => keyword.isBreak = false

/-- Top-level code goes on behind a statement. -/
def Completion.Stays : Completion → Prop
  | .exited _ => False
  | _ => True

/-- A call makes another call in its course. -/
inductive Starts (turns : Nat) : Moment → Moment → Prop
  | first {n e part m} (part_e : e.first? = some part) :
    Starts turns ⟨.eval (n + 1) e, m⟩ ⟨.eval n part, m⟩
  | second {n e part m v m₁ part₂} (part_e : e.first? = some part)
      (run : eval turns n part m = (.ok v, m₁)) (part_v : e.second? v = some part₂) :
    Starts turns ⟨.eval (n + 1) e, m⟩ ⟨.eval n part₂, m₁⟩
  | argument {n f paren before e behind m callee m₁ vs m₂}
      (run : eval turns n f m = (.ok callee, m₁))
      (run₁ : evalAll (eval turns n) before m₁ = (.ok vs, m₂)) :
    Starts turns ⟨.eval (n + 1) (.call f paren (before ++ e :: behind)), m⟩ ⟨.eval n e, m₂⟩
  | call {n f paren es m c m₁ vs m₂} (run : eval turns n f m = (.ok (.function c), m₁))
      (run₁ : evalAll (eval turns n) es m₁ = (.ok vs, m₂))
      (check : checkCall paren (.function c) vs.length = .ok ()) :
    Starts turns ⟨.eval (n + 1) (.call f paren es), m⟩ ⟨.call n c vs, m₂⟩
  | bindInit {n f paren es m c m₁ vs m₂ init o m₃}
      (run : eval turns n f m = (.ok (.class c), m₁))
      (run₁ : evalAll (eval turns n) es m₁ = (.ok vs, m₂))
      (check : checkCall paren (.class c) vs.length = .ok ())
      (found : c.findMethod initName = some init) (run₂ : newObject m₂ = (.ok o, m₃)) :
    Starts turns ⟨.eval (n + 1) (.call f paren es), m⟩ ⟨.bind init (.instance ⟨o, c⟩), m₃⟩
  | callInit {n f paren es m c m₁ vs m₂ init o m₃ bound m₄}
      (run : eval turns n f m = (.ok (.class c), m₁))
      (run₁ : evalAll (eval turns n) es m₁ = (.ok vs, m₂))
      (check : checkCall paren (.class c) vs.length = .ok ())
      (found : c.findMethod initName = some init) (run₂ : newObject m₂ = (.ok o, m₃))
      (run₃ : bindMethod init (.instance ⟨o, c⟩) m₃ = (.ok bound, m₄)) :
    Starts turns ⟨.eval (n + 1) (.call f paren es), m⟩ ⟨.call n bound vs, m₄⟩
  | method {n e name m v m₁ r c found} (run : eval turns n e m = (.ok v, m₁))
      (receiver : v.receiver? = some r) (field : m₁.field? r.id name.lexeme = none)
      (cls : r.cls = some c) (method : c.findMethod name.lexeme = some found) :
    Starts turns ⟨.eval (n + 1) (.get e name), m⟩ ⟨.bind found v, m₁⟩
  | getter {n e name m v m₁ r f m₂} (run : eval turns n e m = (.ok v, m₁))
      (receiver : v.receiver? = some r)
      (run₁ : readProperty v r name m₁ = (.ok (.function f), m₂)) (kind : f.kind = .getter) :
    Starts turns ⟨.eval (n + 1) (.get e name), m⟩ ⟨.call n f [], m₂⟩
  | superMethod {n ref name m d c self found} (mark : ref.mark = some d)
      (superclass :
        m.store.readAt m.environment d superName (some ref.token) = .ok (.class c))
      (object : m.store.readAt m.environment (d - 1) thisName (some ref.token) = .ok self)
      (method : c.findMethod name.lexeme = some found) :
    Starts turns ⟨.eval (n + 1) (.super ref name), m⟩ ⟨.bind found self, m⟩
  | value {n s e m} (part : s.first? = some e) :
    Starts turns ⟨.exec (n + 1) s, m⟩ ⟨.eval n e, m⟩
  | branch {n s e m v m₁ t} (part : s.first? = some e) (run : eval turns n e m = (.ok v, m₁))
      (chosen : s.branch? v = some t) :
    Starts turns ⟨.exec (n + 1) s, m⟩ ⟨.exec n t, m₁⟩
  | loop {n c b m} :
    Starts turns ⟨.exec (n + 1) (.whileLoop c b), m⟩ ⟨.iterate n c b turns, m⟩
  | condition {n c b left m} :
    Starts turns ⟨.iterate n c b (left + 1), m⟩ ⟨.eval n c, m⟩
  | turn {n c b left m v m₁} (run : eval turns n c m = (.ok v, m₁)) (holds : v.isTruthy = true) :
    Starts turns ⟨.iterate n c b (left + 1), m⟩ ⟨.exec n b, m₁⟩
  | again {n c b left m v m₁ completion m₂} (run : eval turns n c m = (.ok v, m₁))
      (holds : v.isTruthy = true) (run₁ : exec turns n b m₁ = (.ok completion, m₂))
      (goesOn : completion.GoesOn) :
    Starts turns ⟨.iterate n c b (left + 1), m⟩ ⟨.iterate n c b left, m₂⟩
  | block {n body m} :
    Starts turns ⟨.exec (n + 1) (.block body), m⟩ ⟨.runAll n body, m.entered m.environment⟩
  | statement {n s ss m} : Starts turns ⟨.runAll n (s :: ss), m⟩ ⟨.exec n s, m⟩
  | statements {n s ss m m₁} (run : exec turns n s m = (.ok .normal, m₁)) :
    Starts turns ⟨.runAll n (s :: ss), m⟩ ⟨.runAll n ss, m₁⟩
  | topStatement {n s ss m} : Starts turns ⟨.runTop n (s :: ss), m⟩ ⟨.exec n s, m⟩
  | topStatements {n s ss m completion m₁} (run : exec turns n s m = (.ok completion, m₁))
      (stays : completion.Stays) :
    Starts turns ⟨.runTop n (s :: ss), m⟩ ⟨.runTop n ss, m₁⟩
  | body {n f arguments m env m₁} (run : openCall f arguments m = (.ok env, m₁)) :
    Starts turns ⟨.call n f arguments, m⟩ ⟨.runAll n f.body, m₁.within env⟩
  | superclass {n name ref mixins methods statics m} :
    Starts turns ⟨.exec (n + 1) (.classDecl name (some ref) mixins methods statics), m⟩
      ⟨.parent .superclassNotClass ref, m⟩
  | mixin {n name superclass before ref behind methods statics m c m₁ cs m₂}
      (run : readSuperclass superclass m = (.ok c, m₁))
      (run₁ : readMixinClasses before m₁ = (.ok cs, m₂)) :
    Starts turns
      ⟨.exec (n + 1) (.classDecl name superclass (before ++ ref :: behind) methods statics), m⟩
      ⟨.parent .mixinNotClass ref, m₂⟩
  | members {n name superclass mixins methods statics m c m₁ cs m₂ m₃}
      (run : readSuperclass superclass m = (.ok c, m₁))
      (run₁ : readMixinClasses mixins m₁ = (.ok cs, m₂))
      (run₂ : declareHere name.lexeme m₂ = (.ok (), m₃)) :
    Starts turns ⟨.exec (n + 1) (.classDecl name superclass mixins methods statics), m⟩
      ⟨.makeClass n name c cs methods statics, m₃⟩

/-- A moment leads to another one. -/
abbrev Reaches (turns : Nat) : Moment → Moment → Prop := Relation.ReflTransGen (Starts turns)

/-! ## Frames -/

/-- The construct that opens a scope, with other marks. -/
def Opener.map {ρ σ : Type} (f : ρ → σ) : Opener ρ → Opener σ
  | .block body => .block (Stmt.mapAll f body)
  | .routine params body => .routine params (Stmt.mapAll f body)
  | .object => .object
  | .parent => .parent

/-- The call makes a frame, inside an environment: one for each block that is executed, for each
call of a closure, for each method that is bound to an object, and for each class that is made with
a superclass. -/
inductive Moment.Opens : Moment → Opener Distance → FrameId → Environment → Prop
  | block {n body m} :
    Opens ⟨.exec (n + 1) (.block body), m⟩ (.block body) m.store.frames.size m.environment
  | call {n f arguments m} :
    Opens ⟨.call n f arguments, m⟩ (.routine f.params f.body) m.store.frames.size f.environment
  | bind {method self m} :
    Opens ⟨.bind method self, m⟩ .object m.store.frames.size method.environment
  | superclass {n name c mixins methods statics m} :
    Opens ⟨.makeClass n name (some c) mixins methods statics, m⟩ .parent m.store.frames.size
      m.environment

/-! ## Failures -/

/-- A broken promise of the static rules. -/
def Failure.IsInternal : Failure → Prop
  | .internal _ _ => True
  | _ => False

theorem Failure.IsInternal.ne_overflow {failure : Failure} (h : failure.IsInternal) :
    failure ≠ .overflow := by
  rintro rfl
  exact h

/-- The computation ends with a failure. -/
def Raises {α : Type} (act : Run α) (m : Machine) (failure : Failure) : Prop :=
  ∃ m', (act m : Except Failure α × Machine) = (.error failure, m')

/-- The activity ends with a failure. -/
def Moment.Fails (turns : Nat) (M : Moment) (failure : Failure) : Prop :=
  match M.activity with
  | .eval n e => Raises (eval turns n e) M.machine failure
  | .exec n s => Raises (exec turns n s) M.machine failure
  | .runAll n ss => Raises (runAll (exec turns n) ss) M.machine failure
  | .runTop n ss => Raises (runStatements (exec turns n) ss) M.machine failure
  | .iterate n c b left => Raises (iterate (eval turns n c) (exec turns n b) left) M.machine failure
  | .call n f arguments => Raises (callClosure (exec turns n) f arguments) M.machine failure
  | .bind method self => Raises (bindMethod method self) M.machine failure
  | .parent fault ref => Raises (readParent fault ref) M.machine failure
  | .makeClass n name superclass mixins methods statics =>
    Raises (makeClass n name superclass mixins methods statics) M.machine failure

namespace Raises

variable {α β : Type} {act act' : Run α} {next : α → Run β} {m m₁ : Machine} {failure : Failure}

theorem of_eq (h : Raises act' m₁ failure)
    (same : (act m : Except Failure α × Machine) = act' m₁) : Raises act m failure := by
  obtain ⟨m', run⟩ := h
  exact ⟨m', same.trans run⟩

theorem bind (h : Raises act m failure) : Raises (act >>= next) m failure := by
  obtain ⟨m', run⟩ := h
  exact ⟨m', by rw [run_bind, run]⟩

theorem bind_next {a : α} (run : act m = (.ok a, m₁)) (h : Raises (next a) m₁ failure) :
    Raises (act >>= next) m failure := by
  obtain ⟨m', run'⟩ := h
  exact ⟨m', by rw [run_bind, run]; exact run'⟩

theorem inEnvironment {env : Environment} (h : Raises act (m.within env) failure) :
    Raises (inEnvironment env act) m failure := by
  obtain ⟨m', run⟩ := h
  refine ⟨m'.within m.environment, ?_⟩
  rw [run_inEnvironment, run]

theorem catchOverflow {token : Option Token} (h : Raises act m failure)
    (plain : failure ≠ .overflow) : Raises (catchOverflow token act) m failure := by
  obtain ⟨m', run⟩ := h
  refine ⟨m', ?_⟩
  rw [LoxLang.catchOverflow, run_tryCatch, run]
  cases failure with
  | overflow => exact absurd rfl plain
  | runtime _ _ => rfl
  | internal _ _ => rfl
  | unfinished => rfl

end Raises

/-! ## Failures of parts -/

section Parts

variable {turns n : Nat} {m m₁ m₂ : Machine} {failure : Failure}

theorem raises_first {e part : Expr Distance} (part_e : e.first? = some part)
    (h : Raises (eval turns n part) m failure) : Raises (eval turns (n + 1) e) m failure := by
  cases e <;> cases part_e
  · exact h
  · exact h.bind
  · exact h.bind
  · exact h.bind
  · exact h.bind
  · exact h.bind
  · exact h.bind
  · exact h.bind

theorem raises_second {e part part₂ : Expr Distance} {v : Value} (part_e : e.first? = some part)
    (run : eval turns n part m = (.ok v, m₁)) (part_v : e.second? v = some part₂)
    (h : Raises (eval turns n part₂) m₁ failure) : Raises (eval turns (n + 1) e) m failure := by
  cases e <;> cases part_e
  · cases part_v
  · cases part_v
  · cases part_v
    exact .bind_next run h.bind
  · rename_i op _
    refine .bind_next run ?_
    cases settled : settles op v with
    | true => simp [Expr.second?, settled] at part_v
    | false =>
      simp only [Expr.second?, settled, Bool.false_eq_true, if_false, Option.some.injEq] at part_v
      subst part_v
      simpa [settled] using h
  · cases part_v
  · cases part_v
  · cases part_v
  · refine .bind_next run ?_
    cases receiver : v.receiver? with
    | none => simp [Expr.second?, receiver] at part_v
    | some r =>
      simp only [Expr.second?, receiver, Option.isSome_some, if_true, Option.some.injEq] at part_v
      subst part_v
      simpa [receiver] using h.bind

theorem raises_evalAll {before behind : List (Expr Distance)} {e : Expr Distance}
    {vs : List Value} (run : evalAll (eval turns n) before m = (.ok vs, m₁))
    (h : Raises (eval turns n e) m₁ failure) :
    Raises (evalAll (eval turns n) (before ++ e :: behind)) m failure := by
  induction before generalizing m vs with
  | nil =>
    cases run
    exact h.bind
  | cons e' before ih =>
    obtain ⟨v, m', run', run⟩ := run_bind_ok_iff.mp run
    obtain ⟨vs', m'', run'', run⟩ := run_bind_ok_iff.mp run
    cases run
    exact .bind_next run' (ih run'').bind

theorem raises_call {f : Expr Distance} {paren : Token} {es : List (Expr Distance)}
    {callee : Value} {vs : List Value} (run : eval turns n f m = (.ok callee, m₁))
    (run₁ : evalAll (eval turns n) es m₁ = (.ok vs, m₂))
    (check : checkCall paren callee vs.length = .ok ()) (plain : failure ≠ .overflow)
    (h : Raises (invoke (exec turns n) callee vs) m₂ failure) :
    Raises (eval turns (n + 1) (.call f paren es)) m failure := by
  refine .bind_next run (.bind_next run₁ ?_)
  rw [check]
  exact .bind_next rfl (h.catchOverflow plain)

theorem raises_readMixinClasses {before behind : List (Reference Distance)}
    {ref : Reference Distance} {cs : List Class} (run : readMixinClasses before m = (.ok cs, m₁))
    (h : Raises (readParent .mixinNotClass ref) m₁ failure) :
    Raises (readMixinClasses (before ++ ref :: behind)) m failure := by
  induction before generalizing m cs with
  | nil =>
    cases run
    exact h.bind
  | cons ref' before ih =>
    obtain ⟨c, m', run', run⟩ := run_bind_ok_iff.mp run
    obtain ⟨cs', m'', run'', run⟩ := run_bind_ok_iff.mp run
    cases run
    exact .bind_next run' (ih run'').bind

theorem raises_readSuperclass {ref : Reference Distance}
    (h : Raises (readParent .superclassNotClass ref) m failure) :
    Raises (readSuperclass (some ref)) m failure := by
  obtain ⟨m', run⟩ := h
  refine ⟨m', ?_⟩
  rw [readSuperclass, map_eq_pure_bind, run_bind, run]

theorem raises_value {s : Stmt Distance} {e : Expr Distance} (part : s.first? = some e)
    (h : Raises (eval turns n e) m failure) : Raises (exec turns (n + 1) s) m failure := by
  cases s with
  | var name value => cases part; exact h.bind
  | ret keyword value => cases part; exact h.bind
  | expression _ => cases part; exact h.bind
  | print _ => cases part; exact h.bind
  | ifElse _ _ _ => cases part; exact h.bind
  | _ => cases part

/-- A statement that has chosen a branch goes on as the branch. -/
theorem exec_branch {s t : Stmt Distance} {e : Expr Distance} {v : Value}
    (part : s.first? = some e) (run : eval turns n e m = (.ok v, m₁))
    (chosen : s.branch? v = some t) : exec turns (n + 1) s m = exec turns n t m₁ := by
  cases s with
  | ifElse c t' e' =>
    cases part
    refine (run_bind _ _ m).trans ?_
    rw [run]
    cases holds : v.isTruthy with
    | true =>
      simp only [Stmt.branch?, holds, if_true, Option.some.injEq] at chosen
      subst chosen
      simp [holds]
    | false =>
      simp only [Stmt.branch?, holds, Bool.false_eq_true, if_false] at chosen
      subst chosen
      simp [holds]
  | _ => cases chosen

/-- A loop that goes on behind a turn goes on as the rest of its turns. -/
theorem iterate_again {left : Nat} {c : Expr Distance} {b : Stmt Distance} {v : Value}
    {completion : Completion} (run : eval turns n c m = (.ok v, m₁)) (holds : v.isTruthy = true)
    (run₁ : exec turns n b m₁ = (.ok completion, m₂)) (goesOn : completion.GoesOn) :
    iterate (eval turns n c) (exec turns n b) (left + 1) m =
      iterate (eval turns n c) (exec turns n b) left m₂ := by
  rw [iterate_succ, run]
  simp only [holds, Bool.true_eq_false, if_false]
  rw [run₁]
  cases completion with
  | normal => rfl
  | returned v => exact goesOn.elim
  | exited keyword =>
    have goesOn : keyword.isBreak = false := goesOn
    simp [goesOn]

/-- Code at top level that stays behind a statement goes on as the rest of it. -/
theorem runStatements_rest {s : Stmt Distance} {ss : List (Stmt Distance)} {completion : Completion}
    (run : exec turns n s m = (.ok completion, m₁)) (stays : completion.Stays) :
    runStatements (exec turns n) (s :: ss) m = runStatements (exec turns n) ss m₁ := by
  rw [runStatements_cons, run]
  cases completion with
  | normal => rfl
  | returned v => rfl
  | exited keyword => exact stays.elim

/-- An access through `super` whose class and object are known. -/
theorem run_readSuper {ref : Reference Distance} {d : Nat} {c : Class} {self : Value}
    (mark : ref.mark = some d)
    (superclass : m.store.readAt m.environment d superName (some ref.token) = .ok (.class c))
    (object : m.store.readAt m.environment (d - 1) thisName (some ref.token) = .ok self)
    (name : Token) :
    (readSuper ref name m : Except Failure Value × Machine) = (match c.findMethod name.lexeme with
      | some found => do return .function (← bindMethod found self)
      | none => throw (.runtime (some name) (.undefinedProperty name.lexeme)) : Run Value) m := by
  rw [readSuper, mark]
  show ((orFail (m.store.readAt m.environment d superName _)) >>= _ : Run Value) m = _
  rw [superclass]
  show ((orFail (m.store.readAt m.environment (d - 1) thisName _)) >>= _ : Run Value) m = _
  rw [object]
  rfl

end Parts

/-- A failure is handed on through all calls in progress, unless it is an overflow. -/
theorem Starts.fails {turns : Nat} {M M' : Moment} {failure : Failure} (starts : Starts turns M M')
    (plain : failure ≠ .overflow) (fails : M'.Fails turns failure) : M.Fails turns failure := by
  cases starts with
  | first part_e => exact raises_first part_e fails
  | second part_e run part_v => exact raises_second part_e run part_v fails
  | argument run run₁ => exact Raises.bind_next run (raises_evalAll run₁ fails).bind
  | call run run₁ check => exact raises_call run run₁ check plain fails
  | bindInit run run₁ check found run₂ =>
    refine raises_call run run₁ check plain (.bind_next run₂ ?_)
    rw [found]
    exact Raises.bind fails
  | callInit run run₁ check found run₂ run₃ =>
    refine raises_call run run₁ check plain (.bind_next run₂ ?_)
    rw [found]
    exact .bind_next run₃ (Raises.bind fails)
  | method run receiver field cls method =>
    refine Raises.bind_next run ?_
    rw [receiver]
    refine .bind (.bind_next rfl ?_)
    rw [field]
    simp only [cls, method]
    exact Raises.bind fails
  | getter run receiver run₁ kind =>
    refine Raises.bind_next run ?_
    rw [receiver]
    refine .bind_next run₁ ?_
    rw [callIfGetter, if_pos kind]
    exact fails
  | superMethod mark superclass object method =>
    refine Raises.of_eq ?_ (run_readSuper mark superclass object _)
    rw [method]
    exact Raises.bind fails
  | value part => exact raises_value part fails
  | branch part run chosen => exact Raises.of_eq fails (exec_branch part run chosen)
  | loop => exact fails
  | condition => exact Raises.bind fails
  | turn run holds =>
    refine Raises.bind_next run ?_
    rw [holds]
    exact Raises.bind fails
  | again run holds run₁ goesOn => exact Raises.of_eq fails (iterate_again run holds run₁ goesOn)
  | block => exact Raises.bind_next rfl (.bind_next rfl (.inEnvironment fails))
  | statement => exact Raises.bind fails
  | statements run => exact Raises.bind_next run fails
  | topStatement => exact Raises.bind fails
  | topStatements run stays => exact Raises.of_eq fails (runStatements_rest run stays)
  | body run => exact Raises.bind_next run (Raises.inEnvironment fails).bind
  | superclass => exact Raises.bind (Raises.bind (raises_readSuperclass fails))
  | mixin run run₁ =>
    exact Raises.bind (Raises.bind_next run (raises_readMixinClasses run₁ fails).bind)
  | members run run₁ run₂ =>
    exact Raises.bind (Raises.bind_next run (.bind_next run₁ (.bind_next run₂ (Raises.bind fails))))

/-- A failure that is no overflow goes all the way up. -/
theorem Reaches.fails {turns : Nat} {M M' : Moment} {failure : Failure}
    (reaches : Reaches turns M M') (plain : failure ≠ .overflow)
    (fails : M'.Fails turns failure) : M.Fails turns failure := by
  induction reaches with
  | refl => exact fails
  | tail _ starts ih => exact ih (starts.fails plain fails)

end LoxLang
