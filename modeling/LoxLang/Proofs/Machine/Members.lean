/-
LoxLang.Proofs.Machine.Members: the frame that the members of a class are collected in.

While the closures of the members of a class are made, the frame that holds the superclass is the
current one, and the way back leads through its link.  A closure keeps its environment and does not
look at the current one when it is made, so the class is the same as if the current environment had
been left alone, and the members had been made over an environment that was prepared for them.

* `Machine.within`, `Machine.entered`: a machine in another environment, and in a new frame.
* `Blind`: a computation that neither looks at the current environment nor changes it.
* `memberEnvironment`: the environment of the members of a class.

Main statements: `withSuperclass_eq` and `makeClass_eq`.
-/
import LoxLang.Machine.Eval
import LoxLang.Proofs.Outcome

namespace LoxLang

/-! ## Environments -/

/-- The machine in another environment. -/
def Machine.within (m : Machine) (env : Environment) : Machine := { m with environment := env }

/-- The machine in a new frame inside an environment. -/
def Machine.entered (m : Machine) (env : Environment) : Machine :=
  { m with store := m.store.addFrame, environment := m.store.frames.size :: env }

/-- The machine in a new frame that holds a superclass. -/
def Machine.holding (m : Machine) (c : Class) : Machine :=
  { m.entered m.environment with
    store := m.store.addFrame.define m.store.frames.size superName (.class c) }

section Runs

variable {α β : Type}

theorem run_inEnvironment (env : Environment) (act : Run α) (m : Machine) :
    (inEnvironment env act m : Except Failure α × Machine) =
      ((act (m.within env)).1, (act (m.within env)).2.within m.environment) := rfl

theorem run_leaveAfter (act : Run α) (m : Machine) :
    (leaveAfter act m : Except Failure α × Machine) =
      ((act m).1, (act m).2.within (act m).2.environment.tail) := rfl

theorem run_withSuperclass_some (c : Class) (act : Run α) (m : Machine) :
    (withSuperclass (some c) act m : Except Failure α × Machine) =
      leaveAfter act (m.holding c) := rfl

/-! ## Blind computations -/

/-- The computation neither looks at the current environment nor changes it. -/
def Blind (act : Run α) : Prop :=
  ∀ (m : Machine) (env : Environment), (act (m.within env) : Except Failure α × Machine) =
    ((act m).1, (act m).2.within env)

theorem Blind.bind {act : Run α} {next : α → Run β} (first : Blind act)
    (second : ∀ a, Blind (next a)) : Blind (act >>= next) := by
  intro m env
  rw [run_bind, run_bind, first m env]
  rcases (act m : Except Failure α × Machine) with ⟨_ | a, m₁⟩
  · rfl
  · exact second a m₁ env

theorem blind_pure (a : α) : Blind (pure a : Run α) := fun _ _ => rfl

theorem blind_needLevel (left : Nat) : Blind (needLevel left) := by
  intro m env
  unfold needLevel
  split <;> rfl

theorem blind_newClosure (name : Option Token) (params : List Token) (body : List (Stmt Distance))
    (env : Environment) (kind : ClosureKind) : Blind (newClosure name params body env kind) :=
  fun _ _ => rfl

/-- The closures of members are made over the environment that is given. -/
theorem blind_newMethods (kind : Routine Distance → ClosureKind) (env : Environment) :
    ∀ rs methods, Blind (newMethods kind env rs methods)
  | [], _ => blind_pure _
  | _ :: rs, _ => (blind_newClosure _ _ _ _ _).bind fun _ => blind_newMethods kind env rs _

/-- A blind computation ends in the environment that it began in. -/
theorem Blind.environment {act : Run α} (blind : Blind act) (m : Machine) :
    (act m : Except Failure α × Machine).2.environment = m.environment := by
  have same := blind m m.environment
  rw [show m.within m.environment = m from rfl] at same
  rw [same]
  rfl

end Runs

/-! ## Classes -/

/-- The environment of the members of a class: with a superclass, a frame of its own holds it. -/
def memberEnvironment (superclass : Option Class) : Run Environment := do
  let env := (← get).environment
  match superclass with
  | none => return env
  | some c => do
    let inner ← newFrame env
    defineIn inner superName (.class c)
    return inner

/-- What a blind computation does with the environment that holds the superclass does not depend on
whether this is the current one. -/
theorem withSuperclass_eq {α : Type} (superclass : Option Class) {next : Environment → Run α}
    (blind : ∀ env, Blind (next env)) :
    withSuperclass superclass (get >>= fun m => next m.environment) =
      memberEnvironment superclass >>= next := by
  cases superclass with
  | none => rfl
  | some c =>
    funext m
    have apart := blind (m.store.frames.size :: m.environment) (m.holding c) m.environment
    have stays := (blind (m.store.frames.size :: m.environment)).environment (m.holding c)
    calc (withSuperclass (some c) (get >>= fun m => next m.environment) m : Except Failure α × _)
        = leaveAfter (next (m.store.frames.size :: m.environment)) (m.holding c) := rfl
      _ = next (m.store.frames.size :: m.environment) ((m.holding c).within m.environment) := by
        rw [run_leaveAfter, apart, stays]
        rfl
      _ = (memberEnvironment (some c) >>= next) m := rfl

/-- Without a level left there is an overflow, and nothing else happens. -/
theorem ends_needLevel (left : Nat) (m : Machine) :
    Ends (needLevel left) m (fun _ m' => m' = m)
      fun failure m' => failure = .overflow ∧ m' = m := by
  unfold needLevel
  split
  · exact ⟨rfl, rfl⟩
  · exact rfl

/-- The closures of the members of a class over an environment. -/
def membersOver (left : Nat) (methods statics : List (Routine Distance)) (env : Environment) :
    Run (List (String × Closure) × List (String × Closure)) := do
  needLevel left
  let methods ← newMethods methodKind env methods []
  let statics ← newMethods staticKind env statics []
  return (methods, statics)

theorem blind_membersOver (left : Nat) (methods statics : List (Routine Distance))
    (env : Environment) : Blind (membersOver left methods statics env) :=
  (blind_needLevel left).bind fun _ => (blind_newMethods _ env methods []).bind fun _ =>
    (blind_newMethods _ env statics []).bind fun _ => blind_pure _

/-- A class is made as if the current environment had been left alone. -/
theorem makeClass_eq (left : Nat) (name : Token) (superclass : Option Class) (mixins : List Class)
    (methods statics : List (Routine Distance)) :
    makeClass left name superclass mixins methods statics =
      memberEnvironment superclass >>= fun env => do
        needLevel left
        let methods ← newMethods methodKind env methods []
        let statics ← newMethods staticKind env statics []
        let metaId ← newObject
        let id ← newObject
        return .build id metaId name.lexeme superclass mixins methods statics := by
  have outside := withSuperclass_eq superclass (blind_membersOver left methods statics)
  unfold makeClass
  rw [show makeMembers left methods statics =
    get >>= fun m => membersOver left methods statics m.environment from rfl, outside]
  simp only [membersOver, bind_assoc, pure_bind]

end LoxLang
