/-
LoxLang.Proofs.Session.Restored: between two steps a session is at top level.

An expression and a statement leave the current environment as they find it, however they end.  A
session runs one thing after another on one machine, so that the environment of the globals, which
it starts in, is the current one behind each of its steps; a failure that is handed on makes no
difference.

* `Step`, `Step.play`: what a user does to a session: a move, a line of a dialogue, or a dialogue.
* `Session.behind`: the session behind steps.

Main statement: `environment_restored`.
-/
import LoxLang.Proofs.Machine.Steady
import LoxLang.Proofs.Session.History

namespace LoxLang

/-- What is run leaves the environment as it is. -/
theorem steady_task (bounds : Bounds) (task : Task) : Steady (task.run bounds) := by
  cases task with
  | program ss =>
    have statements : ∀ ss, Steady (runStatements (exec bounds.turns bounds.nesting) ss) := by
      intro ss
      induction ss with
      | nil => exact steady_pure ()
      | cons s ss ih =>
        apply (steady_exec _ _ s).bind
        intro completion
        cases completion with
        | exited keyword => exact steady_throw _
        | normal => exact ih
        | returned v => exact ih
    exact steady_catchOverflow none (statements ss)
  | expression e =>
    exact (steady_catchOverflow none (steady_eval _ _ e)).bind fun _ => steady_pure ()

/-! ## Steps -/

/-- What a user does to a session. -/
inductive Step where
  | move (m : Move)
  /-- A line of a dialogue. -/
  | answer (line : String)
  /-- A dialogue. -/
  | prompt (input : String)

/-- Takes a step; the failure that it hands on is an internal one. -/
def Step.play : Step → Dialogue (Option Failure)
  | move m => m.play
  | answer line => Session.answer line
  | prompt input => Session.runPrompt input

namespace Session

/-- The session behind steps. -/
def behind (s : Session) (steps : List Step) : Session :=
  steps.foldl (fun s step => (step.play s).2) s

theorem environment_move (s : Session) (move : Move) :
    (move.play s).2.machine.environment = s.machine.environment := by
  have played := s.played move
  cases runs : move.task? s with
  | none => exact (played.idle runs).2.environment
  | some task =>
    calc (move.play s).2.machine.environment
        = (task.run s.bounds s.machine).2.environment := (played.ran task runs).2.environment
      _ = s.machine.environment := steady_task s.bounds task s.machine

theorem answer_eq (s : Session) (line : String) :
    (answer line s : Option Failure × Session) =
      (match (runLine line s : Option Failure × Session) with
        | (r, s') => (match r with
          | some failure => return some failure
          | none => do resetFlags; return none : Dialogue (Option Failure)) s') := rfl

theorem environment_answer (s : Session) (line : String) :
    (answer line s).2.machine.environment = s.machine.environment := by
  have ran : (runLine line s).2.machine.environment = s.machine.environment :=
    s.environment_move (.runLine line)
  rw [answer_eq]
  rcases run : (runLine line s : Option Failure × Session) with ⟨_ | failure, s'⟩
  · rwa [run] at ran
  · rwa [run] at ran

theorem runLines_cons (s : Session) (line : String) (rest : List String) :
    (runLines (line :: rest) s : Option Failure × Session) =
      (match (answer line (printText promptText s).2 : Option Failure × Session) with
        | (r, s') => (match r with
          | some failure => return some failure
          | none => runLines rest : Dialogue (Option Failure)) s') := rfl

theorem environment_runLines (s : Session) (lines : List String) :
    (runLines lines s).2.machine.environment = s.machine.environment := by
  induction lines generalizing s with
  | nil => rfl
  | cons line rest ih =>
    have asked : (printText promptText s).2.machine.environment = s.machine.environment := rfl
    have answered := (environment_answer (printText promptText s).2 line).trans asked
    rw [runLines_cons]
    rcases run : (answer line (printText promptText s).2 : Option Failure × Session) with
      ⟨_ | failure, s'⟩
    · rw [run] at answered
      exact (ih s').trans answered
    · rwa [run] at answered

/-- A step comes back to the environment that it began in. -/
theorem environment_step (s : Session) (step : Step) :
    (step.play s).2.machine.environment = s.machine.environment := by
  cases step with
  | move m => exact s.environment_move m
  | answer line => exact s.environment_answer line
  | prompt input => exact s.environment_runLines _

theorem environment_behind (s : Session) (steps : List Step) :
    (s.behind steps).machine.environment = s.machine.environment := by
  induction steps generalizing s with
  | nil => rfl
  | cons step steps ih => exact (ih (step.play s).2).trans (s.environment_step step)

end Session

/-- An expression and a statement leave the current environment as it is, on every machine and
however they end.  Hence it is that of the globals behind all steps of a session. -/
theorem environment_restored :
    (∀ (turns n : Nat) (e : Expr Distance) (m : Machine),
      (eval turns n e m : Except Failure Value × Machine).2.environment = m.environment) ∧
    (∀ (turns n : Nat) (s : Stmt Distance) (m : Machine),
      (exec turns n s m : Except Failure Completion × Machine).2.environment = m.environment) ∧
    ∀ (bounds : Bounds) (now : Clock) (steps : List Step),
      ((Session.start bounds now).behind steps).machine.environment = Store.globalEnvironment := by
  refine ⟨steady_eval, steady_exec, fun bounds now steps => ?_⟩
  exact (Session.start bounds now).environment_behind steps

end LoxLang
