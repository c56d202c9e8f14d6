/-
LoxLang.Proofs.Machine.ForLoop: how a `for` loop runs.

The body of a `for` loop is executed with copies of the increment in it.  Beside it stands the body
as it was written, without any copy: the run of the loop is put together from runs of the body as it
was written and evaluations of the increment, one behind each turn that ended normally or with a
`continue`.

* `Continued`: how a body ends with the copies in it, by how it ends without them.
* `Increments`: the one evaluation of the increment behind a turn.
* `ForRuns`: the turns of a loop.

Main statements: `continued_exec`, about one turn, and `for_increments_once`, about a whole loop.
-/
import LoxLang.Proofs.Machine.Moments
import LoxLang.Proofs.Machine.Sequences
import LoxLang.Proofs.Machine.Steady
import LoxLang.Proofs.Tree.Remarked

namespace LoxLang

/-- The run ends with a `continue`. -/
def Continues (r : Except Failure Completion) : Prop :=
  ∃ keyword : Token, r = .ok (.exited keyword) ∧ keyword.isBreak = false

/-! ## One turn -/

/-- How a body ends with copies of the increment in it, by how it ends without them: in the same
way, unless that is a `continue`.  Then a copy is evaluated, in a block of its own where the
`continue` stands, and the body ends behind it. -/
inductive Continued (turns : Nat) (increment : Expr Unit) : Ending → Ending → Prop
  | same {r m} (other : ¬ Continues r) : Continued turns increment (r, m) (r, m)
  | copied {keyword : Token} {copy inner n r m m'} (goesOn : keyword.isBreak = false)
      (same : copy.erase = increment) (inside : m.environment <:+ inner)
      (run : exec turns n (.expression copy) (m.entered inner) = (r, m')) :
    Continued turns increment (.ok (.exited keyword), m)
      (r.map fun _ => .exited keyword, m'.within m.environment)

section Turns

variable {turns : Nat} {increment : Expr Unit}

/-- A body whose statements end as told, seen from outside. -/
theorem Continued.leave {o o' : Ending} {env : Environment} (h : Continued turns increment o o')
    (inside : env <:+ o.2.environment) :
    Continued turns increment (o.1, o.2.within env) (o'.1, o'.2.within env) := by
  cases h with
  | same other => exact .same other
  | @copied keyword copy inner n r m m' goesOn same deeper run =>
    exact @Continued.copied turns increment keyword copy inner n r (m.within env) m' goesOn same
      (inside.trans deeper) run

/-- An expression statement ends normally, if it ends. -/
theorem exec_expression (n : Nat) (e : Expr Distance) (m : Machine) :
    Ends (exec turns n (.expression e)) m (fun c _ => c = .normal ∧ n ≠ 0) (fun _ _ => True) := by
  cases n with
  | zero => exact trivial
  | succ n =>
    refine ends_bind.mpr (.of_run (fun v m' run => ?_) fun _ _ _ => trivial)
    exact ⟨rfl, n.succ_ne_zero⟩

/-- A copy of the increment in front of a `continue`. -/
theorem continued_copy {keyword : Token} (goesOn : keyword.isBreak = false) {copy : Expr Distance}
    (same : copy.erase = increment) (n : Nat) (m : Machine) :
    Continued turns increment (.ok (.exited keyword), m)
      (exec turns (n + 1) (.block [.expression copy, .loopExit keyword]) m) := by
  have split : (exec turns (n + 1) (.block [.expression copy, .loopExit keyword]) m : Ending) =
      ((runAll (exec turns n) [.expression copy, .loopExit keyword] (m.entered m.environment)).1,
        (runAll (exec turns n) [.expression copy, .loopExit keyword]
          (m.entered m.environment)).2.within m.environment) := rfl
  have inside : m.environment <:+ m.environment := List.suffix_refl _
  have ends := @exec_expression turns n copy (m.entered m.environment)
  rw [split, runAll, run_bind]
  rcases run : (exec turns n (.expression copy) (m.entered m.environment) : Ending) with ⟨r, m'⟩
  have copied := Continued.copied goesOn same inside run
  cases r with
  | error failure => exact copied
  | ok completion =>
    obtain ⟨rfl, positive⟩ := ends.ok run
    obtain ⟨n, rfl⟩ := Nat.exists_eq_succ_of_ne_zero positive
    exact copied

/-- A loop that is left goes on behind it. -/
theorem ends_iterate (condition : Run Value) (body : Run Completion) :
    ∀ left m, Ends (iterate condition body left) m (fun c _ => ∀ keyword, c ≠ .exited keyword)
      (fun _ _ => True)
  | 0, _ => trivial
  | left + 1, m => by
    refine ends_bind.mpr (.of_run (fun v m₁ _ => ?_) fun _ _ _ => trivial)
    split
    · exact fun _ no => by cases no
    · refine ends_bind.mpr (.of_run (fun completion m₂ _ => ?_) fun _ _ _ => trivial)
      split
      · exact fun _ no => by cases no
      · split
        · exact fun _ no => by cases no
        · exact ends_iterate condition body left m₂
      · exact ends_iterate condition body left m₂

/-- A statement that is no block, no conditional and no loop exit does not leave a loop. -/
def Stmt.Stays {ρ : Type} : Stmt ρ → Prop
  | .block _ => False
  | .ifElse _ _ _ => False
  | .loopExit _ => False
  | _ => True

theorem ends_exec_of_stays {s : Stmt Distance} (stays : s.Stays) (n : Nat) (m : Machine) :
    Ends (exec turns n s) m (fun c _ => ∀ keyword, c ≠ .exited keyword) (fun _ _ => True) := by
  have behind : ∀ {α : Type} (act : Run α) {c : α → Completion},
      (∀ a keyword, c a ≠ .exited keyword) →
        Ends (act >>= fun a => pure (c a)) m (fun c _ => ∀ keyword, c ≠ .exited keyword)
          (fun _ _ => True) := by
    intro α act c other
    exact ends_bind.mpr (.of_run (fun a _ _ => other a) fun _ _ _ => trivial)
  cases n with
  | zero => exact trivial
  | succ n =>
    cases s with
    | block _ => exact stays.elim
    | ifElse _ _ _ => exact stays.elim
    | loopExit _ => exact stays.elim
    | missing => exact fun _ no => by cases no
    | expression e => exact behind _ fun _ _ no => by cases no
    | print e =>
      refine ends_bind.mpr (.of_run (fun v m' _ => ?_) fun _ _ _ => trivial)
      exact fun _ no => by cases no
    | var name init =>
      cases init with
      | none => exact fun _ no => by cases no
      | some e =>
        refine ends_bind.mpr (.of_run (fun v m' _ => ?_) fun _ _ _ => trivial)
        exact fun _ no => by cases no
    | whileLoop c b => exact ends_iterate _ _ turns m
    | ret keyword value =>
      cases value with
      | none => exact fun _ no => by cases no
      | some e => exact behind _ fun _ _ no => by cases no
    | function r => exact fun _ no => by cases no
    | classDecl name superclass mixins methods statics => exact behind _ fun _ _ no => by cases no

theorem continued_of_stays {s : Stmt Distance} (stays : s.Stays) (n : Nat) (m : Machine) :
    Continued turns increment (exec turns n s m) (exec turns n s m) := by
  refine .same ?_
  rintro ⟨keyword, run, _⟩
  exact (@ends_exec_of_stays turns s stays n m).ok (Prod.ext run rfl) keyword rfl

/-- One statement after another: the rest is only begun behind a normal end, and then alike. -/
theorem continued_cons {exec exec' rest rest' : Run Completion} {m : Machine}
    (first : Continued turns increment (exec m) (exec' m))
    (next : ∀ m', Continued turns increment (rest m') (rest' m')) :
    Continued turns increment
      ((exec >>= fun c => match c with | .normal => rest | c => pure c : Run Completion) m)
      ((exec' >>= fun c => match c with | .normal => rest' | c => pure c : Run Completion) m) := by
  rw [run_bind, run_bind]
  generalize (exec m : Ending) = o at first
  generalize (exec' m : Ending) = o' at first
  cases first with
  | @same r m' other =>
    cases r with
    | error failure => exact .same other
    | ok completion =>
      cases completion with
      | normal => exact next m'
      | returned v => exact .same other
      | exited keyword => exact .same other
  | @copied keyword copy inner n r m₁ m₂ goesOn same inside run =>
    cases r with
    | error failure => exact .copied goesOn same inside run
    | ok completion => exact .copied goesOn same inside run

/-- Both bodies begin in the same way. -/
theorem continued_bind {α : Type} {act : Run α} {next next' : α → Run Completion} (m : Machine)
    (rest : ∀ a m', Continued turns increment (next a m') (next' a m')) :
    Continued turns increment ((act >>= next) m) ((act >>= next') m) := by
  rw [run_bind, run_bind]
  rcases (act m : Except Failure α × Machine) with ⟨failure | a, m'⟩
  · exact .same (by rintro ⟨_, run, _⟩; cases run)
  · exact rest a m'

end Turns

section Copies

variable {turns : Nat} (t : Site → Distance) (increment : Expr Site)

theorem erase_copy (k : Site) : ((increment.number k).1.map t).erase = increment.erase := by
  rw [erase_mapExpr, erase_numberExpr]

mutual

/-- A body with the copies of an increment in it ends as it does without them, but for the copy that
is evaluated in front of a `continue`. -/
theorem continued_exec : ∀ (s : Stmt Site) (k : Site) (n : Nat) (m : Machine),
    Continued turns increment.erase (exec turns n (s.map t) m)
      (exec turns n ((s.withIncrement increment k).1.map t) m)
  | s, _, 0, _ => .same (by rintro ⟨_, run, _⟩; cases run)
  | .loopExit keyword, k, n + 1, m => by
    rw [Stmt.withIncrement]
    split
    · rename_i stops
      refine .same ?_
      rintro ⟨_, run, goesOn⟩
      cases run
      exact absurd stops (by simp [goesOn])
    · rename_i goesOn
      exact continued_copy (by simpa using goesOn) (erase_copy t increment k) n m
  | .block body, k, n + 1, m =>
    (continued_runAll body k n (m.entered m.environment)).leave (by
      rw [steady_runAll (steady_exec turns n) _ (m.entered m.environment)]
      exact List.suffix_cons _ _)
  | .ifElse c thenBranch none, k, n + 1, m => by
    refine continued_bind m fun v m' => ?_
    cases v.isTruthy with
    | true => exact continued_exec thenBranch k n m'
    | false => exact .same (by rintro ⟨_, run, _⟩; cases run)
  | .ifElse c thenBranch (some elseBranch), k, n + 1, m => by
    refine continued_bind m fun v m' => ?_
    cases v.isTruthy with
    | true => exact continued_exec thenBranch k n m'
    | false => exact continued_exec elseBranch _ n m'
  | .missing, _, _, _ | .expression _, _, _, _ | .print _, _, _, _ | .whileLoop _ _, _, _, _ =>
    continued_of_stays (by exact trivial) _ _
  | .function _, _, _, _ | .classDecl .., _, _, _ => continued_of_stays (by exact trivial) _ _
  | .var _ none, _, _, _ | .var _ (some _), _, _, _ => continued_of_stays (by exact trivial) _ _
  | .ret _ none, _, _, _ | .ret _ (some _), _, _, _ => continued_of_stays (by exact trivial) _ _

theorem continued_runAll : ∀ (ss : List (Stmt Site)) (k : Site) (n : Nat) (m : Machine),
    Continued turns increment.erase (runAll (exec turns n) (Stmt.mapAll t ss) m)
      (runAll (exec turns n) (Stmt.mapAll t (Stmt.withIncrementAll increment ss k).1) m)
  | [], _, _, _ => .same (by rintro ⟨_, run, _⟩; cases run)
  | s :: ss, k, n, m =>
    continued_cons (continued_exec s k n m) fun m' => continued_runAll ss _ n m'

end

end Copies

/-! ## Whole loops -/

section Loops

variable (turns : Nat)

/-- The one evaluation of the increment behind a turn of the loop, in the environment of the body or
further inside.  Behind a body that ended normally it is the increment itself that is evaluated;
behind a `continue` it is a copy, in a block of its own. -/
inductive Increments (increment : Expr Distance) (env : Environment) :
    Completion → Machine → Except Failure Unit → Machine → Prop
  | trailing {n m r m'} (run : exec turns n (.expression increment) (m.within env) = (r, m')) :
    Increments increment env .normal m (r.map fun _ => ()) (m'.within m.environment)
  | injected {keyword : Token} {copy inner n m r m'} (goesOn : keyword.isBreak = false)
      (same : copy.erase = increment.erase) (inside : env <:+ inner)
      (run : exec turns n (.expression copy) (m.entered inner) = (r, m')) :
    Increments increment env (.exited keyword) m (r.map fun _ => ()) (m'.within m.environment)

/-- The turns of a `for` loop that may take so many more of them.  The body is the one that was
written, without a copy of the increment in it. -/
inductive ForRuns (n : Nat) (condition : Expr Distance) (body : Stmt Distance)
    (increment : Expr Distance) : Nat → Machine → Except Failure Completion → Machine → Prop
  | unfinished {m} : ForRuns n condition body increment 0 m (.error .unfinished) m
  | testFails {left m failure m₁} (test : eval turns n condition m = (.error failure, m₁)) :
    ForRuns n condition body increment (left + 1) m (.error failure) m₁
  | over {left m v m₁} (test : eval turns n condition m = (.ok v, m₁))
      (fails : v.isTruthy = false) :
    ForRuns n condition body increment (left + 1) m (.ok .normal) m₁
  | bodyFails {left m v m₁ failure m₂} (test : eval turns n condition m = (.ok v, m₁))
      (holds : v.isTruthy = true) (turn : exec turns n (.block [body]) m₁ = (.error failure, m₂)) :
    ForRuns n condition body increment (left + 1) m (.error failure) m₂
  | returned {left m v m₁ value m₂} (test : eval turns n condition m = (.ok v, m₁))
      (holds : v.isTruthy = true)
      (turn : exec turns n (.block [body]) m₁ = (.ok (.returned value), m₂)) :
    ForRuns n condition body increment (left + 1) m (.ok (.returned value)) m₂
  | broken {left m v m₁ keyword m₂} (test : eval turns n condition m = (.ok v, m₁))
      (holds : v.isTruthy = true)
      (turn : exec turns n (.block [body]) m₁ = (.ok (.exited keyword), m₂))
      (stops : keyword.isBreak = true) :
    ForRuns n condition body increment (left + 1) m (.ok .normal) m₂
  | incrementFails {left m v m₁ completion m₂ failure m₃}
      (test : eval turns n condition m = (.ok v, m₁)) (holds : v.isTruthy = true)
      (turn : exec turns n (.block [body]) m₁ = (.ok completion, m₂)) (goesOn : completion.GoesOn)
      (once : Increments turns increment (m₁.store.frames.size :: m₁.environment) completion m₂
        (.error failure) m₃) :
    ForRuns n condition body increment (left + 1) m (.error failure) m₃
  | again {left m v m₁ completion m₂ m₃ r m'}
      (test : eval turns n condition m = (.ok v, m₁)) (holds : v.isTruthy = true)
      (turn : exec turns n (.block [body]) m₁ = (.ok completion, m₂)) (goesOn : completion.GoesOn)
      (once : Increments turns increment (m₁.store.frames.size :: m₁.environment) completion m₂
        (.ok ()) m₃)
      (rest : ForRuns n condition body increment left m₃ r m') :
    ForRuns n condition body increment (left + 1) m r m'

/-- How a turn of the loop ends, by how the body as it was written ends: in the same way, or with
the increment behind it. -/
inductive TurnEnds (increment : Expr Distance) (env : Environment) : Ending → Ending → Prop
  | left {r m} (leaves : ∀ completion, r = .ok completion → ¬ completion.GoesOn) :
    TurnEnds increment env (r, m) (r, m)
  | increments {completion m r m' completion'} (goesOn : completion.GoesOn)
      (goesOn' : completion'.GoesOn) (once : Increments turns increment env completion m r m') :
    TurnEnds increment env (.ok completion, m) (r.map fun _ => completion', m')

variable {turns} (t : Site → Distance) (increment : Expr Site) (body : Stmt Site)

/-- One turn of the loop. -/
theorem turnEnds_exec (first : Site) (n : Nat) (m : Machine) :
    TurnEnds turns (increment.map t) (m.store.frames.size :: m.environment)
      (exec turns n (.block [body.map t]) m)
      (exec turns n ((loopBody (some increment) body first).1.map t) m) := by
  cases n with
  | zero => exact .left fun _ run => by cases run
  | succ n =>
    let inside := m.entered m.environment
    have written : (exec turns (n + 1) (.block [body.map t]) m : Ending) =
        ((runAll (exec turns n) [body.map t] inside).1,
          (runAll (exec turns n) [body.map t] inside).2.within m.environment) := rfl
    have actual : (exec turns (n + 1) ((loopBody (some increment) body first).1.map t) m : Ending) =
        ((runAll (exec turns n) [(body.withIncrement increment first).1.map t,
            .expression (increment.map t)] inside).1,
          (runAll (exec turns n) [(body.withIncrement increment first).1.map t,
            .expression (increment.map t)] inside).2.within m.environment) := rfl
    have kept : (exec turns n (body.map t) inside : Ending).2.environment = inside.environment :=
      steady_exec turns n (body.map t) inside
    have continued := @continued_exec turns t increment body first n inside
    rw [written, actual, runAll_single, runAll_cons]
    simp only [runAll_single]
    generalize (exec turns n (body.map t) inside : Ending) = o at continued kept
    generalize (exec turns n ((body.withIncrement increment first).1.map t) inside : Ending) = o'
      at continued
    cases continued with
    | @same r m₁ other =>
      rcases r with failure | completion
      · exact .left fun _ run => by cases run
      cases completion with
      | returned v => exact .left fun _ run goesOn => by cases run; exact goesOn
      | exited keyword =>
        refine .left fun _ run goesOn => other ⟨keyword, rfl, ?_⟩
        cases run
        exact goesOn
      | normal =>
        have back :
            (m₁.within m.environment).within (m.store.frames.size :: m.environment) = m₁ := by
          rw [← show m₁.environment = m.store.frames.size :: m.environment from kept]
          rfl
        have ends := @exec_expression turns n (increment.map t) m₁
        rcases run : (exec turns n (.expression (increment.map t)) m₁ : Ending) with ⟨r, m₂⟩
        have once :
            Increments turns (increment.map t) (m.store.frames.size :: m.environment) .normal
            (m₁.within m.environment) (r.map fun _ => ()) (m₂.within m.environment) :=
          .trailing (by rw [back, run])
        have goesOn : Completion.normal.GoesOn := trivial
        have last := TurnEnds.increments goesOn goesOn once
        dsimp only
        rw [run]
        rcases r with failure | completion
        · exact last
        · obtain ⟨rfl, _⟩ := ends.ok run
          exact last
    | @copied keyword copy inner k r m₁ m₂ goesOn same deeper run =>
      have deeper' : m.store.frames.size :: m.environment <:+ inner := by
        rw [← show m₁.environment = m.store.frames.size :: m.environment from kept]
        exact deeper
      have once : Increments turns (increment.map t) (m.store.frames.size :: m.environment)
          (.exited keyword) (m₁.within m.environment) (r.map fun _ => ())
          (m₂.within m.environment) :=
        .injected goesOn (same.trans (erase_mapExpr t increment).symm) deeper' run
      have goesOn' : (Completion.exited keyword).GoesOn := goesOn
      have last := TurnEnds.increments goesOn' goesOn' once
      rcases r with failure | completion <;> exact last

theorem forRuns_iterate (condition : Expr Distance) (first : Site) (n : Nat) :
    ∀ left m, ForRuns turns n condition (body.map t) (increment.map t) left m
      (iterate (eval turns n condition)
        (exec turns n ((loopBody (some increment) body first).1.map t)) left m).1
      (iterate (eval turns n condition)
        (exec turns n ((loopBody (some increment) body first).1.map t)) left m).2 := by
  intro left
  induction left with
  | zero => exact fun m => .unfinished
  | succ left ih =>
    intro m
    rw [iterate_succ]
    rcases test : (eval turns n condition m : Except Failure Value × Machine) with ⟨failure | v, m₁⟩
    · exact .testFails test
    cases holds : v.isTruthy with
    | false => simpa [holds] using ForRuns.over test holds
    | true =>
      have turn := @turnEnds_exec turns t increment body first n m₁
      simp only [holds, Bool.true_eq_false, if_false]
      rcases written : (exec turns n (.block [body.map t]) m₁ : Ending) with ⟨r, m₂⟩
      rw [written] at turn
      generalize (exec turns n ((loopBody (some increment) body first).1.map t) m₁ : Ending) = o
        at turn
      cases turn with
      | left leaves =>
        rcases r with failure | completion
        · exact .bodyFails test holds written
        cases completion with
        | normal => exact absurd trivial (leaves _ rfl)
        | returned value => exact .returned test holds written
        | exited keyword =>
          have stops : keyword.isBreak = true := by simpa [Completion.GoesOn] using leaves _ rfl
          simpa [stops] using ForRuns.broken test holds written stops
      | @increments completion _ r m₃ completion' goesOn goesOn' once =>
        rcases r with failure | _
        · exact .incrementFails test holds written goesOn once
        cases completion' with
        | normal => exact .again test holds written goesOn once (ih m₃)
        | returned value => exact goesOn'.elim
        | exited keyword =>
          have again : keyword.isBreak = false := goesOn'
          simpa [Except.map, again] using ForRuns.again test holds written goesOn once (ih m₃)

/-- Behind every turn of a `for` loop whose body ended normally or with a `continue`, and before the
condition is tested again, exactly one copy of the increment is evaluated; behind a turn that ended
in any other way none is.  The body itself evaluates none: it runs as it was written. -/
theorem for_increments_once (init : Option (Stmt Site)) (condition : Option (Expr Site))
    (first : Site) :
    ∃ loop : Stmt Site,
      (forLoop init condition (some increment) body first).1 =
          (match init with | none => loop | some s => .block [s, loop]) ∧
        ∀ n m, ForRuns turns n ((condition.getD (.literal (.bool true))).map t) (body.map t)
          (increment.map t) turns m (exec turns (n + 1) (loop.map t) m).1
          (exec turns (n + 1) (loop.map t) m).2 := by
  refine ⟨.whileLoop (condition.getD (.literal (.bool true)))
    (loopBody (some increment) body first).1, ?_, fun n m => ?_⟩
  · cases init <;> rfl
  · exact forRuns_iterate t increment body _ first n turns m

end Loops

end LoxLang
