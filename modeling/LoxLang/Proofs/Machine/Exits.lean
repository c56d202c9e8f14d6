/-
LoxLang.Proofs.Machine.Exits: how far a `break`, `continue` or `return` travels.

A statement that does not end normally ends all statements around it.  A `break` or `continue` comes
to the turn of a loop that is in progress in its activation; if there is none, it comes to the end
of the code of the activation, which lets nothing out but a failure.  A `return` comes to that end
through all loops.

* `Moment.Completes`: what a statement ends with.
* `Moment.CodeEnds`: what comes to the end of the code of an activation.
* `LeftBy`: what an exit does to a loop.
* `Exited`: what it does wherever it stands.

Main statements: `Located.exited`, about exits; `Located.codeEnds`, for a `return`; `honest_exec`,
that nothing else returns.
-/
import LoxLang.Proofs.Machine.Located
import LoxLang.Proofs.Machine.Steady

namespace LoxLang

/-! ## Completions -/

/-- The statement, the statements or the loop end with the completion. -/
def Moment.Completes (turns : Nat) (M : Moment) (completion : Completion) (m : Machine) : Prop :=
  match M.activity with
  | .exec n s => exec turns n s M.machine = (.ok completion, m)
  | .runAll n ss => runAll (exec turns n) ss M.machine = (.ok completion, m)
  | .iterate n c b left =>
    iterate (eval turns n c) (exec turns n b) left M.machine = (.ok completion, m)
  | _ => False

theorem Machine.within_of_eq {m : Machine} {env : Environment} (same : m.environment = env) :
    m.within env = m := by
  cases same
  rfl

section Completions

variable {turns n left : Nat} {m m₁ m₂ : Machine} {completion : Completion} {M M' : Moment}
  {c : Expr Distance} {b : Stmt Distance} {v : Value}

theorem Moment.Completes.environment (completes : M.Completes turns completion m) :
    m.environment = M.machine.environment := by
  obtain ⟨activity, m₀⟩ := M
  cases activity with
  | exec n s => exact (steady_exec turns n s).of_run completes
  | runAll n ss => exact (steady_runAll (steady_exec turns n) ss).of_run completes
  | iterate n c b left =>
    exact (steady_iterate (steady_eval turns n c) (steady_exec turns n b) left).of_run completes
  | _ => exact completes.elim

/-- A block ends as its statements do, outside of its scope. -/
theorem exec_block {body : List (Stmt Distance)}
    (run : runAll (exec turns n) body (m.entered m.environment) = (.ok completion, m₁)) :
    exec turns (n + 1) (.block body) m = (.ok completion, m₁.within m.environment) := by
  show inEnvironment (m.store.frames.size :: m.environment) (runAll (exec turns n) body)
    { m with store := m.store.addFrame } = _
  rw [run_inEnvironment]
  show ((runAll (exec turns n) body (m.entered m.environment)).1,
    (runAll (exec turns n) body (m.entered m.environment)).2.within m.environment) = _
  rw [run]

/-- A `return` in the body of a loop ends the loop with it. -/
theorem iterate_returned {u : Value} (run : eval turns n c m = (.ok v, m₁))
    (holds : v.isTruthy = true) (run₁ : exec turns n b m₁ = (.ok (.returned u), m₂)) :
    iterate (eval turns n c) (exec turns n b) (left + 1) m = (.ok (.returned u), m₂) := by
  rw [iterate_succ, run]
  simp only [holds, Bool.true_eq_false, if_false]
  rw [run₁]

/-- A `break` in the body of a loop ends the loop normally. -/
theorem iterate_break {keyword : Token} (run : eval turns n c m = (.ok v, m₁))
    (holds : v.isTruthy = true) (run₁ : exec turns n b m₁ = (.ok (.exited keyword), m₂))
    (isBreak : keyword.isBreak = true) :
    iterate (eval turns n c) (exec turns n b) (left + 1) m = (.ok .normal, m₂) := by
  rw [iterate_succ, run]
  simp only [holds, Bool.true_eq_false, if_false]
  rw [run₁]
  simp only [isBreak, if_true]

/-- Statements end with the first one that does not end normally. -/
theorem runAll_ends {s : Stmt Distance} {ss : List (Stmt Distance)}
    (run : exec turns n s m = (.ok completion, m₁)) (abrupt : completion ≠ .normal) :
    runAll (exec turns n) (s :: ss) m = (.ok completion, m₁) := by
  rw [runAll_cons, run]
  cases completion with
  | normal => exact absurd rfl abrupt
  | returned v => rfl
  | exited keyword => rfl

/-- A part of a body that does not end normally ends what executes it in the same way, unless that
is a loop whose turn it is; a loop is ended so by a `return` only. -/
theorem Starts.completes (starts : Starts turns M M')
    (completes : M'.Completes turns completion m) (abrupt : completion ≠ .normal)
    (through : (M.activity.IsLoop → M'.activity.IsLoop) ∨ ∃ v, completion = .returned v)
    (inside : ¬ M.activity.IsActivation) :
    M.Completes turns completion (m.within M.machine.environment) := by
  have environment := completes.environment
  cases starts with
  | @branch n s e m₀ v m₁ t part run chosen =>
    have kept := (steady_eval turns n e).of_run run
    rw [Machine.within_of_eq (environment.trans kept)]
    exact (exec_branch part run chosen).trans completes
  | loop =>
    rw [Machine.within_of_eq environment]
    exact completes
  | @turn n c b left m₀ v m₁ run holds =>
    obtain ⟨u, rfl⟩ := through.resolve_left fun stays => stays trivial
    have kept := (steady_eval turns n c).of_run run
    rw [Machine.within_of_eq (environment.trans kept)]
    exact iterate_returned run holds completes
  | @again n c b left m₀ v m₁ completion₀ m₂ run holds run₁ goesOn =>
    have kept := (steady_eval turns n c).of_run run
    have kept₁ := (steady_exec turns n b).of_run run₁
    rw [Machine.within_of_eq (environment.trans (kept₁.trans kept))]
    exact (iterate_again run holds run₁ goesOn).trans completes
  | block => exact exec_block completes
  | statement =>
    rw [Machine.within_of_eq environment]
    exact runAll_ends completes abrupt
  | @statements n s ss m₀ m₁ run =>
    have kept := (steady_exec turns n s).of_run run
    rw [Machine.within_of_eq (environment.trans kept)]
    show runAll (exec turns n) (s :: ss) m₀ = _
    rw [runAll_cons, run]
    exact completes
  | topStatement => exact absurd trivial inside
  | topStatements => exact completes.elim
  | body => exact absurd trivial inside
  | _ => exact completes.elim

end Completions

/-! ## Exits of loops -/

/-- The loop at whose turn the moment is was left with the machine: it is the loop of a statement of
the activation.  A `break` ended that statement normally, and a `continue` led to the next check of
the condition, in the environment of the statement. -/
inductive LeftBy (turns : Nat) (A : Moment) (keyword : Token) (m : Machine) : Moment → Prop
  | intro {n : Nat} {c : Expr Distance} {b : Stmt Distance} {left : Nat}
      {l : Option Moment} {m₀ m₁ : Machine}
      (statement : Located turns A l ⟨.exec (n + 1) (.whileLoop c b), m₀⟩)
      (reaches : Reaches turns ⟨.exec (n + 1) (.whileLoop c b), m₀⟩
        ⟨.iterate n c b (left + 1), m₁⟩)
      (ends : keyword.isBreak = true →
        exec turns (n + 1) (.whileLoop c b) m₀ = (.ok .normal, m.within m₀.environment))
      (goesOn : keyword.isBreak = false →
        Starts turns ⟨.iterate n c b (left + 1), m₁⟩
          ⟨.iterate n c b left, m.within m₀.environment⟩ ∧
        exec turns (n + 1) (.whileLoop c b) m₀ =
          iterate (eval turns n c) (exec turns n b) left (m.within m₀.environment)) :
    LeftBy turns A keyword m ⟨.iterate n c b (left + 1), m₁⟩

section Exits

variable {turns : Nat} {A M I : Moment} {l : Option Moment} {m : Machine} {keyword : Token}

/-- A moment with a loop around it is within an activation, not its beginning. -/
theorem Located.not_activation (h : Located turns A (some I) M) : ¬ M.activity.IsActivation := by
  obtain ⟨activity, m⟩ := M
  intro activation
  cases activity with
  | call => exact nomatch h.of_call.2
  | runTop => exact nomatch h.of_top.1
  | _ => exact activation

/-- A loop is the loop of a statement, and ends as that does. -/
theorem Located.of_loop {n left : Nat} {c : Expr Distance} {b : Stmt Distance}
    (h : Located turns A l ⟨.iterate n c b left, m⟩) :
    ∃ m₀, Located turns A l ⟨.exec (n + 1) (.whileLoop c b), m₀⟩ ∧
      Reaches turns ⟨.exec (n + 1) (.whileLoop c b), m₀⟩ ⟨.iterate n c b left, m⟩ ∧
      m₀.environment = m.environment ∧
      exec turns (n + 1) (.whileLoop c b) m₀ =
        iterate (eval turns n c) (exec turns n b) left m := by
  generalize same : (⟨.iterate n c b left, m⟩ : Moment) = M at h
  induction h generalizing left m with
  | activation activation =>
    cases same
    exact activation.elim
  | part outer starts _ _ ih =>
    cases same
    cases starts with
    | loop => exact ⟨m, outer, .single .loop, rfl, rfl⟩
    | @again _ _ _ _ m' v m₁ completion _ run holds run₁ goesOn =>
      obtain ⟨m₀, statement, reaches, environment, ends⟩ := ih rfl
      have kept := (steady_eval turns n c).of_run run
      have kept₁ := (steady_exec turns n b).of_run run₁
      refine ⟨m₀, statement, reaches.tail (.again run holds run₁ goesOn),
        environment.trans (kept₁.trans kept).symm, ?_⟩
      exact ends.trans (iterate_again run holds run₁ goesOn)
  | turn _ _ _ _ enters _ =>
    cases same
    exact absurd trivial enters

/-- A `break` or `continue` leaves the loop whose turn is in progress around it. -/
theorem Located.exits (h : Located turns A (some I) M)
    (completes : M.Completes turns (.exited keyword) m) : LeftBy turns A keyword m I := by
  generalize same : some I = l at h
  induction h generalizing m with
  | activation => cases same
  | part outer starts _ stays ih =>
    cases same
    have up := starts.completes completes (fun no => nomatch no) (.inl stays) outer.not_activation
    obtain ⟨statement, reaches, ends, goesOn⟩ := ih up rfl
    exact ⟨statement, reaches, ends, goesOn⟩
  | turn outer starts isPart loop enters _ =>
    cases same
    have environment := completes.environment
    cases starts with
    | @turn n c b left m₁ v m₂ run holds =>
      obtain ⟨m₀, statement, reaches, outside, whole⟩ := outer.of_loop
      have kept := (steady_eval turns n c).of_run run
      have back : m.within m₀.environment = m :=
        Machine.within_of_eq (environment.trans (kept.trans outside.symm))
      refine ⟨statement, reaches, fun isBreak => ?_, fun isContinue => ?_⟩
      · rw [back, whole]
        exact iterate_break run holds completes isBreak
      · rw [back, whole]
        exact ⟨.again run holds completes isContinue, iterate_again run holds completes isContinue⟩
    | again => exact absurd trivial enters
    | _ => first | exact loop.elim | exact isPart.elim

end Exits

/-! ## The end of an activation -/

/-- The code of the activation came to an end with the completion: the body of a closure, or a
statement at top level. -/
def Moment.CodeEnds (turns : Nat) (A : Moment) (completion : Completion) (m : Machine) : Prop :=
  match A.activity with
  | .call n f arguments => ∃ env m₀, openCall f arguments A.machine = (.ok env, m₀) ∧
    runAll (exec turns n) f.body (m₀.within env) = (.ok completion, m.within env)
  | .runTop n _ => ∃ s ss m₀, Located turns A none ⟨.runTop n (s :: ss), m₀⟩ ∧
    exec turns n s m₀ = (.ok completion, m.within A.machine.environment)
  | _ => False

section Ends

variable {turns : Nat} {A M : Moment} {l : Option Moment} {m : Machine} {completion : Completion}
  {keyword : Token}

theorem Moment.codeEnds_within {env : Environment} :
    A.CodeEnds turns completion (m.within env) ↔ A.CodeEnds turns completion m := by
  obtain ⟨activity, m₀⟩ := A
  cases activity <;> exact Iff.rfl

/-- What does not end normally comes to the end of the code, unless a loop around it stops it. -/
theorem Located.codeEnds (h : Located turns A l M) (completes : M.Completes turns completion m)
    (abrupt : completion ≠ .normal) (through : l = none ∨ ∃ v, completion = .returned v) :
    A.CodeEnds turns completion m := by
  induction h generalizing m with
  | activation activation =>
    obtain ⟨activity, m₀⟩ := A
    cases activity with
    | call => exact completes.elim
    | runTop => exact completes.elim
    | _ => exact activation.elim
  | @part l M M' outer starts isPart stays ih =>
    by_cases inside : M.activity.IsActivation
    · have environment := completes.environment
      cases starts with
      | body run =>
        obtain ⟨rfl, rfl⟩ := outer.of_call
        exact ⟨_, _, run, (Machine.within_of_eq environment).symm ▸ completes⟩
      | @topStatement n s ss m₀ =>
        obtain ⟨rfl, around, whole, code, -, -⟩ := outer.of_top
        obtain ⟨activity, m₁⟩ := A
        cases code
        refine ⟨s, ss, m₀, outer, ?_⟩
        rw [Machine.within_of_eq (environment.trans around)]
        exact completes
      | topStatements => exact completes.elim
      | _ => exact inside.elim
    · have up := starts.completes completes abrupt (.inl stays) inside
      exact Moment.codeEnds_within.mp (ih up through)
  | @turn l M M' outer starts isPart loop enters ih =>
    have returned := through.resolve_left fun no => nomatch no
    have inside : ¬ M.activity.IsActivation := by
      intro activation
      obtain ⟨activity, m₀⟩ := M
      cases activity with
      | iterate => exact activation
      | _ => exact loop
    have up := starts.completes completes abrupt (.inr returned) inside
    exact Moment.codeEnds_within.mp (ih up (.inr returned))

section Closures

variable {n : Nat} {f : Closure} {arguments : List Value} {env : Environment} {m₀ m₁ : Machine}

/-- A closure is called in an environment of its own, and left behind its body. -/
theorem run_body (run : openCall f arguments m₀ = (.ok env, m₁))
    (body : runAll (exec turns n) f.body (m₁.within env) = (.ok completion, m.within env)) :
    inEnvironment env (runAll (exec turns n) f.body) m₁ =
      (.ok completion, m.within m₀.environment) := by
  have kept := (quiet_openCall f arguments).steady.of_run run
  rw [run_inEnvironment, body, kept]
  rfl

/-- A `return` ends the call: an initializer yields its object, anything else the value. -/
theorem callClosure_returned {v : Value} (run : openCall f arguments m₀ = (.ok env, m₁))
    (body : runAll (exec turns n) f.body (m₁.within env) = (.ok (.returned v), m.within env)) :
    callClosure (exec turns n) f arguments m₀ =
      (if f.kind = .initializer then callClosure.boundObject f else return v : Run Value)
        (m.within m₀.environment) := by
  rw [callClosure, run_bind, run]
  dsimp only
  rw [run_bind, run_body run body]

/-- A `break` or `continue` does not leave the call. -/
theorem callClosure_exited (run : openCall f arguments m₀ = (.ok env, m₁))
    (body : runAll (exec turns n) f.body (m₁.within env) = (.ok (.exited keyword), m.within env)) :
    callClosure (exec turns n) f arguments m₀ =
      (.error (strayExit keyword), m.within m₀.environment) := by
  rw [callClosure, run_bind, run]
  dsimp only
  rw [run_bind, run_body run body]
  rfl

end Closures

/-- A `break` or `continue` that comes to the end of the code makes the activation fail. -/
theorem Moment.CodeEnds.fails (ends : A.CodeEnds turns (.exited keyword) m) :
    A.Fails turns (strayExit keyword) := by
  obtain ⟨activity, m₀⟩ := A
  cases activity with
  | call n f arguments =>
    obtain ⟨env, m₁, run, body⟩ := ends
    exact ⟨_, callClosure_exited run body⟩
  | runTop n whole =>
    obtain ⟨s, ss, m₁, located, run⟩ := ends
    obtain ⟨-, -, _, code, -, same⟩ := located.of_top
    cases code
    have stops : runStatements (exec turns n) (s :: ss) m₁ =
        (.error (strayExit keyword), m.within m₀.environment) := by
      rw [runStatements_cons, run]
    exact ⟨_, same.trans stops⟩
  | _ => exact ends.elim

/-- What a `break` or `continue` does that is executed with the machine: it leaves the loop whose
turn is in progress, or else it makes the activation fail at its end, and with it all that is in
progress around it. -/
def Exited (turns : Nat) (A : Moment) (keyword : Token) (m : Machine) : Option Moment → Prop
  | some I => LeftBy turns A keyword m I
  | none => A.CodeEnds turns (.exited keyword) m ∧
    ∀ R, Reaches turns R A → R.Fails turns (strayExit keyword)

theorem Located.exited {n : Nat} (h : Located turns A l ⟨.exec (n + 1) (.loopExit keyword), m⟩) :
    Exited turns A keyword m l := by
  have completes : Moment.Completes turns ⟨.exec (n + 1) (.loopExit keyword), m⟩
    (.exited keyword) m := rfl
  cases l with
  | some I => exact h.exits completes
  | none =>
    have ends := h.codeEnds completes (fun no => nomatch no) (.inl rfl)
    exact ⟨ends, fun R reaches => reaches.fails (fun no => nomatch no) ends.fails⟩

end Ends

/-! ## Statements that return -/

/-- The completion is no `return`, unless one stands in the statement. -/
def Completion.Honest (s : Stmt Distance) : Completion → Prop
  | .returned _ => s.Returns
  | _ => True

/-- Whatever the computation ends with is honest about the statement. -/
def Honest (s : Stmt Distance) (act : Run Completion) : Prop :=
  ∀ m completion m', act m = (.ok completion, m') → completion.Honest s

section Returns

variable {s part : Stmt Distance}

theorem Honest.of_part {l : Option (Expr Distance × Stmt Distance)} {act : Run Completion}
    (h : Honest part act) (lies : Stmt.LiesIn [s] l part) : Honest s act := by
  intro m completion m' run
  have honest := h m completion m' run
  cases completion with
  | returned v => exact Stmt.Returns.of_part honest lies
  | _ => trivial

theorem honest_pure {completion : Completion} (honest : completion.Honest s) :
    Honest s (pure completion) := by
  intro m _ m' run
  cases run
  exact honest

theorem honest_bind {α : Type} {act : Run α} {next : α → Run Completion}
    (rest : ∀ a, Honest s (next a)) : Honest s (act >>= next) := by
  intro m completion m' run
  obtain ⟨a, m₁, _, run⟩ := run_bind_ok_iff.mp run
  exact rest a m₁ completion m' run

/-- Behind a statement that is a part of this one. -/
theorem honest_next {act : Run Completion} {next : Completion → Run Completion}
    (first : Honest s act) (rest : ∀ completion, completion.Honest s → Honest s (next completion)) :
    Honest s (act >>= next) := by
  intro m completion m' run
  obtain ⟨before, m₁, run₁, run⟩ := run_bind_ok_iff.mp run
  exact rest before (first m before m₁ run₁) m₁ completion m' run

theorem honest_inEnvironment {act : Run Completion} (env : Environment) (h : Honest s act) :
    Honest s (inEnvironment env act) := by
  intro m completion m' run
  rw [run_inEnvironment] at run
  have ended : (act (m.within env) : Except Failure Completion × Machine).1 = .ok completion :=
    congrArg Prod.fst run
  exact h (m.within env) completion _ (Prod.ext ended rfl)

theorem honest_runAll {exec : Stmt Distance → Run Completion} (execs : ∀ s, Honest s (exec s))
    (ss : List (Stmt Distance)) (inside : ∀ t ∈ ss, ∃ l, Stmt.LiesIn [s] l t) :
    Honest s (runAll exec ss) := by
  induction ss with
  | nil => exact honest_pure trivial
  | cons t ss ih =>
    obtain ⟨l, lies⟩ := inside t List.mem_cons_self
    refine honest_next ((execs t).of_part lies) fun completion honest => ?_
    cases completion with
    | normal => exact ih fun t mem => inside t (List.mem_cons_of_mem _ mem)
    | returned v => exact honest_pure honest
    | exited keyword => exact honest_pure honest

theorem honest_throw (failure : Failure) : Honest s (throw failure) := by
  intro m completion m' run
  cases run

theorem honest_iterate {condition : Run Value} {body : Run Completion} (turn : Honest s body)
    (left : Nat) : Honest s (iterate condition body left) := by
  induction left with
  | zero => exact honest_throw .unfinished
  | succ left ih =>
    refine honest_bind fun v => ?_
    split
    · exact honest_pure trivial
    · refine honest_next turn fun completion honest => ?_
      cases completion with
      | normal => exact ih
      | returned v => exact honest_pure honest
      | exited keyword =>
        dsimp only
        split
        · exact honest_pure trivial
        · exact ih

/-- A statement ends with a `return` only if one stands in it. -/
theorem honest_exec (turns n : Nat) : ∀ s, Honest s (exec turns n s) := by
  induction n with
  | zero => exact fun _ => honest_throw .overflow
  | succ n execs =>
    intro s
    have here : Stmt.LiesIn [s] none s := .here List.mem_cons_self
    cases s with
    | missing => exact honest_pure trivial
    | expression e => exact honest_bind fun _ => honest_pure trivial
    | print e => exact honest_bind fun _ => honest_bind fun _ => honest_pure trivial
    | var name value =>
      cases value with
      | none => exact honest_bind fun _ => honest_pure trivial
      | some e => exact honest_bind fun _ => honest_bind fun _ => honest_pure trivial
    | block body =>
      refine honest_bind fun _ => honest_bind fun env => honest_inEnvironment env ?_
      exact honest_runAll execs body fun t mem => ⟨_, here.part (.block mem)⟩
    | ifElse c t e =>
      refine honest_bind fun v => ?_
      split
      · exact (execs t).of_part (here.part .thenBranch)
      · split
        · exact honest_pure trivial
        · exact (execs _).of_part (here.part .elseBranch)
    | whileLoop c b => exact honest_iterate ((execs b).of_part (here.part .loop)) turns
    | ret keyword value =>
      have returns : Stmt.Returns (.ret keyword value) := ⟨none, keyword, value, here⟩
      cases value with
      | none => exact honest_pure returns
      | some e => exact honest_bind fun _ => honest_pure returns
    | loopExit keyword => exact honest_pure trivial
    | function r =>
      refine honest_bind fun m => honest_bind fun f => honest_bind fun _ => ?_
      exact honest_pure trivial
    | classDecl name superclass mixins methods statics =>
      exact honest_bind fun _ => honest_pure trivial

end Returns

end LoxLang
