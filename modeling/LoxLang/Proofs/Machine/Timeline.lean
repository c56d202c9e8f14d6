/-
LoxLang.Proofs.Machine.Timeline: what happens in a run, in the order in which it happens.

A run makes its calls one after another, and each of them is over before the next one begins.  So
all that happens in it stands in one line: the instants at which the calls begin and end.

* `Activity.RunsCode`: the calls that run code; the others look something up or make something.
* `Moment.calls`: the calls that a run makes in order, up to the one that it fails in.
* `Moment.timeline`: the instants of a run.

Main statements: `mem_calls_iff`, that these are the calls that a moment starts, and from it
`mem_timeline_iff`, that all that a run leads to begins and ends on its timeline.
-/
import LoxLang.Proofs.Machine.Moments

namespace LoxLang

/-! ## Calls in order -/

/-- Code of a program is run. -/
def Activity.RunsCode : Activity → Prop
  | .bind _ _ => False
  | .parent _ _ => False
  | .makeClass .. => False
  | _ => True

instance : DecidablePred Completion.GoesOn := fun completion =>
  match completion with
  | .normal => isTrue trivial
  | .returned _ => isFalse id
  | .exited keyword => inferInstanceAs (Decidable (keyword.isBreak = false))

instance : DecidablePred Completion.Stays := fun completion =>
  match completion with
  | .normal => isTrue trivial
  | .returned _ => isTrue trivial
  | .exited _ => isFalse id

/-- The calls behind a computation, which there are only if it yields something. -/
def onward {α : Type} (act : Run α) (m : Machine) (next : α → Machine → List Moment) :
    List Moment :=
  match (act m : Except Failure α × Machine) with
  | (.ok a, m') => next a m'
  | (.error _, _) => []

/-- The evaluation of expressions one after another. -/
def argumentCalls (turns n : Nat) : List (Expr Distance) → Machine → List Moment
  | [], _ => []
  | e :: es, m =>
    ⟨.eval n e, m⟩ :: onward (eval turns n e) m fun _ m₁ => argumentCalls turns n es m₁

/-- The call of a closure, or of the initializer of a class. -/
def invokeCalls (n : Nat) (callee : Value) (arguments : List Value) (m : Machine) : List Moment :=
  match callee with
  | .function f => [⟨.call n f arguments, m⟩]
  | .class c => onward newObject m fun o m₁ =>
    match c.findMethod initName with
    | none => []
    | some method => onward (bindMethod method (.instance ⟨o, c⟩)) m₁ fun init m₂ =>
      [⟨.call n init arguments, m₂⟩]
  | _ => []

/-- The call of a getter that was read. -/
def getterCalls (n : Nat) (v : Value) (m : Machine) : List Moment :=
  match v with
  | .function f => if f.kind = .getter then [⟨.call n f [], m⟩] else []
  | _ => []

/-- The calls of an expression behind its first part. -/
def Expr.laterCalls (turns n : Nat) (e : Expr Distance) (v : Value) (m : Machine) : List Moment :=
  match e with
  | .call _ paren es =>
    argumentCalls turns n es m ++ onward (evalAll (eval turns n) es) m fun arguments m₁ =>
      onward (orFail (checkCall paren v arguments.length)) m₁ fun _ m₂ =>
        invokeCalls n v arguments m₂
  | .get _ name =>
    match v.receiver? with
    | none => []
    | some r => onward (readProperty v r name) m (getterCalls n)
  | e =>
    match e.second? v with
    | none => []
    | some part => [⟨.eval n part, m⟩]

def Expr.calls (turns n : Nat) (e : Expr Distance) (m : Machine) : List Moment :=
  match e.first? with
  | none => []
  | some part => ⟨.eval n part, m⟩ :: onward (eval turns n part) m (e.laterCalls turns n)

def Stmt.calls (turns n : Nat) (s : Stmt Distance) (m : Machine) : List Moment :=
  match s with
  | .whileLoop c b => [⟨.iterate n c b turns, m⟩]
  | .block body => [⟨.runAll n body, m.entered m.environment⟩]
  | s =>
    match s.first? with
    | none => []
    | some e => ⟨.eval n e, m⟩ :: onward (eval turns n e) m fun v m₁ =>
      match s.branch? v with
      | none => []
      | some t => [⟨.exec n t, m₁⟩]

/-- The calls that run code, in the order in which a run makes them. -/
def Moment.calls (turns : Nat) (M : Moment) : List Moment :=
  match M.activity with
  | .eval (n + 1) e => e.calls turns n M.machine
  | .exec (n + 1) s => s.calls turns n M.machine
  | .runAll n (s :: ss) =>
    ⟨.exec n s, M.machine⟩ :: onward (exec turns n s) M.machine fun completion m =>
      match completion with
      | .normal => [⟨.runAll n ss, m⟩]
      | _ => []
  | .runTop n (s :: ss) =>
    ⟨.exec n s, M.machine⟩ :: onward (exec turns n s) M.machine fun completion m =>
      if completion.Stays then [⟨.runTop n ss, m⟩] else []
  | .iterate n c b (left + 1) =>
    ⟨.eval n c, M.machine⟩ :: onward (eval turns n c) M.machine fun v m =>
      if v.isTruthy then
        ⟨.exec n b, m⟩ :: onward (exec turns n b) m fun completion m₁ =>
          if completion.GoesOn then [⟨.iterate n c b left, m₁⟩] else []
      else []
  | .call n f arguments => onward (openCall f arguments) M.machine fun env m =>
    [⟨.runAll n f.body, m.within env⟩]
  | _ => []

section Calls

variable {α : Type} {turns n : Nat} {act : Run α} {m m₁ : Machine} {M C : Moment}

theorem run_orFail_ok_iff {r : Except Failure α} {a : α} :
    (orFail r m : Except Failure α × Machine) = (.ok a, m₁) ↔ r = .ok a ∧ m₁ = m := by
  cases r with
  | error failure =>
    constructor
    · intro run
      cases run
    · rintro ⟨run, _⟩
      cases run
  | ok b =>
    constructor
    · intro run
      cases run
      exact ⟨rfl, rfl⟩
    · rintro ⟨run, rfl⟩
      cases run
      rfl

theorem onward_ok {next : α → Machine → List Moment} {a : α} (run : act m = (.ok a, m₁)) :
    onward act m next = next a m₁ := by
  rw [onward, run]

theorem mem_onward_iff {next : α → Machine → List Moment} :
    C ∈ onward act m next ↔ ∃ a m₁, act m = (.ok a, m₁) ∧ C ∈ next a m₁ := by
  unfold onward
  rcases (act m : Except Failure α × Machine) with ⟨failure | a, m₁⟩
  · constructor
    · intro mem
      cases mem
    · rintro ⟨_, _, run, _⟩
      cases run
  · refine ⟨fun mem => ⟨a, m₁, rfl, mem⟩, ?_⟩
    rintro ⟨_, _, run, mem⟩
    cases run
    exact mem

theorem mem_argumentCalls_iff {es : List (Expr Distance)} :
    C ∈ argumentCalls turns n es m ↔ ∃ before e behind vs m₁, es = before ++ e :: behind ∧
      evalAll (eval turns n) before m = (.ok vs, m₁) ∧ C = ⟨.eval n e, m₁⟩ := by
  induction es generalizing m with
  | nil => simp [argumentCalls]
  | cons e es ih =>
    rw [argumentCalls, List.mem_cons, mem_onward_iff]
    constructor
    · rintro (rfl | ⟨v, m₁, run, mem⟩)
      · exact ⟨[], e, es, [], m, rfl, rfl, rfl⟩
      · obtain ⟨before, e', behind, vs, m₂, rfl, run₁, same⟩ := ih.mp mem
        refine ⟨e :: before, e', behind, v :: vs, m₂, rfl, ?_, same⟩
        exact run_bind_ok_iff.mpr ⟨v, m₁, run, run_bind_ok_iff.mpr ⟨vs, m₂, run₁, rfl⟩⟩
    · rintro ⟨before, e', behind, vs, m₁, split, run, rfl⟩
      cases before with
      | nil =>
        cases split
        cases run
        exact .inl rfl
      | cons first before =>
        cases split
        obtain ⟨v, m₂, run₁, run₂⟩ := run_bind_ok_iff.mp run
        obtain ⟨vs, m₃, run₃, run₄⟩ := run_bind_ok_iff.mp run₂
        cases run₄
        exact .inr ⟨v, m₂, run₁, ih.mpr ⟨before, e', behind, vs, m₁, rfl, run₃, rfl⟩⟩

theorem mem_calls_of_later {e part : Expr Distance} {v : Value} (part_e : e.first? = some part)
    (run : eval turns n part m = (.ok v, m₁)) (later : C ∈ e.laterCalls turns n v m₁) :
    C ∈ Moment.calls turns ⟨.eval (n + 1) e, m⟩ := by
  simp [Moment.calls, Expr.calls, part_e, onward_ok run, later]

theorem mem_laterCalls_of_invoke {f : Expr Distance} {paren : Token} {es : List (Expr Distance)}
    {callee : Value} {vs : List Value} (run : evalAll (eval turns n) es m = (.ok vs, m₁))
    (check : checkCall paren callee vs.length = .ok ()) (mem : C ∈ invokeCalls n callee vs m₁) :
    C ∈ (Expr.call f paren es).laterCalls turns n callee m := by
  have checked : (orFail (checkCall paren callee vs.length) m₁ : Except Failure Unit × Machine) =
      (.ok (), m₁) := run_orFail_ok_iff.mpr ⟨check, rfl⟩
  simp [Expr.laterCalls, onward_ok run, onward_ok checked, mem]

/-- A call that runs code is one of the calls of the moment that starts it. -/
theorem Starts.mem_calls (starts : Starts turns M C) (code : C.activity.RunsCode) :
    C ∈ M.calls turns := by
  cases starts with
  | first part_e => simp [Moment.calls, Expr.calls, part_e]
  | @second _ e _ _ _ _ _ part_e run part_v =>
    refine mem_calls_of_later part_e run ?_
    cases e with
    | call _ _ _ => cases part_v
    | get _ _ => cases part_v
    | _ => simp [Expr.laterCalls, part_v]
  | argument run run₁ =>
    refine mem_calls_of_later rfl run (List.mem_append_left _ ?_)
    exact mem_argumentCalls_iff.mpr ⟨_, _, _, _, _, rfl, run₁, rfl⟩
  | call run run₁ check =>
    exact mem_calls_of_later rfl run (mem_laterCalls_of_invoke run₁ check (by simp [invokeCalls]))
  | callInit run run₁ check found run₂ run₃ =>
    refine mem_calls_of_later rfl run (mem_laterCalls_of_invoke run₁ check ?_)
    simp [invokeCalls, onward_ok run₂, found, onward_ok run₃]
  | getter run receiver run₁ kind =>
    refine mem_calls_of_later rfl run ?_
    simp [Expr.laterCalls, receiver, onward_ok run₁, getterCalls, kind]
  | @value _ s _ _ part => cases s <;> simp [Moment.calls, Stmt.calls, part] <;> cases part
  | @branch _ s _ _ _ _ _ part run chosen =>
    cases s <;> simp [Moment.calls, Stmt.calls, part, onward_ok run, chosen] <;> cases part
  | loop => simp [Moment.calls, Stmt.calls]
  | condition => simp [Moment.calls]
  | turn run holds => simp [Moment.calls, onward_ok run, holds]
  | again run holds run₁ goesOn => simp [Moment.calls, onward_ok run, holds, onward_ok run₁, goesOn]
  | block => simp [Moment.calls, Stmt.calls]
  | statement => simp [Moment.calls]
  | statements run => simp [Moment.calls, onward_ok run]
  | topStatement => simp [Moment.calls]
  | topStatements run stays => simp [Moment.calls, onward_ok run, stays]
  | body run => simp [Moment.calls, onward_ok run]
  | _ => exact code.elim

theorem starts_of_mem_invokeCalls {f : Expr Distance} {paren : Token} {es : List (Expr Distance)}
    {callee : Value} {vs : List Value} {m₂ : Machine} (run : eval turns n f m = (.ok callee, m₁))
    (run₁ : evalAll (eval turns n) es m₁ = (.ok vs, m₂))
    (check : checkCall paren callee vs.length = .ok ()) (mem : C ∈ invokeCalls n callee vs m₂) :
    Starts turns ⟨.eval (n + 1) (.call f paren es), m⟩ C ∧ C.activity.RunsCode := by
  cases callee with
  | function c =>
    cases List.mem_singleton.mp mem
    exact ⟨.call run run₁ check, trivial⟩
  | «class» c =>
    simp only [invokeCalls] at mem
    obtain ⟨o, m₃, run₂, mem⟩ := mem_onward_iff.mp mem
    cases found : c.findMethod initName with
    | none => simp [found] at mem
    | some method =>
      rw [found] at mem
      obtain ⟨init, m₄, run₃, mem⟩ := mem_onward_iff.mp mem
      cases List.mem_singleton.mp mem
      exact ⟨.callInit run run₁ check found run₂ run₃, trivial⟩
  | _ => cases mem

theorem starts_of_mem_getterCalls {e : Expr Distance} {name : Token} {v w : Value} {r : Receiver}
    {m₂ : Machine} (run : eval turns n e m = (.ok v, m₁)) (receiver : v.receiver? = some r)
    (run₁ : readProperty v r name m₁ = (.ok w, m₂)) (mem : C ∈ getterCalls n w m₂) :
    Starts turns ⟨.eval (n + 1) (.get e name), m⟩ C ∧ C.activity.RunsCode := by
  cases w with
  | function f =>
    by_cases kind : f.kind = .getter
    · simp only [getterCalls, kind, if_true, List.mem_singleton] at mem
      subst mem
      exact ⟨.getter run receiver run₁ kind, trivial⟩
    · simp [getterCalls, kind] at mem
  | _ => cases mem

theorem starts_of_mem_laterCalls {e part : Expr Distance} {v : Value}
    (part_e : e.first? = some part) (run : eval turns n part m = (.ok v, m₁))
    (mem : C ∈ e.laterCalls turns n v m₁) :
    Starts turns ⟨.eval (n + 1) e, m⟩ C ∧ C.activity.RunsCode := by
  have second : ∀ part₂, e.second? v = some part₂ → C = ⟨.eval n part₂, m₁⟩ →
      Starts turns ⟨.eval (n + 1) e, m⟩ C ∧ C.activity.RunsCode := by
    rintro part₂ part_v rfl
    exact ⟨.second part_e run part_v, trivial⟩
  cases e with
  | call f paren es =>
    cases part_e
    rcases List.mem_append.mp mem with mem | mem
    · obtain ⟨before, e, behind, vs, m₂, rfl, run₁, rfl⟩ := mem_argumentCalls_iff.mp mem
      exact ⟨.argument run run₁, trivial⟩
    · obtain ⟨vs, m₂, run₁, mem⟩ := mem_onward_iff.mp mem
      obtain ⟨_, _, checked, invoked⟩ := mem_onward_iff.mp mem
      obtain ⟨check, rfl⟩ := run_orFail_ok_iff.mp checked
      exact starts_of_mem_invokeCalls run run₁ check invoked
  | get e name =>
    cases part_e
    cases receiver : v.receiver? with
    | none => simp [Expr.laterCalls, receiver] at mem
    | some r =>
      simp only [Expr.laterCalls, receiver] at mem
      obtain ⟨w, m₂, run₁, mem⟩ := mem_onward_iff.mp mem
      exact starts_of_mem_getterCalls run receiver run₁ mem
  | _ =>
    simp only [Expr.laterCalls] at mem
    split at mem
    · cases mem
    · exact second _ ‹_› (List.mem_singleton.mp mem)

theorem starts_of_mem_stmtCalls {s : Stmt Distance} (mem : C ∈ s.calls turns n m) :
    Starts turns ⟨.exec (n + 1) s, m⟩ C ∧ C.activity.RunsCode := by
  cases s with
  | whileLoop c b =>
    cases List.mem_singleton.mp mem
    exact ⟨.loop, trivial⟩
  | block body =>
    cases List.mem_singleton.mp mem
    exact ⟨.block, trivial⟩
  | _ =>
    simp only [Stmt.calls] at mem
    split at mem
    · cases mem
    · rename_i e part
      rcases List.mem_cons.mp mem with rfl | mem
      · exact ⟨.value part, trivial⟩
      · obtain ⟨v, m₁, run, mem⟩ := mem_onward_iff.mp mem
        split at mem
        · cases mem
        · rename_i t chosen
          cases List.mem_singleton.mp mem
          exact ⟨.branch part run chosen, trivial⟩

/-- The calls of a moment are among those that it starts, and run code. -/
theorem starts_of_mem_calls (mem : C ∈ M.calls turns) :
    Starts turns M C ∧ C.activity.RunsCode := by
  obtain ⟨activity, m⟩ := M
  cases activity with
  | eval n e =>
    cases n with
    | zero => cases mem
    | succ n =>
      simp only [Moment.calls, Expr.calls] at mem
      split at mem
      · cases mem
      · rename_i part part_e
        rcases List.mem_cons.mp mem with rfl | mem
        · exact ⟨.first part_e, trivial⟩
        · obtain ⟨v, m₁, run, mem⟩ := mem_onward_iff.mp mem
          exact starts_of_mem_laterCalls part_e run mem
  | exec n s =>
    cases n with
    | zero => cases mem
    | succ n => exact starts_of_mem_stmtCalls mem
  | runAll n ss =>
    cases ss with
    | nil => cases mem
    | cons s ss =>
      rcases List.mem_cons.mp mem with rfl | mem
      · exact ⟨.statement, trivial⟩
      · obtain ⟨completion, m₁, run, mem⟩ := mem_onward_iff.mp mem
        cases completion with
        | normal =>
          cases List.mem_singleton.mp mem
          exact ⟨.statements run, trivial⟩
        | _ => cases mem
  | runTop n ss =>
    cases ss with
    | nil => cases mem
    | cons s ss =>
      rcases List.mem_cons.mp mem with rfl | mem
      · exact ⟨.topStatement, trivial⟩
      · obtain ⟨completion, m₁, run, mem⟩ := mem_onward_iff.mp mem
        split at mem
        · cases List.mem_singleton.mp mem
          exact ⟨.topStatements run ‹_›, trivial⟩
        · cases mem
  | iterate n c b left =>
    cases left with
    | zero => cases mem
    | succ left =>
      rcases List.mem_cons.mp mem with rfl | mem
      · exact ⟨.condition, trivial⟩
      · obtain ⟨v, m₁, run, mem⟩ := mem_onward_iff.mp mem
        split at mem
        · rcases List.mem_cons.mp mem with rfl | mem
          · exact ⟨.turn run ‹_›, trivial⟩
          · obtain ⟨completion, m₂, run₁, mem⟩ := mem_onward_iff.mp mem
            split at mem
            · cases List.mem_singleton.mp mem
              exact ⟨.again run ‹_› run₁ ‹_›, trivial⟩
            · cases mem
        · cases mem
  | call n f arguments =>
    obtain ⟨env, m₁, run, mem⟩ := mem_onward_iff.mp mem
    cases List.mem_singleton.mp mem
    exact ⟨.body run, trivial⟩
  | _ => cases mem

/-- The calls of a moment are those that it starts and that run code. -/
theorem mem_calls_iff : C ∈ M.calls turns ↔ Starts turns M C ∧ C.activity.RunsCode :=
  ⟨starts_of_mem_calls, fun ⟨starts, code⟩ => starts.mem_calls code⟩

end Calls

/-! ## Instants -/

/-- The beginning or the end of a call. -/
inductive Instant where
  | began (M : Moment)
  | ended (M : Moment)

def Instant.moment : Instant → Moment
  | began M => M
  | ended M => M

/-- How much a call may still do: how deeply it may nest, and how many calls it may make beside each
other. -/
def Activity.extent : Activity → Nat × Nat
  | .eval n _ => (n, 0)
  | .exec n _ => (n, 0)
  | .runAll n ss => (n, ss.length + 1)
  | .runTop n ss => (n, ss.length + 1)
  | .iterate n _ _ left => (n, left + 1)
  | .call n f _ => (n, f.body.length + 2)
  | _ => (0, 0)

theorem Starts.extent_lt {turns : Nat} {M C : Moment} (starts : Starts turns M C)
    (code : C.activity.RunsCode) :
    Prod.Lex (· < ·) (· < ·) C.activity.extent M.activity.extent := by
  cases starts with
  | loop => exact .left _ _ (Nat.lt_succ_self _)
  | again _ _ _ _ => exact .right _ (Nat.lt_succ_self _)
  | statements _ => exact .right _ (Nat.lt_succ_self _)
  | topStatements _ _ => exact .right _ (Nat.lt_succ_self _)
  | body _ => exact .right _ (Nat.lt_succ_self _)
  | condition => exact .right _ (Nat.zero_lt_succ _)
  | turn _ _ => exact .right _ (Nat.zero_lt_succ _)
  | statement => exact .right _ (Nat.zero_lt_succ _)
  | topStatement => exact .right _ (Nat.zero_lt_succ _)
  | bindInit => exact code.elim
  | method => exact code.elim
  | superMethod => exact code.elim
  | superclass => exact code.elim
  | mixin => exact code.elim
  | members => exact code.elim
  | _ => exact .left _ _ (Nat.lt_succ_self _)

/-- All that happens in a run, in order. -/
def Moment.timeline (turns : Nat) (M : Moment) : List Instant :=
  .began M :: (M.calls turns).attach.flatMap (fun C => C.1.timeline turns) ++ [.ended M]
termination_by M.activity.extent
decreasing_by
  obtain ⟨starts, code⟩ := mem_calls_iff.mp C.2
  exact starts.extent_lt code

theorem Moment.timeline_eq (turns : Nat) (M : Moment) :
    M.timeline turns =
      .began M :: (M.calls turns).flatMap (Moment.timeline turns) ++ [.ended M] := by
  rw [timeline]
  simp

theorem Instant.moment_eq_iff {t : Instant} {M : Moment} :
    t.moment = M ↔ t = .began M ∨ t = .ended M := by
  cases t <;> simp [Instant.moment]

theorem Moment.mem_timeline {turns : Nat} {M : Moment} {t : Instant} :
    t ∈ M.timeline turns ↔ t.moment = M ∨ ∃ C ∈ M.calls turns, t ∈ C.timeline turns := by
  rw [Instant.moment_eq_iff, timeline_eq]
  simp only [List.cons_append, List.mem_cons, List.mem_append, List.mem_flatMap, List.mem_nil_iff,
    or_false]
  rw [← or_assoc, or_right_comm]

/-- Only code makes calls. -/
theorem Reaches.runsCode {turns : Nat} {M M' : Moment} (reaches : Reaches turns M M')
    (code : M'.activity.RunsCode) : M.activity.RunsCode := by
  rcases reaches.cases_head with rfl | ⟨_, starts, _⟩
  · exact code
  · cases starts <;> exact trivial

/-- Of all that a run leads to, the calls that run code are on its timeline, where they begin and
end. -/
theorem mem_timeline_iff {turns : Nat} {M : Moment} (code : M.activity.RunsCode) {t : Instant} :
    t ∈ M.timeline turns ↔ Reaches turns M t.moment ∧ t.moment.activity.RunsCode := by
  induction M using Moment.timeline.induct turns with
  | _ M ih =>
    rw [Moment.mem_timeline]
    constructor
    · rintro (same | ⟨C, mem, on⟩)
      · rw [same]
        exact ⟨.refl, code⟩
      · obtain ⟨starts, code⟩ := mem_calls_iff.mp mem
        obtain ⟨reaches, code⟩ := (ih ⟨C, mem⟩ code).mp on
        exact ⟨.head starts reaches, code⟩
    · rintro ⟨reaches, code'⟩
      rcases reaches.cases_head with same | ⟨C, starts, reaches⟩
      · exact .inl same.symm
      · have codeC := Reaches.runsCode reaches code'
        have mem := mem_calls_iff.mpr ⟨starts, codeC⟩
        exact .inr ⟨C, mem, (ih ⟨C, mem⟩ codeC).mpr ⟨reaches, code'⟩⟩

/-! ## Stretches of a timeline -/

section Stretches

variable {turns : Nat} {M C D : Moment} {cs before behind : List Moment} {ts us : List Instant}

theorem begins_timeline (turns : Nat) (M : Moment) : [.began M] <+: M.timeline turns := by
  rw [M.timeline_eq]
  exact ⟨_, rfl⟩

theorem ends_timeline (turns : Nat) (M : Moment) : [.ended M] <:+ M.timeline turns := by
  rw [M.timeline_eq]
  exact List.suffix_append _ _

/-- The end of the last call, and behind it that of the run. -/
theorem ended_timeline (last : M.calls turns = cs ++ [C]) (suffix : ts <:+ C.timeline turns) :
    ts ++ [.ended M] <:+ M.timeline turns := by
  obtain ⟨front, line⟩ := suffix
  refine ⟨.began M :: cs.flatMap (Moment.timeline turns) ++ front, ?_⟩
  rw [Moment.timeline_eq, last, List.flatMap_append, List.flatMap_singleton, ← line]
  simp

/-- The beginning of a run, and behind it that of its first call. -/
theorem began_timeline (first : M.calls turns = C :: cs) (start : ts <+: C.timeline turns) :
    .began M :: ts <+: M.timeline turns := by
  obtain ⟨rest, line⟩ := start
  refine ⟨rest ++ cs.flatMap (Moment.timeline turns) ++ [.ended M], ?_⟩
  rw [Moment.timeline_eq, first, List.flatMap_cons, ← line]
  simp

/-- The end of one call, and behind it the beginning of the next one. -/
theorem consecutive_timeline (both : M.calls turns = before ++ C :: D :: behind)
    (suffix : ts <:+ C.timeline turns) (start : us <+: D.timeline turns) :
    ts ++ us <:+: M.timeline turns := by
  obtain ⟨front, line⟩ := suffix
  obtain ⟨rest, line'⟩ := start
  refine ⟨.began M :: before.flatMap (Moment.timeline turns) ++ front,
    rest ++ behind.flatMap (Moment.timeline turns) ++ [.ended M], ?_⟩
  rw [Moment.timeline_eq, both, List.flatMap_append, List.flatMap_cons, List.flatMap_cons, ← line,
    ← line']
  simp

theorem stretch_of_mem_calls (mem : C ∈ M.calls turns) :
    C.timeline turns <:+: M.timeline turns := by
  obtain ⟨before, behind, split⟩ := List.append_of_mem mem
  refine ⟨.began M :: before.flatMap (Moment.timeline turns),
    behind.flatMap (Moment.timeline turns) ++ [.ended M], ?_⟩
  rw [M.timeline_eq, split, List.flatMap_append, List.flatMap_cons]
  simp

/-- All that a run leads to takes a stretch of its timeline. -/
theorem stretch_of_reaches (reaches : Reaches turns M C) (code : C.activity.RunsCode) :
    C.timeline turns <:+: M.timeline turns := by
  induction reaches using Relation.ReflTransGen.head_induction_on with
  | refl => exact List.infix_refl _
  | head starts reaches ih =>
    have mem := mem_calls_iff.mpr ⟨starts, Reaches.runsCode reaches code⟩
    exact ih.trans (stretch_of_mem_calls mem)

end Stretches

end LoxLang
