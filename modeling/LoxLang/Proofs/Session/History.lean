/-
LoxLang.Proofs.Session.History: sessions that anything happened to before.

A session is reached by a history of moves.  Beside those that a user makes there is one that reads
tokens and binds and runs the program whatever was complained about, as a caller may do who puts the
stages together himself.

* `Move`, `Move.play`: what can be done to a session.
* `Session.after`: the session behind a history.
* `Session.edition`: tokens as a session reads and binds them next.
* `Session.Numbered`: sites that were not given out have no distances.

Main statements: `check_outcome`, `numbered_after` and `get?_after`: what was recorded once stays.
-/
import LoxLang.Proofs.Binding.Visits
import LoxLang.Proofs.Tree.Reading
import LoxLang.Session.Basic

namespace LoxLang

/-! ## Editions of a session -/

namespace Session

/-- Tokens as the session reads them next. -/
def reading (s : Session) (tokens : List Token) (endLine : Nat) : Reading Program :=
  Program.ofTokens tokens endLine s.nextSite

/-- Tokens as the session reads and binds them next. -/
def edition (s : Session) (tokens : List Token) (endLine : Nat) : Edition :=
  ⟨(s.reading tokens endLine).result, s.machine.isGlobal, s.distances⟩

/-- A text as the session reads and binds it next. -/
def editionOf (s : Session) (source : String) : Edition :=
  s.edition (Scan.ofString source).tokens (Scan.ofString source).endLine

/-- Reads tokens, binds the program and runs it whatever is wrong with it. -/
def force (tokens : List Token) (endLine : Nat) : Dialogue (Option Failure) := do
  let reading := (← get).reading tokens endLine
  modify fun s => { s with nextSite := reading.nextSite }
  bind reading.result
  execute reading.result

end Session

/-! ## Moves -/

/-- What can be done to a session. -/
inductive Move where
  | run (source : String)
  | runLine (source : String)
  | check (source : String)
  | read (source : String)
  | say (text : String)
  | resetFlags
  | clearTranscript
  | force (tokens : List Token) (endLine : Nat)

namespace Move

/-- Makes a move; the failure that it hands on is an internal one. -/
def play : Move → Dialogue (Option Failure)
  | run source => Session.run source
  | runLine source => Session.runLine source
  | check source => do
    let _ ← Session.check source
    return none
  | read source => do
    let _ ← Session.read source
    return none
  | say text => do
    Session.printText text
    return none
  | resetFlags => do
    Session.resetFlags
    return none
  | clearTranscript => do
    Session.clearTranscript
    return none
  | force tokens endLine => Session.force tokens endLine

/-- Only programs without complaints are run. -/
def IsRegular : Move → Prop
  | force _ _ => False
  | _ => True

end Move

namespace Session

/-- The session behind a history. -/
def after (s : Session) (history : List Move) : Session :=
  history.foldl (fun s move => (move.play s).2) s

@[simp] theorem after_nil (s : Session) : s.after [] = s := rfl

theorem after_cons (s : Session) (move : Move) (history : List Move) :
    s.after (move :: history) = after (move.play s).2 history := rfl

/-- A history may be played in two parts. -/
theorem after_append (s : Session) (history later : List Move) :
    s.after (history ++ later) = (s.after history).after later := List.foldl_append

/-! ## Sites -/

variable (s : Session)

/-- Sites that were not given out have no distances. -/
def Numbered : Prop := ∀ site, s.nextSite ≤ site → s.distances.get? site = none

/-- The sites of an edition are those that reading it gives out, each once. -/
theorem fresh_edition (tokens : List Token) (endLine : Nat) :
    s.nextSite ≤ (s.reading tokens endLine).nextSite ∧
      LoxLang.Fresh s.nextSite (s.reading tokens endLine).nextSite
        (sitesOf (Stmt.referencesAll (s.edition tokens endLine).program)) :=
  (reads_program (T := fun _ _ => True) tokens endLine s.nextSite fun _ _ => trivial).2

/-- The program of a text has each of its sites once. -/
theorem distinct_edition (tokens : List Token) (endLine : Nat) :
    (s.edition tokens endLine).Distinct :=
  (s.fresh_edition tokens endLine).2.nodup

variable {s}

/-- And none of them was used by a program before. -/
theorem Numbered.fresh (numbered : s.Numbered) (tokens : List Token) (endLine : Nat) :
    (s.edition tokens endLine).Fresh := fun site mem =>
  numbered site ((s.fresh_edition tokens endLine).2.bounds site mem).1

/-- An edition changes the distances of its own references only. -/
theorem get?_table_of_notMem {ed : Edition} {site : Site}
    (h : site ∉ sitesOf (Stmt.referencesAll ed.program)) :
    ed.table.get? site = ed.before.get? site :=
  (step_bindStmts (.top ed.isGlobal) ed.program (.start ed.before)).distances site h

/-- Sites are given out in order, and what is recorded for one stays. -/
structure Onward (s s' : Session) : Prop where
  sites : s.nextSite ≤ s'.nextSite
  kept : ∀ site < s.nextSite, s'.distances.get? site = s.distances.get? site
  numbered : s.Numbered → s'.Numbered

namespace Onward

variable {s' s'' : Session}

/-- Where the sites and the distances stay the same the session is onward. -/
theorem of_eq (sites : s'.nextSite = s.nextSite) (distances : s'.distances = s.distances) :
    s.Onward s' where
  sites := Nat.le_of_eq sites.symm
  kept site _ := by rw [distances]
  numbered numbered site le := by
    rw [distances]
    exact numbered site (sites ▸ le)

theorem refl (s : Session) : s.Onward s := .of_eq rfl rfl

theorem trans (first : s.Onward s') (second : s'.Onward s'') : s.Onward s'' where
  sites := Nat.le_trans first.sites second.sites
  kept site lt := by
    rw [second.kept site (Nat.lt_of_lt_of_le lt first.sites), first.kept site lt]
  numbered numbered := second.numbered (first.numbered numbered)

/-- Reading tokens. -/
theorem read {tokens : List Token} {endLine : Nat}
    (sites : s'.nextSite = (s.reading tokens endLine).nextSite)
    (distances : s'.distances = s.distances) : s.Onward s' where
  sites := by
    rw [sites]
    exact (s.fresh_edition tokens endLine).1
  kept site _ := by rw [distances]
  numbered numbered site le := by
    have given := (s.fresh_edition tokens endLine).1
    rw [distances]
    exact numbered site (Nat.le_trans given (sites ▸ le))

/-- Reading and binding tokens. -/
theorem bound {tokens : List Token} {endLine : Nat}
    (sites : s'.nextSite = (s.reading tokens endLine).nextSite)
    (distances : s'.distances = (s.edition tokens endLine).table) : s.Onward s' where
  sites := by
    rw [sites]
    exact (s.fresh_edition tokens endLine).1
  kept site lt := by
    rw [distances]
    refine get?_table_of_notMem fun mem => ?_
    exact Nat.not_le_of_lt lt ((s.fresh_edition tokens endLine).2.bounds site mem).1
  numbered numbered site le := by
    obtain ⟨given, fresh⟩ := s.fresh_edition tokens endLine
    rw [sites] at le
    rw [distances, get?_table_of_notMem fun mem => ?_]
    · exact numbered site (Nat.le_trans given le)
    · exact Nat.not_le_of_lt (fresh.bounds site mem).2 le

end Onward

/-! ## The stages -/

/-- What checking a text leads to.  With complaints pending nothing is bound; if none are pending
afterwards, the program was accepted. -/
inductive Checked (s : Session) (source : String) : Session → Prop
  | unbound {s' : Session} (bounds : s'.bounds = s.bounds) (machine : s'.machine = s.machine)
      (sites : s'.nextSite =
        (s.reading (Scan.ofString source).tokens (Scan.ofString source).endLine).nextSite)
      (distances : s'.distances = s.distances) (pending : s'.hadError = true) : Checked s source s'
  | bound {s' : Session} (bounds : s'.bounds = s.bounds) (machine : s'.machine = s.machine)
      (sites : s'.nextSite =
        (s.reading (Scan.ofString source).tokens (Scan.ofString source).endLine).nextSite)
      (distances : s'.distances = (s.editionOf source).table)
      (accepted : s'.hadError = false → (s.editionOf source).walked.complaints = []) :
    Checked s source s'

/-- What checking a text does, in terms of its edition. -/
theorem run_check (s : Session) (source : String) :
    (check source s : Program × Session) =
      ((s.editionOf source).program,
        if (read source s).2.hadError then (read source s).2
        else (bind (s.editionOf source).program (read source s).2).2) := by
  let program := (s.editionOf source).program
  show (if !(read source s).2.hadError then (do bind program; return program)
      else return program : Dialogue Program) (read source s).2 = _
  cases (read source s).2.hadError <;> rfl

/-- And which sessions that can leave. -/
theorem check_outcome (s : Session) (source : String) : s.Checked source (check source s).2 := by
  rw [run_check]
  dsimp only
  split
  · rename_i pending
    exact .unbound rfl rfl rfl rfl pending
  · rename_i clean
    refine .bound rfl rfl rfl rfl fun after => ?_
    have silent : ((read source s).2.hadError ||
      !(s.editionOf source).walked.diagnostics.isEmpty) = false := after
    simp only [Bool.or_eq_false_iff, Bool.not_eq_false', List.isEmpty_iff, Walk.diagnostics,
      List.map_eq_nil_iff] at silent
    exact silent.2

/-- A checked text takes new sites, and forgets no distance. -/
theorem Checked.onward {source : String} {s' : Session} (checked : s.Checked source s') :
    s.Onward s' := by
  cases checked with
  | unbound _ _ sites distances _ => exact .read sites distances
  | bound _ _ sites distances _ => exact .bound sites distances

theorem Checked.bounds {source : String} {s' : Session} (checked : s.Checked source s') :
    s'.bounds = s.bounds := by
  cases checked <;> assumption

/-- It does not touch the machine. -/
theorem Checked.machine {source : String} {s' : Session} (checked : s.Checked source s') :
    s'.machine = s.machine := by
  cases checked <;> assumption

end Session

/-! ## Runs -/

/-- What is run: statements, or a lone expression whose value is echoed. -/
inductive Task where
  | program (ss : List (Stmt Distance))
  | expression (e : Expr Distance)

namespace Task

/-- The run of a task. -/
def run (bounds : Bounds) : Task → Run Unit
  | program ss => runProgram bounds ss
  | expression e => do
    let _ ← runExpression bounds e
    return

/-- What an interactive line runs. -/
def ofLine : List (Stmt Distance) → Task
  | [.expression e] => .expression e
  | ss => .program ss

end Task

namespace Edition

/-- A program as it runs behind its walk. -/
def statements (ed : Edition) : List (Stmt Distance) := ed.program.map (Stmt.withDistances ed.table)

end Edition

/-- The failure of a run that a session hands on. -/
def handedOn {α : Type} : Except Failure α → Option Failure
  | .ok _ => none
  | .error (.runtime _ _) => none
  | .error failure => some failure

/-- The machines have the same frames and fields, and are in the same environment. -/
structure Machine.Alike (m m' : Machine) : Prop where
  store : m'.store = m.store
  fields : m'.fields = m.fields
  environment : m'.environment = m.environment

theorem Machine.Alike.refl (m : Machine) : m.Alike m := ⟨rfl, rfl, rfl⟩

/-- What a move runs, if it runs anything. -/
def Move.task? (s : Session) : Move → Option Task
  | run source =>
    if (Session.check source s).2.hadError then none
    else some (.program (s.editionOf source).statements)
  | runLine source =>
    if (Session.check source s).2.hadError then none
    else some (.ofLine (s.editionOf source).statements)
  | force tokens endLine => some (.program (s.edition tokens endLine).statements)
  | _ => none

namespace Session

/-- What a move leads to. -/
structure Played (s : Session) (move : Move) (failure : Option Failure) (s' : Session) : Prop where
  bounds : s'.bounds = s.bounds
  onward : s.Onward s'
  idle : move.task? s = none → failure = none ∧ s.machine.Alike s'.machine
  ran : ∀ task, move.task? s = some task →
    failure = handedOn (task.run s.bounds s.machine).1 ∧
      (task.run s.bounds s.machine).2.Alike s'.machine

/-- The report on a program follows its run. -/
theorem execute_eq_report (program : Program) (s : Session)
    {outcome : Except Failure Unit × Machine}
    (ran : runProgram s.bounds (program.map (Stmt.withDistances s.distances)) s.machine = outcome) :
    (execute program s : Option Failure × Session) = (match outcome.1 with
      | .ok () => return none
      | .error (.runtime token fault) => do
        log (.halted fault.message)
        reportFailure (.runtime token fault)
        return none
      | .error failure => do
        reportFailure failure
        return some failure : Dialogue (Option Failure)) { s with machine := outcome.2 } := by
  cases ran
  rfl

/-- What executing a program does, in terms of its outcome. -/
theorem run_execute (program : Program) (s : Session) :
    let outcome := runProgram s.bounds (program.map (Stmt.withDistances s.distances)) s.machine
    ∃ hadRuntimeError reports,
      (execute program s : Option Failure × Session) =
        (handedOn outcome.1, { s with machine := outcome.2, hadRuntimeError, reports }) := by
  intro outcome
  rw [execute_eq_report program s (rfl : _ = outcome)]
  rcases outcome.1 with (_ | _ | _ | _) | _
  · exact ⟨_, _, rfl⟩
  · exact ⟨_, _, rfl⟩
  · exact ⟨_, _, rfl⟩
  · exact ⟨_, _, rfl⟩
  · exact ⟨_, _, rfl⟩

/-- The value of an expression is shown behind its evaluation. -/
theorem echo_eq_report (e : Expr Distance) (s : Session) {outcome : Except Failure Value × Machine}
    (ran : runExpression s.bounds e s.machine = outcome) :
    (echo e s : Option Failure × Session) = (match outcome.1 with
      | .ok v => do
        printText (v.inspect ++ "\n")
        return none
      | .error (.runtime token fault) => do
        reportFailure (.runtime token fault)
        return none
      | .error failure => return some failure : Dialogue (Option Failure))
        { s with machine := outcome.2 } := by
  cases ran
  rfl

/-- And what echoing an expression does. -/
theorem run_echo (e : Expr Distance) (s : Session) :
    let outcome := runExpression s.bounds e s.machine
    ∃ output hadRuntimeError reports,
      (echo e s : Option Failure × Session) =
        (handedOn outcome.1,
          { s with machine := { outcome.2 with output }, hadRuntimeError, reports }) := by
  intro outcome
  rw [echo_eq_report e s (rfl : _ = outcome)]
  rcases outcome.1 with (_ | _ | _ | _) | _
  · exact ⟨_, _, _, rfl⟩
  · exact ⟨_, _, _, rfl⟩
  · exact ⟨_, _, _, rfl⟩
  · exact ⟨_, _, _, rfl⟩
  · exact ⟨_, _, _, rfl⟩

/-- A stage that runs nothing. -/
theorem Played.of_idle {s s' : Session} {move : Move} (bounds : s'.bounds = s.bounds)
    (onward : s.Onward s') (idle : move.task? s = none) (alike : s.machine.Alike s'.machine) :
    s.Played move none s' where
  bounds := bounds
  onward := onward
  idle _ := ⟨rfl, alike⟩
  ran _ runs := by rw [idle] at runs; cases runs

/-- Statements are run behind other stages. -/
theorem Played.of_execute {s s' : Session} {move : Move} {ed : Edition}
    (bounds : s'.bounds = s.bounds) (machine : s'.machine = s.machine) (onward : s.Onward s')
    (distances : s'.distances = ed.table) (runs : move.task? s = some (.program ed.statements)) :
    s.Played move (execute ed.program s').1 (execute ed.program s').2 := by
  obtain ⟨_, _, run⟩ := run_execute ed.program s'
  rw [distances, bounds, machine] at run
  refine ⟨?_, ?_, fun idle => ?_, fun task runs' => ?_⟩
  · rw [run]
  · rw [run]
    exact onward.trans (.of_eq rfl distances.symm)
  · exact absurd (runs.symm.trans idle) (by simp)
  · cases runs.symm.trans runs'
    rw [run]
    exact ⟨rfl, .refl _⟩

/-- An expression is run behind other stages. -/
theorem Played.of_echo {s s' : Session} {move : Move} {e : Expr Distance}
    (bounds : s'.bounds = s.bounds) (machine : s'.machine = s.machine) (onward : s.Onward s')
    (runs : move.task? s = some (.expression e)) :
    s.Played move (echo e s').1 (echo e s').2 := by
  obtain ⟨_, _, _, run⟩ := run_echo e s'
  rw [bounds, machine] at run
  refine ⟨?_, ?_, fun idle => ?_, fun task runs' => ?_⟩
  · rw [run]
  · rw [run]
    exact onward.trans (.of_eq rfl rfl)
  · exact absurd (runs.symm.trans idle) (by simp)
  · cases runs.symm.trans runs'
    rw [run]
    have ran : Task.run s.bounds (.expression e) = (do
      let _ ← runExpression s.bounds e
      return) := rfl
    rw [ran, run_bind]
    rcases runExpression s.bounds e s.machine with ⟨failure | _, m⟩
    · cases failure <;> exact ⟨rfl, rfl, rfl, rfl⟩
    · exact ⟨rfl, rfl, rfl, rfl⟩

/-- The distances that are recorded when a text is run. -/
theorem Checked.distances {s s' : Session} {source : String} (checked : s.Checked source s')
    (clean : s'.hadError = false) : s'.distances = (s.editionOf source).table := by
  cases checked with
  | unbound _ _ _ _ pending => exact absurd (pending.symm.trans clean) (by simp)
  | bound _ _ _ distances _ => exact distances

/-- A text is executed unless complaints are pending when it was checked. -/
theorem run_eq (s : Session) (source : String) :
    (run source s : Option Failure × Session) =
      (if (check source s).2.hadError then (do log .skipped; return none)
        else execute (s.editionOf source).program : Dialogue (Option Failure))
          (check source s).2 := by
  rw [← show (check source s).1 = (s.editionOf source).program by rw [run_check]]
  rfl

/-- Runs the program of an interactive line; the value of a lone expression is echoed. -/
def executeLine (program : Program) : Dialogue (Option Failure) := do
  match ← prepared program with
  | [.expression e] => echo e
  | _ => execute program

/-- A line is run unless complaints are pending when it was checked. -/
theorem runLine_eq (s : Session) (source : String) :
    (runLine source s : Option Failure × Session) =
      (if (check source s).2.hadError then return none
        else executeLine (s.editionOf source).program : Dialogue (Option Failure))
          (check source s).2 := by
  rw [← show (check source s).1 = (s.editionOf source).program by rw [run_check]]
  rfl

/-- What every move leads to. -/
theorem played (s : Session) (move : Move) : s.Played move (move.play s).1 (move.play s).2 := by
  cases move with
  | run source =>
    have checked := s.check_outcome source
    show s.Played _ (run source s).1 (run source s).2
    rw [run_eq]
    split
    · rename_i pending
      exact .of_idle checked.bounds (checked.onward.trans (.of_eq rfl rfl)) (if_pos pending)
        ⟨congrArg Machine.store checked.machine, congrArg Machine.fields checked.machine,
          congrArg Machine.environment checked.machine⟩
    · rename_i clean
      exact .of_execute checked.bounds checked.machine checked.onward
        (checked.distances (by simpa using clean)) (if_neg clean)
  | runLine source =>
    have checked := s.check_outcome source
    show s.Played _ (runLine source s).1 (runLine source s).2
    rw [runLine_eq]
    split
    · rename_i pending
      exact .of_idle checked.bounds checked.onward (if_pos pending) (checked.machine ▸ .refl _)
    · rename_i clean
      have distances := checked.distances (by simpa using clean)
      have runs : Move.task? s (.runLine source) = some (.ofLine (s.editionOf source).statements) :=
        if_neg clean
      have branch : executeLine (s.editionOf source).program (check source s).2 =
          (match (s.editionOf source).statements with
            | [.expression e] => echo e
            | _ => execute (s.editionOf source).program) (check source s).2 := by
        rw [Edition.statements, ← distances]
        rfl
      have executed : Move.task? s (.runLine source) =
            some (.program (s.editionOf source).statements) →
          s.Played (.runLine source) (execute (s.editionOf source).program (check source s).2).1
            (execute (s.editionOf source).program (check source s).2).2 :=
        .of_execute checked.bounds checked.machine checked.onward distances
      rw [branch]
      revert runs executed
      generalize (s.editionOf source).statements = ss
      intro runs executed
      rcases ss with _ | ⟨first, _ | ⟨second, rest⟩⟩
      · exact executed runs
      · cases first
        case expression e => exact .of_echo checked.bounds checked.machine checked.onward runs
        all_goals exact executed runs
      · cases first <;> exact executed runs
  | check source =>
    have checked := s.check_outcome source
    exact .of_idle checked.bounds checked.onward rfl (checked.machine ▸ .refl _)
  | read source => exact .of_idle rfl (.read rfl rfl) rfl (.refl _)
  | say text => exact .of_idle rfl (.of_eq rfl rfl) rfl ⟨rfl, rfl, rfl⟩
  | resetFlags => exact .of_idle rfl (.of_eq rfl rfl) rfl (.refl _)
  | clearTranscript => exact .of_idle rfl (.of_eq rfl rfl) rfl ⟨rfl, rfl, rfl⟩
  | force tokens endLine =>
    let s' := { s with nextSite := (s.reading tokens endLine).nextSite }
    have stages : (force tokens endLine s : Option Failure × Session) =
        execute (s.edition tokens endLine).program
          (bind (s.edition tokens endLine).program s').2 := rfl
    have runs : Move.task? s (.force tokens endLine) =
      some (.program (s.edition tokens endLine).statements) := rfl
    show s.Played _ (force tokens endLine s).1 (force tokens endLine s).2
    rw [stages]
    exact .of_execute rfl rfl (.bound rfl rfl) rfl runs

/-! ## Histories -/

/-- So a session goes onward through a history. -/
theorem onward_after (s : Session) (history : List Move) : s.Onward (s.after history) := by
  induction history generalizing s with
  | nil => exact .refl s
  | cons move history ih => exact (s.played move).onward.trans (ih (move.play s).2)

/-- And keeps its bounds. -/
theorem bounds_after (s : Session) (history : List Move) : (s.after history).bounds = s.bounds := by
  induction history generalizing s with
  | nil => rfl
  | cons move history ih => exact (ih (move.play s).2).trans (s.played move).bounds

/-- Whatever happened to a session, the sites that it has not given out have no distances. -/
theorem numbered_after (bounds : Bounds) (now : Clock) (history : List Move) :
    ((start bounds now).after history).Numbered :=
  ((start bounds now).onward_after history).numbered fun site _ => Distances.get?_empty site

/-- What was recorded for a text stays, whatever happens after it was run. -/
theorem get?_after (s : Session) (tokens : List Token) (endLine : Nat) (later : List Move)
    {site : Site} (mem : site ∈ sitesOf (Stmt.referencesAll (s.edition tokens endLine).program)) :
    (s.after (.force tokens endLine :: later)).distances.get? site =
      (s.edition tokens endLine).table.get? site := by
  obtain ⟨_, _, run⟩ := run_execute (s.edition tokens endLine).program
    (bind (s.edition tokens endLine).program
      { s with nextSite := (s.reading tokens endLine).nextSite }).2
  have forced : ((Move.force tokens endLine).play s).2 = _ := congrArg Prod.snd run
  rw [after_cons, forced, (onward_after _ later).kept site]
  · rfl
  · exact ((s.fresh_edition tokens endLine).2.bounds site mem).2

end Session

end LoxLang
