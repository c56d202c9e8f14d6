/-
LoxLang.Proofs.Session.Inert: rejected input leaves no trace.

A text that is only checked, or that is complained about before it runs, takes sites and may leave
distances behind for them.  Later texts get other sites, so these distances are never read.  A
session from which such texts are left out therefore answers all others as before.

* `Entry`, `Session.enter`: the steps of an interactive session, and what they show.
* `Session.Beside`: two sessions that differ in the sites they give out next, and in the distances
  they have recorded.
* `Session.Pruned`: a session from which rejected and checked texts are left out.

Main statement: `rejected_inert`.
-/
import Mathlib
import LoxLang.Proofs.Binding.Later
import LoxLang.Proofs.Session.History
import LoxLang.Proofs.Tree.Later

namespace LoxLang

/-! ## Steps and what they show -/

/-- A step of an interactive session. -/
inductive Entry where
  | run (source : String)
  | runLine (source : String)
  | check (source : String)

namespace Entry

/-- The move that a step makes. -/
def move : Entry → Move
  | run source => .run source
  | runLine source => .runLine source
  | check source => .check source

/-- The text of a step. -/
def source : Entry → String
  | run source | runLine source | check source => source

/-- The text is not run, whatever it is. -/
def IsCheck : Entry → Prop
  | check _ => True
  | _ => False

end Entry

/-- What a step shows: what it printed and complained about itself, and what is there behind it. -/
structure Answer where
  output : String
  diagnostics : List Diagnostic
  globals : Option (Frame Value)
  hadError : Bool
  hadRuntimeError : Bool
  raised : Option Failure

namespace Session

/-- What a session shows, and a failure that it handed on. -/
def shown (s : Session) (raised : Option Failure) : Answer :=
  ⟨s.machine.output, s.diagnostics, s.machine.store.frames[0]?,
    s.hadError, s.hadRuntimeError, raised⟩

/-- Makes a step; the flags are reset after it. -/
def enter (entry : Entry) : Dialogue Answer := do
  clearTranscript
  let raised ← entry.move.play
  let answer := (← get).shown raised
  resetFlags
  return answer

/-- The session behind some steps. -/
def entered (s : Session) (entries : List Entry) : Session :=
  entries.foldl (fun s entry => (enter entry s).2) s

@[simp] theorem entered_nil (s : Session) : s.entered [] = s := rfl

/-- What some steps show. -/
def answers (s : Session) : List Entry → List Answer
  | [] => []
  | entry :: entries => (enter entry s).1 :: (enter entry s).2.answers entries

/-- Scanning, reading or binding the text of a step is complained about. -/
def Rejects (s : Session) (entry : Entry) : Prop := (enter entry s).1.hadError = true

/-- Steps some of which are left out, each of them a check or one that was rejected where it stood.
The answers are those that the steps that are left had beside all others. -/
inductive Pruned : Session → List Entry → List Entry → List Answer → Prop
  | done (s : Session) : Pruned s [] [] []
  | kept {s : Session} {entry : Entry} {entries left : List Entry} {answers : List Answer}
      (rest : Pruned (enter entry s).2 entries left answers) :
      Pruned s (entry :: entries) (entry :: left) ((enter entry s).1 :: answers)
  | leftOut {s : Session} {entry : Entry} {entries left : List Entry} {answers : List Answer}
      (inert : entry.IsCheck ∨ s.Rejects entry)
      (rest : Pruned (enter entry s).2 entries left answers) :
      Pruned s (entry :: entries) left answers

/-! ## Two sessions side by side -/

/-- The second session has given out more sites.  Otherwise only their distances differ. -/
structure Beside (k : Nat) (s s' : Session) : Prop where
  bounds : s'.bounds = s.bounds
  machine : s'.machine = s.machine
  sites : s'.nextSite = s.nextSite + k
  hadError : s'.hadError = s.hadError
  hadRuntimeError : s'.hadRuntimeError = s.hadRuntimeError
  reports : s'.reports = s.reports

section Beside

variable {k : Nat} {s s' : Session}

/-- What is logged differs only in what the numbers of sites say. -/
theorem beside_log (n : Note) : Related (Beside k) Eq (log n) (log n) :=
  .modifies fun s s' beside => { beside with reports := by simp only [beside.reports] }

/-- What is complained about is complained about in both sessions. -/
theorem beside_complain (ds : List Diagnostic) :
    Related (Beside k) Eq (complain ds) (complain ds) :=
  .modifies fun s s' beside =>
    { beside with
      reports := by simp only [beside.reports]
      hadError := by simp only [beside.hadError] }

/-- A failure is reported in both. -/
theorem beside_reportFailure (failure : Failure) :
    Related (Beside k) Eq (reportFailure failure) (reportFailure failure) := by
  refine .modifies fun s s' beside => ?_
  cases failure.diagnostic? with
  | none => exact beside
  | some d => exact { beside with reports := by simp only [beside.reports], hadRuntimeError := rfl }

theorem beside_printText (text : String) :
    Related (Beside k) Eq (printText text) (printText text) :=
  .modifies fun s s' beside => { beside with machine := by simp only [beside.machine] }

/-- What runs on the machine does the same, for it is the same machine. -/
theorem beside_onMachine {α : Type} (act : Bounds → Run α) :
    Related (Beside k) Eq (onMachine act) (onMachine act) := by
  intro s s' beside
  have same : (act s'.bounds s'.machine : Except Failure α × Machine) = act s.bounds s.machine := by
    rw [beside.bounds, beside.machine]
  have results : (act s.bounds s.machine : Except Failure α × Machine).1 =
    (act s'.bounds s'.machine : Except Failure α × Machine).1 := congrArg Prod.fst same.symm
  exact ⟨results, { beside with machine := congrArg Prod.snd same }⟩

/-- Runs statements as `execute` does. -/
def perform (statements : List (Stmt Distance)) : Dialogue (Option Failure) := do
  match ← onMachine (runProgram · statements) with
  | .ok () => return none
  | .error (.runtime token fault) => do
    log (.halted fault.message)
    reportFailure (.runtime token fault)
    return none
  | .error failure => do
    reportFailure failure
    return some failure

/-- Runs statements as an interactive line does. -/
def performLine : List (Stmt Distance) → Dialogue (Option Failure)
  | [.expression e] => echo e
  | statements => perform statements

/-- A program is executed with the distances that the session has recorded for it. -/
theorem execute_eq (program : Program) (s : Session) :
    execute program s = perform (program.map (Stmt.withDistances s.distances)) s := rfl

theorem executeLine_eq (program : Program) (s : Session) :
    executeLine program s = performLine (program.map (Stmt.withDistances s.distances)) s := by
  show (match program.map (Stmt.withDistances s.distances) with
    | [.expression e] => echo e
    | _ => execute program : Dialogue (Option Failure)) s = _
  have executed := execute_eq program s
  revert executed
  generalize program.map (Stmt.withDistances s.distances) = statements
  intro executed
  rcases statements with _ | ⟨first, _ | ⟨second, rest⟩⟩
  · exact executed
  · cases first
    case expression e => rfl
    all_goals exact executed
  · cases first <;> exact executed

/-- Prepared statements have no sites, and so do the same in both. -/
theorem beside_perform (statements : List (Stmt Distance)) :
    Related (Beside k) Eq (perform statements) (perform statements) := by
  refine (beside_onMachine _).bind ?_
  rintro result _ rfl
  split
  · exact .pure rfl
  · refine (beside_log _).bind fun _ _ _ => ?_
    exact (beside_reportFailure _).bind fun _ _ _ => .pure rfl
  · exact (beside_reportFailure _).bind fun _ _ _ => .pure rfl

theorem beside_echo (e : Expr Distance) : Related (Beside k) Eq (echo e) (echo e) := by
  refine (beside_onMachine _).bind ?_
  rintro result _ rfl
  split
  · exact (beside_printText _).bind fun _ _ _ => .pure rfl
  · exact (beside_reportFailure _).bind fun _ _ _ => .pure rfl
  · exact .pure rfl

theorem beside_performLine (statements : List (Stmt Distance)) :
    Related (Beside k) Eq (performLine statements) (performLine statements) := by
  unfold performLine
  split
  · exact beside_echo _
  · exact beside_perform _

/-- Tokens are read to the same program with other sites. -/
theorem Beside.reading (beside : Beside k s s') (tokens : List Token) (endLine : Nat) :
    s'.reading tokens endLine = (s.reading tokens endLine).later id k := by
  have same : tokens.map (Token.reline id) = tokens := by rw [Token.reline_id, List.map_id]
  have later := ofTokens_later id k tokens endLine s.nextSite
  rw [same] at later
  rw [Session.reading, beside.sites]
  exact later

/-- The same text is read as the same tree, with sites that are so many numbers later. -/
theorem beside_read (source : String) :
    Related (Beside k) (fun p p' => p' = Stmt.relabelAll id (· + k) p) (read source)
      (read source) := by
  have scanned : Related (Beside k) Eq (scan source) (scan source) :=
    (beside_complain _).bind fun _ _ _ => (beside_log _).bind fun _ _ _ => .pure rfl
  refine scanned.bind ?_
  rintro scanned _ rfl
  refine Related.bind .gets fun v v' beside => ?_
  have later : Program.ofTokens scanned.tokens scanned.endLine v'.nextSite =
    (Program.ofTokens scanned.tokens scanned.endLine v.nextSite).later id k :=
      beside.reading scanned.tokens scanned.endLine
  dsimp only
  rw [later]
  generalize Program.ofTokens scanned.tokens scanned.endLine v.nextSite = reading
  have complaints : (reading.later id k).diagnostics = reading.diagnostics := List.map_id _
  have length : (reading.later id k).result.length = reading.result.length := by
    rw [Reading.later, Stmt.relabelAll_eq, List.length_map]
  rw [complaints, length]
  refine Related.bind (A := Eq) (.modifies fun u u' beside => { beside with sites := rfl })
    fun _ _ _ => ?_
  refine (beside_complain _).bind fun _ _ _ => ?_
  exact (beside_log _).bind fun _ _ _ => .pure rfl

/-- The sessions have recorded the same for the sites that they give out next. -/
def Known (lo : Site) (k : Nat) (s s' : Session) : Prop :=
  ∀ site, lo ≤ site → s'.distances.get? (site + k) = s.distances.get? site

/-- Whatever either session has recorded, it has recorded for earlier sites. -/
theorem Numbered.known (numbered : s.Numbered) (numbered' : s'.Numbered)
    (sites : s'.nextSite = s.nextSite + k) : Known s.nextSite k s s' := by
  intro site le
  rw [numbered site le, numbered' (site + k) (sites ▸ Nat.add_le_add_right le k)]

/-- What binding a program adds to the session. -/
theorem bind_eq (program : Program) (s : Session) :
    (bind program s : Unit × Session) =
      let walk := bindProgram s.machine.isGlobal s.distances program
      (do complain walk.diagnostics; log (.bound program.length walk.complaints.length) :
        Dialogue Unit) { s with distances := walk.distances } := rfl

/-- The same program is bound to the same distances, for its own sites in either session. -/
theorem beside_bind {lo : Site} (beside : Beside k s s') (known : Known lo k s s')
    (program : Program) :
    Beside k (bind program s).2 (bind (Stmt.relabelAll id (· + k) program) s').2 ∧
      (bindProgram s.machine.isGlobal s.distances program).Beside id k lo s.machine.isGlobal
        s'.machine.isGlobal (bindProgram s'.machine.isGlobal s'.distances
          (Stmt.relabelAll id (· + k) program)) := by
  have sameGlobals : ∀ name, s'.machine.isGlobal name = s.machine.isGlobal name := fun name => by
    rw [beside.machine]
  have walked := bindProgram_later (f := id) sameGlobals known program
  have complaints := walked.diagnostics
  rw [show Diagnostic.reline id = id from rfl, List.map_id] at complaints
  have count := congrArg List.length walked.complaints
  rw [List.length_map] at count
  have length : (Stmt.relabelAll id (· + k) program).length = program.length := by
    rw [Stmt.relabelAll_eq, List.length_map]
  have logged : ∀ (ds : List Diagnostic) (n : Note), Related (Beside k) Eq
      (do complain ds; log n : Dialogue Unit) (do complain ds; log n : Dialogue Unit) := fun ds n =>
    (beside_complain ds).bind fun _ _ _ => beside_log n
  refine ⟨?_, walked⟩
  rw [bind_eq, bind_eq]
  dsimp only
  rw [complaints, count, length]
  refine (logged _ _ _ _ ?_).2
  exact { beside with }

/-- What checking a text comes to: as it runs, the program is the same. -/
theorem beside_check (source : String) (beside : Beside k s s') (numbered : s.Numbered)
    (numbered' : s'.Numbered) :
    Beside k (check source s).2 (check source s').2 ∧
      ((check source s).2.hadError = false →
        (s'.editionOf source).program.map (Stmt.withDistances (check source s').2.distances) =
          (s.editionOf source).program.map (Stmt.withDistances (check source s).2.distances)) := by
  have reading := (beside_read source s s' beside).2
  have program : (s'.editionOf source).program =
    Stmt.relabelAll id (· + k) (s.editionOf source).program := (beside_read source s s' beside).1
  have known : Known s.nextSite k (read source s).2 (read source s').2 := fun site le =>
    numbered.known numbered' beside.sites site le
  obtain ⟨bound, walked⟩ := beside_bind reading known (s.editionOf source).program
  rw [run_check, run_check, reading.hadError, program]
  dsimp only
  split
  · rename_i pending
    exact ⟨reading, fun clean => absurd (pending.symm.trans clean) (by simp)⟩
  · refine ⟨bound, fun _ => ?_⟩
    have fresh := (s.fresh_edition (Scan.ofString source).tokens (Scan.ofString source).endLine).2
    exact (walked.withDistances fun site mem => (fresh.bounds site mem).1).trans
      ((relabel_idStmts _ _).trans (Stmt.mapAll_eq _ _))

/-- A step does the same in both sessions. -/
theorem beside_play (entry : Entry) (beside : Beside k s s') (numbered : s.Numbered)
    (numbered' : s'.Numbered) :
    (entry.move.play s').1 = (entry.move.play s).1 ∧
      Beside k (entry.move.play s).2 (entry.move.play s').2 := by
  cases entry with
  | run source =>
    obtain ⟨checked, same⟩ := beside_check source beside numbered numbered'
    show (run source s').1 = (run source s).1 ∧ Beside k (run source s).2 (run source s').2
    rw [run_eq, run_eq, checked.hadError]
    split
    · have skipped :
        Related (Beside k) Eq (do log .skipped; return none : Dialogue (Option Failure))
          (do log .skipped; return none : Dialogue (Option Failure)) :=
        (beside_log _).bind fun _ _ _ => .pure rfl
      exact (skipped _ _ checked).imp_left Eq.symm
    · rename_i clean
      rw [execute_eq, execute_eq, same (by simpa using clean)]
      exact (beside_perform _ _ _ checked).imp_left Eq.symm
  | runLine source =>
    obtain ⟨checked, same⟩ := beside_check source beside numbered numbered'
    show (runLine source s').1 = (runLine source s).1 ∧
      Beside k (runLine source s).2 (runLine source s').2
    rw [runLine_eq, runLine_eq, checked.hadError]
    split
    · exact ⟨rfl, checked⟩
    · rename_i clean
      rw [executeLine_eq, executeLine_eq, same (by simpa using clean)]
      exact (beside_performLine _ _ _ checked).imp_left Eq.symm
  | check source => exact ⟨rfl, (beside_check source beside numbered numbered').1⟩

end Beside

/-! ## Sessions between two steps -/

/-- The session without what the last step printed and complained about. -/
def cleared (s : Session) : Session := (clearTranscript s).2

/-- Between two steps the second session may have given out more sites, and what the last step
showed does not matter. -/
structure Ready (k : Nat) (s s' : Session) : Prop where
  beside : Beside k s.cleared s'.cleared
  flags : s.hadError = false ∧ s.hadRuntimeError = false
  numbered : s.Numbered
  numbered' : s'.Numbered

section Ready

variable {k : Nat} {s s' : Session} {entry : Entry}

/-- An entry is played on a cleared session, shown, and cleared away. -/
theorem enter_eq (entry : Entry) (s : Session) :
    (enter entry s : Answer × Session) =
      ((entry.move.play s.cleared).2.shown (entry.move.play s.cleared).1,
        (resetFlags (entry.move.play s.cleared).2).2) := rfl

/-- What is shown does not depend on the numbers of sites. -/
theorem Beside.shown (beside : Beside k s s') (raised : Option Failure) :
    s'.shown raised = s.shown raised := by
  rw [Session.shown, beside.machine, Session.diagnostics, beside.reports, beside.hadError,
    beside.hadRuntimeError]
  rfl

/-- An entry leaves the session numbered. -/
theorem Numbered.play (numbered : s.Numbered) (entry : Entry) :
    (entry.move.play s.cleared).2.Numbered :=
  (s.cleared.played entry.move).onward.numbered numbered

/-- Both sessions make the step. -/
theorem Ready.step (ready : Ready k s s') (entry : Entry) :
    (enter entry s').1 = (enter entry s).1 ∧ Ready k (enter entry s).2 (enter entry s').2 := by
  obtain ⟨raised, beside⟩ := beside_play entry ready.beside ready.numbered ready.numbered'
  rw [enter_eq, enter_eq]
  refine ⟨?_,
    { beside with hadError := rfl, hadRuntimeError := rfl, machine := ?_, reports := rfl },
    ⟨rfl, rfl⟩, ready.numbered.play entry, ready.numbered'.play entry⟩
  · dsimp only
    rw [raised, beside.shown]
  · show { (entry.move.play s'.cleared).2.machine with output := "" } = _
    rw [beside.machine]
    rfl

/-! ### Steps that are left out -/

/-- A program that runs finds no error before it runs. -/
theorem hadError_perform (statements : List (Stmt Distance)) (s : Session) :
    (perform statements s).2.hadError = s.hadError := by
  have stages : (perform statements s : Option Failure × Session) =
      (match (runProgram s.bounds statements s.machine : Except Failure Unit × Machine).1 with
        | .ok () => return none
        | .error (.runtime token fault) => do
          log (.halted fault.message)
          reportFailure (.runtime token fault)
          return none
        | .error failure => do
          reportFailure failure
          return some failure : Dialogue (Option Failure))
            { s with machine := (runProgram s.bounds statements s.machine).2 } := rfl
  rw [stages]
  rcases (runProgram s.bounds statements s.machine : Except Failure Unit × Machine).1
    with (_ | _ | _ | _) | _ <;> rfl

theorem hadError_performLine (statements : List (Stmt Distance)) (s : Session) :
    (performLine statements s).2.hadError = s.hadError := by
  unfold performLine
  split
  · rename_i e
    obtain ⟨output, hadRuntimeError, reports, echoed⟩ := run_echo e s
    rw [echoed]
  · exact hadError_perform statements s

/-- A text that is only checked or that is rejected is not run. -/
theorem idle_play (entry : Entry) (s : Session)
    (inert : entry.IsCheck ∨ (entry.move.play s).2.hadError = true) :
    (entry.move.play s).1 = none ∧ (entry.move.play s).2.machine = s.machine := by
  have checked := s.check_outcome entry.source
  cases entry with
  | run source =>
    have rejected : (run source s).2.hadError = true := inert.resolve_left id
    show (run source s).1 = none ∧ (run source s).2.machine = s.machine
    rw [run_eq] at rejected ⊢
    split at rejected
    · rename_i pending
      rw [if_pos pending]
      exact ⟨rfl, checked.machine⟩
    · rename_i clean
      rw [execute_eq, hadError_perform] at rejected
      exact absurd rejected clean
  | runLine source =>
    have rejected : (runLine source s).2.hadError = true := inert.resolve_left id
    show (runLine source s).1 = none ∧ (runLine source s).2.machine = s.machine
    rw [runLine_eq] at rejected ⊢
    split at rejected
    · rename_i pending
      rw [if_pos pending]
      exact ⟨rfl, checked.machine⟩
    · rename_i clean
      rw [executeLine_eq, hadError_performLine] at rejected
      exact absurd rejected clean
  | check source => exact ⟨rfl, checked.machine⟩

/-- The second session makes a step that leaves no trace. -/
theorem Ready.leaveOut (ready : Ready k s s') (inert : entry.IsCheck ∨ s'.Rejects entry) :
    ∃ j, Ready j s (enter entry s').2 := by
  have played := s'.cleared.played entry.move
  have machine := (idle_play entry s'.cleared inert).2
  obtain ⟨j, sites⟩ := Nat.exists_eq_add_of_le played.onward.sites
  refine ⟨k + j, ⟨?_, ?_, ?_, ?_, ?_, rfl⟩, ready.flags, ready.numbered,
    ready.numbered'.play entry⟩
  · exact played.bounds.trans ready.beside.bounds
  · show { (entry.move.play s'.cleared).2.machine with output := "" } = s.cleared.machine
    rw [machine, ← ready.beside.machine]
    rfl
  · show (entry.move.play s'.cleared).2.nextSite = s.cleared.nextSite + (k + j)
    rw [sites, ready.beside.sites, Nat.add_assoc]
  · exact ready.flags.1.symm
  · exact ready.flags.2.symm

/-- The steps that are left show the same in a session that makes only them. -/
theorem Pruned.answers_eq {entries left : List Entry} {answers : List Answer}
    (pruned : Pruned s' entries left answers) (ready : Ready k s s') :
    s.answers left = answers := by
  induction pruned generalizing k s with
  | done s' => rfl
  | @kept s' entry entries left answers rest ih =>
    obtain ⟨same, next⟩ := ready.step entry
    rw [Session.answers, ih next, same]
  | @leftOut s' entry entries left answers inert rest ih =>
    obtain ⟨j, next⟩ := ready.leaveOut inert
    exact ih next

end Ready

/-- A session beside itself. -/
theorem ready_start (bounds : Bounds) (now : Clock) :
    Ready 0 (start bounds now) (start bounds now) where
  beside := ⟨rfl, rfl, rfl, rfl, rfl, rfl⟩
  flags := ⟨rfl, rfl⟩
  numbered := numbered_after bounds now []
  numbered' := numbered_after bounds now []

/-- A step that is rejected prints nothing and leaves the machine as it is, and so does a step that
only checks.  When some of these are left out of a session, the others show what they showed. -/
theorem rejected_inert (bounds : Bounds) (now : Clock) :
    (∀ (entries : List Entry) (entry : Entry),
      let s := (start bounds now).entered entries
      entry.IsCheck ∨ s.Rejects entry →
        (enter entry s).1.output = "" ∧
        (enter entry s).1.globals = s.machine.store.frames[0]? ∧
        (enter entry s).1.raised = none ∧
        (enter entry s).2.machine = { s.machine with output := "" }) ∧
    ∀ (entries left : List Entry) (answers : List Answer),
      Pruned (start bounds now) entries left answers →
        (start bounds now).answers left = answers := by
  constructor
  · intro entries entry s inert
    obtain ⟨raised, machine⟩ := idle_play entry s.cleared inert
    refine ⟨congrArg Machine.output machine, ?_, raised, machine⟩
    exact congrArg (fun m => m.store.frames[0]?) (show _ = s.cleared.machine from machine)
  · intro entries left answers pruned
    exact pruned.answers_eq (ready_start bounds now)

/-- A rejected entry in front may be left out. -/
theorem pruned_first {s : Session} {entry : Entry} (rejects : s.Rejects entry) (next : Entry) :
    Pruned s [entry, next] [next] [(enter next (enter entry s).2).1] :=
  .leftOut (.inr rejects) (.kept (.done _))

/-- A text that does not pass the check is rejected when it is run. -/
theorem rejects_of_check {s : Session} {source : String}
    (pending : (check source s.cleared).2.hadError = true) : s.Rejects (.run source) := by
  show (run source s.cleared).2.hadError = true
  rw [run_eq, if_pos pending]
  exact pending

/-- The text is rejected, but its block is bound. -/
def strayReturn : String := "return; \x7b var a; a; \x7d"

/-- A stray `return` is complained about. -/
theorem hadError_strayReturn :
    (check strayReturn (cleared (start ⟨9, 0⟩ 0))).2.hadError = true := by
  cbv

/-- But the distances in its program were recorded by then. -/
theorem distances_strayReturn :
    (enter (.run strayReturn) (start ⟨9, 0⟩ 0)).2.distances.get? 0 = some 0 := by
  cbv

/-- The rejected text prints nothing, and the next one shows what it shows without it. -/
theorem rejected_inert_strayReturn :
    (start ⟨9, 0⟩ 0).Rejects (.run strayReturn) ∧
      (enter (.run strayReturn) (start ⟨9, 0⟩ 0)).1.output = "" ∧
      (enter (.run strayReturn) (start ⟨9, 0⟩ 0)).2.distances.get? 0 = some 0 ∧
      (start ⟨9, 0⟩ 0).answers [.run "print 2;"] =
        [(enter (.run "print 2;") (enter (.run strayReturn) (start ⟨9, 0⟩ 0)).2).1] := by
  have rejects : (start ⟨9, 0⟩ 0).Rejects (.run strayReturn) :=
    rejects_of_check hadError_strayReturn
  obtain ⟨idle, same⟩ := rejected_inert ⟨9, 0⟩ 0
  have idle := idle [] (.run strayReturn)
  rw [entered_nil] at idle
  exact ⟨rejects, (idle (.inr rejects)).1, distances_strayReturn,
    same _ _ _ (pruned_first rejects _)⟩

end Session

end LoxLang
