/-
LoxLang.Proofs.Session.Stages: what the stages of a text lead to.

A text is scanned, read and bound, and complaints of one stage keep it from the later ones.  What
such a session reports, and the flags that it sets, follow from what the stages yield on their own.

* `Session.syntaxFaults`, `staticFaults`: what a text is complained about before it runs.
* `complaintOf?`: what a run is complained about at its end.
* `Session.Ran`: what running statements leads to.

Main statements: `hadError_check`, `run_rejected` and `run_accepted`, `runLine_accepted`.
-/
import LoxLang.Proofs.Session.History

namespace LoxLang

/-- The complaint about a run that ended so. -/
def complaintOf? {α : Type} : Except Failure α → Option Diagnostic
  | .ok _ => none
  | .error failure => failure.diagnostic?

/-- The machine behind an evaluation whose value is echoed. -/
def Machine.echoing (m : Machine) : Except Failure Value → Machine
  | .ok v => { m with output := m.output ++ (v.inspect ++ "\n") }
  | .error _ => m

namespace Session

/-! ## Complaints about a text -/

/-- What scanning and reading complain about. -/
def syntaxFaults (s : Session) (source : String) : List Diagnostic :=
  let scanned := Scan.ofString source
  scanned.diagnostics ++ (s.reading scanned.tokens scanned.endLine).diagnostics

/-- What is complained about before a text runs.  It is bound only if nothing was found before. -/
def staticFaults (s : Session) (source : String) : List Diagnostic :=
  match s.syntaxFaults source with
  | [] => (s.editionOf source).walked.diagnostics
  | faults => faults

variable {s : Session} {source : String}

theorem staticFaults_of_clean (clean : s.syntaxFaults source = []) :
    s.staticFaults source = (s.editionOf source).walked.diagnostics := by
  simp only [staticFaults, clean]

theorem staticFaults_of_faults (faults : s.syntaxFaults source ≠ []) :
    s.staticFaults source = s.syntaxFaults source := by
  unfold staticFaults
  split
  · contradiction
  · rfl

theorem diagnostics_complaints (ds : List Diagnostic) :
    (ds.map Report.complaint).filterMap Report.diagnostic? = ds := by
  induction ds with
  | nil => rfl
  | cons d ds ih => simpa [Report.diagnostic?] using ih

theorem diagnostics_complain (s : Session) (ds : List Diagnostic) :
    (complain ds s).2.diagnostics = s.diagnostics ++ ds := by
  show (s.reports ++ ds.map Report.complaint).filterMap Report.diagnostic? = _
  rw [List.filterMap_append, diagnostics_complaints]
  rfl

theorem diagnostics_log (s : Session) (n : Note) : (log n s).2.diagnostics = s.diagnostics := by
  show (s.reports ++ [Report.note n]).filterMap Report.diagnostic? = _
  simp [Report.diagnostic?, diagnostics]

theorem diagnostics_read (s : Session) (source : String) :
    (read source s).2.diagnostics = s.diagnostics ++ s.syntaxFaults source := by
  let scanned := Scan.ofString source
  let reading := s.reading scanned.tokens scanned.endLine
  let s₁ := (complain scanned.diagnostics s).2
  let s₂ := (log (.scanned scanned.allTokens.length) s₁).2
  let s₃ : Session := { s₂ with nextSite := reading.nextSite }
  calc (read source s).2.diagnostics
      = (log (.parsed reading.result.length) (complain reading.diagnostics s₃).2).2.diagnostics :=
      rfl
    _ = s₂.diagnostics ++ reading.diagnostics := by
        rw [diagnostics_log, diagnostics_complain]
        rfl
    _ = s.diagnostics ++ scanned.diagnostics ++ reading.diagnostics := by
        rw [diagnostics_log, diagnostics_complain]
    _ = s.diagnostics ++ s.syntaxFaults source := List.append_assoc _ _ _

theorem hadError_read (clear : s.hadError = false) (source : String) :
    (read source s).2.hadError = !(s.syntaxFaults source).isEmpty := by
  have flags : (read source s).2.hadError =
      ((s.hadError || !(Scan.ofString source).diagnostics.isEmpty) ||
        !(s.reading (Scan.ofString source).tokens
          (Scan.ofString source).endLine).diagnostics.isEmpty) :=
    rfl
  rw [flags, clear, syntaxFaults]
  cases (Scan.ofString source).diagnostics <;> simp

theorem diagnostics_bind (s : Session) (program : Program) :
    (bind program s).2.diagnostics =
      s.diagnostics ++ (bindProgram s.machine.isGlobal s.distances program).diagnostics := by
  let walk := bindProgram s.machine.isGlobal s.distances program
  let s' : Session := { s with distances := walk.distances }
  calc (bind program s).2.diagnostics
      = (log (.bound program.length walk.complaints.length)
          (complain walk.diagnostics s').2).2.diagnostics := rfl
    _ = s.diagnostics ++ walk.diagnostics := by
        rw [diagnostics_log, diagnostics_complain]
        rfl

/-- Checking a text reports what is wrong with it, and sets the flag if anything is. -/
theorem diagnostics_check (clear : s.hadError = false) (source : String) :
    (check source s).2.diagnostics = s.diagnostics ++ s.staticFaults source ∧
      (check source s).2.hadError = !(s.staticFaults source).isEmpty := by
  rw [run_check]
  by_cases clean : s.syntaxFaults source = []
  · have pending : (read source s).2.hadError = false := by
      rw [hadError_read clear, clean]
      rfl
    have walked : bindProgram (read source s).2.machine.isGlobal (read source s).2.distances
        (s.editionOf source).program = (s.editionOf source).walked := rfl
    rw [staticFaults_of_clean clean, pending]
    constructor
    · calc (bind (s.editionOf source).program (read source s).2).2.diagnostics
          = (read source s).2.diagnostics ++ (s.editionOf source).walked.diagnostics := by
            rw [diagnostics_bind, walked]
        _ = s.diagnostics ++ (s.editionOf source).walked.diagnostics := by
            rw [diagnostics_read, clean, List.append_nil]
    · have flag : (bind (s.editionOf source).program (read source s).2).2.hadError =
          ((read source s).2.hadError || !(s.editionOf source).walked.diagnostics.isEmpty) := rfl
      simp [flag, pending]
  · have pending : (read source s).2.hadError = true := by
      rw [hadError_read clear]
      simpa using clean
    rw [staticFaults_of_faults clean, pending]
    exact ⟨diagnostics_read s source, by simpa [pending] using clean⟩

theorem hadError_check (clear : s.hadError = false) (source : String) :
    (check source s).2.hadError = false ↔ s.staticFaults source = [] := by
  rw [(diagnostics_check clear source).2]
  simp

theorem hadRuntimeError_check (s : Session) (source : String) :
    (check source s).2.hadRuntimeError = s.hadRuntimeError := by
  rw [run_check]
  dsimp only
  split <;> rfl

theorem nextSite_check (s : Session) (source : String) :
    (check source s).2.nextSite =
      (s.reading (Scan.ofString source).tokens (Scan.ofString source).endLine).nextSite := by
  rw [run_check]
  dsimp only
  split <;> rfl

/-! ## Runs -/

/-- What a run leads to that ends on a machine, reports something or nothing, and hands a failure
on or none. -/
structure Ran (s : Session) (machine : Machine) (reported : Option Diagnostic) (s' : Session) :
    Prop where
  machine : s'.machine = machine
  bounds : s'.bounds = s.bounds
  nextSite : s'.nextSite = s.nextSite
  distances : s'.distances = s.distances
  hadError : s'.hadError = s.hadError
  hadRuntimeError : s'.hadRuntimeError = (s.hadRuntimeError || reported.isSome)
  diagnostics : s'.diagnostics = s.diagnostics ++ reported.toList

theorem Ran.silent (s : Session) (machine : Machine) : s.Ran machine none { s with machine } :=
  ⟨rfl, rfl, rfl, rfl, rfl, (Bool.or_false _).symm, (List.append_nil _).symm⟩

theorem Ran.logged {machine : Machine} {reported : Option Diagnostic} {s' : Session}
    (ran : s.Ran machine reported s') (n : Note) : s.Ran machine reported (log n s').2 :=
  { ran with diagnostics := (diagnostics_log s' n).trans ran.diagnostics }

theorem Ran.reported {machine : Machine} {s' : Session} (ran : s.Ran machine none s')
    (failure : Failure) : s.Ran machine failure.diagnostic? (reportFailure failure s').2 := by
  cases complaint : failure.diagnostic? with
  | none =>
    have same : (reportFailure failure s').2 = s' := by
      simp only [reportFailure, complaint]
      rfl
    rwa [same]
  | some d =>
    have changed : (reportFailure failure s').2 =
        { s' with reports := s'.reports ++ [.complaint d], hadRuntimeError := true } := by
      simp only [reportFailure, complaint]
      rfl
    rw [changed]
    have before : s'.reports.filterMap Report.diagnostic? = s.diagnostics :=
      ran.diagnostics.trans (List.append_nil _)
    exact { ran with
      hadRuntimeError := (Bool.or_true _).symm
      diagnostics := by simp [Session.diagnostics, Report.diagnostic?, before] }

/-- Executing a program reports every failure, and hands on those that are not the program's. -/
theorem ran_execute (program : Program) (s : Session) :
    let outcome := runProgram s.bounds (program.map (Stmt.withDistances s.distances)) s.machine
    (execute program s).1 = handedOn outcome.1 ∧
      s.Ran outcome.2 (complaintOf? outcome.1) (execute program s).2 := by
  intro outcome
  have silent : s.Ran outcome.2 none { s with machine := outcome.2 } := .silent s outcome.2
  rw [execute_eq_report program s (rfl : _ = outcome)]
  rcases outcome.1 with failure | _
  · cases failure with
    | runtime token fault => exact ⟨rfl, (silent.logged _).reported (.runtime token fault)⟩
    | internal token fault => exact ⟨rfl, silent.reported (.internal token fault)⟩
    | overflow => exact ⟨rfl, silent.reported .overflow⟩
    | unfinished => exact ⟨rfl, silent.reported .unfinished⟩
  · exact ⟨rfl, silent⟩

/-- Echoing an expression reports the failures of the program only. -/
theorem ran_echo (e : Expr Distance) (s : Session) :
    let outcome := runExpression s.bounds e s.machine
    (echo e s).1 = handedOn outcome.1 ∧
      s.Ran (outcome.2.echoing outcome.1)
        (if (handedOn outcome.1).isSome then none else complaintOf? outcome.1) (echo e s).2 := by
  intro outcome
  have silent : s.Ran outcome.2 none { s with machine := outcome.2 } := .silent s outcome.2
  rw [echo_eq_report e s (rfl : _ = outcome)]
  rcases outcome.1 with failure | v
  · cases failure with
    | runtime token fault => exact ⟨rfl, silent.reported (.runtime token fault)⟩
    | internal token fault => exact ⟨rfl, silent⟩
    | overflow => exact ⟨rfl, silent⟩
    | unfinished => exact ⟨rfl, silent⟩
  · exact ⟨rfl, .silent s _⟩

/-! ## Texts -/

/-- A text that is complained about is not run. -/
theorem run_rejected (clear : s.hadError = false) (rejected : s.staticFaults source ≠ []) :
    (run source s).1 = none ∧ (run source s).2.machine = s.machine ∧
      (run source s).2.hadError = true ∧
      (run source s).2.hadRuntimeError = s.hadRuntimeError ∧
      (run source s).2.diagnostics = s.diagnostics ++ s.staticFaults source := by
  obtain ⟨diagnostics, flag⟩ := diagnostics_check clear source
  have pending : (check source s).2.hadError = true := by
    rw [flag]
    simpa using rejected
  rw [run_eq, if_pos pending]
  exact ⟨rfl, (s.check_outcome source).machine, pending, s.hadRuntimeError_check source,
    (diagnostics_log _ _).trans diagnostics⟩

/-- The session in which an accepted text is run. -/
def walked (s : Session) (source : String) : Session :=
  { s with
    nextSite := (s.reading (Scan.ofString source).tokens (Scan.ofString source).endLine).nextSite
    distances := (s.editionOf source).table }

@[simp] theorem hadError_walked (s : Session) (source : String) :
    (s.walked source).hadError = s.hadError := rfl

@[simp] theorem hadRuntimeError_walked (s : Session) (source : String) :
    (s.walked source).hadRuntimeError = s.hadRuntimeError := rfl

@[simp] theorem diagnostics_walked (s : Session) (source : String) :
    (s.walked source).diagnostics = s.diagnostics := rfl

/-- Checking a text that nothing is wrong with adds nothing to a run behind it. -/
theorem Ran.checked {machine : Machine} {reported : Option Diagnostic} {s' : Session}
    (clear : s.hadError = false) (accepted : s.staticFaults source = [])
    (ran : (check source s).2.Ran machine reported s') :
    (s.walked source).Ran machine reported s' := by
  have checked := s.check_outcome source
  have pending := (hadError_check clear source).mpr accepted
  have silent := (diagnostics_check clear source).1
  rw [accepted, List.append_nil] at silent
  refine ⟨ran.machine, ?_, ?_, ?_, ?_, ?_, ?_⟩
  · exact ran.bounds.trans checked.bounds
  · exact ran.nextSite.trans (s.nextSite_check source)
  · exact ran.distances.trans (checked.distances pending)
  · exact (ran.hadError.trans pending).trans clear.symm
  · rw [ran.hadRuntimeError, hadRuntimeError_check, hadRuntimeError_walked]
  · rw [ran.diagnostics, silent, diagnostics_walked]

/-- A text that nothing is wrong with is run behind its walk. -/
theorem run_accepted (clear : s.hadError = false) (accepted : s.staticFaults source = []) :
    let outcome := runProgram s.bounds (s.editionOf source).statements s.machine
    (run source s).1 = handedOn outcome.1 ∧
      (s.walked source).Ran outcome.2 (complaintOf? outcome.1) (run source s).2 := by
  have checked := s.check_outcome source
  have pending := (hadError_check clear source).mpr accepted
  have ran := ran_execute (s.editionOf source).program (check source s).2
  rw [checked.bounds, checked.machine, checked.distances pending] at ran
  rw [run_eq, if_neg (by simp [pending])]
  exact ⟨ran.1, ran.2.checked clear accepted⟩

/-- A lone expression that nothing is wrong with is echoed behind its walk. -/
theorem runLine_accepted {e : Expr Site} (clear : s.hadError = false)
    (accepted : s.staticFaults source = [])
    (lone : (s.editionOf source).program = [.expression e]) :
    let outcome := runExpression s.bounds (e.map (s.editionOf source).table.get?) s.machine
    (runLine source s).1 = handedOn outcome.1 ∧
      (s.walked source).Ran (outcome.2.echoing outcome.1)
        (if (handedOn outcome.1).isSome then none else complaintOf? outcome.1)
        (runLine source s).2 := by
  have checked := s.check_outcome source
  have pending := (hadError_check clear source).mpr accepted
  have echoed := ran_echo (e.map (s.editionOf source).table.get?) (check source s).2
  have branch : executeLine [.expression e] (check source s).2 =
      echo (e.map (s.editionOf source).table.get?) (check source s).2 := by
    rw [← checked.distances pending]
    rfl
  rw [checked.bounds, checked.machine] at echoed
  rw [runLine_eq, if_neg (by simp [pending]), lone, branch]
  exact ⟨echoed.1, echoed.2.checked clear accepted⟩

end Session

end LoxLang
