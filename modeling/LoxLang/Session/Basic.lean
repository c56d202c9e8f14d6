/-
LoxLang.Session.Basic: texts one after the other on one machine.

A session scans, reads, binds and runs texts.  Complaints of the first three stages keep a text from
running; a failure stops the program where it happened, and the session goes on.  Globals and
everything reachable from them stay from text to text.

* `Session`: the machine, the distances recorded so far and what was reported.
* `Session.read`, `check`, `run`, `runLine`: the stages, each including the ones before it.
* `Session.runPrompt`: an interactive dialogue.

An internal failure is reported and handed on to the caller of the session; it ends a dialogue.
-/
import LoxLang.Binding.Rules
import LoxLang.Machine.Eval
import LoxLang.Session.Report
import LoxLang.Token.Scan
import LoxLang.Tree.Grammar

namespace LoxLang

/-- The state of a session. -/
structure Session where
  bounds : Bounds
  machine : Machine
  /-- The distances of all references of all texts so far. -/
  distances : Distances
  /-- The least site that no reference has yet. -/
  nextSite : Site
  /-- A complaint about a text was reported since the last reset. -/
  hadError : Bool
  /-- A failure of a program was reported since the last reset. -/
  hadRuntimeError : Bool
  reports : List Report

/-- A step of a session. -/
abbrev Dialogue := StateM Session

namespace Session

/-- The session before the first text. -/
def start (bounds : Bounds) (now : Clock) : Session where
  bounds := bounds
  machine := .start now
  distances := .empty
  nextSite := 0
  hadError := false
  hadRuntimeError := false
  reports := []

/-- The complaints among the reports. -/
def diagnostics (s : Session) : List Diagnostic := s.reports.filterMap Report.diagnostic?

/-! ## Reporting -/

/-- Writes a line of the log. -/
def log (n : Note) : Dialogue Unit := modify fun s => { s with reports := s.reports ++ [.note n] }

/-- Reports complaints about a text. -/
def complain (ds : List Diagnostic) : Dialogue Unit :=
  modify fun s =>
    { s with
      reports := s.reports ++ ds.map .complaint
      hadError := s.hadError || !ds.isEmpty }

/-- Reports a failure of a program. -/
def reportFailure (failure : Failure) : Dialogue Unit :=
  modify fun s =>
    match failure.diagnostic? with
    | some d => { s with reports := s.reports ++ [.complaint d], hadRuntimeError := true }
    | none => s

/-- Forgets that anything was reported. -/
def resetFlags : Dialogue Unit :=
  modify fun s => { s with hadError := false, hadRuntimeError := false }

/-- Forgets what was printed and reported; flags and values stay. -/
def clearTranscript : Dialogue Unit :=
  modify fun s => { s with machine := { s.machine with output := "" }, reports := [] }

/-! ## The stages -/

/-- Scans a text. -/
def scan (source : String) : Dialogue Scan := do
  let scanned := Scan.ofString source
  complain scanned.diagnostics
  log (.scanned scanned.allTokens.length)
  return scanned

/-- Scans a text and reads its program. -/
def read (source : String) : Dialogue Program := do
  let scanned ← scan source
  let reading := Program.ofTokens scanned.tokens scanned.endLine (← get).nextSite
  modify fun s => { s with nextSite := reading.nextSite }
  complain reading.diagnostics
  log (.parsed reading.result.length)
  return reading.result

/-- Applies the static rules to a program and records its distances. -/
def bind (program : Program) : Dialogue Unit := do
  let s ← get
  let walk := bindProgram s.machine.isGlobal s.distances program
  set { s with distances := walk.distances }
  complain walk.diagnostics
  log (.bound program.length walk.complaints.length)

/-- Scans, reads and binds a text.  Nothing is bound while complaints are pending. -/
def check (source : String) : Dialogue Program := do
  let program ← read source
  if !(← get).hadError then bind program
  return program

/-- Runs something on the machine of the session. -/
def onMachine {α : Type} (act : Bounds → Run α) : Dialogue (Except Failure α) := do
  let s ← get
  let (result, machine) := (act s.bounds).run.run s.machine
  set { s with machine }
  return result

/-- A program as it runs: its references carry the recorded distances. -/
def prepared (program : Program) : Dialogue (List (Stmt Distance)) :=
  return program.map (Stmt.withDistances (← get).distances)

/-- Runs a program.  The failure that is handed on is an internal one. -/
def execute (program : Program) : Dialogue (Option Failure) := do
  let statements ← prepared program
  match ← onMachine (runProgram · statements) with
  | .ok () => return none
  | .error (.runtime token fault) => do
    log (.halted fault.message)
    reportFailure (.runtime token fault)
    return none
  | .error failure => do
    reportFailure failure
    return some failure

/-- Scans, reads, binds and runs a text. -/
def run (source : String) : Dialogue (Option Failure) := do
  let program ← check source
  if (← get).hadError then
    log .skipped
    return none
  execute program

/-- Prints a line on the machine of the session. -/
def printText (text : String) : Dialogue Unit :=
  modify fun s => { s with machine := { s.machine with output := s.machine.output ++ text } }

/-- Evaluates an expression and echoes its value. -/
def echo (e : Expr Distance) : Dialogue (Option Failure) := do
  match ← onMachine (runExpression · e) with
  | .ok v => do
    printText (v.inspect ++ "\n")
    return none
  | .error (.runtime token fault) => do
    reportFailure (.runtime token fault)
    return none
  | .error failure => return some failure

/-- Runs an interactive line; the value of a lone expression is echoed. -/
def runLine (source : String) : Dialogue (Option Failure) := do
  let program ← check source
  if (← get).hadError then return none
  match ← prepared program with
  | [.expression e] => echo e
  | _ => execute program

/-! ## Dialogues -/

/-- What asks for the next line. -/
def promptText : String := "> "

/-- Runs one line of a dialogue.  Unless a failure is handed on, the flags are reset after it. -/
def answer (line : String) : Dialogue (Option Failure) := do
  match ← runLine line with
  | some failure => return some failure
  | none => do
    resetFlags
    return none

/-- Runs the lines of a dialogue up to their end or to a failure that is handed on. -/
def runLines : List String → Dialogue (Option Failure)
  | [] => do
    printText promptText
    return none
  | line :: rest => do
    printText promptText
    match ← answer line with
    | some failure => return some failure
    | none => runLines rest

/-- Cuts a text after each newline. -/
def cutLines : List Char → List (List Char)
  | [] => []
  | c :: cs =>
    match c, cutLines cs with
    | '\n', lines => ['\n'] :: lines
    | c, [] => [[c]]
    | c, line :: lines => (c :: line) :: lines

/-- Runs the lines of a text, which keep their newlines. -/
def runPrompt (input : String) : Dialogue (Option Failure) :=
  runLines ((cutLines input.toList).map String.ofList)

end Session

end LoxLang
