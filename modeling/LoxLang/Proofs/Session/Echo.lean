/-
LoxLang.Proofs.Session.Echo: echoing a line beside running it.

An interactive line that is a lone expression is evaluated at once, where a program would execute a
statement around it.  Both come to the same end, on the same machine; the statement nests one level
deeper.  They differ in one kind of failure: running a program reports an internal one, and echoing
hands it on without a report.

* `Session.roomier`: a session whose programs may nest one level deeper.
* `Echoes`: how echoing a line differs from running it.

Main statement: `echo_agrees`.
-/
import Mathlib
import LoxLang.Proofs.Machine.Deeper
import LoxLang.Proofs.Session.Stages

namespace LoxLang

/-- Room for one level more. -/
def Bounds.deeper (bounds : Bounds) : Bounds := { bounds with nesting := bounds.nesting + 1 }

/-- Executing a lone expression evaluates it one level further inside. -/
theorem runProgram_lone (bounds : Bounds) (e : Expr Distance) (m : Machine) :
    let value : Except Failure Value × Machine := runExpression bounds e m
    (runProgram bounds.deeper [.expression e] m : Except Failure Unit × Machine) =
      (value.1.map fun _ => (), value.2) := by
  have executed : (exec bounds.deeper.turns bounds.deeper.nesting (.expression e) :
      Run Completion) = (do let _ ← eval bounds.turns bounds.nesting e; return .normal) := rfl
  rw [runProgram, runExpression, catchOverflow, catchOverflow, run_tryCatch, run_tryCatch,
    runStatements, run_bind, executed, run_bind]
  rcases (eval bounds.turns bounds.nesting e m : Except Failure Value × Machine) with
    ⟨failure | v, m'⟩
  · cases failure <;> rfl
  · rfl

/-! ## Reports -/

section Reports

variable {α β : Type} (f : α → β) (outcome : Except Failure α)

@[simp] theorem handedOn_map : handedOn (outcome.map f) = handedOn outcome := by
  cases outcome with
  | ok a => rfl
  | error failure => cases failure <;> rfl

@[simp] theorem complaintOf?_map : complaintOf? (outcome.map f) = complaintOf? outcome := by
  cases outcome <;> rfl

/-- What is complained about is handed on or not. -/
theorem complaintOf?_eq : complaintOf? outcome =
    if (handedOn outcome).isSome then (handedOn outcome).bind Failure.diagnostic?
    else complaintOf? outcome := by
  cases outcome with
  | ok a => rfl
  | error failure => cases failure <;> rfl

end Reports

namespace Session

/-- The session with room for one level more. -/
def roomier (s : Session) : Session := { s with bounds := s.bounds.deeper }

/-- How echoing a line ends beside running it, if its expression evaluates so: with a value, a line
more is printed.  What `run` reports beyond the echo is the failure that both hand on. -/
structure Echoes (value : Except Failure Value) (ran echoed : Option Failure × Session) : Prop where
  raised : echoed.1 = ran.1
  machine : echoed.2.machine = ran.2.machine.echoing value
  nextSite : echoed.2.nextSite = ran.2.nextSite
  distances : echoed.2.distances = ran.2.distances
  hadError : echoed.2.hadError = ran.2.hadError
  hadRuntimeError : ran.2.hadRuntimeError =
    (echoed.2.hadRuntimeError || (ran.1.bind Failure.diagnostic?).isSome)
  diagnostics : ran.2.diagnostics = echoed.2.diagnostics ++ (ran.1.bind Failure.diagnostic?).toList

variable {s : Session} {source : String} {e : Expr Site}

/-- A run within any bounds that ends as the evaluation does. -/
theorem echoes_of_run {bounds : Bounds} (clear : s.hadError = false)
    (accepted : s.staticFaults source = [])
    (lone : (s.editionOf source).program = [.expression e])
    (ends : let value : Except Failure Value × Machine :=
        runExpression s.bounds (e.map (s.editionOf source).table.get?) s.machine
      (runProgram bounds (s.editionOf source).statements s.machine :
        Except Failure Unit × Machine) = (value.1.map fun _ => (), value.2)) :
    Echoes (runExpression s.bounds (e.map (s.editionOf source).table.get?) s.machine).1
      (run source { s with bounds }) (runLine source s) := by
  obtain ⟨raised, ran⟩ := run_accepted (s := { s with bounds }) clear accepted
  obtain ⟨raised', echoed⟩ := runLine_accepted clear accepted lone
  have outcome : (runProgram bounds (editionOf { s with bounds } source).statements s.machine :
      Except Failure Unit × Machine) = _ := ends
  rw [outcome] at raised ran
  revert raised ran raised' echoed
  generalize (runExpression s.bounds (e.map (s.editionOf source).table.get?) s.machine :
    Except Failure Value × Machine) = value
  intro raised ran raised' echoed
  rw [handedOn_map] at raised
  rw [complaintOf?_map, complaintOf?_eq] at ran
  refine ⟨raised'.trans raised.symm, ?_, ?_, ?_, ?_, ?_, ?_⟩
  · rw [echoed.machine, ran.machine]
  · rw [echoed.nextSite, ran.nextSite]
    rfl
  · rw [echoed.distances, ran.distances]
    rfl
  · rw [echoed.hadError, ran.hadError]
    rfl
  · rw [raised, echoed.hadRuntimeError, ran.hadRuntimeError]
    cases handedOn value.1 <;> simp [walked]
  · rw [raised, echoed.diagnostics, ran.diagnostics]
    cases handedOn value.1 <;> simp [walked, diagnostics]

/-- A line that is accepted and is a lone expression ends with `runLine` as it does with `run`,
which has room for the statement around it; only an internal failure is reported by the latter
alone.  With the same room, both end alike unless the program overflows. -/
theorem echo_agrees (s : Session) (source : String) (e : Expr Site) (clear : s.hadError = false)
    (accepted : (check source s).2.hadError = false)
    (lone : (s.editionOf source).program = [.expression e]) :
    let value : Except Failure Value × Machine :=
      runExpression s.bounds (e.map (s.editionOf source).table.get?) s.machine
    Echoes value.1 (run source s.roomier) (runLine source s) ∧
      (¬ Overflows (runProgram s.bounds (s.editionOf source).statements) s.machine →
        Echoes value.1 (run source s) (runLine source s)) := by
  intro value
  have faults : s.staticFaults source = [] := (hadError_check clear source).mp accepted
  have statements : (s.editionOf source).statements =
      [.expression (e.map (s.editionOf source).table.get?)] := by
    rw [Edition.statements, lone]
    rfl
  have ends : (runProgram s.bounds.deeper (s.editionOf source).statements s.machine :
      Except Failure Unit × Machine) = (value.1.map fun _ => (), value.2) := by
    rw [statements]
    exact runProgram_lone s.bounds _ s.machine
  constructor
  · exact echoes_of_run clear faults lone ends
  · intro within
    have same : (runProgram s.bounds.deeper (s.editionOf source).statements s.machine :
        Except Failure Unit × Machine) =
          runProgram s.bounds (s.editionOf source).statements s.machine :=
      (deepens_runProgram s.bounds _ s.machine).resolve_left within
    exact echoes_of_run clear faults lone (same.symm.trans ends)

/-- A routine that is called at once, and calls another one in the initial value of the variable
that this one reads. -/
def selfCalledInside : String :=
  "(fun() \x7b var a = fun() \x7b return a; \x7d(); print a; \x7d)();"

/-- The session that the line is entered in. -/
def roomy : Session := start ⟨20, 0⟩ 0

theorem accepted_selfCalledInside :
    (check selfCalledInside roomy).2.hadError = false := by
  cbv

theorem program_selfCalledInside :
    let word (kind : Kind) (lexeme : String) : Token := ⟨kind, lexeme, .nil, 1⟩
    (roomy.editionOf selfCalledInside).program = [.expression <|
      .call (.grouping <| .function (word .funWord "fun") []
        [.var (word .identifier "a") (some <| .call
          (.function (word .funWord "fun") []
            [.ret (word .returnWord "return") (some <| .variable ⟨word .identifier "a", 0⟩)])
          (word .rightParen ")") []),
        .print (.variable ⟨word .identifier "a", 1⟩)]) (word .rightParen ")") []] := by
  cbv

theorem raised_selfCalledInside : (runLine selfCalledInside roomy).1 =
    some (.internal (some ⟨.identifier, "a", .nil, 1⟩) (.missingFromScope "a")) := by
  cbv

/-- Both ways end with the same internal failure, which only running it reports. -/
theorem echo_agrees_selfCalledInside :
    roomy.hadError = false ∧ (check selfCalledInside roomy).2.hadError = false ∧
      ∃ e failure, (roomy.editionOf selfCalledInside).program = [.expression e] ∧
        (runLine selfCalledInside roomy).1 = some failure ∧
        (run selfCalledInside roomy.roomier).1 = some failure ∧
        (run selfCalledInside roomy.roomier).2.diagnostics =
          (runLine selfCalledInside roomy).2.diagnostics ++ failure.diagnostic?.toList := by
  obtain ⟨e, lone⟩ : ∃ e, (roomy.editionOf selfCalledInside).program = [.expression e] :=
    ⟨_, program_selfCalledInside⟩
  obtain ⟨echoes, -⟩ := echo_agrees roomy selfCalledInside e rfl accepted_selfCalledInside lone
  have raised : (run selfCalledInside roomy.roomier).1 = some _ :=
    echoes.raised.symm.trans raised_selfCalledInside
  have diagnostics := echoes.diagnostics
  rw [raised] at diagnostics
  exact ⟨rfl, accepted_selfCalledInside, e, _, lone, raised_selfCalledInside, raised, diagnostics⟩

end Session

end LoxLang
