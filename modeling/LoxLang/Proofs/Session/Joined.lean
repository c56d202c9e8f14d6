/-
LoxLang.Proofs.Session.Joined: two texts one after the other, and as one text.

A text that runs to its end leaves behind what the text below it needs: the names that it introduces
are global then, and its distances are recorded.  So the text below is bound and runs as it does in
one text with the first; only its lines and the moment of its binding are others.

* `Session.joined`: two texts as one, the second on the lines below the first.
* `Session.Joins`: how running the joined text differs from running the texts in turn.

Main statement: `session_agrees_with_script`.
-/
import Mathlib
import LoxLang.Proofs.Binding.Globals
import LoxLang.Proofs.Machine.Globals
import LoxLang.Proofs.Machine.Lines
import LoxLang.Proofs.Session.Passing
import LoxLang.Proofs.Session.Stages
import LoxLang.Proofs.Token.Joined
import LoxLang.Proofs.Tree.Exact
import LoxLang.Proofs.Tree.Later

namespace LoxLang

/-! ## Statements in two parts -/

section Append

variable {p q : List (Stmt Distance)} {m m₁ : Machine}

/-- Two parts of a program run one after the other, if the first one gets to its end. -/
theorem runStatements_append (exec : Stmt Distance → Run Completion)
    (ran : (runStatements exec p m : Except Failure Unit × Machine) = (.ok (), m₁)) :
    (runStatements exec (p ++ q) m : Except Failure Unit × Machine) = runStatements exec q m₁ := by
  induction p generalizing m with
  | nil =>
    cases ran
    rfl
  | cons s p ih =>
    rw [runStatements_cons] at ran
    rw [List.cons_append, runStatements_cons]
    rcases run : (exec s m : Ending) with ⟨failure | completion, m'⟩
    · rw [run] at ran
      cases ran
    · rw [run] at ran
      cases completion with
      | normal => exact ih ran
      | returned v => exact ih ran
      | exited keyword => cases ran

/-- If the first statements run to their end, the others run behind them. -/
theorem runProgram_append {bounds : Bounds}
    (ran : (runProgram bounds p m : Except Failure Unit × Machine) = (.ok (), m₁)) :
    (runProgram bounds (p ++ q) m : Except Failure Unit × Machine) = runProgram bounds q m₁ := by
  rw [runProgram, catchOverflow, run_tryCatch] at ran
  rcases run : (runStatements (exec bounds.turns bounds.nesting) p m :
    Except Failure Unit × Machine) with ⟨failure | _, m'⟩
  · rw [run] at ran
    cases failure <;> cases ran
  · rw [run] at ran
    cases ran
    rw [runProgram, catchOverflow, run_tryCatch, runStatements_append _ run, runProgram,
      catchOverflow, run_tryCatch]

end Append

namespace Session

/-! ## The first text -/

section First

variable {s : Session} {first : String}

/-- A text that runs without a report was accepted, and its program came to its end. -/
theorem completed (clear : s.hadError = false) (raised : (run first s).1 = none)
    (silent : (run first s).2.diagnostics = s.diagnostics) :
    s.staticFaults first = [] ∧
      (runProgram s.bounds (s.editionOf first).statements s.machine :
        Except Failure Unit × Machine).1 = .ok () := by
  have accepted : s.staticFaults first = [] := by
    by_contra rejected
    have reported := (run_rejected clear rejected).2.2.2.2
    rw [silent] at reported
    exact rejected (List.self_eq_append_right.mp reported)
  refine ⟨accepted, ?_⟩
  obtain ⟨handed, ran⟩ := run_accepted clear accepted
  have reported := ran.diagnostics
  revert handed reported
  generalize (runProgram s.bounds (s.editionOf first).statements s.machine :
    Except Failure Unit × Machine) = outcome
  intro handed reported
  rw [silent] at reported
  have none : complaintOf? outcome.1 = none := by
    have empty : (complaintOf? outcome.1).toList = [] := List.self_eq_append_right.mp reported
    simpa using empty
  rw [raised] at handed
  rcases outcome with ⟨failure | _, m'⟩
  · cases failure with
    | runtime token fault => cases none
    | internal token fault => cases handed
    | overflow => cases handed
    | unfinished => cases handed
  · rfl

/-- Behind a program that came to its end, the names are global that it introduces. -/
theorem isGlobal_completed (bounds : Bounds) (now : Clock) (history : List Move) (first : String) :
    let s := (start bounds now).after history
    s.hadError = false → s.staticFaults first = [] →
      ∀ m₁, (runProgram s.bounds (s.editionOf first).statements s.machine :
          Except Failure Unit × Machine) = (.ok (), m₁) →
        ∀ x, m₁.isGlobal x = true ↔
          s.machine.isGlobal x = true ∨ x ∈ Stmt.introducesAll (s.editionOf first).program := by
  intro s clear accepted m₁ ran x
  let W : World := (start bounds now).world (history ++ [.run first]) fun _ _ => True
  have lawful : W.Lawful :=
    lawful_world (numbered_after bounds now []) fun move _ => move.words_true
  have settled : s.Settled W :=
    settled_after lawful (settled_start bounds now) history [.run first] rfl
  have runs : Move.task? s (.run first) = some (.program (s.editionOf first).statements) := by
    have pending := (hadError_check clear first).mpr accepted
    simp [Move.task?, pending]
  have root := settled.root (fun ed binds => ⟨history, .run first, [], rfl, binds⟩)
    (fun M passes => ⟨history, .run first, [], rfl, passes⟩) runs
  have inner := root.isInner lawful
  have turns : W.turns = s.bounds.turns :=
    (congrArg Bounds.turns (bounds_after (start bounds now) history)).symm
  rw [turns] at inner
  have formed : Stmt.FormedAll (fun _ _ => True) (s.editionOf first).statements := by
    rw [statements_eq]
    exact (formed_mapStmts _ _).mpr (reads_program _ _ _ fun _ _ => trivial).1
  have top : innermost s.machine.environment = 0 := by rw [settled.environment]; rfl
  have adds : Adds (Stmt.introducesAll (s.editionOf first).statements) s.machine
      (runProgram s.bounds (s.editionOf first).statements) :=
    adds_catchOverflow (adds_runStatements formed inner top)
  have introduced : Stmt.introducesAll (s.editionOf first).statements =
      Stmt.introducesAll (s.editionOf first).program := by
    simp only [Stmt.introducesAll, Edition.statements, List.flatMap_map, Stmt.withDistances,
      introduces_map]
  rw [((adds settled.good.globals).ok ran).2 x, introduced]

end First

/-! ## The second text -/

/-- Two texts as one, the second on the lines below the first. -/
def joined (first second : String) : String := first ++ "\n" ++ second

/-- The second text by itself, on the lines that it has below the first. -/
def lowered (first second : String) : String := emptyLines (lineCount first) ++ second

/-- A text that runs to its end without a report, and one that is read behind it. -/
structure Sequel (s : Session) (first second : String) : Prop where
  clear : s.hadError = false
  closed : ¬ EndsInComment first
  raised : (run first s).1 = none
  silent : (run first s).2.diagnostics = s.diagnostics
  readable : (run first s).2.syntaxFaults second = []

/-- An accepted text is readable. -/
theorem syntaxFaults_eq_nil {s : Session} {source : String}
    (accepted : s.staticFaults source = []) :
    s.syntaxFaults source = [] := by
  by_contra faults
  rw [staticFaults_of_faults faults] at accepted
  exact faults accepted

section Second

variable {s : Session} {first second : String}

theorem program_editionOf (s : Session) (source : String) : (s.editionOf source).program =
    (Program.ofTokens (Scan.ofString source).tokens
      (Scan.ofString source).endLine s.nextSite).result :=
  rfl

/-- A text on lower lines is read as the same program on lower lines. -/
theorem read_lowered (readable : s.syntaxFaults second = []) (first : String) :
    s.syntaxFaults (lowered first second) = [] ∧
      (s.editionOf (lowered first second)).program =
        Stmt.relabelAll (· + lineCount first) (· + 0) (s.editionOf second).program := by
  obtain ⟨scanned, read⟩ := List.append_eq_nil_iff.mp readable
  obtain ⟨tokens, diagnostics⟩ :
      (Scan.ofString (lowered first second)).tokens = _ ∧
        (Scan.ofString (lowered first second)).diagnostics = _ :=
    Scan.ofString_emptyLines (lineCount first) second
  have later := ofTokens_later (· + lineCount first) 0 (Scan.ofString second).tokens
    (Scan.ofString second).endLine s.nextSite
  rw [Nat.add_zero s.nextSite] at later
  have read' :
      (Program.ofTokens ((Scan.ofString second).tokens.map (Token.reline (· + lineCount first)))
      ((Scan.ofString second).endLine + lineCount first) s.nextSite).diagnostics = [] := by
    rw [later]
    exact List.map_eq_nil_iff.mpr read
  obtain ⟨silent, result, -⟩ :=
    ofTokens_endLine read' (Scan.ofString (lowered first second)).endLine
  rw [← tokens] at silent
  rw [later, Reading.later, ← tokens] at result
  constructor
  · refine List.append_eq_nil_iff.mpr ⟨?_, silent⟩
    exact diagnostics.trans (by rw [scanned]; rfl)
  · rw [program_editionOf, program_editionOf]
    exact result

namespace Sequel

variable (sequel : s.Sequel first second)

include sequel

/-- The first text is accepted, for otherwise it would be reported. -/
theorem accepted : s.staticFaults first = [] :=
  (completed sequel.clear sequel.raised sequel.silent).1

/-- It leaves the sites behind those that its tree has taken. -/
theorem nextSite : (run first s).2.nextSite =
    (s.reading (Scan.ofString first).tokens (Scan.ofString first).endLine).nextSite :=
  (run_accepted sequel.clear sequel.accepted).2.nextSite

/-- And the distances that it was bound to. -/
theorem distances : (run first s).2.distances = (s.editionOf first).table :=
  (run_accepted sequel.clear sequel.accepted).2.distances

theorem bounds : (run first s).2.bounds = s.bounds :=
  (run_accepted sequel.clear sequel.accepted).2.bounds

/-- And no error. -/
theorem stillClear : (run first s).2.hadError = false :=
  (run_accepted sequel.clear sequel.accepted).2.hadError.trans sequel.clear

/-- And it has run to its end. -/
theorem ran : (runProgram s.bounds (s.editionOf first).statements s.machine :
    Except Failure Unit × Machine) = (.ok (), (run first s).2.machine) :=
  Prod.ext (completed sequel.clear sequel.raised sequel.silent).2
    (run_accepted sequel.clear sequel.accepted).2.machine.symm

/-- The joined text is read as the first program and, below it, the second one. -/
theorem read_joined : s.syntaxFaults (joined first second) = [] ∧
    (s.editionOf (joined first second)).program = (s.editionOf first).program ++
      Stmt.relabelAll (· + lineCount first) (· + 0) ((run first s).2.editionOf second).program := by
  obtain ⟨scanned, read⟩ := List.append_eq_nil_iff.mp (syntaxFaults_eq_nil sequel.accepted)
  obtain ⟨scanned', read'⟩ := List.append_eq_nil_iff.mp sequel.readable
  obtain ⟨tokens, diagnostics⟩ :
      (Scan.ofString (joined first second)).tokens = _ ∧
        (Scan.ofString (joined first second)).diagnostics = _ :=
    Scan.ofString_joined (Scan.closed_of_accepted scanned sequel.closed) second
  have later := ofTokens_later (· + lineCount first) 0 (Scan.ofString second).tokens
    (Scan.ofString second).endLine (run first s).2.nextSite
  rw [Nat.add_zero (run first s).2.nextSite] at later
  have site : (Program.ofTokens (Scan.ofString first).tokens (Scan.ofString first).endLine
    s.nextSite).nextSite = (run first s).2.nextSite := sequel.nextSite.symm
  have read'' :
      (Program.ofTokens ((Scan.ofString second).tokens.map (Token.reline (· + lineCount first)))
      ((Scan.ofString second).endLine + lineCount first)
      (Program.ofTokens (Scan.ofString first).tokens (Scan.ofString first).endLine
        s.nextSite).nextSite).diagnostics = [] := by
    rw [site, later]
    exact List.map_eq_nil_iff.mpr read'
  obtain ⟨silent, result, -⟩ :=
    ofTokens_append read read'' (Scan.ofString (joined first second)).endLine
  rw [← tokens] at silent
  rw [site, later, Reading.later, ← tokens] at result
  constructor
  · refine List.append_eq_nil_iff.mpr ⟨?_, silent⟩
    exact diagnostics.trans (by rw [scanned, scanned']; rfl)
  · rw [program_editionOf, program_editionOf, program_editionOf]
    exact result

end Sequel

/-! ## Binding -/

/-- On lower lines, a text is bound as it is elsewhere. -/
theorem beside_lowered (readable : s.syntaxFaults second = []) (first : String) :
    (s.editionOf second).walked.Beside (· + lineCount first) 0 0 s.machine.isGlobal
      s.machine.isGlobal (s.editionOf (lowered first second)).walked := by
  have walked : (s.editionOf (lowered first second)).walked = bindProgram s.machine.isGlobal
      s.distances (Stmt.relabelAll (· + lineCount first) (· + 0) (s.editionOf second).program) := by
    rw [← (read_lowered readable first).2]
    rfl
  rw [walked]
  exact bindProgram_later (fun _ => rfl) (fun _ _ => rfl) _

/-- A program that is bound on lower lines runs with its tokens on lower lines. -/
theorem relineAll_statements (ed : Edition) (f : Nat → Nat) :
    Stmt.relineAll f ed.statements = Stmt.relabelAll f ed.table.get? ed.program := by
  rw [Stmt.relineAll, statements_eq, ← relabel_idStmts, relabel_relabelStmts]
  rfl

/-- Further down, a readable text is the same program on later lines. -/
theorem statements_lowered (readable : s.syntaxFaults second = []) (first : String) :
    (s.editionOf (lowered first second)).statements =
      Stmt.relineAll (· + lineCount first) (s.editionOf second).statements := by
  rw [Edition.statements, (read_lowered readable first).2, relineAll_statements]
  exact (beside_lowered readable first).withDistances fun _ _ => Nat.zero_le _

namespace Sequel

variable (sequel : s.Sequel first second)

include sequel

section Known

variable (known : ∀ x, (run first s).2.machine.isGlobal x = true ↔
  s.machine.isGlobal x = true ∨ x ∈ Stmt.introducesAll (s.editionOf first).program)

include known

/-- Below the first text, the second is bound as it is by itself when the first has run. -/
theorem beside :
    ((run first s).2.editionOf second).walked.Beside (· + lineCount first) 0 0
      (run first s).2.machine.isGlobal s.machine.isGlobal
      (s.editionOf (joined first second)).walked := by
  let p := (s.editionOf first).program
  let q := ((run first s).2.editionOf second).program
  have whole : (s.editionOf (joined first second)).walked = bindProgram s.machine.isGlobal
      s.distances (p ++ Stmt.relabelAll (· + lineCount first) (· + 0) q) := by
    rw [← sequel.read_joined.2]
    rfl
  have behind : ((run first s).2.editionOf second).walked =
      bindProgram (run first s).2.machine.isGlobal
        (bindProgram s.machine.isGlobal s.distances p).distances q := by
    rw [Edition.walked, show ((run first s).2.editionOf second).before = (run first s).2.distances
      from rfl, sequel.distances]
    rfl
  have accepted : (bindProgram s.machine.isGlobal s.distances p).complaints = [] := by
    have faults := sequel.accepted
    rw [staticFaults_of_clean (syntaxFaults_eq_nil faults)] at faults
    exact List.map_eq_nil_iff.mp faults
  rw [whole, behind]
  exact bindProgram_append accepted known _ 0 q

omit known in
/-- What is bound below the first text leaves its distances as they are. -/
theorem get?_joined {site : Site}
    (mem : site ∈ sitesOf (Stmt.referencesAll (s.editionOf first).program)) :
    (s.editionOf (joined first second)).table.get? site = (s.editionOf first).table.get? site := by
  let q := Stmt.relabelAll (· + lineCount first) (· + 0) ((run first s).2.editionOf second).program
  have whole : (s.editionOf (joined first second)).walked =
      (s.editionOf first).walked.after (bindStmts (.top s.machine.isGlobal) q) := by
    rw [Edition.walked, sequel.read_joined.2]
    exact after_bindStmts_append _ _ _ _
  have below : site < (run first s).2.nextSite := by
    rw [sequel.nextSite]
    exact ((s.fresh_edition _ _).2.bounds site mem).2
  have apart : site ∉ sitesOf (Stmt.referencesAll q) := by
    intro mem'
    rw [show q = ((run first s).2.editionOf (lowered first second)).program from
      (read_lowered sequel.readable first).2.symm] at mem'
    exact absurd ((fresh_edition _ _ _).2.bounds site mem').1 (Nat.not_le_of_lt below)
  rw [Edition.table, whole]
  exact (step_bindStmts _ q _).distances site apart

/-- The joined text runs the first program, and then the second one on lower lines. -/
theorem statements : (s.editionOf (joined first second)).statements =
    (s.editionOf first).statements ++
      ((run first s).2.editionOf (lowered first second)).statements := by
  let q := Stmt.relabelAll (· + lineCount first) (· + 0) ((run first s).2.editionOf second).program
  have upper : (s.editionOf first).program.map
      (Stmt.withDistances (s.editionOf (joined first second)).table) =
        (s.editionOf first).statements := by
    have agree : AgreeOn (s.editionOf (joined first second)).table.get?
        (s.editionOf first).table.get? (Stmt.referencesAll (s.editionOf first).program) := by
      intro o mem
      exact sequel.get?_joined (List.mem_map.mpr ⟨o, mem, rfl⟩)
    rw [statements_eq, ← mapStmts_congr agree]
    exact (Stmt.mapAll_eq _ _).symm
  have lower : q.map (Stmt.withDistances (s.editionOf (joined first second)).table) =
      ((run first s).2.editionOf (lowered first second)).statements := by
    rw [statements_lowered sequel.readable, relineAll_statements]
    exact (sequel.beside known).withDistances fun _ _ => Nat.zero_le _
  rw [Edition.statements, sequel.read_joined.2, List.map_append, upper, lower]

end Known

end Sequel

end Second

/-! ## Running -/

/-- A readable text has no static faults if and only if its program is accepted. -/
theorem staticFaults_eq_nil {s : Session} {source : String}
    (readable : s.syntaxFaults source = []) :
    s.staticFaults source = [] ↔ (s.editionOf source).Accepted := by
  rw [staticFaults_of_clean readable]
  exact List.map_eq_nil_iff

/-- A complaint that is the same, or the one so much further down. -/
def IsBelow (down : Nat) (d d' : Diagnostic) : Prop := d' = d ∨ d' = d.reline (· + down)

/-- A failure that differs in its line at most is complained about so. -/
theorem isBelow_complaint {α : Type} {down : Nat} {r r' : Except Failure α}
    (ends : EndsAlike (Failure.IsBelow down) Eq r r') :
    List.Forall₂ (IsBelow down) (complaintOf? r).toList (complaintOf? r').toList := by
  cases ends with
  | ok _ => exact .nil
  | @error e e' below =>
    rcases below with rfl | rfl
    · exact List.forall₂_same.mpr fun d _ => .inl rfl
    · cases e with
      | runtime token fault =>
        cases token with
        | none => exact .cons (.inl rfl) .nil
        | some t => exact .cons (.inr rfl) .nil
      | internal token fault =>
        cases token with
        | none => exact .cons (.inl rfl) .nil
        | some t => exact .cons (.inr rfl) .nil
      | overflow => exact .cons (.inl rfl) .nil
      | unfinished => exact .nil

/-- There is a complaint about one end if there is one about the other. -/
theorem isSome_complaint {α : Type} {down : Nat} {r r' : Except Failure α}
    (ends : EndsAlike (Failure.IsBelow down) Eq r r') :
    (complaintOf? r').isSome = (complaintOf? r).isSome := by
  have pairs := (isBelow_complaint ends).length_eq
  revert pairs
  cases complaintOf? r <;> cases complaintOf? r' <;> simp

/-- What is handed on is the same failure, or that failure further down. -/
theorem isBelow_handedOn {α : Type} {down : Nat} {r r' : Except Failure α}
    (ends : EndsAlike (Failure.IsBelow down) Eq r r') :
    Option.Rel (Failure.IsBelow down) (handedOn r) (handedOn r') := by
  cases ends with
  | ok _ => exact .none
  | @error e e' below =>
    rcases below with rfl | rfl
    · cases e' with
      | runtime token fault => exact .none
      | internal token fault => exact .some (.inl rfl)
      | overflow => exact .some (.inl rfl)
      | unfinished => exact .some (.inl rfl)
    · cases e with
      | runtime token fault => exact .none
      | internal token fault => exact .some (.inr rfl)
      | overflow => exact .some (.inr rfl)
      | unfinished => exact .some (.inr rfl)

/-- How running the joined text compares with running the texts in turn. -/
structure Joins (s : Session) (first second : String) : Prop where
  readable : s.syntaxFaults (joined first second) = []
  /-- The second text is accepted behind the first if and only if the joined text is. -/
  accepted : ((run first s).2.editionOf second).Accepted ↔
    (s.editionOf (joined first second)).Accepted
  /-- Then both print the same, -/
  output : ((run first s).2.editionOf second).Accepted →
    (run (joined first second) s).2.machine.output = (run second (run first s).2).2.machine.output
  /-- and the joined text does all that the second one does from its own lines. -/
  lowered : ((run first s).2.editionOf second).Accepted →
    (run (joined first second) s).1 = (run (lowered first second) (run first s).2).1 ∧
    (run (joined first second) s).2.machine =
      (run (lowered first second) (run first s).2).2.machine ∧
    (run (joined first second) s).2.diagnostics =
      (run (lowered first second) (run first s).2).2.diagnostics
  /-- Otherwise the joined text does nothing, and all that is complained about is further down. -/
  rejected : ¬ ((run first s).2.editionOf second).Accepted →
    (run (joined first second) s).2.machine = s.machine ∧
    (run second (run first s).2).2.machine = (run first s).2.machine ∧
    ∃ ds, (run second (run first s).2).2.diagnostics = s.diagnostics ++ ds ∧
      (run (joined first second) s).2.diagnostics =
        s.diagnostics ++ ds.map (Diagnostic.reline (· + lineCount first))
  /-- In any case the complaints are those that the texts get in turn, or are so much further
  down. -/
  diagnostics : ∃ ds ds', (run second (run first s).2).2.diagnostics = s.diagnostics ++ ds ∧
    (run (joined first second) s).2.diagnostics = s.diagnostics ++ ds' ∧
    List.Forall₂ (IsBelow (lineCount first)) ds ds'
  raised : Option.Rel (Failure.IsBelow (lineCount first)) (run second (run first s).2).1
    (run (joined first second) s).1
  hadError : (run (joined first second) s).2.hadError = (run second (run first s).2).2.hadError
  hadRuntimeError : (run (joined first second) s).2.hadRuntimeError =
    (run second (run first s).2).2.hadRuntimeError

section Joins

variable {s : Session} {first second : String}

namespace Sequel

variable (sequel : s.Sequel first second)
  (known : ∀ x, (run first s).2.machine.isGlobal x = true ↔
    s.machine.isGlobal x = true ∨ x ∈ Stmt.introducesAll (s.editionOf first).program)

include sequel

/-- The first text has not failed. -/
theorem stillQuiet : (run first s).2.hadRuntimeError = s.hadRuntimeError := by
  rw [(run_accepted sequel.clear sequel.accepted).2.hadRuntimeError]
  rw [(completed sequel.clear sequel.raised sequel.silent).2]
  exact Bool.or_false _

include known

/-- The second text is accepted behind the first one as it is below it. -/
theorem accepted_iff : ((run first s).2.editionOf second).Accepted ↔
    (s.editionOf (joined first second)).Accepted := by
  unfold Edition.Accepted
  rw [(sequel.beside known).complaints, List.map_eq_nil_iff]

/-- The joined text ends as the second one does from its own lines. -/
theorem runs : (runProgram s.bounds (s.editionOf (joined first second)).statements s.machine :
      Except Failure Unit × Machine) =
    runProgram (run first s).2.bounds ((run first s).2.editionOf (lowered first second)).statements
      (run first s).2.machine := by
  rw [sequel.statements known, runProgram_append sequel.ran, sequel.bounds]

end Sequel

/-- A sequel that is accepted. -/
theorem Sequel.joins_of_accepted (sequel : s.Sequel first second)
    (known : ∀ x, (run first s).2.machine.isGlobal x = true ↔
      s.machine.isGlobal x = true ∨ x ∈ Stmt.introducesAll (s.editionOf first).program)
    (accepted : ((run first s).2.editionOf second).Accepted) : s.Joins first second := by
  let s₁ := (run first s).2
  have faults : s₁.staticFaults second = [] := (staticFaults_eq_nil sequel.readable).mpr accepted
  have faults' : s.staticFaults (joined first second) = [] :=
    (staticFaults_eq_nil sequel.read_joined.1).mpr ((sequel.accepted_iff known).mp accepted)
  have faults'' : s₁.staticFaults (lowered first second) = [] := by
    rw [staticFaults_eq_nil (read_lowered sequel.readable first).1, Edition.Accepted,
      (beside_lowered sequel.readable first).complaints, accepted]
    rfl
  obtain ⟨raised, ran⟩ := run_accepted sequel.stillClear faults
  obtain ⟨raised', ran'⟩ := run_accepted sequel.clear faults'
  obtain ⟨raised'', ran''⟩ := run_accepted sequel.stillClear faults''
  rw [sequel.runs known] at raised' ran'
  rw [statements_lowered sequel.readable] at raised' ran' raised'' ran''
  obtain ⟨output, ends⟩ := runProgram_below (lineCount first) s₁.bounds
    (s₁.editionOf second).statements s₁.machine
  refine ⟨sequel.read_joined.1, sequel.accepted_iff known, fun _ => ?_, fun _ => ⟨?_, ?_, ?_⟩,
    fun rejected => absurd accepted rejected, ?_, ?_, ?_, ?_⟩
  · rw [ran'.machine, ran.machine]
    exact output
  · exact raised'.trans raised''.symm
  · exact ran'.machine.trans ran''.machine.symm
  · rw [ran'.diagnostics, ran''.diagnostics, diagnostics_walked, diagnostics_walked, sequel.silent]
  · refine ⟨_, _, ?_, ran'.diagnostics, isBelow_complaint ends⟩
    rw [ran.diagnostics, diagnostics_walked, sequel.silent]
  · rw [raised, raised']
    exact isBelow_handedOn ends
  · rw [ran.hadError, ran'.hadError, hadError_walked, hadError_walked, sequel.clear,
      sequel.stillClear]
  · rw [ran.hadRuntimeError, ran'.hadRuntimeError, hadRuntimeError_walked, hadRuntimeError_walked,
      sequel.stillQuiet, isSome_complaint ends]

/-- A sequel that is rejected. -/
theorem Sequel.joins_of_rejected (sequel : s.Sequel first second)
    (known : ∀ x, (run first s).2.machine.isGlobal x = true ↔
      s.machine.isGlobal x = true ∨ x ∈ Stmt.introducesAll (s.editionOf first).program)
    (rejected : ¬ ((run first s).2.editionOf second).Accepted) : s.Joins first second := by
  let s₁ := (run first s).2
  have faults : s₁.staticFaults second ≠ [] := fun none =>
    rejected ((staticFaults_eq_nil sequel.readable).mp none)
  have faults' : s.staticFaults (joined first second) ≠ [] := fun none =>
    rejected ((sequel.accepted_iff known).mpr ((staticFaults_eq_nil sequel.read_joined.1).mp none))
  have shifted : s.staticFaults (joined first second) =
      (s₁.staticFaults second).map (Diagnostic.reline (· + lineCount first)) := by
    rw [staticFaults_of_clean sequel.read_joined.1, staticFaults_of_clean sequel.readable]
    exact (sequel.beside known).diagnostics
  obtain ⟨raised, machine, hadError, quiet, reported⟩ := run_rejected sequel.stillClear faults
  obtain ⟨raised', machine', hadError', quiet', reported'⟩ := run_rejected sequel.clear faults'
  rw [sequel.silent] at reported
  rw [shifted] at reported'
  refine ⟨sequel.read_joined.1, sequel.accepted_iff known, fun accepted => absurd accepted rejected,
    fun accepted => absurd accepted rejected, fun _ => ⟨machine', machine, _, reported, reported'⟩,
    ⟨_, _, reported, reported', ?_⟩, ?_, ?_, ?_⟩
  · rw [List.forall₂_map_right_iff]
    exact List.forall₂_same.mpr fun d _ => .inr rfl
  · rw [raised, raised']
    exact .none
  · rw [hadError, hadError']
  · rw [quiet, quiet', sequel.stillQuiet]

end Joins

/-- In every session, a text that runs to its end without a report, and another one behind it, do
what they do as one text; only the lines of the second one are others there, and if it is rejected,
so is the whole text. -/
theorem session_agrees_with_script (bounds : Bounds) (now : Clock) (history : List Move)
    (first second : String) (sequel : ((start bounds now).after history).Sequel first second) :
    ((start bounds now).after history).Joins first second := by
  have known :=
    isGlobal_completed bounds now history first sequel.clear sequel.accepted _ sequel.ran
  by_cases accepted : ((run first ((start bounds now).after history)).2.editionOf second).Accepted
  · exact sequel.joins_of_accepted known accepted
  · exact sequel.joins_of_rejected known accepted

/-- The session in which the texts below are run. -/
def fresh : Session := (start ⟨9, 0⟩ 0).after []

/-- A text that prints, and declares a variable without a value. -/
def declares : String := "print nil; var a;"

/-- The variable is read behind it. -/
def reads : String := "print true; a;"

theorem segments_declares : ∀ s ∈ segments declares.toList, ¬ s.IsOpenComment := by
  have cut : segments declares.toList = [.token .printWord ['p', 'r', 'i', 'n', 't'], .blank ' ',
      .token .nilWord ['n', 'i', 'l'], .token .semicolon [';'], .blank ' ',
      .token .varWord ['v', 'a', 'r'], .blank ' ', .token .identifier ['a'],
      .token .semicolon [';']] := by
    cbv
  rw [cut]
  simp [Segment.IsOpenComment]

theorem run_declares : (run declares fresh).1 = none ∧ (run declares fresh).2.diagnostics = [] := by
  cbv

theorem syntaxFaults_reads : (run declares fresh).2.syntaxFaults reads = [] := by
  cbv

theorem staticFaults_reads : (run declares fresh).2.staticFaults reads = [] := by
  cbv

/-- Both ways print the same, and blame the read, which stands one line further down in one text. -/
theorem session_agrees_with_script_declares :
    fresh.Sequel declares reads ∧
      ((run declares fresh).2.editionOf reads).Accepted ∧
      (run (joined declares reads) fresh).2.machine.output =
        (run reads (run declares fresh).2).2.machine.output ∧
      fresh.Joins declares reads := by
  have sequel : fresh.Sequel declares reads := by
    refine ⟨rfl, ?_, run_declares.1, run_declares.2, syntaxFaults_reads⟩
    rintro ⟨s, mem, isOpen⟩
    exact segments_declares s mem isOpen
  have accepted : ((run declares fresh).2.editionOf reads).Accepted :=
    (staticFaults_eq_nil syntaxFaults_reads).mp staticFaults_reads
  have joins : fresh.Joins declares reads :=
    session_agrees_with_script ⟨9, 0⟩ 0 [] declares reads sequel
  exact ⟨sequel, accepted, joins.output accepted, joins⟩

end Session

end LoxLang
