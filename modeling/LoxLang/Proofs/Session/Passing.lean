/-
LoxLang.Proofs.Session.Passing: the moments that a history passes.

Every move that runs something starts at top level, on the machine that the moves before it left.
What it leaves is the environment of the globals and good values, so that the next one can start.

* `Session.Passes`, `Session.Binds`: the moments and the editions of a history.
* `Session.world`: both together, for the statements about runs.
* `Task.root`: the moment that a run begins with.

Main statements: `lawful_world`, `settled_after` and `sound_of_passes`: every moment of a history is
sound.
-/
import Mathlib.Data.List.Induction
import LoxLang.Proofs.Machine.Reached
import LoxLang.Proofs.Session.History

namespace LoxLang

variable {s : Session} {history : List Move} {T : Kind → Token → Prop}

/-! ## Programs that are run -/

namespace Move

/-- The program that a move runs, as it was bound. -/
def edition? (s : Session) : Move → Option Edition
  | run source => if (Session.check source s).2.hadError then none else some (s.editionOf source)
  | runLine source =>
    if (Session.check source s).2.hadError then none else some (s.editionOf source)
  | force tokens endLine => some (s.edition tokens endLine)
  | _ => none

/-- The tokens of a text that a move runs are as told. -/
def Words (T : Kind → Token → Prop) : Move → Prop
  | run source => ∀ t ∈ (Scan.ofString source).tokens, T t.kind t
  | runLine source => ∀ t ∈ (Scan.ofString source).tokens, T t.kind t
  | force tokens _ => ∀ t ∈ tokens, T t.kind t
  | _ => True

theorem words_true (move : Move) : move.Words fun _ _ => True := by
  cases move with
  | run _ => exact fun _ _ => trivial
  | runLine _ => exact fun _ _ => trivial
  | force _ _ => exact fun _ _ => trivial
  | _ => trivial

/-- What is run is the edition, or its lone expression. -/
theorem edition_of_task {move : Move} {task : Task} (runs : move.task? s = some task) :
    ∃ ed, move.edition? s = some ed ∧ (task = .program ed.statements ∨
      ∃ e, ed.statements = [.expression e] ∧ task = .expression e) := by
  cases move with
  | run source =>
    rw [task?] at runs
    split at runs
    · cases runs
    · cases runs
      exact ⟨_, if_neg ‹_›, .inl rfl⟩
  | runLine source =>
    rw [task?] at runs
    split at runs
    · cases runs
    · cases runs
      refine ⟨_, if_neg ‹_›, ?_⟩
      unfold Task.ofLine
      split
      · rename_i e only
        exact .inr ⟨e, only, rfl⟩
      · exact .inl rfl
  | force tokens endLine =>
    cases runs
    exact ⟨_, rfl, .inl rfl⟩
  | _ => cases runs

/-- What is known of an edition that a move runs. -/
theorem edition_spec {move : Move} {ed : Edition} (binds : move.edition? s = some ed)
    (numbered : s.Numbered) (words : move.Words T) :
    ed.Distinct ∧ ed.Fresh ∧ Stmt.FormedAll T ed.program ∧
      (move.IsRegular → ed.Accepted) := by
  have spec : ∀ tokens endLine, (∀ t ∈ tokens, T t.kind t) →
      (s.edition tokens endLine).Distinct ∧ (s.edition tokens endLine).Fresh ∧
        Stmt.FormedAll T (s.edition tokens endLine).program := fun tokens endLine words =>
    ⟨s.distinct_edition tokens endLine, numbered.fresh tokens endLine,
      (reads_program tokens endLine s.nextSite words).1⟩
  have accepted : ∀ source, ¬ (Session.check source s).2.hadError = true →
      (s.editionOf source).Accepted := by
    intro source clean
    cases s.check_outcome source with
    | unbound _ _ _ _ pending => exact absurd pending clean
    | bound _ _ _ _ accepted => exact accepted (by simpa using clean)
  cases move with
  | run source =>
    rw [edition?] at binds
    split at binds
    · cases binds
    · cases binds
      obtain ⟨distinct, fresh, formed⟩ := spec _ (Scan.ofString source).endLine words
      exact ⟨distinct, fresh, formed, fun _ => accepted source ‹_›⟩
  | runLine source =>
    rw [edition?] at binds
    split at binds
    · cases binds
    · cases binds
      obtain ⟨distinct, fresh, formed⟩ := spec _ (Scan.ofString source).endLine words
      exact ⟨distinct, fresh, formed, fun _ => accepted source ‹_›⟩
  | force tokens endLine =>
    cases binds
    obtain ⟨distinct, fresh, formed⟩ := spec tokens endLine words
    exact ⟨distinct, fresh, formed, fun regular => regular.elim⟩
  | _ => cases binds

end Move

/-! ## Moments and editions of a history -/

/-- The moment that a run begins with. -/
def Task.root (nesting : Nat) (m : Machine) : Task → Moment
  | program ss => ⟨.runTop nesting ss, m⟩
  | expression e => ⟨.eval nesting e, m⟩

namespace Session

/-- A moment in the course of what a move runs. -/
def Runs (s : Session) (move : Move) (M : Moment) : Prop :=
  ∃ task, move.task? s = some task ∧
    Reaches s.bounds.turns (task.root s.bounds.nesting s.machine) M

/-- A moment in the course of a history. -/
def Passes (s : Session) (history : List Move) (M : Moment) : Prop :=
  ∃ before move behind, history = before ++ move :: behind ∧ (s.after before).Runs move M

/-- A program that is run in a history. -/
def Binds (s : Session) (history : List Move) (ed : Edition) : Prop :=
  ∃ before move behind, history = before ++ move :: behind ∧
    move.edition? (s.after before) = some ed

/-- What happens in the course of a history. -/
def world (s : Session) (history : List Move) (T : Kind → Token → Prop) : World where
  turns := s.bounds.turns
  passes := s.Passes history
  editions := s.Binds history
  worded := T

/-- A session between two moves: it stands at top level, and all its values are sound. -/
structure Settled (W : World) (s : Session) : Prop where
  good : s.machine.Good W
  environment : s.machine.environment = Store.globalEnvironment

theorem lawful_world (numbered : s.Numbered) (words : ∀ move ∈ history, move.Words T) :
    (s.world history T).Lawful := by
  have spec : ∀ {ed}, s.Binds history ed →
      ed.Distinct ∧ ed.Fresh ∧ Stmt.FormedAll T ed.program := by
    rintro ed ⟨before, move, behind, rfl, binds⟩
    have numbered' := (s.onward_after before).numbered numbered
    obtain ⟨distinct, fresh, formed, _⟩ :=
      Move.edition_spec binds numbered' (words move (by simp))
    exact ⟨distinct, fresh, formed⟩
  refine ⟨?_, fun binds => (spec binds).1, fun binds => (spec binds).2.1,
    fun binds => (spec binds).2.2⟩
  rintro M M' ⟨before, move, behind, split, task, runs, reaches⟩ starts
  rw [s.bounds_after before] at reaches
  refine ⟨before, move, behind, split, task, runs, ?_⟩
  rw [s.bounds_after before]
  exact reaches.tail starts

end Session

/-! ## One run -/

section Run

variable {W : World} {ed : Edition} {task : Task} {m : Machine}

theorem statements_eq (ed : Edition) : ed.statements = Stmt.mapAll ed.table.get? ed.program := by
  rw [Stmt.mapAll_eq]
  rfl

/-- A run begins at the program, at top level. -/
theorem Edition.stands_root (editions : W.editions ed) (good : m.Good W)
    (environment : m.environment = Store.globalEnvironment) : Stands W m ed ed.root where
  edition := editions
  visits := .refl
  owned inside := absurd rfl inside
  frames := by
    refine ⟨?_, fun k mem => ?_, fun d k x _ expects => ?_, fun _ d level k found => ?_⟩
    · rw [environment]
      exact .globals
    · rw [environment] at mem
      cases List.mem_singleton.mp mem
      exact good.globals
    · obtain ⟨scope, at_d, _⟩ := expects.1
      cases at_d
    · cases found

theorem sound_root {nesting : Nat} (editions : W.editions ed) (good : m.Good W)
    (environment : m.environment = Store.globalEnvironment)
    (passed : W.passes (task.root nesting m))
    (runs : task = .program ed.statements ∨
      ∃ e, ed.statements = [.expression e] ∧ task = .expression e) :
    (task.root nesting m).Sound W := by
  have stands := Edition.stands_root editions good environment
  rcases runs with rfl | ⟨e, only, rfl⟩
  · exact ⟨passed, good, ed, ed.root, stands, statements_eq ed⟩
  · rw [statements_eq] at only
    unfold Edition.root at stands
    cases program : ed.program with
    | nil =>
      rw [program] at only
      cases only
    | cons s₀ rest =>
      rw [program] at only stands
      cases s₀ with
      | expression e₀ =>
        cases rest <;> cases only
        exact ⟨passed, good, ed, _, stands.first.value rfl, rfl⟩
      | var _ value => cases value <;> cases only
      | ret _ value => cases value <;> cases only
      | ifElse _ _ e => cases e <;> cases only
      | _ => cases only

/-- What a run keeps that begins with a sound moment. -/
theorem keeps_task {bounds : Bounds} (lawful : W.Lawful) (turns : bounds.turns = W.turns)
    (sound : (task.root bounds.nesting m).Sound W) :
    Ends (task.run bounds) m (fun _ m' => Kept W m m') (Fine W (task.root bounds.nesting m)) := by
  obtain ⟨evals, execs⟩ := keeps lawful bounds.nesting
  cases task with
  | program ss =>
    rw [Task.run, runProgram, turns]
    exact ends_catchOverflow (keeps_runTop lawful execs sound)
  | expression e =>
    rw [Task.run, runExpression, turns]
    exact (ends_catchOverflow (evals sound)).bind (fun _ _ _ post => post.1) fun _ _ fine => fine

end Run

/-! ## The whole history -/

namespace Session

variable {W : World}

theorem Settled.alike {s' : Session} (settled : s.Settled W) (alike : s.machine.Alike s'.machine) :
    s'.Settled W where
  good := (Kept.of_same settled.good alike.store alike.fields alike.environment).good
  environment := alike.environment.trans settled.environment

/-- The run of a move begins with a sound moment. -/
theorem Settled.root {move : Move} {task : Task} (settled : s.Settled W)
    (editions : ∀ ed, move.edition? s = some ed → W.editions ed)
    (passes : ∀ M, s.Runs move M → W.passes M) (runs : move.task? s = some task) :
    (task.root s.bounds.nesting s.machine).Sound W := by
  obtain ⟨ed, binds, what⟩ := Move.edition_of_task runs
  exact sound_root (editions ed binds) settled.good settled.environment
    (passes _ ⟨task, runs, .refl⟩) what

/-- A move leaves a settled session settled. -/
theorem Settled.play {move : Move} (lawful : W.Lawful) (settled : s.Settled W)
    (turns : s.bounds.turns = W.turns) (editions : ∀ ed, move.edition? s = some ed → W.editions ed)
    (passes : ∀ M, s.Runs move M → W.passes M) : (move.play s).2.Settled W := by
  have played := s.played move
  cases runs : move.task? s with
  | none => exact settled.alike (played.idle runs).2
  | some task =>
    have kept := keeps_task lawful turns (settled.root editions passes runs)
    have ran := (played.ran task runs).2
    have left : Kept W s.machine (task.run s.bounds s.machine).2 := by
      unfold Ends at kept
      split at kept
      · rename_i run
        rw [run]
        exact kept
      · rename_i run
        rw [run]
        cases task <;> exact kept.kept
    refine Settled.alike (s := { s with machine := _ }) ⟨left.good, ?_⟩ ran
    exact left.environment.trans settled.environment

/-- Behind every part of a history the session is settled. -/
theorem settled_after (lawful : (s.world history T).Lawful)
    (settled : s.Settled (s.world history T)) :
    ∀ before behind, history = before ++ behind → (s.after before).Settled (s.world history T) := by
  intro before
  induction before using List.reverseRecOn with
  | nil => exact fun _ _ => settled
  | append_singleton before move ih =>
    intro behind split
    have split' : history = before ++ move :: behind := by simpa using split
    rw [s.after_append, after_cons, after_nil]
    refine (ih (move :: behind) split').play lawful ?_ (fun ed binds => ?_) fun M runs => ?_
    · rw [s.bounds_after before]
      rfl
    · exact ⟨before, move, behind, split', binds⟩
    · exact ⟨before, move, behind, split', runs⟩

theorem settled_start (bounds : Bounds) (now : Clock) : (start bounds now).Settled W := by
  refine ⟨⟨fun k x v slot => ?_, fun id x v field => ?_, Nat.zero_lt_one⟩, rfl⟩
  · have put : ((Store.start : Store Value).put 0 clockName (.value .clock)).slot? k x =
        some (.value v) := slot
    rcases Store.of_slot?_put put with ⟨_, _, same⟩ | before
    · cases same
      trivial
    · have nothing : (Store.start : Store Value).slot? k x = none := by
        simp only [Store.slot?, Store.start, List.getElem?_toArray]
        cases k with
        | zero => rfl
        | succ k => rfl
      rw [nothing] at before
      cases before
  · cases field

/-- Every moment of a history is sound, and the environment it began with was that of the
globals. -/
theorem sound_of_passes {bounds : Bounds} {now : Clock} {M : Moment}
    (words : ∀ move ∈ history, move.Words T) (passes : (start bounds now).Passes history M) :
    M.Sound ((start bounds now).world history T) ∧
      ∃ root, root.Sound ((start bounds now).world history T) ∧
        root.machine.environment = Store.globalEnvironment ∧ Reaches bounds.turns root M := by
  have lawful : ((start bounds now).world history T).Lawful :=
    lawful_world (numbered_after bounds now []) words
  obtain ⟨before, move, behind, split, task, runs, reaches⟩ := passes
  have settled := settled_after lawful (settled_start bounds now) before (move :: behind) split
  have root := settled.root (fun ed binds => ⟨before, move, behind, split, binds⟩)
    (fun M runs => ⟨before, move, behind, split, runs⟩) runs
  rw [bounds_after] at reaches root
  refine ⟨root.reaches lawful reaches, _, root, ?_, reaches⟩
  cases task <;> exact settled.environment

end Session

end LoxLang
