/-
LoxLang.Proofs.Session.Internal: when a program that was accepted breaks a promise of the rules.

The static rules promise that every variable with a distance is in its frame, that every `super` has
a distance, and that properties are looked up on objects and classes only.  They keep all of this
but one thing: the scope of a local variable has its name from the start of the declaration, while
its frame gets the name behind the initial value.  A routine in the initial value that is called
there looks for the variable in a frame that does not have it yet.

Main statement: `internal_iff_misses`: this is the only way in which a run fails internally.
-/
import Mathlib
import LoxLang.Proofs.Session.Passing
import LoxLang.Proofs.Token.Words

namespace LoxLang

variable {history : List Move} {move : Move} {W : World}

/-! ## Words -/

/-- A regular move runs tokens of a text. -/
theorem Move.words_spelled (regular : move.IsRegular) : move.Words Spelled := by
  cases move with
  | run source => exact spelled_scan source
  | runLine source => exact spelled_scan source
  | force _ _ => exact regular.elim
  | _ => trivial

/-- In tokens of texts the words for the object and the superclass are no names. -/
theorem World.plain_of_spelled (spelled : W.worded = Spelled) : W.Plain := by
  refine ⟨fun t word => ?_, fun t word => ?_, fun t word => ?_⟩
  · rw [spelled] at word
    have kind := word (by decide)
    refine ⟨fun same => ?_, fun same => ?_⟩
    · rw [same] at kind
      exact absurd kind (by decide)
    · rw [same] at kind
      exact absurd kind (by decide)
  · rw [spelled] at word
    exact Kind.ofWord_eq_thisWord (word (by decide))
  · rw [spelled] at word
    exact Kind.ofWord_eq_superWord (word (by decide))

namespace Session

/-- In a history of regular moves all programs that were run had been accepted. -/
theorem clean_world {s : Session} (numbered : s.Numbered)
    (regular : ∀ move ∈ history, move.IsRegular) : (s.world history Spelled).Clean where
  plain := World.plain_of_spelled rfl
  accepted := by
    rintro ed ⟨before, move, behind, rfl, binds⟩
    have regular' := regular move (by simp)
    exact (Move.edition_spec binds ((s.onward_after before).numbered numbered)
      (Move.words_spelled regular')).2.2.2 regular'

end Session

/-! ## Failures of a run -/

/-- A failure at the beginning of a run is one of the run, unless it is an overflow. -/
theorem Task.raises_root {task : Task} {bounds : Bounds} {m : Machine} {failure : Failure}
    (plain : failure ≠ .overflow)
    (fails : (task.root bounds.nesting m).Fails bounds.turns failure) :
    Raises (task.run bounds) m failure := by
  cases task with
  | program ss => exact Raises.catchOverflow fails plain
  | expression e => exact (Raises.catchOverflow fails plain).bind

/-- What a run hands on is its failure, unless programs can fail so. -/
theorem handedOn_eq_some {α : Type} {outcome : Except Failure α} {failure : Failure} :
    handedOn outcome = some failure ↔
      outcome = .error failure ∧ ∀ token fault, failure ≠ .runtime token fault := by
  cases outcome with
  | ok a => simp [handedOn]
  | error f =>
    cases f with
    | runtime token fault =>
      refine ⟨fun no => (by cases no), fun ⟨same, plain⟩ => ?_⟩
      cases same
      exact absurd rfl (plain token fault)
    | _ =>
      refine ⟨fun same => ?_, fun ⟨same, _⟩ => ?_⟩
      · cases same
        exact ⟨rfl, fun _ _ no => by cases no⟩
      · cases same
        rfl

/-- A run never overflows: the outermost call turns that into a failure of the program. -/
theorem not_overflow {α : Type} {token : Option Token} {act : Run α} (m : Machine) :
    Ends (catchOverflow token act) m (fun _ _ => True) (fun failure _ => failure ≠ .overflow) := by
  rw [catchOverflow, ends_tryCatch]
  refine .of_run (fun _ _ _ => trivial) fun failure m' _ => ?_
  cases failure with
  | overflow => exact fun no => by cases no
  | runtime _ _ => exact fun no => by cases no
  | internal _ _ => exact fun no => by cases no
  | unfinished => exact fun no => by cases no

theorem Task.not_overflow {task : Task} {bounds : Bounds} (m : Machine) :
    Ends (task.run bounds) m (fun _ _ => True) (fun failure _ => failure ≠ .overflow) := by
  cases task with
  | program ss => exact LoxLang.not_overflow m
  | expression e =>
    exact (LoxLang.not_overflow m).bind (fun _ _ _ _ => trivial) fun _ _ other => other

namespace Session

/-- A regular move after a regular history hands on an internal failure if and only if what it runs
comes to a read of a variable whose frame does not have it yet, inside the initial value of that
variable.  Any other failure that it hands on says that the run was given up unfinished; failures of
programs are not handed on, and without complaints or failures nothing is. -/
theorem internal_iff_misses (bounds : Bounds) (now : Clock) (history : List Move) (move : Move)
    (regular : ∀ m ∈ history ++ [move], m.IsRegular) :
    let s := (start bounds now).after history
    let W := (start bounds now).world (history ++ [move]) Spelled
    ((∃ failure, (move.play s).1 = some failure ∧ failure.IsInternal) ↔
        ∃ M, s.Runs move M ∧ Misses W M) ∧
      ∀ failure, (move.play s).1 = some failure → ¬ failure.IsInternal → failure = .unfinished := by
  intro s W
  have numbered : (start bounds now).Numbered := numbered_after bounds now []
  have words : ∀ m ∈ history ++ [move], m.Words Spelled := fun m mem =>
    Move.words_spelled (regular m mem)
  have lawful : W.Lawful := lawful_world numbered words
  have clean : W.Clean := clean_world numbered regular
  have settled : s.Settled W := settled_after lawful (settled_start bounds now) history [move] rfl
  have sameBounds : s.bounds = bounds := bounds_after (start bounds now) history
  have turns : s.bounds.turns = W.turns := congrArg Bounds.turns sameBounds
  have played := s.played move
  refine ⟨⟨?_, ?_⟩, ?_⟩
  · rintro ⟨failure, handed, isInternal⟩
    cases runs : move.task? s with
    | none =>
      rw [(played.idle runs).1] at handed
      cases handed
    | some task =>
      have root := settled.root (fun ed binds => ⟨history, move, [], rfl, binds⟩)
        (fun M passes => ⟨history, move, [], rfl, passes⟩) runs
      rw [(played.ran task runs).1, handedOn_eq_some] at handed
      have run : (task.run s.bounds s.machine : Except Failure Unit × Machine) =
        (.error failure, (task.run s.bounds s.machine).2) := Prod.ext handed.1 rfl
      have fine := (keeps_task lawful turns root).error run
      obtain ⟨M, reaches, misses⟩ := fine.internal clean isInternal
      rw [← turns] at reaches
      exact ⟨M, ⟨task, runs, reaches⟩, misses⟩
  · rintro ⟨M, ⟨task, runs, reaches⟩, misses⟩
    obtain ⟨failure, isInternal, fails⟩ := misses.fails
    obtain ⟨m', run⟩ := Task.raises_root isInternal.ne_overflow
      (Reaches.fails reaches isInternal.ne_overflow fails)
    refine ⟨failure, ?_, isInternal⟩
    rw [(played.ran task runs).1, handedOn_eq_some]
    refine ⟨congrArg Prod.fst run, fun token fault same => ?_⟩
    rw [same] at isInternal
    exact isInternal
  · intro failure handed plain
    cases runs : move.task? s with
    | none =>
      rw [(played.idle runs).1] at handed
      cases handed
    | some task =>
      rw [(played.ran task runs).1, handedOn_eq_some] at handed
      have run : (task.run s.bounds s.machine : Except Failure Unit × Machine) =
        (.error failure, (task.run s.bounds s.machine).2) := Prod.ext handed.1 rfl
      have other := (task.not_overflow s.machine).error run
      cases failure with
      | runtime token fault => exact absurd rfl (handed.2 token fault)
      | internal _ _ => exact absurd trivial plain
      | overflow => exact absurd rfl other
      | unfinished => rfl

/-- A variable whose initial value calls a routine that reads it. -/
def selfCalled : String := "\x7b var a = fun() \x7b return a; \x7d(); print a; \x7d"

theorem run_selfCalled :
    ((Move.run selfCalled).play (start ⟨9, 0⟩ 0)).1 =
      some (.internal (some ⟨.identifier, "a", .nil, 1⟩) (.missingFromScope "a")) := by
  cbv

/-- The program has no complaints, and its run comes to such a read. -/
theorem internal_iff_misses_selfCalled :
    (∀ m ∈ [] ++ [Move.run selfCalled], m.IsRegular) ∧
      (∃ failure, ((Move.run selfCalled).play (start ⟨9, 0⟩ 0)).1 = some failure ∧
        failure.IsInternal) ∧
      ∃ M, (start ⟨9, 0⟩ 0).Runs (.run selfCalled) M ∧
        Misses ((start ⟨9, 0⟩ 0).world [.run selfCalled] Spelled) M := by
  have regular : ∀ m ∈ [] ++ [Move.run selfCalled], m.IsRegular := by simp [Move.IsRegular]
  have fails : ∃ failure, ((Move.run selfCalled).play (start ⟨9, 0⟩ 0)).1 = some failure ∧
      failure.IsInternal := ⟨_, run_selfCalled, trivial⟩
  exact ⟨regular, fails,
    (internal_iff_misses ⟨9, 0⟩ 0 [] (.run selfCalled) regular).1.mp fails⟩

end Session

end LoxLang
