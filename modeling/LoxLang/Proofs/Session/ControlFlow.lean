/-
LoxLang.Proofs.Session.ControlFlow: where `break`, `continue` and `return` lead.

A `break` or `continue` belongs to the innermost loop around it in the body that it stands in, and a
`return` to the routine.  Statements hand these exits on by what they end with, from one call of the
evaluator to the next, and the calls of other closures are among them.  Even so an exit stops at the
construct that it belongs to in the text, and goes through no call of a closure.

* `Session.HasBody`: the code of an activation in the text.
* `Session.BoundTo`: the object of a bound method.

Main statement: `control_flow_lexical`.
-/
import LoxLang.Proofs.Machine.Exits
import LoxLang.Proofs.Machine.Owners
import LoxLang.Proofs.Session.Owners

namespace LoxLang

/-! ## The object of an initializer -/

/-- A call whose body returned ends with the value, or with the object to which the initializer was
bound. -/
theorem Moment.Sound.returned {W : World} {n : Nat} {f : Closure} {arguments : List Value}
    {m m₀ m' : Machine} {env : Environment} {v : Value} (lawful : W.Lawful) (plain : W.Plain)
    (sound : Moment.Sound W ⟨.call n f arguments, m⟩)
    (run : openCall f arguments m = (.ok env, m₀))
    (body : runAll (exec W.turns n) f.body (m₀.within env) = (.ok (.returned v), m'.within env)) :
    ∃ r, callClosure (exec W.turns n) f arguments m = (.ok r, m'.within m.environment) ∧
      (f.kind ≠ .initializer → r = v) ∧
      (f.kind = .initializer → ∃ method binder, W.passes ⟨.bind method r, binder⟩ ∧
        f.environment = binder.store.frames.size :: method.environment) := by
  have ends := callClosure_returned run body
  by_cases kind : f.kind = .initializer
  · obtain ⟨self, method, binder, bound, environment, object⟩ :=
      sound.boundSelf lawful plain kind run body m.environment
    rw [if_pos kind] at ends
    exact ⟨self, ends.trans object, fun other => absurd kind other,
      fun _ => ⟨method, binder, bound, environment⟩⟩
  · rw [if_neg kind] at ends
    exact ⟨v, ends, fun _ => rfl, fun is => absurd is kind⟩

/-- A run begins with code at top level, or with an expression. -/
theorem Task.root_activation {task : Task} {nesting : Nat} {m : Machine}
    (isPart : (task.root nesting m).activity.IsPart) :
    (task.root nesting m).activity.IsActivation := by
  cases task with
  | program ss => trivial
  | expression e => exact isPart.elim

namespace Session

variable {history : List Move} {bounds : Bounds} {now : Clock} {n : Nat} {m : Machine}

/-- The closure has the frame in front that was made to bind a method to the object. -/
def BoundTo (s : Session) (history : List Move) (f : Closure) (self : Value) : Prop :=
  ∃ method binder, s.Passes history ⟨.bind method self, binder⟩ ∧
    f.environment = binder.store.frames.size :: method.environment

/-- The code of the activation is a body of a program that was run: that of a routine of the
program, or what is left of the code at top level. -/
def HasBody (s : Session) (history : List Move) : Activity → Prop
  | .call _ f _ => ∃ ed around levels context body w, s.Binds history ed ∧
    ed.Visits (bodyVisit around levels context f.params body w) ∧
      f.body = Stmt.mapAll ed.table.get? body
  | .runTop _ ss => ∃ ed, s.Binds history ed ∧ ss <:+ ed.statements
  | _ => False

/-! ## Activations of a history -/

/-- Every part of a body that a history passes belongs to an activation that it passes. -/
theorem Passes.exists_located {s : Session} {M : Moment} (passes : s.Passes history M)
    (isPart : M.activity.IsPart) :
    ∃ A l, s.Passes history A ∧ Located s.bounds.turns A l M := by
  obtain ⟨before, move, behind, split, task, runs, reaches⟩ := passes
  obtain ⟨A, l, toA, located, _⟩ := LoxLang.exists_located reaches isPart Task.root_activation
  rw [s.bounds_after before] at located
  exact ⟨A, l, ⟨before, move, behind, split, task, runs, toA⟩, located⟩

/-- The code at top level that a history comes to is the end of a program that was run. -/
theorem Passes.exists_program {s : Session} {ss : List (Stmt Distance)}
    (passes : s.Passes history ⟨.runTop n ss, m⟩) :
    ∃ ed, s.Binds history ed ∧ ss <:+ ed.statements := by
  obtain ⟨before, move, behind, split, task, runs, reaches⟩ := passes
  obtain ⟨ed, binds, program⟩ := Move.edition_of_task runs
  refine ⟨ed, ⟨before, move, behind, split, binds⟩, ?_⟩
  obtain ⟨A, l, _, located, what⟩ :=
    LoxLang.exists_located reaches trivial Task.root_activation
  obtain ⟨_, _, whole, code, suffix, _⟩ := located.of_top
  rcases what with rfl | ⟨_, _, _, call⟩
  · rcases program with rfl | ⟨e, _, rfl⟩
    · cases code
      exact suffix
    · cases code
  · rw [call] at code
    cases code

/-- The activations that a history passes have their code from the text. -/
theorem Passes.hasBody {A M : Moment} {l : Option Moment}
    (passes : (start bounds now).Passes history A) (located : Located bounds.turns A l M) :
    (start bounds now).HasBody history A.activity := by
  have activation := located.isActivation
  obtain ⟨activity, m₀⟩ := A
  cases activity with
  | call k f arguments =>
    have sound := (sound_of_passes (fun move _ => move.words_true) passes).1
    obtain ⟨ready, _⟩ := sound.placed
    obtain @⟨ed, around, outer, context, body, w, edition, visits, code, _, _, _, _, _⟩ := ready
    exact ⟨ed, around, outer, context, body, w, edition, visits, code⟩
  | runTop k ss => exact passes.exists_program
  | _ => exact activation.elim

/-- No `return` stands in the code at top level of a history of accepted programs. -/
theorem not_liesIn_top (regular : ∀ move ∈ history, move.IsRegular) {ss : List (Stmt Distance)}
    (passes : (start bounds now).Passes history ⟨.runTop n ss, m⟩)
    {l : Option (Expr Distance × Stmt Distance)} {keyword : Token}
    {value : Option (Expr Distance)} : ¬ Stmt.LiesIn ss l (.ret keyword value) := by
  intro lies
  obtain ⟨ed, binds, suffix⟩ := passes.exists_program
  have clean := clean_world (numbered_after bounds now []) regular
  have whole := lies.mono suffix.subset
  rw [statements_eq] at whole
  exact (clean.accepted binds).not_liesIn whole

/-- A `return` that is executed in a history of accepted programs ends the call of the routine that
it stands in. -/
theorem returned_call (regular : ∀ move ∈ history, move.IsRegular) {keyword : Token}
    {value : Option (Expr Distance)} {v : Value} {m' : Machine}
    (run : exec bounds.turns n (.ret keyword value) m = (.ok (.returned v), m')) {A : Moment}
    {l : Option Moment} (passes : (start bounds now).Passes history A)
    (located : Located bounds.turns A l ⟨.exec n (.ret keyword value), m⟩) :
    ∃ k f arguments, A.activity = .call k f arguments ∧
      (start bounds now).HasBody history A.activity ∧
      Stmt.LiesIn f.body (l.bind fun I => I.activity.loop?) (.ret keyword value) ∧
      ∃ r, callClosure (exec bounds.turns k) f arguments A.machine =
          (.ok r, m'.within A.machine.environment) ∧
        (f.kind ≠ .initializer → r = v) ∧
        (f.kind = .initializer → (start bounds now).BoundTo history f r) := by
  have lies := located.lies
  have hasBody := passes.hasBody located
  have ends : A.CodeEnds bounds.turns (.returned v) m' :=
    located.codeEnds run (fun no => nomatch no) (.inr ⟨v, rfl⟩)
  obtain ⟨activity, m₀⟩ := A
  cases activity with
  | call k f arguments =>
    have numbered : (start bounds now).Numbered := numbered_after bounds now []
    have words : ∀ move ∈ history, move.Words Spelled := fun move mem =>
      Move.words_spelled (regular move mem)
    have lawful : ((start bounds now).world history Spelled).Lawful := lawful_world numbered words
    have sound := (sound_of_passes words passes).1
    obtain ⟨env, m₁, opened, body⟩ := ends
    exact ⟨k, f, arguments, rfl, hasBody, lies,
      sound.returned lawful (clean_world numbered regular).plain opened body⟩
  | runTop k ss => exact absurd lies (not_liesIn_top regular passes)
  | _ => exact ends.elim

/-- Where a `break`, `continue` or `return` leads is where the text says.

A `break` or `continue` that is executed stands in the body of a routine or in the code at top
level.  If a loop of that same body is around it, it leaves the innermost one: a `break` ends the
statement of that loop, and a `continue` leads to the next check of its condition.  If there is
none, the body ends with it, and the call, or the run at top level, fails with an error that names
it; so does everything that is in progress, so that no loop of a caller goes on.

The loops are those of the text: a `for` loop stands for a loop of the tree, which has the exits of
its body.

In accepted programs a `return` ends the call of the routine that it stands in, with its value, or
with the object to which the initializer was bound.  No statement at top level ends with a
`return`. -/
theorem control_flow_lexical (bounds : Bounds) (now : Clock) (history : List Move) :
    let s := start bounds now
    (∀ n keyword m, s.Passes history ⟨.exec (n + 1) (.loopExit keyword), m⟩ →
      (∃ A l, s.Passes history A ∧
        Located bounds.turns A l ⟨.exec (n + 1) (.loopExit keyword), m⟩) ∧
      ∀ A l, s.Passes history A →
        Located bounds.turns A l ⟨.exec (n + 1) (.loopExit keyword), m⟩ →
        s.HasBody history A.activity ∧
          Stmt.LiesIn A.activity.code (l.bind fun I => I.activity.loop?) (.loopExit keyword) ∧
          Exited bounds.turns A keyword m l) ∧
    (∀ init condition increment body k, ∃ c b,
      let loop := (forLoop init condition increment body k).1
      Stmt.LiesIn [loop] none (.whileLoop c b) ∧
        ∀ l keyword, Stmt.LiesIn [loop] l (.loopExit keyword) ↔
          (∃ i ∈ init, Stmt.LiesIn [i] l (.loopExit keyword)) ∨
            ∃ l₀, Stmt.LiesIn [body] l₀ (.loopExit keyword) ∧ l = l₀.or (some (c, b))) ∧
    ((∀ move ∈ history, move.IsRegular) →
      (∀ n keyword value m v m', s.Passes history ⟨.exec n (.ret keyword value), m⟩ →
        exec bounds.turns n (.ret keyword value) m = (.ok (.returned v), m') →
        (∃ A l, s.Passes history A ∧ Located bounds.turns A l ⟨.exec n (.ret keyword value), m⟩) ∧
        ∀ A l, s.Passes history A → Located bounds.turns A l ⟨.exec n (.ret keyword value), m⟩ →
          ∃ k f arguments, A.activity = .call k f arguments ∧ s.HasBody history A.activity ∧
            Stmt.LiesIn f.body (l.bind fun I => I.activity.loop?) (.ret keyword value) ∧
            ∃ r, callClosure (exec bounds.turns k) f arguments A.machine =
                (.ok r, m'.within A.machine.environment) ∧
              (f.kind ≠ .initializer → r = v) ∧
              (f.kind = .initializer → s.BoundTo history f r)) ∧
      ∀ n statement rest m, s.Passes history ⟨.runTop n (statement :: rest), m⟩ →
        ∀ v m', exec bounds.turns n statement m ≠ (.ok (.returned v), m')) := by
  intro s
  refine ⟨?_, exits_forLoop, fun regular => ⟨?_, ?_⟩⟩
  · intro n keyword m passes
    exact ⟨passes.exists_located trivial, fun A l activation located =>
      ⟨activation.hasBody located, located.lies, located.exited⟩⟩
  · intro n keyword value m v m' passes run
    exact ⟨passes.exists_located trivial, fun A l => returned_call regular run⟩
  · intro n statement rest m passes v m' run
    obtain ⟨l, keyword, value, lies⟩ := honest_exec bounds.turns n statement m _ m' run
    have inside : [statement] ⊆ statement :: rest := by simp
    exact not_liesIn_top regular passes (lies.mono inside)

/-! ## A loop in an initializer that returns -/

/-- A program whose initializer leaves a loop and then returns. -/
def initialized : String :=
  "class A\x7binit()\x7bwhile(true)\x7bbreak;\x7dreturn;\x7d\x7dA();"

namespace initialized

/-- The session in which it is run: loops may take one turn. -/
def session : Session := start ⟨9, 1⟩ 0

def breakToken : Token := ⟨.breakWord, "break", .nil, 1⟩

def returnToken : Token := ⟨.returnWord, "return", .nil, 1⟩

def loop : Stmt Distance :=
  .whileLoop (.literal (.bool true)) (.block [.loopExit breakToken])

def body : List (Stmt Distance) := [loop, .ret returnToken none]

def declaration : Stmt Distance :=
  .classDecl (identifier "A") none [] [⟨identifier "init", [], body, false⟩] []

def creation : Stmt Distance :=
  .expression (.call (.variable ⟨identifier "A", none⟩) ⟨.rightParen, ")", .nil, 1⟩ [])

theorem accepted : (check initialized session).2.hadError = false := by
  cbv

theorem statements : (session.editionOf initialized).statements = [declaration, creation] := by
  cbv

/-- The class that the declaration makes. -/
def cls : Class :=
  ⟨1, "A", none, [], [("init", ⟨0, some (identifier "init"), [], body, [0], .initializer⟩)],
    some ⟨0, "A metaclass", none, [], [], none⟩⟩

/-- The machine behind the declaration. -/
def machine : Machine :=
  ⟨⟨#[⟨[("clock", .clock), ("A", .class cls)], []⟩]⟩, [0], #[[], []], 1, 0, ""⟩

theorem run_declaration : exec 1 9 declaration session.machine = (.ok .normal, machine) := by
  cbv

/-- The initializer, bound to the new object. -/
def initializer : Closure := ⟨1, some (identifier "init"), [], body, [1, 0], .initializer⟩

/-- The machine at the call of the initializer. -/
def called : Machine :=
  ⟨⟨#[⟨[("clock", .clock), ("A", .class cls)], []⟩,
      ⟨[("this", .instance ⟨2, cls⟩)], []⟩]⟩, [0], #[[], [], []], 2, 0, ""⟩

theorem reaches_call :
    Reaches 1 ⟨.runTop 9 [declaration, creation], session.machine⟩
      ⟨.call 7 initializer [], called⟩ :=
  .head (.topStatements run_declaration trivial) <| .head .topStatement <|
    .head (.value rfl) <| .single (.callInit rfl rfl rfl rfl rfl rfl)

theorem located_body : ∃ m, Located 1 ⟨.call 7 initializer [], called⟩ none ⟨.runAll 7 body, m⟩ :=
  ⟨_, .part (.activation trivial) (.body rfl) trivial fun no => no.elim⟩

theorem located_break : ∃ turn m,
    Located 1 ⟨.call 7 initializer [], called⟩ (some turn) ⟨.exec 5 (.loopExit breakToken), m⟩ := by
  obtain ⟨m, body⟩ := located_body
  have statement := body.part .statement trivial fun no => no.elim
  have turn := (statement.part .loop trivial fun no => no.elim).turn (.turn rfl rfl) trivial trivial
    fun no => no
  have block := turn.part .block trivial fun no => no.elim
  exact ⟨_, _, block.part .statement trivial fun no => no.elim⟩

theorem located_return : ∃ m,
    Located 1 ⟨.call 7 initializer [], called⟩ none ⟨.exec 7 (.ret returnToken none), m⟩ := by
  obtain ⟨m, body⟩ := located_body
  have rest := body.part (.statements rfl) trivial fun no => no.elim
  exact ⟨_, rest.part .statement trivial fun no => no.elim⟩

end initialized

open initialized

/-- The `break` leaves the loop in the initializer, and the `return` behind it ends the call with
the new object. -/
theorem control_flow_lexical_initialized :
    (∀ move ∈ [Move.run initialized], move.IsRegular) ∧
      ∃ A turn m m', session.Passes [.run initialized] A ∧
        session.Passes [.run initialized] ⟨.exec 5 (.loopExit breakToken), m⟩ ∧
        Located 1 A (some turn) ⟨.exec 5 (.loopExit breakToken), m⟩ ∧ LeftBy 1 A breakToken m turn ∧
        session.Passes [.run initialized] ⟨.exec 7 (.ret returnToken none), m'⟩ ∧
        ∃ k f arguments r, A.activity = .call k f arguments ∧
          callClosure (exec 1 k) f arguments A.machine = (.ok r, m'.within A.machine.environment) ∧
          session.BoundTo [.run initialized] f r ∧
        ∀ v m₀, exec 1 9 declaration session.machine ≠ (.ok (.returned v), m₀) := by
  have regular : ∀ move ∈ [Move.run initialized], move.IsRegular := by simp [Move.IsRegular]
  have runs : (Move.run initialized).task? session = some (.program [declaration, creation]) := by
    rw [Move.task?, accepted, statements]
    rfl
  have begins : ∀ {M}, Reaches 1 ⟨.runTop 9 [declaration, creation], session.machine⟩ M →
      session.Passes [.run initialized] M := fun reaches =>
    ⟨[], .run initialized, [], rfl, _, runs, reaches⟩
  have passes : ∀ {M}, Reaches 1 ⟨.call 7 initializer [], called⟩ M →
      session.Passes [.run initialized] M := fun reaches => begins (reaches_call.trans reaches)
  obtain ⟨turn, m, exit⟩ := located_break
  obtain ⟨m', ret⟩ := located_return
  obtain ⟨exits, -, returns⟩ := control_flow_lexical ⟨9, 1⟩ 0 [.run initialized]
  obtain ⟨-, -, left⟩ := (exits 4 breakToken m (passes exit.reaches)).2 _ _ (passes .refl) exit
  obtain ⟨-, located⟩ := (returns regular).1 7 returnToken none m' .nil m' (passes ret.reaches) rfl
  obtain ⟨k, f, arguments, call, -, -, r, ends, -, object⟩ := located _ _ (passes .refl) ret
  cases call
  have silent := (returns regular).2 9 declaration [creation] session.machine (begins .refl)
  exact ⟨regular, _, turn, m, m', passes .refl, passes exit.reaches, exit, left,
    passes ret.reaches, 7, initializer, [], r, rfl, ends, object rfl, silent⟩

end Session

end LoxLang
