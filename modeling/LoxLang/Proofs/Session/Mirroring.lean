/-
LoxLang.Proofs.Session.Mirroring: the frames of a run mirror the scopes of the text.

Whatever node a run is at, in whatever session: the environment has one frame for each scope that
the walk had open at that node, in the same order, and the frame of the globals behind them.  The
walk and the run open them in places of their own, and closures carry their frames through the whole
history; what links the two is that every frame was made for the construct that opened the scope.

* `Activity.IsNode`: an activity that is at a node.
* `Mirrored`: what links a moment with a visit of its node.

Main statement: `frames_mirror_scopes`.
-/
import Mathlib
import LoxLang.Proofs.Session.Passing

namespace LoxLang

/-- The activity is at a node of a program. -/
def Activity.IsNode : Activity → Prop
  | .call .. => False
  | .bind .. => False
  | .makeClass .. => False
  | _ => True

/-- The environment of a moment mirrors the scopes of a visit. -/
structure Mirrored (turns : Nat) (passes : Moment → Prop) (ed : Edition) (M : Moment) (v : Visit) :
    Prop where
  /-- One frame for each construct that opened a scope, and one for the globals. -/
  frames : Mirrors passes ed.table v.levels M.machine.environment
  /-- One scope for each such construct. -/
  scopes : LevelsFit (fun _ _ => True) v.levels v.walk
  apart : M.machine.environment.Nodup
  alive : ∀ k ∈ M.machine.environment, k < M.machine.store.frames.size
  /-- A frame has the names of its scope. -/
  names : ∀ (d : Nat) k x, M.machine.environment[d]? = some k → v.Expects d x →
    M.machine.store.contains k x = true
  /-- The innermost frame belongs to the block or the call that is in progress. -/
  current : M.machine.environment = Store.globalEnvironment ∨
    ∃ A, passes A ∧ A.OpensTo M.machine.environment ∧ Reaches turns A M
  /-- A recorded distance leads to the frame of the scope that has the name. -/
  ancestor : ∀ ref d, v.item.ref? = some ref → ed.table.get? ref.mark = some d →
    v.walk.Declares d ref.name ∧ ∃ k, ∃ level : Level, ∃ A,
      Store.ancestor M.machine.environment d = .ok k ∧ v.levels[d]? = some level ∧ passes A ∧
        A.Opens (level.opener.map ed.table.get?) k (M.machine.environment.drop (d + 1))

/-- There is one frame more than scopes. -/
theorem Mirrored.length {turns : Nat} {passes : Moment → Prop} {ed : Edition} {M : Moment}
    {v : Visit} (h : Mirrored turns passes ed M v) :
    M.machine.environment.length = v.walk.scopes.length + 1 := by
  rw [h.frames.length, h.scopes.height]

theorem exists_stands {W : World} {M : Moment} (sound : M.Sound W) (node : M.activity.IsNode) :
    ∃ ed v, Stands W M.machine ed v ∧ M.activity.Shows ed.table v.item := by
  obtain ⟨activity, m⟩ := M
  have placed := sound.placed
  cases activity with
  | call _ _ _ => exact node.elim
  | bind _ _ => exact node.elim
  | makeClass _ _ _ _ _ _ => exact node.elim
  | _ => exact placed

/-- At every moment of every history that is at a node, the frames of the environment mirror the
scopes that the walk had open at that node. -/
theorem frames_mirror_scopes (bounds : Bounds) (now : Clock) (history : List Move) (M : Moment)
    (passes : (Session.start bounds now).Passes history M) (node : M.activity.IsNode) :
    ∃ ed v, (Session.start bounds now).Binds history ed ∧ ed.Visits v ∧
      M.activity.Shows ed.table v.item ∧
      Mirrored bounds.turns ((Session.start bounds now).Passes history) ed M v := by
  have words : ∀ move ∈ history, move.Words fun _ _ => True := fun move _ => move.words_true
  have lawful : ((Session.start bounds now).world history fun _ _ => True).Lawful :=
    Session.lawful_world (Session.numbered_after bounds now []) words
  obtain ⟨sound, root, rootSound, top, reaches⟩ := Session.sound_of_passes words passes
  obtain ⟨ed, v, stands, shows'⟩ := exists_stands sound node
  refine ⟨ed, v, stands.edition, stands.visits, shows', stands.frames.mirrors,
    (stands.sound lawful).enclosed.fit, stands.frames.mirrors.nodup, stands.frames.alive,
    stands.frames.filled, ?_, fun ref d item recorded => ?_⟩
  · rcases rootSound.activation lawful reaches with same | ⟨A, toA, opens, inside⟩
    · exact .inl (same.trans top)
    · exact .inr ⟨A, (rootSound.reaches lawful toA).passed, opens, inside⟩
  · obtain ⟨declares, k, level, A, found, at_d, passed, opens⟩ :=
      stands.ancestor lawful item recorded
    refine ⟨declares, k, level, A, ?_, at_d, passed, opens⟩
    rw [Store.ancestor, found]

/-- A function that is called from a block inside the one that it was declared in. -/
def calledInside : List Token :=
  let word (kind : Kind) (lexeme : String) : Token := ⟨kind, lexeme, .nil, 1⟩
  [word .leftBrace "\x7b", word .varWord "var", word .identifier "x", word .semicolon ";",
    word .funWord "fun", word .identifier "f", word .leftParen "(", word .rightParen ")",
    word .leftBrace "\x7b", word .identifier "x", word .semicolon ";", word .rightBrace "\x7d",
    word .leftBrace "\x7b", word .identifier "f", word .leftParen "(", word .rightParen ")",
    word .semicolon ";", word .rightBrace "\x7d", word .rightBrace "\x7d"]

/-- The read of the variable in the routine. -/
def outerRead : Expr Distance := .variable ⟨⟨.identifier, "x", .nil, 1⟩, some 1⟩

theorem statements_calledInside :
    ((Session.start ⟨9, 0⟩ 0).edition calledInside 1).statements =
      [.block [.var ⟨.identifier, "x", .nil, 1⟩ none,
        .function ⟨⟨.identifier, "f", .nil, 1⟩, [], [.expression outerRead], false⟩,
        .block [.expression (.call (.variable ⟨⟨.identifier, "f", .nil, 1⟩, some 1⟩)
          ⟨.rightParen, ")", .nil, 1⟩ [])]]] := by
  cbv

/-- The routine reads the variable through the frames that it was declared in; the frame of the
block that calls it is not among them. -/
theorem frames_mirror_scopes_calledInside :
    ∃ m : Machine, m.environment = [3, 1, 0] ∧
      (Session.start ⟨9, 0⟩ 0).Passes [.force calledInside 1] ⟨.eval 4 outerRead, m⟩ ∧
      (Activity.eval 4 outerRead).IsNode ∧
      ∃ ed v, (Session.start ⟨9, 0⟩ 0).Binds [.force calledInside 1] ed ∧ ed.Visits v ∧
        (Activity.eval 4 outerRead).Shows ed.table v.item ∧
        Mirrored 0 ((Session.start ⟨9, 0⟩ 0).Passes [.force calledInside 1]) ed
          ⟨.eval 4 outerRead, m⟩ v := by
  let s := Session.start ⟨9, 0⟩ 0
  let f : Token := ⟨.identifier, "f", .nil, 1⟩
  let ss : List (Stmt Distance) :=
    [.block [.var ⟨.identifier, "x", .nil, 1⟩ none,
      .function ⟨f, [], [.expression outerRead], false⟩,
      .block [.expression (.call (.variable ⟨f, some 1⟩) ⟨.rightParen, ")", .nil, 1⟩ [])]]]
  have runs : (Move.force calledInside 1).task? s = some (.program ss) :=
    congrArg (some ∘ Task.program) statements_calledInside
  have reaches : ∃ m : Machine, m.environment = [3, 1, 0] ∧
      Reaches 0 ⟨.runTop 9 ss, s.machine⟩ ⟨.eval 4 outerRead, m⟩ :=
    ⟨_, rfl, .head .topStatement <| .head .block <| .head (.statements rfl) <|
      .head (.statements rfl) <| .head .statement <| .head .block <| .head .statement <|
      .head (.value rfl) <| .head (.call rfl rfl rfl) <| .head (.body rfl) <| .head .statement <|
      .single (.value rfl)⟩
  obtain ⟨m, environment, reaches⟩ := reaches
  have passes : s.Passes [.force calledInside 1] ⟨.eval 4 outerRead, m⟩ :=
    ⟨[], .force calledInside 1, [], rfl, .program ss, runs, reaches⟩
  exact ⟨m, environment, passes, trivial,
    frames_mirror_scopes ⟨9, 0⟩ 0 [.force calledInside 1] _ passes trivial⟩

end LoxLang
