/-
LoxLang.Proofs.Session.Owners: `this` and `super` mean what the text around them says.

Both are looked up by distance in frames that were made at different times: the frame for `super`
when the declaration of the class was executed, and the one for `this` whenever a member was bound
to an object.  Methods are inherited and mixed in, stored and called later, and make closures of
their own.  Through all of this a node has the object of the innermost member around it in the text,
and the superclass that the declaration of that member's class found when it was executed.

* `Session.OwnedBy`: the owner of a node in the course of a history.

Main statement: `this_super_lexical`.
-/
import LoxLang.Proofs.Machine.Owners
import LoxLang.Proofs.Session.Internal

namespace LoxLang

namespace Session

variable {history : List Move}

/-- The member of the innermost class around the node that a moment is at was bound to the object of
the owner, and the environment of the moment has the frame of that binding. -/
structure OwnedBy (s : Session) (history : List Move) (M : Moment) (owner : Owner) : Prop where
  stands : ∃ ed v, s.Binds history ed ∧ ed.Visits v ∧ M.activity.Shows ed.table v.item ∧
    owner.Owns (s.Passes history) ed v M.machine.environment
  /-- What bound the member had the object from one of three places. -/
  lent : ∃ S, s.Passes history S ∧
    Starts s.bounds.turns S ⟨.bind owner.method owner.self, owner.binder⟩ ∧
      Lends s.bounds.turns S owner.self

/-- A method is bound by something that the history passes. -/
theorem Passes.lent {s : Session} {method : Closure} {self : Value} {m : Machine}
    (passes : s.Passes history ⟨.bind method self, m⟩) :
    ∃ S, s.Passes history S ∧ Starts s.bounds.turns S ⟨.bind method self, m⟩ ∧
      Lends s.bounds.turns S self := by
  obtain ⟨before, move, behind, split, task, runs, reaches⟩ := passes
  rw [s.bounds_after before] at reaches
  rcases Relation.ReflTransGen.cases_tail reaches with root | ⟨S, reaches, starts⟩
  · cases task <;> cases root
  · refine ⟨S, ⟨before, move, behind, split, task, runs, ?_⟩, starts, starts.lends⟩
    rwa [s.bounds_after before]

/-! ## Nodes in accepted programs -/

section Regular

variable {bounds : Bounds} {now : Clock} {n : Nat} {m : Machine}

/-- Where an expression stands that is evaluated in a history of accepted programs. -/
theorem exists_stands_regular (regular : ∀ move ∈ history, move.IsRegular) {e : Expr Distance}
    (passes : (start bounds now).Passes history ⟨.eval n e, m⟩) :
    let W := (start bounds now).world history Spelled
    W.Lawful ∧ W.Clean ∧ ∃ ed around levels e₀ w,
      Stands W m ed ⟨around, levels, .expr e₀, w⟩ ∧ e = e₀.map ed.table.get? := by
  intro W
  have numbered : (start bounds now).Numbered := numbered_after bounds now []
  have words : ∀ move ∈ history, move.Words Spelled := fun move mem =>
    Move.words_spelled (regular move mem)
  exact ⟨lawful_world numbered words, clean_world numbered regular,
    placed_eval (sound_of_passes words passes).1.placed⟩

theorem OwnedBy.of_stands {s : Session} {T : Kind → Token → Prop} {ed : Edition} {v : Visit}
    {M : Moment} {owner : Owner} (stands : Stands (s.world history T) M.machine ed v)
    (shows' : M.activity.Shows ed.table v.item)
    (owns : owner.Owns (s.Passes history) ed v M.machine.environment) : s.OwnedBy history M owner :=
  ⟨⟨ed, v, stands.edition, stands.visits, shows', owns⟩, Passes.lent owns.bound⟩

theorem this_owned (regular : ∀ move ∈ history, move.IsRegular) {ref : Reference Distance}
    (passes : (start bounds now).Passes history ⟨.eval n (.this ref), m⟩) :
    ∃ owner, (start bounds now).OwnedBy history ⟨.eval n (.this ref), m⟩ owner ∧
      (readRef ref m : Except Failure Value × Machine) = (.ok owner.self, m) := by
  obtain ⟨lawful, clean, ed, around, levels, e₀, w, stands, same⟩ :=
    exists_stands_regular regular passes
  cases e₀ with
  | this ref₀ =>
    cases same
    obtain ⟨owner, owns, reads⟩ := stands.readThis lawful clean
    exact ⟨owner, .of_stands (M := ⟨.eval n _, m⟩) stands rfl owns, reads⟩
  | _ => cases same

theorem super_owned (regular : ∀ move ∈ history, move.IsRegular) {ref : Reference Distance}
    {name : Token} (passes : (start bounds now).Passes history ⟨.eval n (.super ref name), m⟩) :
    ∃ owner c, (start bounds now).OwnedBy history ⟨.eval n (.super ref name), m⟩ owner ∧
      owner.superclass = some c ∧
      (∀ method, c.findMethod name.lexeme = some method → ∃ f m',
        bindMethod method owner.self m = (.ok f, m') ∧
          readSuper ref name m = (.ok (.function f), m')) ∧
      (c.findMethod name.lexeme = none → readSuper ref name m =
        (.error (.runtime (some name) (.undefinedProperty name.lexeme)), m)) := by
  obtain ⟨lawful, clean, ed, around, levels, e₀, w, stands, same⟩ :=
    exists_stands_regular regular passes
  cases e₀ with
  | super ref₀ name₀ =>
    cases same
    obtain ⟨owner, c, owns, superclass, found, missing⟩ := stands.readParent lawful clean
    exact ⟨owner, c, .of_stands (M := ⟨.eval n _, m⟩) stands rfl owns, superclass, found, missing⟩
  | _ => cases same

end Regular

/-- A node `this` in the course of a history of accepted programs yields the object to which the
member of the innermost class around it was bound.  A node `super` searches the class that the
superclass expression of that class yielded when its declaration was executed, and binds what it
finds to that same object.  None of them ever fails internally. -/
theorem this_super_lexical (bounds : Bounds) (now : Clock) (history : List Move)
    (regular : ∀ move ∈ history, move.IsRegular) (n : Nat) (e : Expr Distance) (m : Machine)
    (passes : (start bounds now).Passes history ⟨.eval n e, m⟩) :
    let s := start bounds now
    (∀ ref, e = .this ref → ∃ owner, s.OwnedBy history ⟨.eval n e, m⟩ owner ∧
        (0 < n → eval bounds.turns n e m = (.ok owner.self, m))) ∧
      (∀ ref name, e = .super ref name → ∃ owner c, s.OwnedBy history ⟨.eval n e, m⟩ owner ∧
        owner.superclass = some c ∧
        (0 < n → (∀ method, c.findMethod name.lexeme = some method → ∃ f m',
            bindMethod method owner.self m = (.ok f, m') ∧
              eval bounds.turns n e m = (.ok (.function f), m')) ∧
          (c.findMethod name.lexeme = none → eval bounds.turns n e m =
            (.error (.runtime (some name) (.undefinedProperty name.lexeme)), m)))) ∧
      ((∃ ref, e = .this ref) ∨ (∃ ref name, e = .super ref name) →
        ∀ failure, Raises (eval bounds.turns n e) m failure → ¬ failure.IsInternal) := by
  intro s
  refine ⟨?_, ?_, ?_⟩
  · rintro ref rfl
    obtain ⟨owner, owned, reads⟩ := this_owned regular passes
    refine ⟨owner, owned, fun within => ?_⟩
    obtain ⟨k, rfl⟩ := Nat.exists_eq_add_one.mpr within
    exact reads
  · rintro ref name rfl
    obtain ⟨owner, c, owned, superclass, found, missing⟩ := super_owned regular passes
    refine ⟨owner, c, owned, superclass, fun within => ?_⟩
    obtain ⟨k, rfl⟩ := Nat.exists_eq_add_one.mpr within
    exact ⟨found, missing⟩
  · rintro node failure ⟨m', raised⟩
    cases n with
    | zero =>
      cases raised
      exact fun no => no
    | succ k =>
      rcases node with ⟨ref, rfl⟩ | ⟨ref, name, rfl⟩
      · obtain ⟨owner, _, reads⟩ := this_owned regular passes
        cases raised.symm.trans reads
      · obtain ⟨owner, c, _, _, found, missing⟩ := super_owned regular passes
        cases method : c.findMethod name.lexeme with
        | none =>
          cases raised.symm.trans (missing method)
          exact fun no => no
        | some f =>
          obtain ⟨g, m'', _, reads⟩ := found f method
          cases raised.symm.trans reads

/-! ## A superclass whose name means something else later -/

/-- A program goes on behind its first statements if they end normally. -/
theorem reaches_rest {turns n : Nat} {ss rest : List (Stmt Distance)} :
    ∀ {m m' : Machine}, runAll (exec turns n) ss m = (.ok .normal, m') →
      Reaches turns ⟨.runTop n (ss ++ rest), m⟩ ⟨.runTop n rest, m'⟩ := by
  induction ss with
  | nil =>
    intro m m' run
    cases run
    exact .refl
  | cons s ss ih =>
    intro m m' run
    obtain ⟨completion, m₁, first, run⟩ := run_bind_ok_iff.mp run
    cases completion with
    | normal => exact .head (.topStatements first trivial) (ih run)
    | returned v => cases run
    | exited keyword => cases run

/-- A program in which the name of a superclass gets another value before `super` is evaluated. -/
def reassigned : String :=
  "class A\x7bm()\x7b\x7d\x7dclass B<A\x7bm()\x7bsuper.m;\x7d\x7dA=nil;B().m();"

/-- The session in which it is run. -/
def begun : Session := start ⟨9, 0⟩ 0

def identifier (lexeme : String) : Token := ⟨.identifier, lexeme, .nil, 1⟩

/-- The access through `super` in the method of `B`. -/
def reassigned.parentRead : Expr Distance :=
  .super ⟨⟨.superWord, "super", .nil, 1⟩, some 2⟩ (identifier "m")

def reassigned.declarations : List (Stmt Distance) :=
  [.classDecl (identifier "A") none [] [⟨identifier "m", [], [], false⟩] [],
    .classDecl (identifier "B") (some ⟨identifier "A", none⟩) []
      [⟨identifier "m", [], [.expression reassigned.parentRead], false⟩] [],
    .expression (.assign ⟨identifier "A", none⟩ (.literal .nil))]

def reassigned.methodCall : Stmt Distance :=
  let paren : Token := ⟨.rightParen, ")", .nil, 1⟩
  .expression (.call (.get (.call (.variable ⟨identifier "B", none⟩) paren []) (identifier "m"))
    paren [])

theorem accepted_reassigned : (check reassigned begun).2.hadError = false := by
  cbv

theorem statements_reassigned :
    (begun.editionOf reassigned).statements =
      reassigned.declarations ++ [reassigned.methodCall] := by
  cbv

/-- The class that `A` was when `B` was declared. -/
def reassigned.parent : Class :=
  ⟨1, "A", none, [], [("m", ⟨0, some (identifier "m"), [], [], [0], .plain⟩)],
    some ⟨0, "A metaclass", none, [], [], none⟩⟩

def reassigned.heir : Class :=
  ⟨3, "B", some reassigned.parent, [],
    [("m", ⟨1, some (identifier "m"), [], [.expression reassigned.parentRead], [1, 0], .plain⟩)],
    some ⟨2, "B metaclass", reassigned.parent.metaclass, [], [], none⟩⟩

/-- The machine behind the declarations. -/
def reassigned.machine : Machine :=
  ⟨⟨#[⟨[("clock", .clock), ("A", .nil), ("B", .class reassigned.heir)], []⟩,
      ⟨[("super", .class reassigned.parent)], []⟩]⟩, [0], #[[], [], [], []], 2, 0, ""⟩

theorem run_declarations :
    runAll (exec 0 9) reassigned.declarations begun.machine =
      (.ok .normal, reassigned.machine) := by
  cbv

/-- In the call of the method of `B` its access through `super` yields the method of the class that
`A` was, which has an empty body. -/
theorem reaches_parentRead : ∃ m : Machine, m.environment = [3, 2, 1, 0] ∧
    Reaches 0 ⟨.runTop 9 [reassigned.methodCall], reassigned.machine⟩
      ⟨.eval 6 reassigned.parentRead, m⟩ ∧
    ∃ f m', eval 0 6 reassigned.parentRead m = (.ok (.function f), m') ∧ f.body = [] :=
  ⟨_, rfl, .head .topStatement <| .head (.value rfl) <| .head (.call rfl rfl rfl) <|
    .head (.body rfl) <| .head .statement <| .single (.value rfl), _, _, rfl, rfl⟩

/-- The class that the superclass expression yielded has the method with an empty body, although its
name means nothing any more. -/
theorem this_super_lexical_reassigned :
    (∀ move ∈ [Move.run reassigned], move.IsRegular) ∧
      ∃ m : Machine, begun.Passes [.run reassigned] ⟨.eval 6 reassigned.parentRead, m⟩ ∧
        ∃ owner c method, begun.OwnedBy [.run reassigned] ⟨.eval 6 reassigned.parentRead, m⟩ owner ∧
          owner.superclass = some c ∧ c.findMethod "m" = some method ∧ method.body = [] := by
  have regular : ∀ move ∈ [Move.run reassigned], move.IsRegular := by simp [Move.IsRegular]
  have runs : (Move.run reassigned).task? begun =
      some (.program (reassigned.declarations ++ [reassigned.methodCall])) := by
    rw [Move.task?, accepted_reassigned, statements_reassigned]
    rfl
  obtain ⟨m, _, reaches, f, m', read, body⟩ := reaches_parentRead
  have passes : begun.Passes [.run reassigned] ⟨.eval 6 reassigned.parentRead, m⟩ :=
    ⟨[], .run reassigned, [], rfl, _, runs, (reaches_rest run_declarations).trans reaches⟩
  obtain ⟨-, ofSuper, -⟩ :=
    this_super_lexical ⟨9, 0⟩ 0 [.run reassigned] regular 6 reassigned.parentRead m passes
  obtain ⟨owner, c, owned, superclass, yields⟩ := ofSuper _ _ rfl
  obtain ⟨found, missing⟩ := yields (by decide)
  refine ⟨regular, m, passes, owner, c, ?_⟩
  cases search : c.findMethod "m" with
  | none => cases read.symm.trans (missing search)
  | some method =>
    obtain ⟨g, m'', bound, reads⟩ := found method search
    cases read.symm.trans reads
    cases bound
    exact ⟨method, owned, superclass, rfl, body⟩

end Session

end LoxLang
