/-
LoxLang.Proofs.Session.Construction: what calls take and what classes and initializers yield.

Only a call expression compares the number of its arguments with that of the parameters.  Beside it,
closures are called by classes, which pass their arguments on to the initializer that they find, and
by accesses to properties that come upon getters, which pass none.  In a history of accepted
programs all of them fit.  The call of a class yields an instance that was not there before, and
whoever gets hold of an initializer, as a property or through `super`, has one that yields its
object.

* `Session.Preexisting`: the values that are there before a call makes an instance.
* `Session.Reinitializes`: a closure whose calls yield an object.

Main statement: `calls_bind_and_construct`.
-/
import LoxLang.Proofs.Machine.Initializers
import LoxLang.Proofs.Machine.Parameters
import LoxLang.Proofs.Session.Properties

namespace LoxLang

namespace Session

variable {s : Session} {history : List Move} {bounds : Bounds} {now : Clock} {n : Nat}
  {m m₁ m₂ m' : Machine} {M : Moment} {f method : Closure} {v self : Value}

/-! ## Order -/

/-- Along the timeline of a history no frame and no object is lost. -/
theorem ahead_history (s : Session) (history : List Move) :
    (s.timeline history).IsChain (Instant.Ahead s.bounds.turns) := by
  let first : Instant := .began ⟨.runTop 0 [], s.machine⟩
  have chain : (first :: s.timeline history).IsChain (Instant.Ahead s.bounds.turns) :=
    chain_history (ahead_timeline s.bounds.turns) (fun _ _ calm => calm.ahead) (.refl _)
  exact chain.tail

/-- A frame for `this` is made once in a history, so that it tells the object of a closure. -/
theorem bound_once {method' : Closure} {self' : Value}
    (passes : s.Passes history ⟨.bind method self, m⟩)
    (passes' : s.Passes history ⟨.bind method' self', m'⟩)
    (same : m.store.frames.size = m'.store.frames.size) : self = self' := by
  have crossing : ∀ {method : Closure} {self : Value} {m : Machine},
      s.Passes history ⟨.bind method self, m⟩ →
        Crossing s.bounds.turns (s.timeline history) m.store.frames.size self := by
    intro method self m passes
    obtain ⟨S, passed, starts, _⟩ := passes.lent
    have code : S.activity.RunsCode := by cases starts <;> exact trivial
    exact starts.crossing.mono (stretch_of_passes passed code)
  exact (crossing passes).unique (s.ahead_history history) (same ▸ crossing passes')

/-- The value was there before the call made an instance: a variable or a field had it, it was an
argument, or an expression that was over when the call began yielded it. -/
inductive Preexisting (s : Session) (history : List Move) (S : Moment) (arguments : List Value)
    (m : Machine) : Value → Prop
  | variable {k : FrameId} {x : String} {v : Value} (slot : m.store.slot? k x = some (.value v)) :
    Preexisting s history S arguments m v
  | field {id : ObjectId} {x : String} {v : Value} (field : m.field? id x = some v) :
    Preexisting s history S arguments m v
  | argument {v : Value} (mem : v ∈ arguments) : Preexisting s history S arguments m v
  | evaluated {n : Nat} {e : Expr Distance} {m₀ m₁ : Machine} {v : Value}
      (before : [Instant.ended ⟨.eval n e, m₀⟩, .began S].Sublist (s.timeline history))
      (run : eval s.bounds.turns n e m₀ = (.ok v, m₁)) : Preexisting s history S arguments m v

/-- The value is an initializer, and every call of it in the history that succeeds yields the
object. -/
def Reinitializes (s : Session) (history : List Move) (initializer self : Value) : Prop :=
  ∃ f, initializer = .function f ∧ f.kind = .initializer ∧
    ∀ n g paren es m m₁ v m', s.Passes history ⟨.eval (n + 1) (.call g paren es), m⟩ →
      eval s.bounds.turns n g m = (.ok initializer, m₁) →
      eval s.bounds.turns (n + 1) (.call g paren es) m = (.ok v, m') → v = self

/-! ## Calls -/

/-- Closures are called by call expressions, and by accesses that come upon getters. -/
theorem Passes.entered {arguments : List Value}
    (passes : s.Passes history ⟨.call n f arguments, m⟩) :
    ∃ S, s.Passes history S ∧ Starts s.bounds.turns S ⟨.call n f arguments, m⟩ ∧
      ((∃ g paren es m₀, S = ⟨.eval (n + 1) (.call g paren es), m₀⟩) ∨
        ∃ e name m₀, S = ⟨.eval (n + 1) (.get e name), m₀⟩ ∧ f.kind = .getter ∧
          arguments = []) := by
  obtain ⟨before, move, behind, split, task, runs, reaches⟩ := passes
  rcases Relation.ReflTransGen.cases_tail reaches with root | ⟨S, reaches, starts⟩
  · cases task <;> cases root
  · refine ⟨S, ⟨before, move, behind, split, task, runs, reaches⟩,
      s.bounds_after before ▸ starts, ?_⟩
    cases starts with
    | call => exact .inl ⟨_, _, _, _, rfl⟩
    | callInit => exact .inl ⟨_, _, _, _, rfl⟩
    | getter _ _ _ kind => exact .inr ⟨_, _, _, rfl, kind, rfl⟩

section Regular

variable (regular : ∀ move ∈ history, move.IsRegular)

include regular

/-- What is known of the course of a history of accepted programs. -/
theorem sound_of_regular (bounds : Bounds) (now : Clock) :
    let W := (start bounds now).world history Spelled
    W.Lawful ∧ W.Clean ∧ ∀ {M}, W.passes M → M.Sound W := by
  have numbered : (start bounds now).Numbered := numbered_after bounds now []
  have words : ∀ move ∈ history, move.Words Spelled := fun move mem =>
    Move.words_spelled (regular move mem)
  exact ⟨lawful_world numbered words, clean_world numbered regular,
    fun passes => (sound_of_passes words passes).1⟩

/-- An initializer that was bound to an object yields it whenever it is called. -/
theorem reinitializes (passes : (start bounds now).Passes history ⟨.bind method self, m⟩)
    (run : bindMethod method self m = (.ok f, m')) (kind : method.kind = .initializer) :
    (start bounds now).Reinitializes history (.function f) self := by
  obtain ⟨lawful, clean, sound⟩ := sound_of_regular regular bounds now
  have isBound := (run_bindMethod run).1
  have initializer := isBound.kind.trans kind
  refine ⟨f, rfl, initializer, fun n g paren es m₀ m₁ v m₂ passes₀ callee succeeds => ?_⟩
  obtain ⟨vs, m₃, arguments, check, invoked⟩ := of_eval_call callee succeeds
  have called := sound (lawful.starts passes₀ (.call callee arguments check))
  obtain ⟨method', binder, passes', environment⟩ :=
    called.initialized lawful clean.plain initializer invoked
  have same := isBound.environment.symm.trans environment
  injection same with number
  exact (bound_once passes passes' number).symm

/-- The call of a class makes an instance whose number no value has that was there before. -/
theorem constructs {g : Expr Distance} {paren : Token} {es : List (Expr Distance)} {c : Class}
    {vs : List Value}
    (passes : (start bounds now).Passes history ⟨.eval (n + 1) (.call g paren es), m⟩)
    (callee : eval bounds.turns n g m = (.ok (.class c), m₁))
    (arguments : evalAll (eval bounds.turns n) es m₁ = (.ok vs, m₂))
    (succeeds : eval bounds.turns (n + 1) (.call g paren es) m = (.ok v, m')) :
    v = .instance ⟨m₂.fields.size, c⟩ ∧ ∀ obj r, (start bounds now).Preexisting history
      ⟨.eval (n + 1) (.call g paren es), m⟩ vs m₂ obj → obj.receiver? = some r →
        r.id < m₂.fields.size := by
  obtain ⟨lawful, clean, sound⟩ := sound_of_regular regular bounds now
  obtain ⟨kept, _, values⟩ := kept_arguments lawful (keeps lawful n).1 (sound passes) callee
    (List.append_nil es).symm arguments
  constructor
  · obtain ⟨vs', m₃, arguments', _, invoked⟩ := of_eval_call callee succeeds
    cases arguments.symm.trans arguments'
    exact run_construction invoked
  · intro obj r there receiver
    cases there with
    | «variable» slot => exact born_of_sound (kept.good.slots _ _ _ slot) receiver
    | field field => exact born_of_sound (kept.good.fields _ _ _ field) receiver
    | argument mem => exact born_of_sound (values obj mem) receiver
    | @evaluated k e m₀ m₃ _ before run =>
      have passed : (start bounds now).Passes history ⟨.eval k e, m₀⟩ :=
        (mem_timeline_iff.mp (before.subset List.mem_cons_self)).1
      have value := (((keeps lawful k).1 (sound passed)).ok run).2
      have inOrder := ((start bounds now).ahead_history history).pairwise.sublist before
      have ahead := List.pairwise_pair.mp inOrder
      have after : Moment.after (start bounds now).bounds.turns ⟨.eval k e, m₀⟩ = m₃ :=
        congrArg Prod.snd run
      have earlier : m₃.fields.size ≤ m.fields.size := after ▸ ahead.objects
      exact Nat.lt_of_lt_of_le (born_of_sound value receiver)
        (Nat.le_trans earlier kept.grows.objects)

/-- An instance yields its initializer bound to itself, unless a field of that name hides it. -/
theorem reinitializes_property {e : Expr Distance} {name : Token} {o : Instance}
    (passes : (start bounds now).Passes history ⟨.eval (n + 1) (.get e name), m⟩)
    (init : name.lexeme = initName) (run : eval bounds.turns n e m = (.ok (.instance o), m₁))
    (field : m₁.field? o.id initName = none)
    (succeeds : eval bounds.turns (n + 1) (.get e name) m = (.ok v, m₂)) :
    (start bounds now).Reinitializes history v (.instance o) := by
  obtain ⟨lawful, clean, sound⟩ := sound_of_regular regular bounds now
  obtain ⟨_, _, ready⟩ := (keeps_first lawful (keeps lawful n).1 (sound passes) rfl).ok run
  have field : m₁.field? o.id name.lexeme = none := init ▸ field
  obtain ⟨method, f, _, found, bound, yields⟩ := of_eval_method run rfl field rfl succeeds
  have kind := ready.declared.initializer sound clean (init ▸ found)
  rw [yields (by rw [kind]; decide)]
  exact reinitializes regular (lawful.starts passes (.method run rfl field rfl found)) bound kind

/-- An initializer that is read through `super` is bound to the object of the member around. -/
theorem reinitializes_super {ref : Reference Distance} {name : Token}
    (passes : (start bounds now).Passes history ⟨.eval (n + 1) (.super ref name), m⟩)
    (init : name.lexeme = initName)
    (succeeds : eval bounds.turns (n + 1) (.super ref name) m = (.ok v, m')) :
    ∃ owner, (start bounds now).OwnedBy history ⟨.eval (n + 1) (.super ref name), m⟩ owner ∧
      (start bounds now).Reinitializes history v owner.self := by
  obtain ⟨lawful, clean, sound⟩ := sound_of_regular regular bounds now
  obtain ⟨owner, c, d, owned, _, mark, reads, object⟩ := superFrames_of_passes regular passes
  have ready : c.Ready _ m := sound_of_readAt (sound passes).good reads
  have run : eval bounds.turns (n + 1) (.super ref name) m = _ :=
    run_readSuper mark reads object name
  rw [succeeds] at run
  cases found : c.findMethod name.lexeme with
  | none =>
    simp only [found] at run
    cases run
  | some method =>
    simp only [found] at run
    obtain ⟨f, _, bound, yields⟩ := run_bind_ok_iff.mp run.symm
    cases yields
    have kind := ready.declared.initializer sound clean (init ▸ found)
    exact ⟨owner, owned, reinitializes regular
      (lawful.starts passes (.superMethod mark reads object found)) bound kind⟩

end Regular

/-- Calls and constructions in a history of accepted programs.

Whatever calls a closure, there are as many arguments as parameters, no two parameters have the same
name, and in the frame of the call each parameter has the argument at its place.

The call of a class that succeeds yields an instance of just that class, whichever class the
initializer comes from, and nothing that was there before is that instance.

What an instance has under the name of the initializer is either a field or an initializer all of
whose calls that succeed yield the instance, whoever makes them and whenever; and so are those of an
initializer that is read through `super`, for the object of the member that the access stands in. -/
theorem calls_bind_and_construct (bounds : Bounds) (now : Clock) (history : List Move)
    (regular : ∀ move ∈ history, move.IsRegular) :
    let s := start bounds now
    (∀ n f arguments m, s.Passes history ⟨.call n f arguments, m⟩ →
      arguments.length = f.params.length ∧ (f.params.map Token.lexeme).Nodup ∧
      (∃ m', openCall f arguments m = (.ok (m.store.frames.size :: f.environment), m') ∧
        ∀ (i : Nat) p v, f.params[i]? = some p → arguments[i]? = some v →
          m'.store.slot? m.store.frames.size p.lexeme = some (.value v)) ∧
      ∃ S, s.Passes history S ∧ Starts bounds.turns S ⟨.call n f arguments, m⟩ ∧
        ((∃ g paren es m₀, S = ⟨.eval (n + 1) (.call g paren es), m₀⟩) ∨
          ∃ e name m₀, S = ⟨.eval (n + 1) (.get e name), m₀⟩ ∧ f.kind = .getter ∧
            arguments = [])) ∧
    (∀ n g paren es m c m₁ vs m₂ v m', s.Passes history ⟨.eval (n + 1) (.call g paren es), m⟩ →
      eval bounds.turns n g m = (.ok (.class c), m₁) →
      evalAll (eval bounds.turns n) es m₁ = (.ok vs, m₂) →
      eval bounds.turns (n + 1) (.call g paren es) m = (.ok v, m') →
      ∃ o : Instance, v = .instance o ∧ o.cls = c ∧ ∀ obj r,
        s.Preexisting history ⟨.eval (n + 1) (.call g paren es), m⟩ vs m₂ obj →
          obj.receiver? = some r → r.id ≠ o.id) ∧
    (∀ n e name m o m₁ v m₂, s.Passes history ⟨.eval (n + 1) (.get e name), m⟩ →
      name.lexeme = initName → eval bounds.turns n e m = (.ok (.instance o), m₁) →
      eval bounds.turns (n + 1) (.get e name) m = (.ok v, m₂) →
      (∃ u, m₁.field? o.id initName = some u) ∨ s.Reinitializes history v (.instance o)) ∧
    ∀ n ref name m v m', s.Passes history ⟨.eval (n + 1) (.super ref name), m⟩ →
      name.lexeme = initName → eval bounds.turns (n + 1) (.super ref name) m = (.ok v, m') →
      ∃ owner, s.OwnedBy history ⟨.eval (n + 1) (.super ref name), m⟩ owner ∧
        s.Reinitializes history v owner.self := by
  intro s
  obtain ⟨_, clean, sound⟩ := sound_of_regular regular bounds now
  refine ⟨?_, ?_, ?_, ?_⟩
  · intro n f arguments m passes
    obtain ⟨length, nodup, opened⟩ := (sound passes).parameters clean
    exact ⟨length, nodup, opened, passes.entered⟩
  · intro n g paren es m c m₁ vs m₂ v m' passes callee arguments succeeds
    obtain ⟨rfl, before⟩ := constructs regular passes callee arguments succeeds
    exact ⟨_, rfl, rfl, fun obj r there receiver => Nat.ne_of_lt (before obj r there receiver)⟩
  · intro n e name m o m₁ v m₂ passes init run succeeds
    cases field : m₁.field? o.id initName with
    | some u => exact .inl ⟨u, rfl⟩
    | none => exact .inr (reinitializes_property regular passes init run field succeeds)
  · intro n ref name m v m' passes init succeeds
    exact reinitializes_super regular passes init succeeds

/-! ## An initializer that is stored -/

/-- A program that stores the inherited initializer of an instance, and calls it later. -/
def stored : String :=
  "class A\x7binit(x)\x7b\x7d\x7dclass B<A\x7b\x7dvar b=B(nil);var i=b.init;i(nil);"

def stored.paren : Token := ⟨.rightParen, ")", .nil, 1⟩

/-- Makes the instance. -/
def stored.creation : Expr Distance :=
  .call (.variable ⟨identifier "B", none⟩) stored.paren [.literal .nil]

def stored.classes : List (Stmt Distance) :=
  [.classDecl (identifier "A") none [] [⟨identifier "init", [identifier "x"], [], false⟩] [],
    .classDecl (identifier "B") (some ⟨identifier "A", none⟩) [] [] []]

/-- Reads the initializer. -/
def stored.access : Expr Distance :=
  .get (.variable ⟨identifier "b", none⟩) (identifier "init")

/-- Calls what was stored. -/
def stored.call : Expr Distance :=
  .call (.variable ⟨identifier "i", none⟩) stored.paren [.literal .nil]

def stored.rest : List (Stmt Distance) :=
  [.var (identifier "b") (some stored.creation), .var (identifier "i") (some stored.access),
    .expression stored.call]

theorem accepted_stored : (check stored begun).2.hadError = false := by
  cbv

theorem statements_stored :
    (begun.editionOf stored).statements = stored.classes ++ stored.rest := by
  cbv

def stored.parent : Class :=
  ⟨1, "A", none, [],
    [("init", ⟨0, some (identifier "init"), [identifier "x"], [], [0], .initializer⟩)],
    some ⟨0, "A metaclass", none, [], [], none⟩⟩

def stored.heir : Class :=
  ⟨3, "B", some stored.parent, [], [],
    some ⟨2, "B metaclass", stored.parent.metaclass, [], [], none⟩⟩

def stored.object : Instance := ⟨4, stored.heir⟩

/-- The machine behind the classes. -/
def stored.machine : Machine :=
  ⟨⟨#[⟨[("clock", .clock), ("A", .class stored.parent), ("B", .class stored.heir)], []⟩,
      ⟨[("super", .class stored.parent)], []⟩]⟩, [0], #[[], [], [], []], 1, 0, ""⟩

theorem run_classes_stored :
    runAll (exec 0 9) stored.classes begun.machine = (.ok .normal, stored.machine) := by
  cbv

theorem passes_stored {M : Moment}
    (reaches : Reaches 0 ⟨.runTop 9 stored.rest, stored.machine⟩ M) :
    begun.Passes [.run stored] M := by
  have runs : (Move.run stored).task? begun = some (.program (stored.classes ++ stored.rest)) := by
    rw [Move.task?, accepted_stored, statements_stored]
    rfl
  exact ⟨[], .run stored, [], rfl, _, runs, (reaches_rest run_classes_stored).trans reaches⟩

/-- The initializer of `A`, bound to the instance of `B`. -/
def stored.bound : Closure :=
  ⟨2, some (identifier "init"), [identifier "x"], [], [4, 0], .initializer⟩

/-- The program comes to the creation, to the access and to the call, and each of them succeeds. -/
theorem reaches_stored : ∃ m₁ m₂ m₃ m₄ m₅ : Machine,
    Reaches 0 ⟨.runTop 9 stored.rest, stored.machine⟩ ⟨.eval 8 stored.creation, stored.machine⟩ ∧
    eval 0 8 stored.creation stored.machine = (.ok (.instance stored.object), m₁) ∧
    Reaches 0 ⟨.runTop 9 stored.rest, stored.machine⟩ ⟨.eval 8 stored.access, m₂⟩ ∧
    eval 0 7 (.variable ⟨identifier "b", none⟩) m₂ = (.ok (.instance stored.object), m₂) ∧
    m₂.field? stored.object.id initName = none ∧
    eval 0 8 stored.access m₂ = (.ok (.function stored.bound), m₃) ∧
    Reaches 0 ⟨.runTop 9 stored.rest, stored.machine⟩ ⟨.eval 8 stored.call, m₄⟩ ∧
    eval 0 7 (.variable ⟨identifier "i", none⟩) m₄ = (.ok (.function stored.bound), m₄) ∧
    eval 0 8 stored.call m₄ = (.ok (.instance stored.object), m₅) :=
  ⟨_, _, _, _, _, .head .topStatement <| .single (.value rfl), rfl,
    .head (.topStatements rfl trivial) <| .head .topStatement <|
    .single (.value rfl), rfl, rfl, rfl,
    .head (.topStatements rfl trivial) <| .head (.topStatements rfl trivial) <|
      .head .topStatement <| .single (.value rfl), rfl, rfl⟩

/-- The instance is one of `B`, although the initializer comes from `A`, and what was stored yields
it when it is called. -/
theorem calls_bind_and_construct_stored : (∀ move ∈ [Move.run stored], move.IsRegular) ∧
    ∃ m₄ m₅, begun.Passes [.run stored] ⟨.eval 8 stored.creation, stored.machine⟩ ∧
      (∃ o m, eval 0 8 stored.creation stored.machine = (.ok (.instance o), m) ∧
        o.cls = stored.heir) ∧
      begun.Reinitializes [.run stored] (.function stored.bound) (.instance stored.object) ∧
      begun.Passes [.run stored] ⟨.eval 8 stored.call, m₄⟩ ∧
      eval 0 8 stored.call m₄ = (.ok (.instance stored.object), m₅) := by
  have regular : ∀ move ∈ [Move.run stored], move.IsRegular := by simp [Move.IsRegular]
  obtain ⟨m₁, m₂, m₃, m₄, m₅, creation, created, access, object, field, accessed, call, callee,
    called⟩ := reaches_stored
  obtain ⟨-, constructs, initializers, -⟩ :=
    calls_bind_and_construct ⟨9, 0⟩ 0 [.run stored] regular
  obtain ⟨o, yields, cls, -⟩ :=
    constructs 7 _ _ _ _ stored.heir _ _ _ _ _ (passes_stored creation) rfl rfl created
  have stays : begun.Reinitializes [.run stored] (.function stored.bound)
      (.instance stored.object) := by
    rcases initializers 7 _ _ _ _ _ _ _ (passes_stored access) rfl object accessed with
      ⟨u, hides⟩ | stays
    · cases field.symm.trans hides
    · exact stays
  exact ⟨regular, m₄, m₅, passes_stored creation, ⟨o, m₁, yields ▸ created, cls⟩, stays,
    passes_stored call, called⟩

end Session

end LoxLang
