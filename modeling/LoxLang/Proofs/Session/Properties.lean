/-
LoxLang.Proofs.Session.Properties: what a property reads as once it was assigned.

All that code does in the course of a history stands on one timeline.  Along it a field keeps the
value that was assigned last, whatever else goes on, so that the property reads back as that value.
It makes no difference which methods the class of the object has.  One kind of value is not yielded
as it is: an access that comes upon a getter calls it, also where the getter is what was assigned.

* `Session.timeline`: all that code does in the course of a history.
* `Session.LastAssigned`: the last assignment of a property before the end of a call.
* `Value.IsGetter`: a value that an access calls.

Main statement: `property_reads_back`.
-/
import LoxLang.Proofs.Machine.Fields
import LoxLang.Proofs.Session.Statics

namespace LoxLang

/-- The value is a getter: an access to a property that comes upon it calls it. -/
def Value.IsGetter : Value → Prop
  | .function f => f.kind = .getter
  | _ => False

/-! ## Reading a field -/

section Reading

variable {turns n : Nat} {e : Expr Distance} {name : Token} {obj v : Value} {r : Receiver}
  {m m₁ m' : Machine}

theorem run_readProperty_field (obj : Value) (field : m.field? r.id name.lexeme = some v) :
    (readProperty obj r name m : Except Failure Value × Machine) = (.ok v, m) := by
  have read : ((get : Run Machine) m : Except Failure Machine × Machine) = (.ok m, m) := rfl
  rw [readProperty, run_bind, read]
  simp only [field]
  rfl

/-- A property that is a field yields the value of the field, unless that is a getter. -/
theorem eval_get_of_field (run : eval turns n e m = (.ok obj, m₁))
    (receiver : obj.receiver? = some r) (field : m₁.field? r.id name.lexeme = some v) :
    (eval turns (n + 1) (.get e name) m : Except Failure Value × Machine) =
      callIfGetter (exec turns n) v m₁ := by
  show ((eval turns n e >>= fun v => _) m : Except Failure Value × Machine) = _
  rw [run_bind, run]
  simp only [receiver]
  rw [run_bind, run_readProperty_field obj field]

theorem callIfGetter_of_not {exec : Stmt Distance → Run Completion} (plain : ¬ v.IsGetter) :
    callIfGetter exec v = pure v := by
  cases v with
  | function f => exact if_neg plain
  | _ => rfl

theorem getterCalls_of_not (plain : ¬ v.IsGetter) : getterCalls n v m = [] := by
  cases v with
  | function f => exact if_neg plain
  | _ => rfl

theorem calls_get_of_field (run : eval turns n e m = (.ok obj, m₁))
    (receiver : obj.receiver? = some r) (field : m₁.field? r.id name.lexeme = some v) :
    Moment.calls turns ⟨.eval (n + 1) (.get e name), m⟩ = ⟨.eval n e, m⟩ :: getterCalls n v m₁ := by
  simp [Moment.calls, Expr.calls, Expr.first?, onward_ok run, Expr.laterCalls, receiver,
    onward_ok (run_readProperty_field obj field)]

/-- The property that another machine has the same field for, or no field either, reads alike. -/
theorem readProperty_congr {fields : Array (List (String × Value))}
    (same : ({ m with fields := fields } : Machine).field? r.id name.lexeme =
      m.field? r.id name.lexeme) :
    (readProperty obj r name { m with fields := fields } : Except Failure Value × Machine).1 =
      (readProperty obj r name m).1 := by
  have read : ∀ m, ((get : Run Machine) m : Except Failure Machine × Machine) = (.ok m, m) :=
    fun _ => rfl
  simp only [readProperty, run_bind, read, same]
  cases m.field? r.id name.lexeme with
  | some v => rfl
  | none =>
    cases r.cls with
    | none => rfl
    | some c => 
      dsimp only
      cases c.findMethod name.lexeme <;> rfl

end Reading

/-! ## Setting a field -/

/-- The machine has another value for one field of an object, and is the same apart from that.  All
other properties of the object, and all properties of other objects, read as before. -/
structure Machine.Stores (m : Machine) (id : ObjectId) (x : String) (v : Value) (m' : Machine) :
    Prop where
  rest : m' = { m with fields := m'.fields }
  field : m'.field? id x = some v
  fields : ∀ id' x', id' ≠ id ∨ x' ≠ x → m'.field? id' x' = m.field? id' x'
  properties : ∀ obj r name, obj.receiver? = some r → r.id ≠ id ∨ name.lexeme ≠ x →
    (readProperty obj r name m' : Except Failure Value × Machine).1 = (readProperty obj r name m).1

theorem stores_writeField {m : Machine} {id : ObjectId} (born : id < m.fields.size) (x : String)
    (v : Value) : m.Stores id x v { m with fields := m.fields.modify id (putEntry x v) } := by
  have others : ∀ id' x', id' ≠ id ∨ x' ≠ x →
      ({ m with fields := m.fields.modify id (putEntry x v) } : Machine).field? id' x' =
        m.field? id' x' := by
    intro id' x' apart
    rw [field?_writeField]
    refine if_neg fun same => ?_
    exact apart.elim (fun ne => ne same.1) fun ne => ne same.2.1
  refine ⟨rfl, ?_, others, fun obj r name _ apart => readProperty_congr (others _ _ apart)⟩
  rw [field?_writeField]
  exact if_pos ⟨rfl, rfl, born⟩

/-! ## The timeline of a history -/

section Task

variable {task : Task} {n : Nat} {m : Machine}

theorem Task.runsCode_root : (task.root n m).activity.RunsCode := by
  cases task <;> exact trivial

theorem Task.machine_root : (task.root n m).machine = m := by
  cases task <;> rfl

/-- A run ends with what its first call leaves. -/
theorem Task.after_root (bounds : Bounds) :
    (task.root bounds.nesting m).after bounds.turns =
      (task.run bounds m : Except Failure Unit × Machine).2 := by
  cases task with
  | program ss =>
    exact (machine_catchOverflow none (runStatements (exec bounds.turns bounds.nesting) ss) m).symm
  | expression e =>
    have same : (eval bounds.turns bounds.nesting e m : Except Failure Value × Machine).2 =
        (runExpression bounds e m : Except Failure Value × Machine).2 :=
      (machine_catchOverflow none (eval bounds.turns bounds.nesting e) m).symm
    refine same.trans ?_
    rw [run, run_bind]
    rcases (runExpression bounds e m : Except Failure Value × Machine) with ⟨_ | v, m₁⟩ <;> rfl

end Task

namespace Session

variable {s : Session} {history : List Move} {M : Moment} {t : Instant}

/-- All that code does in the course of a history, in order. -/
def timeline (s : Session) : List Move → List Instant
  | [] => []
  | move :: moves =>
    match move.task? s with
    | none => timeline (move.play s).2 moves
    | some task => (task.root s.bounds.nesting s.machine).timeline s.bounds.turns ++
        timeline (move.play s).2 moves

theorem passes_cons {move : Move} {moves : List Move} :
    s.Passes (move :: moves) M ↔ s.Runs move M ∨ (move.play s).2.Passes moves M := by
  constructor
  · rintro ⟨before, move', behind, split, runs⟩
    cases before with
    | nil =>
      cases split
      exact .inl runs
    | cons first before =>
      cases split
      exact .inr ⟨before, move', behind, rfl, runs⟩
  · rintro (runs | ⟨before, move', behind, rfl, runs⟩)
    · exact ⟨[], move, moves, rfl, runs⟩
    · exact ⟨move :: before, move', behind, rfl, runs⟩

/-- The timeline has the moments of the history at which code is run, their beginnings and their
ends. -/
theorem mem_timeline_iff : t ∈ s.timeline history ↔
    s.Passes history t.moment ∧ t.moment.activity.RunsCode := by
  induction history generalizing s with
  | nil => 
    refine ⟨fun mem => (by cases mem), ?_⟩
    rintro ⟨⟨before, _, _, split, _⟩, _⟩
    cases before <;> cases split
  | cons move moves ih =>
    rw [passes_cons, timeline, or_and_right, ← ih]
    cases runs : move.task? s with
    | none => simp [Runs, runs]
    | some task => simp [Runs, runs, LoxLang.mem_timeline_iff task.runsCode_root]

/-- What code does at a moment of the history takes a stretch of the timeline. -/
theorem stretch_of_passes (passes : s.Passes history M) (code : M.activity.RunsCode) :
    M.timeline s.bounds.turns <:+: s.timeline history := by
  induction history generalizing s with
  | nil =>
    obtain ⟨before, _, _, split, _⟩ := passes
    cases before <;> cases split
  | cons move moves ih =>
    rw [timeline]
    rcases passes_cons.mp passes with ⟨task, runs, reaches⟩ | passes
    · rw [runs]
      exact (stretch_of_reaches reaches code).trans (List.prefix_append _ _).isInfix
    · have inside := ih passes
      rw [(s.played move).bounds] at inside
      split
      · exact inside
      · exact inside.trans (List.suffix_append _ _).isInfix

/-- What leads from one instant to the next along the timelines of runs, and to a run that begins
where another one ended, leads along the timeline of a history. -/
theorem chain_history {Next : Instant → Instant → Prop}
    (runs : ∀ M : Moment, (M.timeline s.bounds.turns).IsChain Next)
    (begins : ∀ t M, (t.machine s.bounds.turns).Calm M.machine → Next t (.began M))
    (calm : (t.machine s.bounds.turns).Calm s.machine) :
    (t :: s.timeline history).IsChain Next := by
  induction history generalizing s t with
  | nil => simp [timeline]
  | cons move moves ih =>
    have played := s.played move
    have later : ∀ {t : Instant}, (t.machine s.bounds.turns).Calm (move.play s).2.machine →
        (t :: (move.play s).2.timeline moves).IsChain Next := by
      rw [← played.bounds] at runs begins ⊢
      exact ih runs begins
    rw [timeline]
    cases task? : move.task? s with
    | none =>
      have alike := (played.idle task?).2
      exact later (calm.trans (.of_eq alike.store alike.fields))
    | some task =>
      have begun : Next t (.began (task.root s.bounds.nesting s.machine)) :=
        begins _ _ (task.machine_root.symm ▸ calm)
      have ends := later (t := .ended (task.root s.bounds.nesting s.machine)) <| by
        rw [Instant.machine, task.after_root]
        have alike := (played.ran task task?).2
        exact .of_eq alike.store alike.fields
      have run := runs (task.root s.bounds.nesting s.machine)
      dsimp only
      rw [Moment.timeline_eq] at run ⊢
      refine List.isChain_cons.mpr ⟨fun u is => ?_, ?_⟩
      · cases is
        exact begun
      · exact run.append_overlap ends (by simp)

/-- The last assignment of a property before the end of a call stored the value. -/
def LastAssigned (s : Session) (history : List Move) (id : ObjectId) (x : String) (v : Value)
    (M : Moment) : Prop :=
  ∃ A between, .ended A :: between <:+: s.timeline history ∧ A.Assigns s.bounds.turns id x v ∧
    (∀ t ∈ between, ¬ t.Assigns s.bounds.turns id x) ∧ .ended M ∈ .ended A :: between

variable {bounds : Bounds} {now : Clock} {id : ObjectId} {x : String} {v : Value}

/-- The number of an object that a program gets hold of was given out. -/
theorem born_of_sound {W : World} {m : Machine} {obj : Value} {r : Receiver} (sound : obj.Sound W m)
    (receiver : obj.receiver? = some r) : r.id < m.fields.size := by
  cases obj with
  | «class» c =>
    cases receiver
    exact sound.born
  | «instance» o =>
    cases receiver
    exact sound.1
  | _ => cases receiver

/-- An assignment finds its object among those whose numbers were given out. -/
theorem born_of_passes {n : Nat} {e value : Expr Distance} {name : Token} {m m₁ m₂ : Machine}
    {obj : Value} {r : Receiver}
    (passes : (start bounds now).Passes history ⟨.eval (n + 1) (.set e name value), m⟩)
    (run : eval bounds.turns n e m = (.ok obj, m₁)) (receiver : obj.receiver? = some r)
    (run₁ : eval bounds.turns n value m₁ = (.ok v, m₂)) : r.id < m₂.fields.size := by
  let W := (start bounds now).world history fun _ _ => True
  have words : ∀ move ∈ history, move.Words fun _ _ => True := fun move _ => move.words_true
  have lawful : W.Lawful := lawful_world (numbered_after bounds now []) words
  have sound : Moment.Sound W _ := (sound_of_passes words passes).1
  have starts : Starts W.turns ⟨.eval (n + 1) (.set e name value), m⟩ ⟨.eval n value, m₁⟩ :=
    .second rfl run (by simp [Expr.second?, receiver])
  obtain ⟨_, object⟩ := (keeps_first lawful (keeps lawful n).1 sound rfl).ok run
  obtain ⟨kept, _⟩ := ((keeps lawful n).1 (sound.starts lawful starts).1).ok run₁
  exact Nat.lt_of_lt_of_le (born_of_sound object receiver) kept.grows.objects

/-- An assignment of a property that a history passes yields its value and stores it. -/
theorem stores_of_passes {n : Nat} {e value : Expr Distance} {name : Token} {m m₁ m₂ : Machine}
    {obj : Value} {r : Receiver}
    (passes : (start bounds now).Passes history ⟨.eval (n + 1) (.set e name value), m⟩)
    (run : eval bounds.turns n e m = (.ok obj, m₁)) (receiver : obj.receiver? = some r)
    (run₁ : eval bounds.turns n value m₁ = (.ok v, m₂)) :
    ∃ m₃, eval bounds.turns (n + 1) (.set e name value) m = (.ok v, m₃) ∧
      m₂.Stores r.id name.lexeme v m₃ :=
  ⟨_, run_set run receiver run₁,
    stores_writeField (born_of_passes passes run receiver run₁) name.lexeme v⟩

theorem follows_timeline (bounds : Bounds) (now : Clock) (history : List Move) :
    ((start bounds now).timeline history).IsChain (Instant.Follows bounds.turns) := by
  let first : Instant := .began ⟨.runTop 0 [], (start bounds now).machine⟩
  have follows : (first :: (start bounds now).timeline history).IsChain _ :=
    chain_history (LoxLang.follows_timeline bounds.turns)
      (fun _ _ calm id x => .inr (calm.fields id x)) (.refl _)
  exact follows.tail

/-- Once a property was assigned, and before it is assigned again, its field has the value. -/
theorem LastAssigned.field (last : (start bounds now).LastAssigned history id x v M) :
    (M.after bounds.turns).field? id x = some v := by
  obtain ⟨A, between, stretch, assigns, unassigned, ended⟩ := last
  have passes : (start bounds now).Passes history A :=
    (mem_timeline_iff.mp (stretch.subset List.mem_cons_self)).1
  obtain ⟨before, behind, line⟩ := stretch
  have follows := follows_timeline bounds now history
  rw [← line] at follows
  have kept := field?_of_follows follows.left_of_append.right_of_append unassigned ended
  refine kept.trans ?_
  cases assigns with
  | intro run receiver run₁ =>
    obtain ⟨m₃, run₂, stores⟩ := stores_of_passes passes run receiver run₁
    rw [Instant.machine, Moment.after]
    dsimp only
    rw [run₂]
    exact stores.field

/-- A property reads back what was assigned.  Everything that runs code in the course of a history
has its place on the timeline.  An assignment of a property yields the value and changes nothing but
that property of that object.  Behind its end and up to the end of the next assignment of the
property, an access whose object has been evaluated yields exactly the value, whatever methods the
class of the object has: it makes no call beside the evaluation of the object, and leaves the
machine as that did.  Only if the value is a getter, it is called without arguments instead. -/
theorem property_reads_back (bounds : Bounds) (now : Clock) (history : List Move) :
    let s := start bounds now
    (∀ t, t ∈ s.timeline history ↔ s.Passes history t.moment ∧ t.moment.activity.RunsCode) ∧
      (∀ n e name value m obj m₁ r v m₂,
        s.Passes history ⟨.eval (n + 1) (.set e name value), m⟩ →
        eval bounds.turns n e m = (.ok obj, m₁) → obj.receiver? = some r →
        eval bounds.turns n value m₁ = (.ok v, m₂) →
        ∃ m₃, eval bounds.turns (n + 1) (.set e name value) m = (.ok v, m₃) ∧
          m₂.Stores r.id name.lexeme v m₃) ∧
      ∀ n e name m obj m₁ r v, s.LastAssigned history r.id name.lexeme v ⟨.eval n e, m⟩ →
        eval bounds.turns n e m = (.ok obj, m₁) → obj.receiver? = some r →
        (¬ v.IsGetter → eval bounds.turns (n + 1) (.get e name) m = (.ok v, m₁) ∧
          Moment.calls bounds.turns ⟨.eval (n + 1) (.get e name), m⟩ = [⟨.eval n e, m⟩]) ∧
        ∀ f, v = .function f → f.kind = .getter →
          eval bounds.turns (n + 1) (.get e name) m =
            callClosure (exec bounds.turns n) f [] m₁ := by
  intro s
  refine ⟨fun t => mem_timeline_iff, ?_, ?_⟩
  · intro n e name value m obj m₁ r v m₂ passes run receiver run₁
    exact stores_of_passes passes run receiver run₁
  · intro n e name m obj m₁ r v last run receiver
    have field := last.field
    rw [Moment.after] at field
    dsimp only at field
    rw [run] at field
    have read := eval_get_of_field run receiver field
    refine ⟨fun plain => ⟨?_, ?_⟩, ?_⟩
    · rw [read, callIfGetter_of_not plain]
      rfl
    · rw [calls_get_of_field run receiver field, getterCalls_of_not plain]
    · rintro f rfl kind
      rw [read, callIfGetter, if_pos kind]

/-! ## A field that hides a method -/

/-- Behind a statement that assigns a property, and in front of one that reads a property of a
variable, the assignment is the last one. -/
theorem lastAssigned_of_statements {n : Nat} {e value : Expr Distance} {name other : Token}
    {ref : Reference Distance} {ss : List (Stmt Distance)} {m m' : Machine}
    (passes : s.Passes history ⟨.runTop (n + 2) (.expression (.set e name value) ::
      .expression (.get (.variable ref) other) :: ss), m⟩)
    (assigns : Moment.Assigns s.bounds.turns ⟨.eval (n + 1) (.set e name value), m⟩ id x v)
    (run : eval s.bounds.turns (n + 1) (.set e name value) m = (.ok v, m')) :
    s.LastAssigned history id x v ⟨.eval n (.variable ref), m'⟩ := by
  let A : Moment := ⟨.eval (n + 1) (.set e name value), m⟩
  let X : Moment := ⟨.exec (n + 2) (.expression (.set e name value)), m⟩
  let R : Moment := ⟨.runTop (n + 2) (.expression (.get (.variable ref) other) :: ss), m'⟩
  let Y : Moment := ⟨.exec (n + 2) (.expression (.get (.variable ref) other)), m'⟩
  let G : Moment := ⟨.eval (n + 1) (.get (.variable ref) other), m'⟩
  let V : Moment := ⟨.eval n (.variable ref), m'⟩
  have only : X.calls s.bounds.turns = [] ++ [A] := by
    simp [X, A, Moment.calls, Stmt.calls, Stmt.first?, Stmt.branch?, onward_nothing]
  have ran : exec s.bounds.turns (n + 2) (.expression (.set e name value)) m =
      (.ok .normal, m') := by
    refine (run_bind _ _ m).trans ?_
    rw [run]
    rfl
  have both : Moment.calls s.bounds.turns ⟨.runTop (n + 2) (.expression (.set e name value) ::
      .expression (.get (.variable ref) other) :: ss), m⟩ = [] ++ X :: R :: [] := by
    have stays : Completion.normal.Stays := trivial
    simp [X, R, Moment.calls, onward_ok ran, stays]
  have left : [.ended A] ++ [.ended X] <:+ X.timeline s.bounds.turns :=
    ended_timeline only (ends_timeline _ A)
  have reads : V.timeline s.bounds.turns = [.began V, .ended V] := by
    rw [Moment.timeline_eq]
    cases n <;> rfl
  have right : .began R :: .began Y :: .began G :: [.began V, .ended V] <+:
      R.timeline s.bounds.turns := by
    rw [← reads]
    exact began_timeline rfl (began_timeline rfl (began_timeline rfl (List.prefix_refl _)))
  have stretch : [.ended A] ++ [.ended X] ++ [.began R, .began Y, .began G, .began V, .ended V] <:+:
      s.timeline history :=
    (consecutive_timeline both left right).trans (stretch_of_passes passes trivial)
  refine ⟨A, [.ended X, .began R, .began Y, .began G, .began V, .ended V], stretch, assigns, ?_,
    by simp [V]⟩
  rintro t mem ⟨M, w, rfl, assigns⟩
  have ends : M = ⟨.exec (n + 2) (.expression (.set e name value)), m⟩ ∨
      M = ⟨.eval n (.variable ref), m'⟩ := by simpa using mem
  rcases ends with rfl | rfl
  · cases assigns
  · cases assigns

/-- A program in which a field hides a getter of the class, and another field holds that getter. -/
def keeper : String :=
  "class A\x7bg\x7breturn true;\x7d\x7dclass B<A\x7bm()\x7breturn super.g;\x7d\x7d" ++
    "var b=B();b.g=nil;b.g;b.f=b.m();b.f;"

def keeper.paren : Token := ⟨.rightParen, ")", .nil, 1⟩

/-- The body of the getter of `A`. -/
def keeper.getterBody : List (Stmt Distance) :=
  [.ret ⟨.returnWord, "return", .nil, 1⟩ (some (.literal (.bool true)))]

/-- The body of the method of `B`, which yields the getter of `A`. -/
def keeper.methodBody : List (Stmt Distance) :=
  [.ret ⟨.returnWord, "return", .nil, 1⟩
    (some (.super ⟨⟨.superWord, "super", .nil, 1⟩, some 2⟩ (identifier "g")))]

def keeper.declarations : List (Stmt Distance) :=
  [.classDecl (identifier "A") none [] [⟨identifier "g", [], keeper.getterBody, true⟩] [],
    .classDecl (identifier "B") (some ⟨identifier "A", none⟩) []
      [⟨identifier "m", [], keeper.methodBody, false⟩] [],
    .var (identifier "b") (some (.call (.variable ⟨identifier "B", none⟩) keeper.paren []))]

def keeper.read : Expr Distance := .variable ⟨identifier "b", none⟩

/-- The field hides the getter. -/
def keeper.hiding : List (Stmt Distance) :=
  [.expression (.set keeper.read (identifier "g") (.literal .nil)),
    .expression (.get keeper.read (identifier "g"))]

/-- The field holds the getter. -/
def keeper.holding : List (Stmt Distance) :=
  [.expression (.set keeper.read (identifier "f")
      (.call (.get keeper.read (identifier "m")) keeper.paren [])),
    .expression (.get keeper.read (identifier "f"))]

theorem accepted_keeper : (check keeper begun).2.hadError = false := by
  cbv

theorem statements_keeper : (begun.editionOf keeper).statements =
    keeper.declarations ++ (keeper.hiding ++ keeper.holding) := by
  cbv

/-- The getter of `A`. -/
def keeper.getter : Closure := ⟨0, some (identifier "g"), [], keeper.getterBody, [0], .getter⟩

def keeper.parent : Class :=
  ⟨1, "A", none, [], [("g", keeper.getter)], some ⟨0, "A metaclass", none, [], [], none⟩⟩

def keeper.heir : Class :=
  ⟨3, "B", some keeper.parent, [],
    [("m", ⟨1, some (identifier "m"), [], keeper.methodBody, [1, 0], .plain⟩)],
    some ⟨2, "B metaclass", keeper.parent.metaclass, [], [], none⟩⟩

def keeper.object : Value := .instance ⟨4, keeper.heir⟩

/-- The machine behind the declarations, with those fields of the object. -/
def keeper.machine (entries : List (String × Value)) : Machine :=
  ⟨⟨#[⟨[("clock", .clock), ("A", .class keeper.parent), ("B", .class keeper.heir),
        ("b", keeper.object)], []⟩,
      ⟨[("super", .class keeper.parent)], []⟩]⟩, [0], #[[], [], [], [], entries], 2, 0, ""⟩

/-- The getter as the method of `B` yields it. -/
def keeper.bound : Closure := { keeper.getter with id := 3, environment := [4, 0] }

/-- The machine behind the last assignment. -/
def keeper.last : Machine :=
  ⟨⟨(keeper.machine []).store.frames ++ #[⟨[("this", keeper.object)], []⟩, .empty,
      ⟨[("this", keeper.object)], []⟩]⟩, [0],
    #[[], [], [], [], [("g", .nil), ("f", .function keeper.bound)]], 4, 0, ""⟩

theorem run_declarations_keeper :
    runAll (exec 0 9) keeper.declarations begun.machine = (.ok .normal, keeper.machine []) := by
  cbv

theorem run_hiding_keeper : runAll (exec 0 9) keeper.hiding (keeper.machine []) =
    (.ok .normal, keeper.machine [("g", .nil)]) := by
  cbv

theorem passes_keeper {M : Moment}
    (reaches : Reaches 0 ⟨.runTop 9 (keeper.hiding ++ keeper.holding), keeper.machine []⟩ M) :
    begun.Passes [.run keeper] M := by
  have runs : (Move.run keeper).task? begun =
      some (.program (keeper.declarations ++ (keeper.hiding ++ keeper.holding))) := by
    rw [Move.task?, accepted_keeper, statements_keeper]
    rfl
  exact ⟨[], .run keeper, [], rfl, _, runs, (reaches_rest run_declarations_keeper).trans reaches⟩

/-- The field is read, although the class has a getter of that name. -/
theorem property_reads_back_hiding :
    keeper.object.inherited? "g" = some keeper.getter ∧
      begun.LastAssigned [.run keeper] 4 "g" .nil
        ⟨.eval 7 keeper.read, keeper.machine [("g", .nil)]⟩ ∧
      eval 0 8 (.get keeper.read (identifier "g")) (keeper.machine [("g", .nil)]) =
        (.ok .nil, keeper.machine [("g", .nil)]) := by
  have last : begun.LastAssigned [.run keeper] 4 "g" .nil
      ⟨.eval 7 keeper.read, keeper.machine [("g", .nil)]⟩ :=
    lastAssigned_of_statements (passes_keeper .refl)
      (.intro (r := ⟨4, some keeper.heir⟩) rfl rfl rfl) rfl
  have inherited : keeper.object.inherited? "g" = some keeper.getter := by
    cbv
  obtain ⟨-, -, reads⟩ := property_reads_back ⟨9, 0⟩ 0 [.run keeper]
  obtain ⟨plain, -⟩ :=
    reads 7 keeper.read (identifier "g") _ _ _ ⟨4, some keeper.heir⟩ .nil last rfl rfl
  exact ⟨inherited, last, (plain id).1⟩

/-- The field that holds a getter does not read back as that: the access calls the getter. -/
theorem held_getter_called :
    begun.LastAssigned [.run keeper] 4 "f" (.function keeper.bound)
        ⟨.eval 7 keeper.read, keeper.last⟩ ∧
      eval 0 7 keeper.read keeper.last = (.ok keeper.object, keeper.last) ∧
      (∃ m, eval 0 8 (.get keeper.read (identifier "f")) keeper.last = (.ok (.bool true), m)) ∧
      eval 0 8 (.get keeper.read (identifier "f")) keeper.last ≠
        (.ok (.function keeper.bound), keeper.last) := by
  have rest : Reaches 0 ⟨.runTop 9 (keeper.hiding ++ keeper.holding), keeper.machine []⟩
      ⟨.runTop 9 keeper.holding, keeper.machine [("g", .nil)]⟩ := reaches_rest run_hiding_keeper
  have called : ∃ m, eval 0 8 (.get keeper.read (identifier "f")) keeper.last =
      (.ok (.bool true), m) := ⟨_, rfl⟩
  have last : begun.LastAssigned [.run keeper] 4 "f" (.function keeper.bound)
        ⟨.eval 7 keeper.read, keeper.last⟩ :=
    lastAssigned_of_statements (passes_keeper rest)
      (.intro (r := ⟨4, some keeper.heir⟩) rfl rfl rfl) rfl
  refine ⟨last, rfl, called, ?_⟩
  obtain ⟨m, read⟩ := called
  rw [read]
  intro same
  cases same

end Session

end LoxLang
