/-
LoxLang.Proofs.Session.Statics: what static methods are found, and where.

A program gets hold of values in many ways: they are in variables and fields, expressions yield
them, and they are handed to calls.  Every class that it gets hold of in any of them, or an instance
of which, was declared in the course of the history.  So the class has a metaclass that mirrors it,
and it is no metaclass itself.

* `Moment.Holds`, `Session.Holds`: the values that a program gets hold of.
* `Value.Involves`: the class that a value is, or is an instance of.
* `Value.inherited?`: the method behind a property that is no field.
* `Value.bindFound`: what becomes of a method that was found.

An access through `super` does not make the difference between the two sides: it searches the
methods of the superclass in a static method too.

Main statements: `statics_mirror_methods` and `super_searches_methods`.
-/
import LoxLang.Proofs.Machine.Metaclasses
import LoxLang.Proofs.Session.Owners

namespace LoxLang

/-! ## Values that a program gets hold of -/

/-- The value is there at the moment, or is what the moment yields. -/
inductive Moment.Holds (turns : Nat) : Moment → Value → Prop where
  | variable {M k x v} (slot : M.machine.store.slot? k x = some (.value v)) : Holds turns M v
  | field {M id x v} (field : M.machine.field? id x = some v) : Holds turns M v
  | yielded {n e m v m'} (run : eval turns n e m = (.ok v, m')) : Holds turns ⟨.eval n e, m⟩ v
  | returned {n s m v m'} (run : exec turns n s m = (.ok (.returned v), m')) :
    Holds turns ⟨.exec n s, m⟩ v
  | argument {n f arguments m v} (mem : v ∈ arguments) : Holds turns ⟨.call n f arguments, m⟩ v
  | object {method self m} : Holds turns ⟨.bind method self, m⟩ self
  | parent {n name superclass mixins methods statics m c}
      (parent : superclass = some c ∨ c ∈ mixins) :
    Holds turns ⟨.makeClass n name superclass mixins methods statics, m⟩ (.class c)

/-- The value is there in the course of a history: at one of its moments, or between two of its
moves. -/
inductive Session.Holds (s : Session) (history : List Move) : Value → Prop where
  | during {M v} (passes : s.Passes history M) (holds : M.Holds s.bounds.turns v) :
    Holds s history v
  | variable {before behind k x v} (split : history = before ++ behind)
    (slot : (s.after before).machine.store.slot? k x = some (.value v)) : Holds s history v
  | field {before behind id x v} (split : history = before ++ behind)
    (field : (s.after before).machine.field? id x = some v) : Holds s history v

/-- The value is the class or an instance of it. -/
def Value.Involves (v : Value) (c : Class) : Prop :=
  v = .class c ∨ ∃ o : Instance, v = .instance o ∧ o.cls = c

/-- The method behind a property of a value that is no field of it: for a class the static method of
the first class in its order that declares one, and for an instance the method of the first class in
the order of its class. -/
def Value.inherited? (v : Value) (name : String) : Option Closure :=
  match v with
  | .class c => c.order.findSome? (·.ownStatic name)
  | .instance o => o.cls.order.findSome? (·.ownMethod name)
  | _ => none

/-- The method that was found bound to the value, or the error that there is no such property. -/
def Value.bindFound (v : Value) (name : Token) : Option Closure → Run Closure
  | some method => bindMethod method v
  | none => throw (.runtime (some name) (.undefinedProperty name.lexeme))

section

variable {W : World} {M : Moment} {m m₁ : Machine} {v : Value} {c : Class}

theorem Moment.Sound.holds (lawful : W.Lawful) (sound : M.Sound W) (holds : M.Holds W.turns v) :
    ∃ m, v.Sound W m := by
  cases holds with
  | «variable» slot => exact ⟨_, sound.good.slots _ _ _ slot⟩
  | field field => exact ⟨_, sound.good.fields _ _ _ field⟩
  | @yielded n _ _ _ _ run => exact ⟨_, (((keeps lawful n).1 sound).ok run).2⟩
  | @returned n _ _ _ _ run => exact ⟨_, (((keeps lawful n).2 sound).ok run).2.1⟩
  | argument mem => exact ⟨_, sound.placed.2.2 _ mem⟩
  | object => exact ⟨_, sound.placed.2⟩
  | parent parent =>
    obtain ⟨_, _, _, _, _, _, _, _, _, _, _, _, parents, _⟩ := sound.placed
    exact ⟨_, parents _ parent⟩

/-- The class that a sound value involves was declared. -/
theorem Value.Sound.declared (sound : v.Sound W m) (involves : v.Involves c) :
    c.Declared W.passes := by
  rcases involves with rfl | ⟨o, rfl, rfl⟩
  · exact Class.Ready.declared sound
  · exact Class.Ready.declared sound.2

/-- Where a value looks for its methods. -/
theorem findMethod_of_receiver {r : Receiver} (mirrored : ∀ c, v.Involves c → c.IsMirrored)
    (receiver : v.receiver? = some r) (name : String) :
    ∃ d, r.cls = some d ∧ d.findMethod name = v.inherited? name := by
  cases v with
  | «class» c =>
    cases receiver
    have mirror := mirrored c (.inl rfl)
    obtain ⟨inner, isMeta, -⟩ := id mirror
    exact ⟨inner, isMeta, mirror.findMethod isMeta name⟩
  | «instance» o =>
    cases receiver
    exact ⟨o.cls, rfl, o.cls.findMethod_eq name⟩
  | _ => cases receiver

/-- A property that is no field is a method of the class of the holder. -/
theorem run_readProperty {r : Receiver} {name : Token} (field : m.field? r.id name.lexeme = none)
    (cls : r.cls = some c) :
    (readProperty v r name m : Except Failure Value × Machine) =
      (v.bindFound name (c.findMethod name.lexeme) >>= fun f => return .function f : Run Value)
        m := by
  obtain ⟨id, _⟩ := r
  cases cls
  have read : ((get : Run Machine) m : Except Failure Machine × Machine) = (.ok m, m) := rfl
  rw [readProperty, run_bind, read]
  simp only [field]
  cases c.findMethod name.lexeme <;> rfl

/-- A property that is no field is a method bound to the value, and is called if it is a getter. -/
theorem eval_get_of_no_field {turns n : Nat} {e : Expr Distance} {r : Receiver} {name : Token}
    (mirrored : ∀ c, v.Involves c → c.IsMirrored) (run : eval turns n e m = (.ok v, m₁))
    (receiver : v.receiver? = some r) (field : m₁.field? r.id name.lexeme = none) :
    (eval turns (n + 1) (.get e name) m : Except Failure Value × Machine) =
      (v.bindFound name (v.inherited? name.lexeme) >>= fun f =>
        callIfGetter (exec turns n) (.function f) : Run Value) m₁ := by
  obtain ⟨d, cls, found⟩ := findMethod_of_receiver mirrored receiver name.lexeme
  show ((eval turns n e >>= fun v => _) m : Except Failure Value × Machine) = _
  rw [run_bind, run]
  simp only [receiver]
  rw [run_bind, run_readProperty field cls, found, run_bind]
  cases v.inherited? name.lexeme <;> rfl

end

namespace Session

variable {history : List Move} {bounds : Bounds} {now : Clock} {v : Value} {c : Class}

/-- Every class that a program gets hold of, or an instance of which, was declared before. -/
theorem Holds.declared (holds : (start bounds now).Holds history v) (involves : v.Involves c) :
    c.Declared ((start bounds now).Passes history) := by
  let W := (start bounds now).world history fun _ _ => True
  have words : ∀ move ∈ history, move.Words fun _ _ => True := fun move _ => move.words_true
  have lawful : W.Lawful := lawful_world (numbered_after bounds now []) words
  have sound : ∃ m, v.Sound W m := by
    cases holds with
    | during passes holds => exact (sound_of_passes words passes).1.holds lawful holds
    | «variable» split slot =>
      exact ⟨_, (settled_after lawful (settled_start bounds now) _ _ split).good.slots _ _ _ slot⟩
    | field split field =>
      exact ⟨_, (settled_after lawful (settled_start bounds now) _ _ split).good.fields _ _ _ field⟩
  obtain ⟨m, sound⟩ := sound
  exact sound.declared involves

/-- Static methods mirror methods.  Whatever value a program gets hold of: the class that it is, or
is an instance of, has a metaclass with a mirrored order, and so have all classes in that order,
each of which came from a declaration; no such class is the metaclass of another one; and a property
that is no field of the value is a static method for a class, and a method for an instance, from the
first class in the order that declares one. -/
theorem statics_mirror_methods (bounds : Bounds) (now : Clock) (history : List Move) (v : Value)
    (holds : (start bounds now).Holds history v) :
    let s := start bounds now
    (∀ c, v.Involves c → c.IsMirrored ∧ ∀ d ∈ c.order, d.IsMirrored ∧
        ∃ n name superclass mixins methods statics m,
          s.Passes history ⟨.makeClass n name superclass mixins methods statics, m⟩ ∧
            d.superclass = superclass ∧ d.mixins = mixins ∧ d.Declares methods statics) ∧
      (∀ w c inner, s.Holds history w → w.Involves c → c.metaclass = some inner →
        ¬ v.Involves inner) ∧
      ∀ turns n e m m₁ r name, eval turns n e m = (.ok v, m₁) → v.receiver? = some r →
        m₁.field? r.id name.lexeme = none →
        (eval turns (n + 1) (.get e name) m : Except Failure Value × Machine) =
          (v.bindFound name (v.inherited? name.lexeme) >>= fun f =>
            callIfGetter (exec turns n) (.function f) : Run Value) m₁ := by
  intro s
  refine ⟨fun c involves => ?_, ?_, ?_⟩
  · have declared := holds.declared involves
    refine ⟨declared.mirror, fun d mem => ?_⟩
    have declared' := declared.of_mem_order d mem
    exact ⟨declared'.mirror, declared'.declares⟩
  · intro w c inner holds' involves' isMeta involves
    obtain ⟨inner', isMeta', last, -⟩ := (holds'.declared involves').mirror
    cases isMeta.symm.trans isMeta'
    obtain ⟨_, isMeta'', -⟩ := (holds.declared involves).mirror
    cases last.symm.trans isMeta''
  · intro turns n e m m₁ r name run receiver field
    exact eval_get_of_no_field
      (fun c involves => (holds.declared involves).mirror) run receiver field

/-! ## A class that inherits a static method -/

/-- A program with a method and a static method of one name, and an heir without either. -/
def twoSided : String :=
  "class A\x7bn()\x7b\x7dclass n()\x7bnil;\x7d\x7dclass B<A\x7bclass s()\x7bsuper.n;\x7d\x7dB.s();"

/-- The access through `super` in the static method of `B`. -/
def twoSided.superRead : Expr Distance :=
  .super ⟨⟨.superWord, "super", .nil, 1⟩, some 2⟩ (identifier "n")

def twoSided.declarations : List (Stmt Distance) :=
  [.classDecl (identifier "A") none [] [⟨identifier "n", [], [], false⟩]
      [⟨identifier "n", [], [.expression (.literal .nil)], false⟩],
    .classDecl (identifier "B") (some ⟨identifier "A", none⟩) [] []
      [⟨identifier "s", [], [.expression twoSided.superRead], false⟩]]

/-- The name of the class `B`. -/
def twoSided.heirRead : Expr Distance := .variable ⟨identifier "B", none⟩

def twoSided.staticCall : Stmt Distance :=
  .expression (.call (.get twoSided.heirRead (identifier "s")) ⟨.rightParen, ")", .nil, 1⟩ [])

theorem accepted_twoSided : (check twoSided begun).2.hadError = false := by
  cbv

theorem statements_twoSided :
    (begun.editionOf twoSided).statements = twoSided.declarations ++ [twoSided.staticCall] := by
  cbv

/-- The static method of `A`. -/
def twoSided.static : Closure :=
  ⟨1, some (identifier "n"), [], [.expression (.literal .nil)], [0], .plain⟩

def twoSided.parent : Class :=
  ⟨1, "A", none, [], [("n", ⟨0, some (identifier "n"), [], [], [0], .plain⟩)],
    some ⟨0, "A metaclass", none, [], [("n", twoSided.static)], none⟩⟩

def twoSided.heir : Class :=
  ⟨3, "B", some twoSided.parent, [], [],
    some ⟨2, "B metaclass", twoSided.parent.metaclass, [],
      [("s", ⟨2, some (identifier "s"), [], [.expression twoSided.superRead], [1, 0], .plain⟩)],
      none⟩⟩

/-- The machine behind the declarations. -/
def twoSided.machine : Machine :=
  ⟨⟨#[⟨[("clock", .clock), ("A", .class twoSided.parent), ("B", .class twoSided.heir)], []⟩,
      ⟨[("super", .class twoSided.parent)], []⟩]⟩, [0], #[[], [], [], []], 3, 0, ""⟩

theorem run_twoSided :
    runAll (exec 0 9) twoSided.declarations begun.machine = (.ok .normal, twoSided.machine) := by
  cbv

/-- What the program comes to behind its declarations. -/
theorem passes_twoSided {M : Moment}
    (reaches : Reaches 0 ⟨.runTop 9 [twoSided.staticCall], twoSided.machine⟩ M) :
    begun.Passes [.run twoSided] M := by
  have runs : (Move.run twoSided).task? begun =
      some (.program (twoSided.declarations ++ [twoSided.staticCall])) := by
    rw [Move.task?, accepted_twoSided, statements_twoSided]
    rfl
  exact ⟨[], .run twoSided, [], rfl, _, runs, (reaches_rest run_twoSided).trans reaches⟩

/-- The heir inherits the static method and not the method of the same name. -/
theorem statics_mirror_methods_inherited :
    begun.Holds [.run twoSided] (.class twoSided.heir) ∧ twoSided.heir.IsMirrored ∧
      (Value.class twoSided.heir).inherited? "n" = some twoSided.static ∧
      ∃ f m', eval 0 2 (.get twoSided.heirRead (identifier "n")) twoSided.machine =
        (.ok (.function f), m') ∧ f.body = twoSided.static.body := by
  have holds : begun.Holds [.run twoSided] (.class twoSided.heir) :=
    .during (passes_twoSided .refl)
      (.variable (show twoSided.machine.store.slot? 0 "B" = _ from rfl))
  obtain ⟨mirrored, -, properties⟩ :=
    statics_mirror_methods ⟨9, 0⟩ 0 [.run twoSided] (.class twoSided.heir) holds
  have inherited : (Value.class twoSided.heir).inherited? "n" = some twoSided.static := by
    cbv
  refine ⟨holds, (mirrored _ (.inl rfl)).1, inherited, ?_⟩
  have read := properties 0 1 twoSided.heirRead twoSided.machine twoSided.machine _ (identifier "n")
    rfl rfl rfl
  have name : (identifier "n").lexeme = "n" := rfl
  rw [read, name, inherited]
  exact ⟨_, _, rfl, rfl⟩

/-! ## `super` in static methods -/

section Regular

variable {n : Nat} {m : Machine}

theorem superFrames_of_passes (regular : ∀ move ∈ history, move.IsRegular)
    {ref : Reference Distance} {name : Token}
    (passes : (start bounds now).Passes history ⟨.eval n (.super ref name), m⟩) :
    ∃ owner c d, (start bounds now).OwnedBy history ⟨.eval n (.super ref name), m⟩ owner ∧
      owner.superclass = some c ∧ ref.mark = some d ∧
      m.store.readAt m.environment d superName (some ref.token) = .ok (.class c) ∧
      m.store.readAt m.environment (d - 1) thisName (some ref.token) = .ok owner.self := by
  obtain ⟨lawful, clean, ed, around, levels, e₀, w, stands, same⟩ :=
    exists_stands_regular regular passes
  cases e₀ with
  | super ref₀ name₀ =>
    cases same
    obtain ⟨owner, c, d, owns, superclass, mark, reads, object⟩ := stands.superFrames lawful clean
    exact ⟨owner, c, d, .of_stands (M := ⟨.eval n _, m⟩) stands rfl owns, superclass, mark, reads,
      object⟩
  | _ => cases same

end Regular

/-- In every member of a class, a static method or not, `super` searches the methods of the
superclass, and binds what it finds to the object of the member.  So in a static method it does not
find what the same access on the superclass would, which searches the static methods
(`Value.inherited?`). -/
theorem super_searches_methods (bounds : Bounds) (now : Clock) (history : List Move)
    (regular : ∀ move ∈ history, move.IsRegular) (n : Nat) (ref : Reference Distance) (name : Token)
    (m : Machine)
    (passes : (start bounds now).Passes history ⟨.eval (n + 1) (.super ref name), m⟩) :
    ∃ owner c d, (start bounds now).OwnedBy history ⟨.eval (n + 1) (.super ref name), m⟩ owner ∧
      owner.superclass = some c ∧ c.IsMirrored ∧ ref.mark = some d ∧
      m.store.readAt m.environment d superName (some ref.token) = .ok (.class c) ∧
      m.store.readAt m.environment (d - 1) thisName (some ref.token) = .ok owner.self ∧
      (eval bounds.turns (n + 1) (.super ref name) m : Except Failure Value × Machine) =
        (owner.self.bindFound name (c.order.findSome? (·.ownMethod name.lexeme)) >>= fun f =>
          return .function f : Run Value) m := by
  obtain ⟨owner, c, d, owned, superclass, mark, reads, object⟩ :=
    superFrames_of_passes regular passes
  have sound := (sound_of_passes (fun move _ => move.words_true) passes).1
  have ready : c.Ready _ m := sound_of_readAt sound.good reads
  have run := run_readSuper mark reads object name
  refine ⟨owner, c, d, owned, superclass, ready.declared.mirror, mark, reads, object, run.trans ?_⟩
  rw [Class.findMethod_eq]
  cases c.order.findSome? (·.ownMethod name.lexeme) <;> rfl

/-- In the call of the static method of `B`. -/
theorem reaches_superRead : ∃ m : Machine, m.environment = [3, 2, 1, 0] ∧
    m.store.readAt m.environment 2 superName (some ⟨.superWord, "super", .nil, 1⟩) =
      .ok (.class twoSided.parent) ∧
    m.store.readAt m.environment 1 thisName (some ⟨.superWord, "super", .nil, 1⟩) =
      .ok (.class twoSided.heir) ∧
    Reaches 0 ⟨.runTop 9 [twoSided.staticCall], twoSided.machine⟩ ⟨.eval 6 twoSided.superRead, m⟩ :=
  ⟨_, rfl, rfl, rfl, .head .topStatement <| .head (.value rfl) <| .head (.call rfl rfl rfl) <|
    .head (.body rfl) <| .head .statement <| .single (.value rfl)⟩

/-- In the only member of a class, which is static, the access through `super` yields the method of
the superclass, bound to the class, although the same access on the superclass finds a static
method. -/
theorem super_searches_methods_static :
    (∀ move ∈ [Move.run twoSided], move.IsRegular) ∧
      ∃ m, begun.Passes [.run twoSided] ⟨.eval 6 twoSided.superRead, m⟩ ∧
        ∃ owner f m', begun.OwnedBy [.run twoSided] ⟨.eval 6 twoSided.superRead, m⟩ owner ∧
          owner.superclass = some twoSided.parent ∧ owner.self = .class twoSided.heir ∧
          twoSided.heir.methods = [] ∧
          (Value.class twoSided.parent).inherited? "n" = some twoSided.static ∧
          eval 0 6 twoSided.superRead m = (.ok (.function f), m') ∧ f.body = [] ∧
          twoSided.static.body = [.expression (.literal .nil)] := by
  have regular : ∀ move ∈ [Move.run twoSided], move.IsRegular := by simp [Move.IsRegular]
  obtain ⟨m, _, superclass, object, reaches⟩ := reaches_superRead
  have passes := passes_twoSided reaches
  obtain ⟨owner, c, d, owned, isSuper, -, mark, reads, self, yields⟩ :=
    super_searches_methods ⟨9, 0⟩ 0 [.run twoSided] regular 5 _ _ m passes
  cases mark
  cases superclass.symm.trans reads
  have isSelf : owner.self = .class twoSided.heir := Except.ok.inj (self.symm.trans object)
  have found : twoSided.parent.order.findSome? (·.ownMethod (identifier "n").lexeme) =
      some ⟨0, some (identifier "n"), [], [], [0], .plain⟩ := by
    cbv
  rw [found, isSelf] at yields
  have inherited : (Value.class twoSided.parent).inherited? "n" = some twoSided.static := by
    cbv
  exact ⟨regular, m, passes, owner, _, _, owned, isSuper, isSelf, rfl, inherited, yields, rfl, rfl⟩

end Session

end LoxLang
