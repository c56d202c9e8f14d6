/-
LoxLang.Proofs.Machine.Statements: what the execution of a statement keeps.

A statement that declares a name leaves it behind in the current frame, with a value or without.
Branches and loop bodies declare nothing, so that what stands behind them needs nothing of them.

Main statements: `keeps_execForm`, for one level of a statement, and `keeps`, for whole trees.
-/
import LoxLang.Proofs.Machine.Expressions

namespace LoxLang

variable {W : World} {m m₁ m₂ : Machine} {n : Nat}

/-! ## Declarations -/

theorem Stands.alive {ed : Edition} {v : Visit} (h : Stands W m ed v) :
    innermost m.environment < m.store.frames.size := by
  obtain ⟨k, outer, cons⟩ := h.frames.mirrors.exists_cons
  have alive := h.frames.alive k
  rw [cons] at alive ⊢
  exact alive List.mem_cons_self

theorem ends_declareHere {name : String} (good : m.Good W)
    (alive : innermost m.environment < m.store.frames.size)
    (apart : W.Plain → name ≠ thisName ∧ name ≠ superName) :
    Ends (declareHere name) m
      (fun _ m' => Kept W m m' ∧ m'.store.contains (innermost m.environment) name = true)
      (fun _ _ => False) := by
  have grows : Grows W m
      { m with store := m.store.put (innermost m.environment) name .uninitialized } :=
    .named m _ apart
  exact ⟨.put good grows (fun v no => by cases no),
    m.store.contains_put_self alive name .uninitialized⟩

theorem ends_defineHere {name : String} {v : Value} (good : m.Good W) (sound : v.Sound W m)
    (alive : innermost m.environment < m.store.frames.size)
    (apart : W.Plain → name ≠ thisName ∧ name ≠ superName) :
    Ends (defineHere name v) m
      (fun _ m' => Kept W m m' ∧ m'.store.contains (innermost m.environment) name = true)
      (fun _ _ => False) :=
  ⟨.define good _ sound apart, m.store.contains_put_self alive name (.value v)⟩

/-- A name that a statement declares in a program is not the word for the object or the
superclass. -/
theorem apart_of_placed {s : Stmt Distance} {x : String} (lawful : W.Lawful)
    (placed : (Activity.exec n s).Placed W m) (mem : x ∈ s.introduces) :
    W.Plain → x ≠ thisName ∧ x ≠ superName := by
  intro plain
  obtain ⟨ed, around, levels, s₀, w, stands, rfl⟩ := placed_exec placed
  rw [introduces_map] at mem
  obtain ⟨t, word, rfl⟩ := named_introduces (stands.sound lawful).formed x mem
  exact plain.identifiers t word

theorem alive_of_placed {s : Stmt Distance} (placed : (Activity.exec n s).Placed W m) :
    innermost m.environment < m.store.frames.size := by
  obtain ⟨_, _, _, _, _, stands, _⟩ := placed_exec placed
  exact stands.alive

/-- Branches and loop bodies are closed. -/
theorem closed_of_placed {s : Stmt Distance} (lawful : W.Lawful)
    (placed : (Activity.exec n s).Placed W m) :
    (∀ c t e, s = .ifElse c t e → s.introduces = []) ∧
      ∀ c b, s = .whileLoop c b → s.introduces = [] := by
  obtain ⟨ed, around, levels, s₀, w, stands, rfl⟩ := placed_exec placed
  have formed := (formed_mapStmt ed.table.get? s₀).mpr (stands.sound lawful).formed
  refine ⟨fun c t e same => ?_, fun c b same => ?_⟩
  · rw [same] at formed ⊢
    cases e with
    | none => exact formed.2.2
    | some e =>
      have closed : t.introduces ++ e.introduces = [] := by
        rw [formed.2.1.2, formed.2.2.2]
        rfl
      exact closed
  · rw [same] at formed ⊢
    exact formed.2.2

/-! ## Parts -/

/-- What a statement ends with. -/
abbrev Settles (W : World) (n : Nat) (m : Machine) (s : Stmt Distance) (act : Run Completion)
    (m₁ : Machine) : Prop :=
  Ends act m₁
    (fun completion m' => Kept W m m' ∧ completion.Sound W m' ∧
      ∀ x ∈ s.introduces, m'.store.contains (innermost m.environment) x = true)
    (Fine W ⟨.exec (n + 1) s, m⟩)

theorem keeps_value (lawful : W.Lawful) (evals : KeepsEval W n) {s : Stmt Distance}
    {e : Expr Distance} (sound : Moment.Sound W ⟨.exec (n + 1) s, m⟩) (part : s.first? = some e) :
    Ends (eval W.turns n e) m (fun v m' => Kept W m m' ∧ v.Sound W m')
      (Fine W ⟨.exec (n + 1) s, m⟩) :=
  (evals (sound_value lawful sound part)).mono (fun _ _ _ post => post) fun _ _ fine =>
    .of_first (.value part) fine

theorem keeps_ifElse (lawful : W.Lawful) (evals : KeepsEval W n) (execs : KeepsExec W n)
    {c : Expr Distance} {t : Stmt Distance} {e : Option (Stmt Distance)}
    (sound : Moment.Sound W ⟨.exec (n + 1) (.ifElse c t e), m⟩) :
    Settles W n m (.ifElse c t e)
      (execForm W.turns n (eval W.turns n) (exec W.turns n) (.ifElse c t e)) m := by
  have closed := (closed_of_placed lawful sound.placed).1 c t e rfl
  refine (keeps_value lawful evals sound rfl).bind (fun v m₁ run post => ?_) fun _ _ fine => fine
  obtain ⟨kept, _⟩ := post
  have branch : ∀ {t'}, (Stmt.ifElse c t e).branch? v = some t' →
      Settles W n m (.ifElse c t e) (exec W.turns n t') m₁ := by
    intro t' chosen
    have starts : Starts W.turns ⟨.exec (n + 1) (.ifElse c t e), m⟩ ⟨.exec n t', m₁⟩ :=
      .branch rfl run chosen
    have done := execs (sound_branch lawful sound kept rfl run chosen)
    refine done.mono (fun completion m' _ post => ⟨kept.trans post.1, post.2.1, ?_⟩)
      fun failure m' fine => .of_starts kept starts fine
    rw [closed]
    exact fun x mem => absurd mem List.not_mem_nil
  cases holds : v.isTruthy with
  | true => exact branch (by simp [Stmt.branch?, holds])
  | false =>
    cases e with
    | none =>
      refine ⟨kept, trivial, ?_⟩
      rw [closed]
      exact fun x mem => absurd mem List.not_mem_nil
    | some e => exact branch (by simp [Stmt.branch?, holds])

theorem keeps_whileLoop (lawful : W.Lawful) (evals : KeepsEval W n) (execs : KeepsExec W n)
    {c : Expr Distance} {b : Stmt Distance}
    (sound : Moment.Sound W ⟨.exec (n + 1) (.whileLoop c b), m⟩) :
    Settles W n m (.whileLoop c b) (iterate (eval W.turns n c) (exec W.turns n b) W.turns) m := by
  have closed := (closed_of_placed lawful sound.placed).2 c b rfl
  have loop := keeps_iterate lawful evals execs (sound_loop lawful sound)
  refine loop.mono (fun completion m' _ post => ⟨post.1, post.2, ?_⟩) fun failure m' fine =>
    .of_first .loop fine
  rw [closed]
  exact fun x mem => absurd mem List.not_mem_nil

theorem keeps_block (lawful : W.Lawful) (execs : KeepsExec W n) {body : List (Stmt Distance)}
    (sound : Moment.Sound W ⟨.exec (n + 1) (.block body), m⟩) :
    Settles W n m (.block body) (runBlock (exec W.turns n) body) m := by
  have framed : Kept W m { m with store := m.store.addFrame } := .addFrame sound.good
  have inside := keeps_runAll lawful execs (sound_block lawful sound)
  rw [Settles, runBlock, ends_bind, ends_get, ends_bind]
  show Ends (inEnvironment (m.store.frames.size :: m.environment) (runAll (exec W.turns n) body))
    { m with store := m.store.addFrame } _ _
  rw [ends_inEnvironment]
  refine inside.mono (fun completion m₂ _ post => ?_) fun failure m₂ fine => ?_
  · obtain ⟨kept, values⟩ := post
    have left := framed.trans (Kept.leave (m := { m with store := m.store.addFrame }) kept)
    refine ⟨left, ?_, fun x mem => absurd mem List.not_mem_nil⟩
    cases completion with
    | returned v =>
      have value : v.Sound W m₂ := values
      have grows : Grows W m₂ { m₂ with environment := m.environment } :=
        .of_store rfl (Nat.le_refl _)
      exact value.grow grows
    | _ => trivial
  · refine ⟨framed.trans (Kept.leave (m := { m with store := m.store.addFrame }) fine.kept),
      fun clean isInternal => ?_⟩
    obtain ⟨M', steps, misses⟩ := fine.internal clean isInternal
    exact ⟨M', .head .block steps, misses⟩

/-- The closure of a function is made before its name has a value, and may call itself later. -/
theorem keeps_function (lawful : W.Lawful) {r : Routine Distance}
    (sound : Moment.Sound W ⟨.exec (n + 1) (.function r), m⟩) :
    Settles W n m (.function r)
      (execForm W.turns n (eval W.turns n) (exec W.turns n) (.function r)) m := by
  have apart := apart_of_placed lawful sound.placed (x := r.name.lexeme) List.mem_cons_self
  have alive := alive_of_placed sound.placed
  obtain ⟨ed, around, levels, s₀, w, stands, same⟩ := placed_exec sound.placed
  cases s₀ with
  | function r₀ =>
    cases same
    obtain ⟨name, params, body, getter⟩ := r₀
    let f : Closure := ⟨m.nextClosure, some name, params, Stmt.mapAll ed.table.get? body,
      m.environment, .plain⟩
    let m₁ : Machine := { m with nextClosure := m.nextClosure + 1 }
    have counted : Kept W m m₁ := .of_same sound.good rfl rfl rfl
    have grows : Grows W m₁ { m₁ with
        store := m₁.store.put (innermost m.environment) name.lexeme (.value (.function f)) } :=
      .named m₁ _ apart
    have placed := m₁.store.contains_put_self alive name.lexeme (.value (.function f))
    have ready := ((stands.keep counted).grow grows rfl).function (f := f) placed rfl rfl rfl rfl
    have defined := Kept.put counted.good grows fun v same => by
      cases same
      exact ready
    refine ⟨counted.trans defined, trivial, fun x mem => ?_⟩
    cases List.mem_singleton.mp mem
    exact placed
  | var _ value => cases value <;> cases same
  | ret _ value => cases value <;> cases same
  | ifElse _ _ e => cases e <;> cases same
  | _ => cases same

/-! ## Classes -/

/-- A parent that is read is ready; if the reading fails internally, the parent is a variable whose
own initial value the class stands in. -/
theorem keeps_parent (lawful : W.Lawful) {fault : RuntimeFault} {ref : Reference Distance}
    (sound : Moment.Sound W ⟨.parent fault ref, m⟩) :
    Ends (readParent fault ref) m (fun c m' => m' = m ∧ c.Ready W m)
      (fun failure m' => m' = m ∧ Fine W ⟨.parent fault ref, m⟩ failure m') := by
  obtain ⟨ed, around, levels, cls, fault₀, ref₀, w, stands, rfl⟩ := placed_parent sound.placed
  have read := keeps_reference (M := ⟨.parent fault (ref₀.map ed.table.get?), m⟩) lawful sound.good
    stands rfl fun d clean _ pends => by
      have ne := stands.visits.header_ne (clean.accepted stands.edition)
      exact ⟨pends.resolve_right fun no => ne no.2, .parent, rfl⟩
  refine read.bind (fun v m' _ post => ?_) fun _ _ post => post
  obtain ⟨rfl, value⟩ := post
  cases v with
  | «class» c => exact ⟨rfl, value⟩
  | _ => exact ⟨rfl, .of_plain (.refl sound.good) fun no => no⟩

section Header

variable {name : Token} {superclass : Option (Reference Distance)}
  {mixins : List (Reference Distance)} {methods statics : List (Routine Distance)}

theorem keeps_superclass (lawful : W.Lawful)
    (sound : Moment.Sound W
      ⟨.exec (n + 1) (.classDecl name superclass mixins methods statics), m⟩) :
    Ends (readSuperclass superclass) m
      (fun c m' => m' = m ∧ c.isSome = superclass.isSome ∧ ∀ p, c = some p → p.Ready W m)
      (Fine W ⟨.exec (n + 1) (.classDecl name superclass mixins methods statics), m⟩) := by
  cases superclass with
  | none => exact ⟨rfl, rfl, fun p no => by cases no⟩
  | some ref =>
    rw [readSuperclass, ends_map]
    refine (keeps_parent lawful (sound_superclass lawful sound)).mono (fun c m' _ post => ?_)
      fun failure m' post => .of_first .superclass post.2
    refine ⟨post.1, rfl, fun p same => ?_⟩
    cases same
    exact post.2

theorem run_readMixinClasses_append {ref : Reference Distance} {c : Class} :
    ∀ {before : List (Reference Distance)} {m : Machine} {cs : List Class},
      readMixinClasses before m = (.ok cs, m₁) → readParent .mixinNotClass ref m₁ = (.ok c, m₂) →
        readMixinClasses (before ++ [ref]) m = (.ok (cs ++ [c]), m₂)
  | [], _, _, run, run₁ => by
    cases run
    rw [List.nil_append, readMixinClasses, run_bind, run₁]
    rfl
  | ref' :: before, _, _, run, run₁ => by
    obtain ⟨c', m', run', run⟩ := run_bind_ok_iff.mp run
    obtain ⟨cs', m'', run'', run⟩ := run_bind_ok_iff.mp run
    cases run
    have rest := run_readMixinClasses_append run'' run₁
    exact run_bind_ok_iff.mpr ⟨c', m', run', run_bind_ok_iff.mpr ⟨_, _, rest, rfl⟩⟩

/-- Some of the mixins of a class, behind others. -/
theorem keeps_mixins {behind : List (Reference Distance)} (lawful : W.Lawful) {sc : Option Class}
    (sound : Moment.Sound W ⟨.exec (n + 1) (.classDecl name superclass mixins methods statics), m⟩)
    (run : readSuperclass superclass m = (.ok sc, m)) :
    ∀ {rest before : List (Reference Distance)} {cs : List Class},
      mixins = before ++ rest ++ behind → readMixinClasses before m = (.ok cs, m) →
      Ends (readMixinClasses rest) m (fun cs' m' => m' = m ∧ ∀ c ∈ cs', c.Ready W m)
        (Fine W ⟨.exec (n + 1) (.classDecl name superclass mixins methods statics), m⟩)
  | [], _, _, _, _ => ⟨rfl, by simp⟩
  | ref :: rest, before, cs, split, run₁ => by
    have split : mixins = before ++ ref :: (rest ++ behind) := by simpa using split
    have starts : Starts W.turns
        ⟨.exec (n + 1) (.classDecl name superclass mixins methods statics), m⟩
        ⟨.parent .mixinNotClass ref, m⟩ := by
      subst split
      exact .mixin run run₁
    have mixin : Moment.Sound W ⟨.parent .mixinNotClass ref, m⟩ := by
      subst split
      exact sound_mixin lawful sound (.refl sound.good) run run₁
    refine (keeps_parent lawful mixin).bind (fun c m' run₂ post => ?_) fun failure m' post =>
      .of_first starts post.2
    obtain ⟨same, ready⟩ := post
    subst m'
    have split' : mixins = (before ++ [ref]) ++ rest ++ behind := by simpa using split
    have rest := keeps_mixins lawful sound run split' (run_readMixinClasses_append run₁ run₂)
    refine rest.bind (fun cs' m' _ post => ?_) fun _ _ fine => fine
    refine ⟨post.1, fun c' mem => ?_⟩
    rcases List.mem_cons.mp mem with rfl | mem
    · exact ready
    · exact post.2 c' mem

/-- A class, whose name has a value behind its declaration. -/
theorem keeps_declareClass (lawful : W.Lawful)
    (sound : Moment.Sound W
      ⟨.exec (n + 1) (.classDecl name superclass mixins methods statics), m⟩) :
    Ends (declareClass n name superclass mixins methods statics) m
      (fun _ m' => Kept W m m' ∧
        m'.store.contains (innermost m.environment) name.lexeme = true)
      (Fine W ⟨.exec (n + 1) (.classDecl name superclass mixins methods statics), m⟩) := by
  have apart := apart_of_placed lawful sound.placed (x := name.lexeme) List.mem_cons_self
  have alive := alive_of_placed sound.placed
  refine (keeps_superclass lawful sound).bind (fun sc m' run post => ?_) fun _ _ fine => fine
  obtain ⟨rfl, same, superReady⟩ := post
  have none : readMixinClasses [] m' = (.ok [], m') := rfl
  have split : mixins = [] ++ mixins ++ [] := by simp
  refine (keeps_mixins lawful sound run split none).bind (fun cs m'' run₁ post => ?_)
    fun _ _ fine => fine
  obtain ⟨rfl, mixinReady⟩ := post
  have declared := ends_declareHere sound.good alive apart
  refine declared.bind (fun _ m₁ run₂ post => ?_) fun _ _ no => no.elim
  obtain ⟨kept, introduced⟩ := post
  have parents : ∀ p, sc = some p ∨ p ∈ cs → p.Ready W m₁ := by
    rintro p (is | mem)
    · exact (superReady p is).grow kept.grows
    · exact (mixinReady p mem).grow kept.grows
  have members := sound_members lawful sound kept run run₁ run₂ introduced same parents
  obtain ⟨ed, around, levels, w, sup, mixins₀, methods₀, statics₀, stands, header, has, same',
    parents', rfl, rfl⟩ := members.placed
  have made := stands.ends_makeClass lawful kept.good header has same' parents' members.passed
  refine made.bind (fun c m₂ _ post => ?_) fun _ _ fails =>
    .of_plain (kept.trans fails.2) fun isInternal => isInternal.ne_overflow fails.1
  obtain ⟨kept₁, ready⟩ := post
  have both := kept.trans kept₁
  have alive₂ : innermost m₂.environment < m₂.store.frames.size := by
    rw [both.environment]
    exact Nat.lt_of_lt_of_le alive both.grows.size
  have value : Value.Sound W m₂ (.class c) := ready
  have defined := ends_defineHere both.good value alive₂ apart
  refine defined.mono (fun _ m₃ _ post => ⟨both.trans post.1, ?_⟩) fun _ _ no => no.elim
  rw [← both.environment]
  exact post.2

end Header

/-! ## One level -/

theorem keeps_execForm (lawful : W.Lawful) (evals : KeepsEval W n) (execs : KeepsExec W n)
    {s : Stmt Distance} (sound : Moment.Sound W ⟨.exec (n + 1) s, m⟩) :
    Settles W n m s (execForm W.turns n (eval W.turns n) (exec W.turns n) s) m := by
  have nothing : ∀ {m' : Machine} (x : String), x ∈ ([] : List String) →
      m'.store.contains (innermost m.environment) x = true :=
    fun x mem => absurd mem List.not_mem_nil
  cases s with
  | missing => exact ⟨.refl sound.good, trivial, nothing⟩
  | expression e =>
    refine (keeps_value lawful evals sound rfl).bind (fun v m₁ _ post => ?_) fun _ _ fine => fine
    exact ⟨post.1, trivial, nothing⟩
  | print e =>
    refine (keeps_value lawful evals sound rfl).bind (fun v m₁ _ post => ?_) fun _ _ fine => fine
    exact ⟨post.1.trans (.of_same post.1.good rfl rfl rfl), trivial, nothing⟩
  | var name value =>
    have apart := apart_of_placed lawful sound.placed (x := name.lexeme) List.mem_cons_self
    have alive := alive_of_placed sound.placed
    cases value with
    | none =>
      refine (ends_declareHere sound.good alive apart).bind (fun _ m₁ _ post => ?_)
        fun _ _ no => no.elim
      refine ⟨post.1, trivial, fun x mem => ?_⟩
      cases List.mem_singleton.mp mem
      exact post.2
    | some e =>
      refine (keeps_value lawful evals sound rfl).bind (fun v m₁ _ post => ?_) fun _ _ fine => fine
      obtain ⟨kept, value⟩ := post
      have alive₁ : innermost m₁.environment < m₁.store.frames.size := by
        rw [kept.environment]
        exact Nat.lt_of_lt_of_le alive kept.grows.size
      refine (ends_defineHere kept.good value alive₁ apart).bind (fun _ m₂ _ post => ?_)
        fun _ _ no => no.elim
      refine ⟨kept.trans post.1, trivial, fun x mem => ?_⟩
      cases List.mem_singleton.mp mem
      rw [← kept.environment]
      exact post.2
  | block body => exact keeps_block lawful execs sound
  | ifElse c t e => exact keeps_ifElse lawful evals execs sound
  | whileLoop c b => exact keeps_whileLoop lawful evals execs sound
  | ret keyword value =>
    cases value with
    | none => exact ⟨.refl sound.good, trivial, nothing⟩
    | some e =>
      refine (keeps_value lawful evals sound rfl).bind (fun v m₁ _ post => ?_) fun _ _ fine => fine
      exact ⟨post.1, post.2, nothing⟩
  | loopExit keyword => exact ⟨.refl sound.good, trivial, nothing⟩
  | function r => exact keeps_function lawful sound
  | classDecl name superclass mixins methods statics =>
    refine (keeps_declareClass lawful sound).bind (fun _ m₁ _ post => ?_) fun _ _ fine => fine
    refine ⟨post.1, trivial, fun x mem => ?_⟩
    cases List.mem_singleton.mp mem
    exact post.2

/-! ## Whole trees -/

/-- Both halves of the evaluator keep what they have to, at every bound on nesting. -/
theorem keeps (lawful : W.Lawful) (n : Nat) : KeepsEval W n ∧ KeepsExec W n := by
  induction n with
  | zero =>
    exact ⟨fun sound => .of_plain (.refl sound.good) fun no => no,
      fun sound => .of_plain (.refl sound.good) fun no => no⟩
  | succ n ih =>
    obtain ⟨evals, execs⟩ := ih
    exact ⟨fun sound => keeps_evalForm lawful evals execs sound,
      fun sound => keeps_execForm lawful evals execs sound⟩

end LoxLang
