/-
LoxLang.Proofs.Machine.Reached: what holds in the whole course of a run.

A sound moment starts only sound ones: what stands between its beginning and theirs are calls that
keep what they have to.  Either the environment is the same there, or it has the frame in front that
the moment opened.

Main statements: `Moment.Sound.starts`, for one step, and from it `Moment.Sound.reaches` and
`Moment.Sound.activation` for all that follow.
-/
import LoxLang.Proofs.Machine.Statements

namespace LoxLang

variable {W : World} {M M' : Moment} {m m₁ m₂ : Machine} {n : Nat}

/-! ## Methods -/

theorem sound_superMethod {ref : Reference Distance} {name : Token} {d : Nat} {c : Class}
    {self : Value} {found : Closure} (lawful : W.Lawful)
    (sound : Moment.Sound W ⟨.eval (n + 1) (.super ref name), m⟩) (mark : ref.mark = some d)
    (superclass : m.store.readAt m.environment d superName (some ref.token) = .ok (.class c))
    (object : m.store.readAt m.environment (d - 1) thisName (some ref.token) = .ok self)
    (method : c.findMethod name.lexeme = some found) : Moment.Sound W ⟨.bind found self, m⟩ := by
  have ready : c.Ready W m := sound_of_readAt sound.good superclass
  exact ⟨lawful.starts sound.passed (.superMethod mark superclass object method), sound.good,
    ready.methods _ _ method, sound_of_readAt sound.good object⟩

section Property

variable {e : Expr Distance} {name : Token} {v : Value} {r : Receiver}

theorem sound_method {c : Class} {found : Closure} (lawful : W.Lawful)
    (passed : W.passes ⟨.eval (n + 1) (.get e name), m⟩) (good : m₁.Good W) (value : v.Sound W m₁)
    (run : eval W.turns n e m = (.ok v, m₁)) (receiver : v.receiver? = some r)
    (field : m₁.field? r.id name.lexeme = none) (cls : r.cls = some c)
    (method : c.findMethod name.lexeme = some found) : Moment.Sound W ⟨.bind found v, m₁⟩ :=
  ⟨lawful.starts passed (.method run receiver field cls method), good,
    readyMethod_of_receiver value receiver cls method, value⟩

theorem sound_getter {f : Closure} (lawful : W.Lawful)
    (passed : W.passes ⟨.eval (n + 1) (.get e name), m⟩) (good : m₂.Good W)
    (ready : Ready W m₂ [] f) (run : eval W.turns n e m = (.ok v, m₁))
    (receiver : v.receiver? = some r) (run₁ : readProperty v r name m₁ = (.ok (.function f), m₂))
    (kind : f.kind = .getter) : Moment.Sound W ⟨.call n f [], m₂⟩ := by
  refine ⟨lawful.starts passed (.getter run receiver run₁ kind), good, ready, ?_, by simp⟩
  rw [ready.params_of_getter kind]
  rfl

end Property

/-! ## Calls -/

section Call

variable {f : Expr Distance} {paren : Token} {es : List (Expr Distance)} {callee : Value}
  {vs : List Value}

/-- What the callee and the arguments of a call have kept. -/
theorem kept_arguments (lawful : W.Lawful) (evals : KeepsEval W n)
    (sound : Moment.Sound W ⟨.eval (n + 1) (.call f paren es), m⟩)
    (run : eval W.turns n f m = (.ok callee, m₁)) {before behind : List (Expr Distance)}
    (split : es = before ++ behind) (run₁ : evalAll (eval W.turns n) before m₁ = (.ok vs, m₂)) :
    Kept W m m₂ ∧ callee.Sound W m₂ ∧ ∀ v ∈ vs, v.Sound W m₂ := by
  obtain ⟨kept, value⟩ := (keeps_first lawful evals sound rfl).ok run
  have none : evalAll (eval W.turns n) [] m₁ = (.ok [], m₁) := rfl
  have split' : es = [] ++ before ++ behind := split
  obtain ⟨kept₁, values⟩ := (keeps_evalAll lawful evals sound run split' none kept).ok run₁
  exact ⟨kept.trans kept₁, value.grow kept₁.grows, values⟩

end Call

/-! ## Classes -/

section Header

variable {name : Token} {superclass : Option (Reference Distance)}
  {mixins : List (Reference Distance)} {methods statics : List (Routine Distance)}
  {sc : Option Class} {cs : List Class}

/-- What the header of a class has read up to a mixin. -/
theorem header_classes {before behind : List (Reference Distance)} (lawful : W.Lawful)
    (sound : Moment.Sound W ⟨.exec (n + 1) (.classDecl name superclass mixins methods statics), m⟩)
    (run : readSuperclass superclass m = (.ok sc, m₁)) (split : mixins = before ++ behind)
    (run₁ : readMixinClasses before m₁ = (.ok cs, m₂)) :
    m₁ = m ∧ m₂ = m ∧ sc.isSome = superclass.isSome ∧ ∀ p, sc = some p ∨ p ∈ cs → p.Ready W m := by
  obtain ⟨rfl, same, superReady⟩ := (keeps_superclass lawful sound).ok run
  have none : readMixinClasses [] m₁ = (.ok [], m₁) := rfl
  have split' : mixins = [] ++ before ++ behind := split
  obtain ⟨rfl, mixinReady⟩ := (keeps_mixins lawful sound run split' none).ok run₁
  refine ⟨rfl, rfl, same, ?_⟩
  rintro p (is | mem)
  · exact superReady p is
  · exact mixinReady p mem

end Header

/-! ## One step -/

/-- A moment opened the frame in front of the environment. -/
def Moment.OpensTo (M : Moment) (env : Environment) : Prop :=
  ∃ opener k outer, M.Opens opener k outer ∧ env = k :: outer

/-- A sound moment starts only sound ones, in its own environment or in one that it opened. -/
theorem Moment.Sound.starts (lawful : W.Lawful) (sound : M.Sound W) (starts : Starts W.turns M M') :
    M'.Sound W ∧ (M'.machine.environment = M.machine.environment ∨
      M.OpensTo M'.machine.environment) := by
  cases starts with
  | first part_e =>
    exact ⟨sound_operand lawful sound (.refl sound.good) (.first part_e)
      fun same => operand_of_first (same ▸ part_e), .inl rfl⟩
  | @second n _ _ _ _ _ _ part_e run part_v =>
    obtain ⟨kept, _⟩ := (keeps_first lawful (keeps lawful n).1 sound part_e).ok run
    exact ⟨sound_operand lawful sound kept (.second part_e run part_v)
      fun same => operand_of_second (same ▸ part_v), .inl kept.environment⟩
  | @argument n _ _ _ _ _ _ _ _ _ _ run run₁ =>
    obtain ⟨kept, _⟩ := kept_arguments lawful (keeps lawful n).1 sound run rfl run₁
    exact ⟨sound_operand lawful sound kept (.argument run run₁) operand_of_argument,
      .inl kept.environment⟩
  | @call n _ _ es _ _ _ _ _ run run₁ check =>
    obtain ⟨kept, value, values⟩ := kept_arguments lawful (keeps lawful n).1 sound run
      (List.append_nil es).symm run₁
    exact ⟨sound_call lawful sound.passed run run₁ check kept.good value values,
      .inl kept.environment⟩
  | @bindInit n _ _ es _ _ _ _ _ _ _ _ run run₁ check found run₂ =>
    obtain ⟨kept, value, _⟩ := kept_arguments lawful (keeps lawful n).1 sound run
      (List.append_nil es).symm run₁
    cases run₂
    exact ⟨sound_bindInit lawful sound.passed run run₁ check kept.good value found,
      .inl kept.environment⟩
  | @callInit n _ _ es _ _ _ _ _ _ _ _ _ _ run run₁ check found run₂ run₃ =>
    obtain ⟨kept, value, values⟩ := kept_arguments lawful (keeps lawful n).1 sound run
      (List.append_nil es).symm run₁
    cases run₂
    have binding := sound_bindInit lawful sound.passed run run₁ check kept.good value found
    have bound := ends_bindMethod lawful binding.good binding.placed.1 binding.placed.2
      binding.passed
    obtain ⟨kept₃, ready, params, _⟩ := bound.ok run₃
    exact ⟨sound_callInit lawful sound.passed run run₁ check kept.good values found run₃ kept₃ ready
      params, .inl (kept₃.environment.trans kept.environment)⟩
  | @method n _ _ _ _ _ _ _ _ run receiver field cls method =>
    obtain ⟨kept, value⟩ := (keeps_first lawful (keeps lawful n).1 sound rfl).ok run
    exact ⟨sound_method lawful sound.passed kept.good value run receiver field cls method,
      .inl kept.environment⟩
  | @getter n _ _ _ _ _ _ _ _ run receiver run₁ kind =>
    obtain ⟨kept, value⟩ := (keeps_first lawful (keeps lawful n).1 sound rfl).ok run
    have property := ends_readProperty lawful kept.good value receiver fun c f field cls found =>
      lawful.starts sound.passed (.method run receiver field cls found)
    obtain ⟨kept₁, ready⟩ := property.ok run₁
    exact ⟨sound_getter lawful sound.passed kept₁.good ready run receiver run₁ kind,
      .inl (kept.trans kept₁).environment⟩
  | superMethod mark superclass object method =>
    exact ⟨sound_superMethod lawful sound mark superclass object method, .inl rfl⟩
  | value part => exact ⟨sound_value lawful sound part, .inl rfl⟩
  | @branch n _ _ _ _ _ _ part run chosen =>
    obtain ⟨kept, _⟩ := ((keeps lawful n).1 (sound_value lawful sound part)).ok run
    exact ⟨sound_branch lawful sound kept part run chosen, .inl kept.environment⟩
  | loop => exact ⟨sound_loop lawful sound, .inl rfl⟩
  | condition => exact ⟨sound_condition lawful sound, .inl rfl⟩
  | @turn n _ _ _ _ _ _ run holds =>
    obtain ⟨kept, _⟩ := ((keeps lawful n).1 (sound_condition lawful sound)).ok run
    exact ⟨sound_turn lawful sound kept run holds, .inl kept.environment⟩
  | @again n _ _ _ _ _ _ _ _ run holds run₁ goesOn =>
    obtain ⟨kept, _⟩ := ((keeps lawful n).1 (sound_condition lawful sound)).ok run
    have turn := sound_turn lawful sound kept run holds
    obtain ⟨kept₁, _⟩ := ((keeps lawful n).2 turn).ok run₁
    have both := kept.trans kept₁
    exact ⟨sound_again lawful sound both run holds run₁ goesOn, .inl both.environment⟩
  | block => exact ⟨sound_block lawful sound, .inr ⟨_, _, _, .block, rfl⟩⟩
  | statement => exact ⟨sound_statement lawful sound, .inl rfl⟩
  | @statements n _ _ _ _ run =>
    obtain ⟨kept, _, introduced⟩ := ((keeps lawful n).2 (sound_statement lawful sound)).ok run
    exact ⟨sound_statements lawful sound kept run introduced, .inl kept.environment⟩
  | topStatement => exact ⟨sound_topStatement lawful sound, .inl rfl⟩
  | @topStatements n _ _ _ _ _ run stays =>
    obtain ⟨kept, _, introduced⟩ := ((keeps lawful n).2 (sound_topStatement lawful sound)).ok run
    exact ⟨sound_topStatements lawful sound kept run stays introduced, .inl kept.environment⟩
  | body run =>
    obtain ⟨ready, length, values⟩ := sound.placed
    obtain ⟨_, rfl, _⟩ := (ends_openCall lawful sound.good ready length values).ok run
    exact ⟨sound_body lawful sound run, .inr ⟨_, _, _, .call, rfl⟩⟩
  | superclass => exact ⟨sound_superclass lawful sound, .inl rfl⟩
  | mixin run run₁ =>
    obtain ⟨rfl, rfl, _⟩ := header_classes lawful sound run rfl run₁
    exact ⟨sound_mixin lawful sound (.refl sound.good) run run₁, .inl rfl⟩
  | @members _ _ _ mixins _ _ _ _ _ _ _ _ run run₁ run₂ =>
    obtain ⟨rfl, rfl, same, parents⟩ := header_classes lawful sound run
      (List.append_nil mixins).symm run₁
    have apart := apart_of_placed lawful sound.placed List.mem_cons_self
    have declared := ends_declareHere sound.good (alive_of_placed sound.placed) apart
    obtain ⟨kept, introduced⟩ := declared.ok run₂
    have parents' := fun p parent => (parents p parent).grow kept.grows
    exact ⟨sound_members lawful sound kept run run₁ run₂ introduced same parents',
      .inl kept.environment⟩

/-! ## All that follow -/

/-- Every moment that a sound one leads to is sound. -/
theorem Moment.Sound.reaches (lawful : W.Lawful) (sound : M.Sound W)
    (reaches : Reaches W.turns M M') :
    M'.Sound W := by
  induction reaches with
  | refl => exact sound
  | tail _ starts ih => exact (ih.starts lawful starts).1

/-- The frame in front of an environment belongs to the innermost block or call in progress, unless
the environment is the one that all began in. -/
theorem Moment.Sound.activation (lawful : W.Lawful) (sound : M.Sound W)
    (reaches : Reaches W.turns M M') :
    M'.machine.environment = M.machine.environment ∨
      ∃ A : Moment, Reaches W.turns M A ∧ A.OpensTo M'.machine.environment ∧
        Reaches W.turns A M' := by
  induction reaches with
  | refl => exact .inl rfl
  | @tail N _ before starts ih =>
    rcases ((sound.reaches lawful before).starts lawful starts).2 with same | opens
    · rcases ih with ih | ⟨A, toA, opens, inside⟩
      · exact .inl (same.trans ih)
      · exact .inr ⟨A, toA, same ▸ opens, inside.tail starts⟩
    · exact .inr ⟨N, before, opens, .single starts⟩

end LoxLang
