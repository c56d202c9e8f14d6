/-
LoxLang.Proofs.Machine.Expressions: what the evaluation of an expression keeps.

One level of an expression, given what its parts keep: the operands are evaluated in order, and each
of them starts from the machine that the one before it left.

Main statement: `keeps_evalForm`.
-/
import LoxLang.Proofs.Machine.Runs

namespace LoxLang

variable {W : World} {m m₁ m₂ : Machine} {n : Nat}

/-! ## Operands -/

theorem keeps_first (lawful : W.Lawful) (evals : KeepsEval W n) {e part : Expr Distance}
    (sound : Moment.Sound W ⟨.eval (n + 1) e, m⟩) (part_e : e.first? = some part) :
    Ends (eval W.turns n part) m (fun v m' => Kept W m m' ∧ v.Sound W m')
      (Fine W ⟨.eval (n + 1) e, m⟩) := by
  have starts : Starts W.turns ⟨.eval (n + 1) e, m⟩ ⟨.eval n part, m⟩ := .first part_e
  have operand := sound_operand lawful sound (.refl sound.good) starts
    fun same => operand_of_first (same ▸ part_e)
  exact (evals operand).mono (fun _ _ _ post => post) fun _ _ fine => .of_first starts fine

theorem keeps_second (lawful : W.Lawful) (evals : KeepsEval W n) {e part part₂ : Expr Distance}
    {v : Value} (sound : Moment.Sound W ⟨.eval (n + 1) e, m⟩) (part_e : e.first? = some part)
    (run : eval W.turns n part m = (.ok v, m₁)) (kept : Kept W m m₁)
    (part_v : e.second? v = some part₂) :
    Ends (eval W.turns n part₂) m₁ (fun u m' => Kept W m₁ m' ∧ u.Sound W m')
      (Fine W ⟨.eval (n + 1) e, m⟩) := by
  have starts := Starts.second part_e run part_v
  have operand := sound_operand lawful sound kept starts
    fun same => operand_of_second (same ▸ part_v)
  exact (evals operand).mono (fun _ _ _ post => post) fun _ _ fine => .of_starts kept starts fine

/-! ## Operators -/

/-- An operator yields a sound value, or fails as programs do. -/
def Harmless (W : World) (m : Machine) : Except Failure Value → Prop
  | .ok v => v.Sound W m
  | .error failure => ¬ failure.IsInternal

theorem harmless_applyUnary (op : Token) (v : Value) : Harmless W m (applyUnary op v) := by
  unfold applyUnary
  split
  · split
    · exact trivial
    · exact fun no => no
  · exact trivial
  · exact trivial

theorem harmless_applyNumeric (op : Token) (x y : Float) : Harmless W m (applyNumeric op x y) := by
  unfold applyNumeric
  split
  · exact trivial
  · exact trivial
  · split
    · exact fun no => no
    · exact trivial
  · exact trivial
  · exact trivial
  · exact trivial
  · exact trivial
  · exact trivial

theorem harmless_applyBinary (l : Value) (op : Token) (r : Value) :
    Harmless W m (applyBinary l op r) := by
  unfold applyBinary
  split
  · unfold applyPlus
    split
    · exact trivial
    · exact trivial
    · exact fun no => no
  · exact trivial
  · exact trivial
  · split
    · exact harmless_applyNumeric op _ _
    · exact fun no => no

theorem ends_operator {M : Moment} {x : Except Failure Value} (kept : Kept W M.machine m)
    (harmless : Harmless W m x) :
    Ends (orFail x) m (fun v m' => Kept W M.machine m' ∧ v.Sound W m') (Fine W M) := by
  cases x with
  | ok v => exact ⟨kept, harmless⟩
  | error failure => exact .of_plain kept harmless

/-! ## Variables -/

/-- A reference reads a sound value; if it fails internally, it stands in the initial value of what
it reads. -/
theorem keeps_reference {M : Moment} {ref : Reference Site} {ed : Edition} {v : Visit}
    (lawful : W.Lawful) (good : M.machine.Good W) (stands : Stands W M.machine ed v)
    (item : v.item.ref? = some ref)
    (misses : ∀ d, W.Clean → v.walk.Declares d ref.name →
      Pends v.levels d ref.name ∨ v.item.Awaits d ref.name →
        Pends v.levels d ref.name ∧ M.activity.Reads (ref.map ed.table.get?) ∧
          M.activity.Shows ed.table v.item) :
    Ends (readRef (ref.map ed.table.get?)) M.machine
      (fun a m' => m' = M.machine ∧ a.Sound W M.machine)
      (fun failure m' => m' = M.machine ∧ Fine W M failure m') := by
  refine (stands.readRef lawful good item).mono (fun _ _ _ post => post) fun failure m' post => ?_
  obtain ⟨rfl, missing⟩ := post
  refine ⟨rfl, .refl good, fun clean isInternal => ⟨M, .refl, ?_⟩⟩
  obtain ⟨d, k, mark, found, lacks, declares, awaited⟩ := missing isInternal
  obtain ⟨pends, reads, shows'⟩ := misses d clean declares awaited
  exact ⟨_, d, k, reads, mark, found, lacks, ed, v, stands.edition, stands.visits, shows', pends⟩

theorem keeps_variable (lawful : W.Lawful) {ref : Reference Distance}
    (sound : Moment.Sound W ⟨.eval (n + 1) (.variable ref), m⟩) :
    Ends (readRef ref) m (fun v m' => Kept W m m' ∧ v.Sound W m')
      (Fine W ⟨.eval (n + 1) (.variable ref), m⟩) := by
  obtain ⟨ed, around, levels, e₀, w, stands, same⟩ := placed_eval sound.placed
  cases e₀ <;> cases same
  have read := keeps_reference (M := ⟨.eval (n + 1) (.variable _), m⟩) lawful sound.good stands rfl
    fun d _ _ pends => ⟨pends.resolve_right fun no => no, .variable, rfl⟩
  refine read.mono (fun v m' _ post => ?_) fun _ _ post => post.2
  obtain ⟨rfl, value⟩ := post
  exact ⟨.refl sound.good, value⟩

theorem keeps_this (lawful : W.Lawful) {ref : Reference Distance}
    (sound : Moment.Sound W ⟨.eval (n + 1) (.this ref), m⟩) :
    Ends (readRef ref) m (fun v m' => Kept W m m' ∧ v.Sound W m')
      (Fine W ⟨.eval (n + 1) (.this ref), m⟩) := by
  obtain ⟨ed, around, levels, e₀, w, stands, same⟩ := placed_eval sound.placed
  cases e₀ <;> cases same
  rename_i ref
  have read := keeps_reference (M := ⟨.eval (n + 1) (.this _), m⟩) lawful sound.good stands rfl
    fun d clean declares pends => by
      have word := clean.plain.thisWord _ (stands.sound lawful).formed
      exact absurd (pends.resolve_right fun no => no)
        (stands.not_pends lawful clean.plain (.inl word) declares)
  refine read.mono (fun v m' _ post => ?_) fun _ _ post => post.2
  obtain ⟨rfl, value⟩ := post
  exact ⟨.refl sound.good, value⟩

/-- The frame that an assignment changes. -/
theorem Stands.targetOf {ed : Edition} {v : Visit} (lawful : W.Lawful) (h : Stands W m ed v)
    {ref : Reference Site} (item : v.item.ref? = some ref) {failure : Failure}
    (fails : targetOf (ref.map ed.table.get?) m = .error failure) : ¬ failure.IsInternal := by
  cases mark : ed.table.get? ref.mark with
  | none =>
    have mark' : (ref.map ed.table.get?).mark = none := mark
    rw [LoxLang.targetOf, mark'] at fails
    dsimp only at fails
    rw [Store.target] at fails
    split at fails <;> cases fails
    exact fun no => no
  | some d =>
    obtain ⟨_, k, _, _, found, _⟩ := h.ancestor lawful item mark
    have mark' : (ref.map ed.table.get?).mark = some d := mark
    rw [LoxLang.targetOf, mark'] at fails
    dsimp only at fails
    rw [Store.ancestor, found] at fails
    cases fails

theorem keeps_assign (lawful : W.Lawful) (evals : KeepsEval W n) {ref : Reference Distance}
    {e : Expr Distance} (sound : Moment.Sound W ⟨.eval (n + 1) (.assign ref e), m⟩) :
    Ends (evalForm (eval W.turns n) (exec W.turns n) (.assign ref e)) m
      (fun v m' => Kept W m m' ∧ v.Sound W m') (Fine W ⟨.eval (n + 1) (.assign ref e), m⟩) := by
  refine (keeps_first lawful evals sound rfl).bind (fun v m₁ _ post => ?_) fun _ _ fine => fine
  obtain ⟨kept, value⟩ := post
  obtain ⟨ed, around, levels, e₀, w, stands, same⟩ := placed_eval sound.placed
  cases e₀ with
  | assign ref₀ e₁ =>
    cases same
    have formed := (stands.sound lawful).formed
    rw [ends_bind, writeRef, ends_bind, ends_get, ends_bind]
    refine ends_orFail (fun k _ => ?_) fun failure fails => ?_
    · have apart : W.Plain → ref₀.name ≠ thisName ∧ ref₀.name ≠ superName := fun plain =>
        plain.identifiers _ formed.1
      have defined := Kept.define kept.good k value apart
      exact ⟨kept.trans defined, value.grow defined.grows⟩
    · exact .of_plain kept ((stands.keep kept).targetOf lawful rfl fails)
  | _ => cases same

/-! ## Properties -/

theorem Ready.params_of_getter {inner : List Level} {f : Closure} (ready : Ready W m inner f)
    (kind : f.kind = .getter) : f.params = [] := by
  obtain ⟨_, _, _, _, getter, _, _, _⟩ := ready
  exact getter kind

theorem keeps_callIfGetter (lawful : W.Lawful) (execs : KeepsExec W n) {M : Moment} {v : Value}
    (kept : Kept W M.machine m) (sound : v.Sound W m)
    (starts : ∀ f, v = .function f → f.kind = .getter → Starts W.turns M ⟨.call n f [], m⟩)
    (passed : W.passes M) :
    Ends (callIfGetter (exec W.turns n) v) m (fun v m' => Kept W M.machine m' ∧ v.Sound W m')
      (Fine W M) := by
  unfold callIfGetter
  split
  · rename_i f
    split
    · rename_i kind
      have starts := starts f rfl kind
      have ready : Ready W m [] f := sound
      have called := keeps_call lawful execs ⟨lawful.starts passed starts, kept.good, ready,
        by rw [ready.params_of_getter kind]; rfl, by simp⟩
      exact called.mono (fun v m' _ post => ⟨kept.trans post.1, post.2⟩) fun failure m' fine =>
        .of_starts kept starts fine
    · exact ⟨kept, sound⟩
  · exact ⟨kept, sound⟩

theorem keeps_get (lawful : W.Lawful) (evals : KeepsEval W n) (execs : KeepsExec W n)
    {e : Expr Distance} {name : Token} (sound : Moment.Sound W ⟨.eval (n + 1) (.get e name), m⟩) :
    Ends (evalForm (eval W.turns n) (exec W.turns n) (.get e name)) m
      (fun v m' => Kept W m m' ∧ v.Sound W m') (Fine W ⟨.eval (n + 1) (.get e name), m⟩) := by
  refine (keeps_first lawful evals sound rfl).bind (fun v m₁ run post => ?_) fun _ _ fine => fine
  obtain ⟨kept, value⟩ := post
  cases receiver : v.receiver? with
  | none => exact .of_plain kept fun no => no
  | some r =>
    have property := ends_readProperty lawful kept.good value receiver
      fun c f field cls found =>
        lawful.starts sound.passed (.method run receiver field cls found)
    refine property.bind (fun u m₂ run₁ post => ?_) fun failure m' post =>
      .of_plain (kept.trans post.1) post.2
    refine keeps_callIfGetter lawful execs (kept.trans post.1) post.2 (fun f same kind => ?_)
      sound.passed
    subst same
    exact .getter run receiver run₁ kind

theorem keeps_set (lawful : W.Lawful) (evals : KeepsEval W n) {e value : Expr Distance}
    {name : Token} (sound : Moment.Sound W ⟨.eval (n + 1) (.set e name value), m⟩) :
    Ends (evalForm (eval W.turns n) (exec W.turns n) (.set e name value)) m
      (fun v m' => Kept W m m' ∧ v.Sound W m') (Fine W ⟨.eval (n + 1) (.set e name value), m⟩) := by
  refine (keeps_first lawful evals sound rfl).bind (fun v m₁ run post => ?_) fun _ _ fine => fine
  obtain ⟨kept, _⟩ := post
  cases receiver : v.receiver? with
  | none => exact .of_plain kept fun no => no
  | some r =>
    have part : (Expr.set e name value).second? v = some value := by
      simp [Expr.second?, receiver]
    have second := keeps_second lawful evals sound rfl run kept part
    refine second.bind (fun u m₂ _ post => ?_) fun _ _ fine => fine
    obtain ⟨kept₁, soundu⟩ := post
    have written := Kept.writeField kept₁.good r.id name.lexeme soundu
    exact ⟨(kept.trans kept₁).trans written, soundu.grow written.grows⟩

theorem keeps_super (lawful : W.Lawful) {ref : Reference Distance} {method : Token}
    (sound : Moment.Sound W ⟨.eval (n + 1) (.super ref method), m⟩) :
    Ends (readSuper ref method) m (fun v m' => Kept W m m' ∧ v.Sound W m')
      (Fine W ⟨.eval (n + 1) (.super ref method), m⟩) := by
  obtain ⟨ed, around, levels, e₀, w, stands, same⟩ := placed_eval sound.placed
  cases e₀ <;> cases same
  refine (stands.readSuper lawful sound.good sound.passed).mono (fun _ _ _ post => post)
    fun failure m' post => ⟨post.1, fun clean isInternal => ?_⟩
  exact absurd isInternal (post.2 clean)

/-! ## Calls -/

theorem keeps_callExpr (lawful : W.Lawful) (evals : KeepsEval W n) (execs : KeepsExec W n)
    {f : Expr Distance} {paren : Token} {es : List (Expr Distance)}
    (sound : Moment.Sound W ⟨.eval (n + 1) (.call f paren es), m⟩) :
    Ends (evalForm (eval W.turns n) (exec W.turns n) (.call f paren es)) m
      (fun v m' => Kept W m m' ∧ v.Sound W m') (Fine W ⟨.eval (n + 1) (.call f paren es), m⟩) := by
  refine (keeps_first lawful evals sound rfl).bind (fun callee m₁ run post => ?_)
    fun _ _ fine => fine
  obtain ⟨kept, value⟩ := post
  have none : evalAll (eval W.turns n) [] m₁ = (.ok [], m₁) := rfl
  have split : es = [] ++ es ++ [] := by simp
  have arguments := keeps_evalAll lawful evals sound run split none kept
  refine arguments.bind (fun vs m₂ run₁ post => ?_) fun _ _ fine => fine
  obtain ⟨kept₁, values⟩ := post
  rw [ends_bind]
  refine ends_orFail (fun _ check => ?_) fun failure fails => ?_
  · exact ends_catchOverflow (keeps_invoke lawful execs sound.passed run run₁ check
      (kept.trans kept₁) (value.grow kept₁.grows) values)
  · refine .of_plain (kept.trans kept₁) ?_
    rw [checkCall] at fails
    split at fails
    · cases fails
      exact fun no => no
    · split at fails <;> cases fails
      exact fun no => no

/-- A routine without a name closes over the frames around it. -/
theorem keeps_anonymous {keyword : Token} {params : List Token} {body : List (Stmt Distance)}
    (sound : Moment.Sound W ⟨.eval (n + 1) (.function keyword params body), m⟩) :
    Ends (evalForm (eval W.turns n) (exec W.turns n) (.function keyword params body)) m
      (fun v m' => Kept W m m' ∧ v.Sound W m')
      (Fine W ⟨.eval (n + 1) (.function keyword params body), m⟩) := by
  obtain ⟨ed, around, levels, e₀, w, stands, same⟩ := placed_eval sound.placed
  cases e₀ <;> cases same
  have counted : Kept W m { m with nextClosure := m.nextClosure + 1 } :=
    .of_same sound.good rfl rfl rfl
  exact ⟨counted, (stands.keep counted).anonymous rfl rfl rfl rfl⟩

/-! ## One level -/

theorem keeps_evalForm (lawful : W.Lawful) (evals : KeepsEval W n) (execs : KeepsExec W n)
    {e : Expr Distance} (sound : Moment.Sound W ⟨.eval (n + 1) e, m⟩) :
    Ends (evalForm (eval W.turns n) (exec W.turns n) e) m
      (fun v m' => Kept W m m' ∧ v.Sound W m') (Fine W ⟨.eval (n + 1) e, m⟩) := by
  cases e with
  | literal v =>
    refine ⟨.refl sound.good, ?_⟩
    cases v <;> trivial
  | grouping e => exact keeps_first lawful evals sound rfl
  | unary op e =>
    refine (keeps_first lawful evals sound rfl).bind (fun v m₁ _ post => ?_) fun _ _ fine => fine
    exact ends_operator (M := ⟨.eval (n + 1) (.unary op e), m⟩) post.1 (harmless_applyUnary op v)
  | binary l op r =>
    refine (keeps_first lawful evals sound rfl).bind (fun v m₁ run post => ?_) fun _ _ fine => fine
    have second := keeps_second lawful evals sound rfl run post.1 rfl
    refine second.bind (fun u m₂ _ post₁ => ?_) fun _ _ fine => fine
    exact ends_operator (M := ⟨.eval (n + 1) (.binary l op r), m⟩) (post.1.trans post₁.1)
      (harmless_applyBinary v op u)
  | logical l op r =>
    refine (keeps_first lawful evals sound rfl).bind (fun v m₁ run post => ?_) fun _ _ fine => fine
    cases settled : settles op v with
    | true => exact post
    | false =>
      have part : (Expr.logical l op r).second? v = some r := by simp [Expr.second?, settled]
      have second := keeps_second lawful evals sound rfl run post.1 part
      exact second.mono (fun _ _ _ post₁ => ⟨post.1.trans post₁.1, post₁.2⟩) fun _ _ fine => fine
  | «variable» ref => exact keeps_variable lawful sound
  | assign ref e => exact keeps_assign lawful evals sound
  | call f paren es => exact keeps_callExpr lawful evals execs sound
  | get e name => exact keeps_get lawful evals execs sound
  | set e name value => exact keeps_set lawful evals sound
  | this ref => exact keeps_this lawful sound
  | super ref method => exact keeps_super lawful sound
  | function keyword params body => exact keeps_anonymous sound

end LoxLang
