/-
LoxLang.Proofs.Machine.Sound: what holds at a moment, and at the moments that it starts.

* `Activity.Placed`, `Moment.Sound`: a moment has its place in the text, in a good machine.

The statements of this module lead from a moment to those that it starts, one for each rule of
`Starts`.  They are told what the calls in between kept; that those calls keep it is proved in
`LoxLang.Proofs.Machine.Runs`.
-/
import LoxLang.Proofs.Machine.Classes

namespace LoxLang

/-! ## Moments -/

/-- The activity has its place in the text. -/
def Activity.Placed (W : World) (m : Machine) : Activity → Prop
  | .call _ f arguments =>
    Ready W m [] f ∧ arguments.length = f.params.length ∧ ∀ v ∈ arguments, v.Sound W m
  | .bind method self => ReadyMethod W m method ∧ self.Sound W m
  | .makeClass _ name superclass classes methods statics =>
    ∃ ed around levels w sup mixins methods₀ statics₀,
      Stands W m ed ⟨around, levels, .stmt (.classDecl name sup mixins methods₀ statics₀), w⟩ ∧
        HeaderRead W.passes ed
          ⟨around, levels, .stmt (.classDecl name sup mixins methods₀ statics₀), w⟩ superclass m ∧
        m.store.contains (innermost m.environment) name.lexeme = true ∧
        superclass.isSome = sup.isSome ∧
        (∀ c, superclass = some c ∨ c ∈ classes → c.Ready W m) ∧
        methods = Routine.mapAll ed.table.get? methods₀ ∧
        statics = Routine.mapAll ed.table.get? statics₀
  | a => ∃ ed v, Stands W m ed v ∧ a.Shows ed.table v.item

/-- What holds at every moment of a history. -/
structure Moment.Sound (W : World) (M : Moment) : Prop where
  passed : W.passes M
  good : M.machine.Good W
  placed : M.activity.Placed W M.machine

/-! ## Places -/

section Places

variable {W : World} {m : Machine} {n left : Nat}

/-- An expression that is evaluated is one of the text, with the recorded distances. -/
theorem placed_eval {e : Expr Distance} (h : (Activity.eval n e).Placed W m) :
    ∃ ed around levels e₀ w,
      Stands W m ed ⟨around, levels, .expr e₀, w⟩ ∧ e = e₀.map ed.table.get? := by
  obtain ⟨ed, ⟨around, levels, item, w⟩, stands, shows'⟩ := h
  cases item with
  | expr e₀ => exact ⟨ed, around, levels, e₀, w, stands, shows'⟩
  | stmt _ => exact False.elim shows'
  | stmts _ => exact False.elim shows'
  | header _ _ _ => exact False.elim shows'

/-- So is a statement that is executed. -/
theorem placed_exec {s : Stmt Distance} (h : (Activity.exec n s).Placed W m) :
    ∃ ed around levels s₀ w,
      Stands W m ed ⟨around, levels, .stmt s₀, w⟩ ∧ s = s₀.map ed.table.get? := by
  obtain ⟨ed, ⟨around, levels, item, w⟩, stands, shows'⟩ := h
  cases item with
  | stmt s₀ => exact ⟨ed, around, levels, s₀, w, stands, shows'⟩
  | expr _ => exact False.elim shows'
  | stmts _ => exact False.elim shows'
  | header _ _ _ => exact False.elim shows'

/-- So are the statements that are left of a block. -/
theorem placed_runAll {ss : List (Stmt Distance)} (h : (Activity.runAll n ss).Placed W m) :
    ∃ ed around levels ss₀ w,
      Stands W m ed ⟨around, levels, .stmts ss₀, w⟩ ∧ ss = Stmt.mapAll ed.table.get? ss₀ := by
  obtain ⟨ed, ⟨around, levels, item, w⟩, stands, shows'⟩ := h
  cases item with
  | stmts ss₀ => exact ⟨ed, around, levels, ss₀, w, stands, shows'⟩
  | expr _ => exact False.elim shows'
  | stmt _ => exact False.elim shows'
  | header _ _ _ => exact False.elim shows'

/-- And those that are left at top level. -/
theorem placed_runTop {ss : List (Stmt Distance)} (h : (Activity.runTop n ss).Placed W m) :
    (Activity.runAll n ss).Placed W m := by
  obtain ⟨ed, ⟨around, levels, item, w⟩, stands, shows'⟩ := h
  cases item with
  | stmts ss₀ => exact ⟨ed, _, stands, shows'⟩
  | expr _ => exact False.elim shows'
  | stmt _ => exact False.elim shows'
  | header _ _ _ => exact False.elim shows'

/-- A loop in progress is one of the text. -/
theorem placed_iterate {c : Expr Distance} {b : Stmt Distance}
    (h : (Activity.iterate n c b left).Placed W m) :
    ∃ ed around levels c₀ b₀ w, Stands W m ed ⟨around, levels, .stmt (.whileLoop c₀ b₀), w⟩ ∧
      c = c₀.map ed.table.get? ∧ b = b₀.map ed.table.get? := by
  obtain ⟨ed, ⟨around, levels, item, w⟩, stands, shows'⟩ := h
  cases item with
  | stmt s₀ =>
    cases s₀ with
    | whileLoop c₀ b₀ => exact ⟨ed, around, levels, c₀, b₀, w, stands, shows'⟩
    | _ => exact False.elim shows'
  | expr _ => exact False.elim shows'
  | stmts _ => exact False.elim shows'
  | header _ _ _ => exact False.elim shows'

/-- A parent that is read stands in the header of a class. -/
theorem placed_parent {fault : RuntimeFault} {ref : Reference Distance}
    (h : (Activity.parent fault ref).Placed W m) :
    ∃ ed around levels cls fault₀ ref₀ w,
      Stands W m ed ⟨around, levels, .header cls fault₀ ref₀, w⟩ ∧
        ref = ref₀.map ed.table.get? := by
  obtain ⟨ed, ⟨around, levels, item, w⟩, stands, shows'⟩ := h
  cases item with
  | header cls fault₀ ref₀ => exact ⟨ed, around, levels, cls, fault₀, ref₀, w, stands, shows'⟩
  | expr _ => exact False.elim shows'
  | stmts _ => exact False.elim shows'
  | stmt _ => exact False.elim shows'

end Places

/-! ## Parts of trees with other marks -/

section Marks

variable {ρ σ : Type} {f : ρ → σ}

/-- What is evaluated first in an expression is one of its operands. -/
theorem operand_of_first {e : Expr ρ} {part : Expr σ} (h : (e.map f).first? = some part) :
    ∃ before part₀ behind, e.operands = before ++ part₀ :: behind ∧ part = part₀.map f := by
  cases e <;> cases h
  · exact ⟨[], _, _, rfl, rfl⟩
  · exact ⟨[], _, _, rfl, rfl⟩
  · exact ⟨[], _, _, rfl, rfl⟩
  · exact ⟨[], _, _, rfl, rfl⟩
  · exact ⟨[], _, _, rfl, rfl⟩
  · exact ⟨[], _, _, rfl, rfl⟩
  · exact ⟨[], _, _, rfl, rfl⟩
  · rename_i e _ v
    exact ⟨[v], e, [], rfl, rfl⟩

/-- So is what is evaluated second, if anything is. -/
theorem operand_of_second {e : Expr ρ} {v : Value} {part : Expr σ}
    (h : (e.map f).second? v = some part) :
    ∃ before part₀ behind, e.operands = before ++ part₀ :: behind ∧ part = part₀.map f := by
  cases e with
  | binary l op r =>
    cases h
    exact ⟨[l], r, [], rfl, rfl⟩
  | logical l op r =>
    simp only [Expr.map, Expr.second?] at h
    split at h
    · cases h
    · cases h
      exact ⟨[l], r, [], rfl, rfl⟩
  | set e name value =>
    simp only [Expr.map, Expr.second?] at h
    split at h
    · cases h
      exact ⟨[], value, [e], rfl, rfl⟩
    · cases h
  | _ => cases h

/-- So is every argument. -/
theorem operand_of_argument {e : Expr ρ} {callee argument : Expr σ} {paren : Token}
    {before behind : List (Expr σ)}
    (h : .call callee paren (before ++ argument :: behind) = e.map f) :
    ∃ before₀ argument₀ behind₀,
      e.operands = before₀ ++ argument₀ :: behind₀ ∧ argument = argument₀.map f := by
  cases e with
  | call g paren₀ es =>
    simp only [Expr.map, Expr.mapAll_eq, Expr.call.injEq] at h
    obtain ⟨before₀, rest, rfl, _, split⟩ := List.map_eq_append_iff.mp h.2.2.symm
    obtain ⟨argument₀, behind₀, rfl, same, _⟩ := List.map_eq_cons_iff.mp split
    exact ⟨g :: before₀, argument₀, behind₀, rfl, same.symm⟩
  | _ => cases h

/-- What is evaluated first in a statement is its expression. -/
theorem operand_of_value {s : Stmt ρ} {e : Expr σ} (h : (s.map f).first? = some e) :
    ∃ e₀, e = e₀.map f ∧ (s.operand? = some e₀ ∨ ∃ name, s = .var name (some e₀)) := by
  cases s with
  | expression e₀ => cases h; exact ⟨e₀, rfl, .inl rfl⟩
  | print e₀ => cases h; exact ⟨e₀, rfl, .inl rfl⟩
  | var name value =>
    cases value with
    | none => cases h
    | some e₀ => cases h; exact ⟨e₀, rfl, .inr ⟨name, rfl⟩⟩
  | ifElse c t e =>
    cases e <;> cases h <;> exact ⟨c, rfl, .inl rfl⟩
  | ret keyword value =>
    cases value with
    | none => cases h
    | some e₀ => cases h; exact ⟨e₀, rfl, .inl rfl⟩
  | _ => cases h

/-- The branch that is taken is one of the two of the text. -/
theorem branch_of_branch {s : Stmt ρ} {v : Value} {t : Stmt σ} (h : (s.map f).branch? v = some t) :
    ∃ c t₀ e, s = .ifElse c t₀ e ∧ (t = t₀.map f ∨ ∃ e₀, e = some e₀ ∧ t = e₀.map f) := by
  cases s with
  | ifElse c t₀ e =>
    refine ⟨c, t₀, e, rfl, ?_⟩
    cases e with
    | none =>
      simp only [Stmt.map, Stmt.branch?] at h
      split at h
      · cases h
        exact .inl rfl
      · cases h
    | some e₀ =>
      simp only [Stmt.map, Stmt.branch?] at h
      split at h
      · cases h
        exact .inl rfl
      · cases h
        exact .inr ⟨e₀, rfl, rfl⟩
  | var _ value => cases value <;> cases h
  | ret _ value => cases value <;> cases h
  | _ => cases h

end Marks

/-! ## From a moment to the next -/

section Steps

variable {W : World} {m m₁ m₂ m₃ : Machine} {n left : Nat}

/-- In the course of an expression. -/
theorem sound_operand {e part : Expr Distance} (lawful : W.Lawful)
    (sound : Moment.Sound W ⟨.eval (n + 1) e, m⟩) (kept : Kept W m m₁)
    (starts : Starts W.turns ⟨.eval (n + 1) e, m⟩ ⟨.eval n part, m₁⟩)
    (operand : ∀ {f : Site → Distance} {e₀ : Expr Site}, e = e₀.map f →
      ∃ before part₀ behind, e₀.operands = before ++ part₀ :: behind ∧ part = part₀.map f) :
    Moment.Sound W ⟨.eval n part, m₁⟩ := by
  obtain ⟨ed, around, levels, e₀, w, stands, same⟩ := placed_eval sound.placed
  obtain ⟨before, part₀, behind, parts, rfl⟩ := operand same
  exact ⟨lawful.starts sound.passed starts, kept.good, ed, _, (stands.keep kept).operand parts, rfl⟩

/-- From a sound statement to its expression. -/
theorem sound_value {s : Stmt Distance} {e : Expr Distance} (lawful : W.Lawful)
    (sound : Moment.Sound W ⟨.exec (n + 1) s, m⟩) (part : s.first? = some e) :
    Moment.Sound W ⟨.eval n e, m⟩ := by
  refine ⟨lawful.starts sound.passed (.value part), sound.good, ?_⟩
  obtain ⟨ed, around, levels, s₀, w, stands, rfl⟩ := placed_exec sound.placed
  obtain ⟨e₀, rfl, operand | ⟨name, rfl⟩⟩ := operand_of_value part
  · exact ⟨ed, _, stands.value operand, rfl⟩
  · exact ⟨ed, _, stands.initial lawful, rfl⟩

/-- From its condition to the branch that is taken, on the machine that the condition left. -/
theorem sound_branch {s t : Stmt Distance} {e : Expr Distance} {v : Value} (lawful : W.Lawful)
    (sound : Moment.Sound W ⟨.exec (n + 1) s, m⟩) (kept : Kept W m m₁)
    (part : s.first? = some e) (run : eval W.turns n e m = (.ok v, m₁))
    (chosen : s.branch? v = some t) : Moment.Sound W ⟨.exec n t, m₁⟩ := by
  refine ⟨lawful.starts sound.passed (.branch part run chosen), kept.good, ?_⟩
  obtain ⟨ed, around, levels, s₀, w, stands, rfl⟩ := placed_exec sound.placed
  obtain ⟨c, t₀, e, rfl, rfl | ⟨e₀, rfl, rfl⟩⟩ := branch_of_branch chosen
  · exact ⟨ed, _, (stands.keep kept).thenBranch, rfl⟩
  · exact ⟨ed, _, (stands.keep kept).elseBranch lawful, rfl⟩

/-- From a loop to its turns. -/
theorem sound_loop {c : Expr Distance} {b : Stmt Distance} (lawful : W.Lawful)
    (sound : Moment.Sound W ⟨.exec (n + 1) (.whileLoop c b), m⟩) :
    Moment.Sound W ⟨.iterate n c b W.turns, m⟩ := by
  refine ⟨lawful.starts sound.passed .loop, sound.good, ?_⟩
  obtain ⟨ed, around, levels, s₀, w, stands, same⟩ := placed_exec sound.placed
  cases s₀ with
  | whileLoop c₀ b₀ =>
    cases same
    exact ⟨ed, _, stands, rfl, rfl⟩
  | var _ value => cases value <;> cases same
  | ret _ value => cases value <;> cases same
  | ifElse _ _ e => cases e <;> cases same
  | _ => cases same

/-- From a turn to its condition. -/
theorem sound_condition {c : Expr Distance} {b : Stmt Distance} (lawful : W.Lawful)
    (sound : Moment.Sound W ⟨.iterate n c b (left + 1), m⟩) : Moment.Sound W ⟨.eval n c, m⟩ := by
  refine ⟨lawful.starts sound.passed .condition, sound.good, ?_⟩
  obtain ⟨ed, around, levels, c₀, b₀, w, stands, rfl, rfl⟩ := placed_iterate sound.placed
  exact ⟨ed, _, stands.value rfl, rfl⟩

/-- From the condition to the body. -/
theorem sound_turn {c : Expr Distance} {b : Stmt Distance} {v : Value} (lawful : W.Lawful)
    (sound : Moment.Sound W ⟨.iterate n c b (left + 1), m⟩) (kept : Kept W m m₁)
    (run : eval W.turns n c m = (.ok v, m₁)) (holds : v.isTruthy = true) :
    Moment.Sound W ⟨.exec n b, m₁⟩ := by
  refine ⟨lawful.starts sound.passed (.turn run holds), kept.good, ?_⟩
  obtain ⟨ed, around, levels, c₀, b₀, w, stands, rfl, rfl⟩ := placed_iterate sound.placed
  exact ⟨ed, _, (stands.keep kept).loopBody, rfl⟩

/-- From the end of one turn to the next: the body introduced nothing in the scope around. -/
theorem sound_again {c : Expr Distance} {b : Stmt Distance} {v : Value} {completion : Completion}
    (lawful : W.Lawful) (sound : Moment.Sound W ⟨.iterate n c b (left + 1), m⟩)
    (kept : Kept W m m₂) (run : eval W.turns n c m = (.ok v, m₁)) (holds : v.isTruthy = true)
    (run₁ : exec W.turns n b m₁ = (.ok completion, m₂)) (goesOn : completion.GoesOn) :
    Moment.Sound W ⟨.iterate n c b left, m₂⟩ := by
  refine ⟨lawful.starts sound.passed (.again run holds run₁ goesOn), kept.good, ?_⟩
  obtain ⟨ed, around, levels, c₀, b₀, w, stands, rfl, rfl⟩ := placed_iterate sound.placed
  exact ⟨ed, _, stands.keep kept, rfl, rfl⟩

/-- From a block to its statements, in a new frame for a new scope. -/
theorem sound_block {body : List (Stmt Distance)} (lawful : W.Lawful)
    (sound : Moment.Sound W ⟨.exec (n + 1) (.block body), m⟩) :
    Moment.Sound W ⟨.runAll n body, m.entered m.environment⟩ := by
  have entered : (m.entered m.environment).Good W := by
    have framed := Kept.addFrame sound.good
    have grows : Grows W { m with store := m.store.addFrame } (m.entered m.environment) :=
      .of_store rfl (Nat.le_refl _)
    exact ⟨fun k x v slot => (framed.good.slots k x v slot).grow grows,
      fun id x v field => (framed.good.fields id x v field).grow grows, framed.good.globals⟩
  refine ⟨lawful.starts sound.passed .block, entered, ?_⟩
  obtain ⟨ed, around, levels, s₀, w, stands, same⟩ := placed_exec sound.placed
  cases s₀ with
  | block body₀ =>
    cases same
    exact ⟨ed, _, stands.block sound.passed sound.good, rfl⟩
  | var _ value => cases value <;> cases same
  | ret _ value => cases value <;> cases same
  | ifElse _ _ e => cases e <;> cases same
  | _ => cases same

/-- From statements in a row to the first one. -/
theorem sound_statement {s : Stmt Distance} {ss : List (Stmt Distance)} (lawful : W.Lawful)
    (sound : Moment.Sound W ⟨.runAll n (s :: ss), m⟩) : Moment.Sound W ⟨.exec n s, m⟩ := by
  refine ⟨lawful.starts sound.passed .statement, sound.good, ?_⟩
  obtain ⟨ed, around, levels, ss₀, w, stands, same⟩ := placed_runAll sound.placed
  cases ss₀ with
  | nil => cases same
  | cons s₀ ss₀ =>
    cases same
    exact ⟨ed, _, stands.first, rfl⟩

/-- Behind a statement, in a list of statements. -/
theorem placed_statements {s : Stmt Distance} {ss : List (Stmt Distance)}
    (placed : (Activity.runAll n (s :: ss)).Placed W m) (kept : Kept W m m₁)
    (introduced : ∀ x ∈ s.introduces, m₁.store.contains (innermost m.environment) x = true) :
    (Activity.runAll n ss).Placed W m₁ := by
  obtain ⟨ed, around, levels, ss₀, w, stands, same⟩ := placed_runAll placed
  cases ss₀ with
  | nil => cases same
  | cons s₀ ss₀ =>
    cases same
    refine ⟨ed, _, (stands.keep kept).rest fun x mem => ?_, rfl⟩
    rw [kept.environment]
    exact introduced x (by rwa [introduces_map])

/-- From the first one to the others, with the names that it introduced. -/
theorem sound_statements {s : Stmt Distance} {ss : List (Stmt Distance)} (lawful : W.Lawful)
    (sound : Moment.Sound W ⟨.runAll n (s :: ss), m⟩) (kept : Kept W m m₁)
    (run : exec W.turns n s m = (.ok .normal, m₁))
    (introduced : ∀ x ∈ s.introduces, m₁.store.contains (innermost m.environment) x = true) :
    Moment.Sound W ⟨.runAll n ss, m₁⟩ :=
  ⟨lawful.starts sound.passed (.statements run), kept.good,
    placed_statements sound.placed kept introduced⟩

theorem sound_topStatement {s : Stmt Distance} {ss : List (Stmt Distance)} (lawful : W.Lawful)
    (sound : Moment.Sound W ⟨.runTop n (s :: ss), m⟩) : Moment.Sound W ⟨.exec n s, m⟩ := by
  refine ⟨lawful.starts sound.passed .topStatement, sound.good, ?_⟩
  obtain ⟨ed, around, levels, ss₀, w, stands, same⟩ := placed_runAll (placed_runTop sound.placed)
  cases ss₀ with
  | nil => cases same
  | cons s₀ ss₀ =>
    cases same
    exact ⟨ed, _, stands.first, rfl⟩

/-- At top level these names become global instead. -/
theorem sound_topStatements {s : Stmt Distance} {ss : List (Stmt Distance)}
    {completion : Completion} (lawful : W.Lawful)
    (sound : Moment.Sound W ⟨.runTop n (s :: ss), m⟩) (kept : Kept W m m₁)
    (run : exec W.turns n s m = (.ok completion, m₁)) (stays : completion.Stays)
    (introduced : ∀ x ∈ s.introduces, m₁.store.contains (innermost m.environment) x = true) :
    Moment.Sound W ⟨.runTop n ss, m₁⟩ := by
  refine ⟨lawful.starts sound.passed (.topStatements run stays), kept.good, ?_⟩
  obtain ⟨ed, around, levels, ss₀, w, stands, same⟩ :=
    placed_runAll (placed_statements (placed_runTop sound.placed) kept introduced)
  exact ⟨ed, _, stands, same⟩

/-! ### Calls -/

/-- Names get values in a frame. -/
theorem ends_defineAll {env : Environment} :
    ∀ {ps : List (Token × Value)} {m : Machine}, m.Good W → (∀ p ∈ ps, p.2.Sound W m) →
      (W.Plain → ∀ p ∈ ps, p.1.lexeme ≠ thisName ∧ p.1.lexeme ≠ superName) →
      innermost env < m.store.frames.size →
      Ends (ps.forM fun p => defineIn env p.1.lexeme p.2) m
        (fun _ m' => Kept W m m' ∧
          ∀ p ∈ ps, m'.store.contains (innermost env) p.1.lexeme = true)
        (fun _ _ => False)
  | [], m, good, _, _, _ => ⟨.refl good, by simp⟩
  | p :: ps, m, good, sound, named, alive => by
    have kept : Kept W m { m with store := m.store.define (innermost env) p.1.lexeme p.2 } :=
      .define good _ (sound p List.mem_cons_self) fun plain => named plain p List.mem_cons_self
    have rest := ends_defineAll kept.good
      (fun q mem => (sound q (List.mem_cons_of_mem p mem)).grow kept.grows)
      (fun plain q mem => named plain q (List.mem_cons_of_mem p mem))
      (Nat.lt_of_lt_of_le alive kept.grows.size)
    refine rest.mono (fun _ m' _ post => ⟨kept.trans post.1, fun q mem => ?_⟩) fun _ _ no => no
    rcases List.mem_cons.mp mem with rfl | mem
    · exact post.1.grows.slots _ _ (m.store.contains_put_self alive _ (.value q.2))
    · exact post.2 q mem

/-- The names of the parameters of a routine that was bound are written in a program. -/
theorem Ready.named {f : Closure} {inner : List Level} (lawful : W.Lawful)
    (ready : Ready W m inner f) (plain : W.Plain) :
    ∀ p ∈ f.params, p.lexeme ≠ thisName ∧ p.lexeme ≠ superName := by
  intro p mem
  obtain @⟨ed, around, outer, context, body, w, edition, visits, _, _, _, _, _, _⟩ := ready
  have sound := visits.sound (lawful.formed edition)
  have declared : (w.opened.after (bindParams f.params)).Declares 0 p.lexeme :=
    ((step_bindParams f.params w.opened).declares 0 p.lexeme).mpr
      (.inr ⟨rfl, List.cons_ne_nil _ _, List.mem_map.mpr ⟨p, mem, rfl⟩⟩)
  obtain ⟨t, word, same⟩ := sound.enclosed.fit.fits 0 _ rfl p.lexeme declared
  rw [← same]
  exact plain.identifiers t word

/-- The frame of a call holds the arguments. -/
theorem ends_openCall {f : Closure} {arguments : List Value} (lawful : W.Lawful) (good : m.Good W)
    (ready : Ready W m [] f) (length : arguments.length = f.params.length)
    (sound : ∀ v ∈ arguments, v.Sound W m) :
    Ends (openCall f arguments) m
      (fun env m' => Kept W m m' ∧ env = m.store.frames.size :: f.environment ∧
        m.store.frames.size < m'.store.frames.size ∧
        ∀ p ∈ f.params, m'.store.contains m.store.frames.size p.lexeme = true)
      (fun _ _ => False) := by
  let env : Environment := m.store.frames.size :: f.environment
  have framed : Kept W m { m with store := m.store.addFrame } := .addFrame good
  have alive : innermost env < m.store.addFrame.frames.size := by
    rw [Store.size_addFrame]
    exact Nat.lt_succ_self _
  have values : ∀ p ∈ f.params.zip arguments, p.2.Sound W { m with store := m.store.addFrame } :=
    fun p mem => (sound p.2 (List.of_mem_zip mem).2).grow framed.grows
  have defined := ends_defineAll framed.good values
    (fun plain p mem => ready.named lawful plain p.1 (List.of_mem_zip mem).1) alive
  have opened : Ends (newFrame f.environment) m
      (fun env' m' => env' = env ∧ m' = { m with store := m.store.addFrame })
      (fun _ _ => False) := ⟨rfl, rfl⟩
  refine opened.bind (fun env' m' _ post => ?_) fun _ _ no => no
  obtain ⟨rfl, rfl⟩ := post
  refine defined.bind (fun _ m' _ post => ?_) fun _ _ no => no
  refine ⟨framed.trans post.1, rfl, Nat.lt_of_lt_of_le alive post.1.grows.size, fun p mem => ?_⟩
  rw [← List.map_fst_zip (Nat.le_of_eq length.symm)] at mem
  obtain ⟨q, zipped, rfl⟩ := List.mem_map.mp mem
  exact post.2 q zipped

/-- In the body of a closure that is called. -/
theorem sound_body {f : Closure} {arguments : List Value} {env : Environment} (lawful : W.Lawful)
    (sound : Moment.Sound W ⟨.call n f arguments, m⟩)
    (run : openCall f arguments m = (.ok env, m₁)) :
    Moment.Sound W ⟨.runAll n f.body, m₁.within env⟩ := by
  obtain ⟨ready, length, values⟩ := sound.placed
  obtain ⟨kept, rfl, alive, filled⟩ :=
    (ends_openCall lawful sound.good ready length values).ok run
  have grows : Grows W m₁ (m₁.within (m.store.frames.size :: f.environment)) :=
    .of_store rfl (Nat.le_refl _)
  refine ⟨lawful.starts sound.passed (.body run), ?_, ?_⟩
  · exact ⟨fun k x v slot => (kept.good.slots k x v slot).grow grows,
      fun id x v field => (kept.good.fields id x v field).grow grows, kept.good.globals⟩
  · obtain @⟨ed, around, outer, context, body, w, edition, visits, code, frames, _, _, _, owned⟩ :=
      ready
    have owned' := ((owned rfl).grow (kept.grows.trans grows)).enter rfl (fun within => within)
      (List.suffix_cons m.store.frames.size _)
    refine ⟨ed, _, ⟨edition, visits, ?_, owned'⟩, code⟩
    have opens : Moment.Opens ⟨.call n f arguments, m⟩
        ((Opener.routine f.params body).map ed.table.get?) m.store.frames.size f.environment := by
      rw [Opener.map, ← code]
      exact .call
    refine frames.push sound.passed opens rfl (kept.grows.trans grows) alive (fun x expects => ?_)
      (fun d x expects => ⟨?_, expects.2.1⟩) fun _ parent => ?_
    · have declared := ((step_bindParams f.params w.opened).declares 0 x).mp expects.1
      obtain ⟨_, _, mem⟩ := declared.resolve_left (w.not_declares_opened_zero x)
      obtain ⟨p, param, rfl⟩ := List.mem_map.mp mem
      exact filled p param
    · exact ((((step_bindParams f.params w.opened).declares (d + 1) x).mp
        expects.1).resolve_right (by simp))
    · cases parent

/-! ### Classes -/

/-- A class that is declared is one of the text, with its parents and members. -/
theorem placed_class {name : Token} {superclass : Option (Reference Distance)}
    {mixins : List (Reference Distance)} {methods statics : List (Routine Distance)}
    (placed : (Activity.exec n (.classDecl name superclass mixins methods statics)).Placed W m) :
    ∃ ed around levels w superclass₀ mixins₀ methods₀ statics₀,
      Stands W m ed
          ⟨around, levels, .stmt (.classDecl name superclass₀ mixins₀ methods₀ statics₀), w⟩ ∧
        superclass = superclass₀.map (·.map ed.table.get?) ∧
        mixins = mixins₀.map (·.map ed.table.get?) ∧
        methods = Routine.mapAll ed.table.get? methods₀ ∧
        statics = Routine.mapAll ed.table.get? statics₀ := by
  obtain ⟨ed, around, levels, s₀, w, stands, same⟩ := placed_exec placed
  cases s₀ with
  | classDecl name₀ superclass₀ mixins₀ methods₀ statics₀ =>
    simp only [Stmt.map, Stmt.classDecl.injEq] at same
    obtain ⟨rfl, rfl, rfl, rfl, rfl⟩ := same
    exact ⟨ed, around, levels, w, superclass₀, mixins₀, methods₀, statics₀, stands, rfl, rfl, rfl,
      rfl⟩
  | var _ value => cases value <;> cases same
  | ret _ value => cases value <;> cases same
  | ifElse _ _ e => cases e <;> cases same
  | _ => cases same

/-- From a class to its superclass. -/
theorem sound_superclass {name : Token} {ref : Reference Distance}
    {mixins : List (Reference Distance)} {methods statics : List (Routine Distance)}
    (lawful : W.Lawful)
    (sound : Moment.Sound W
      ⟨.exec (n + 1) (.classDecl name (some ref) mixins methods statics), m⟩) :
    Moment.Sound W ⟨.parent .superclassNotClass ref, m⟩ := by
  refine ⟨lawful.starts sound.passed .superclass, sound.good, ?_⟩
  obtain ⟨ed, around, levels, w, superclass₀, mixins₀, methods₀, statics₀, stands, same, _⟩ :=
    placed_class sound.placed
  cases superclass₀ with
  | none => cases same
  | some ref₀ =>
    cases same
    exact ⟨ed, _, stands.superclass, rfl⟩

/-- And to a mixin, behind the parents that were read before. -/
theorem sound_mixin {name : Token} {superclass : Option (Reference Distance)}
    {before behind : List (Reference Distance)} {ref : Reference Distance}
    {methods statics : List (Routine Distance)} {c : Option Class} {cs : List Class}
    (lawful : W.Lawful)
    (sound : Moment.Sound W
      ⟨.exec (n + 1) (.classDecl name superclass (before ++ ref :: behind) methods statics), m⟩)
    (kept : Kept W m m₂) (run : readSuperclass superclass m = (.ok c, m₁))
    (run₁ : readMixinClasses before m₁ = (.ok cs, m₂)) :
    Moment.Sound W ⟨.parent .mixinNotClass ref, m₂⟩ := by
  refine ⟨lawful.starts sound.passed (.mixin run run₁), kept.good, ?_⟩
  obtain ⟨ed, around, levels, w, superclass₀, mixins₀, methods₀, statics₀, stands, _, same, _⟩ :=
    placed_class sound.placed
  obtain ⟨before₀, rest, rfl, _, split⟩ := List.map_eq_append_iff.mp same.symm
  obtain ⟨ref₀, behind₀, rfl, same, _⟩ := List.map_eq_cons_iff.mp split
  exact ⟨ed, _, (stands.keep kept).mixin, same.symm⟩

/-- Behind the header of a class, whose name has a place now. -/
theorem sound_members {name : Token} {superclass : Option (Reference Distance)}
    {mixins : List (Reference Distance)} {methods statics : List (Routine Distance)}
    {c : Option Class} {cs : List Class} (lawful : W.Lawful)
    (sound : Moment.Sound W
      ⟨.exec (n + 1) (.classDecl name superclass mixins methods statics), m⟩)
    (kept : Kept W m m₃) (run : readSuperclass superclass m = (.ok c, m₁))
    (run₁ : readMixinClasses mixins m₁ = (.ok cs, m₂))
    (run₂ : declareHere name.lexeme m₂ = (.ok (), m₃))
    (introduced : m₃.store.contains (innermost m.environment) name.lexeme = true)
    (same : c.isSome = superclass.isSome)
    (parents : ∀ p, c = some p ∨ p ∈ cs → p.Ready W m₃) :
    Moment.Sound W ⟨.makeClass n name c cs methods statics, m₃⟩ := by
  refine ⟨lawful.starts sound.passed (.members run run₁ run₂), kept.good, ?_⟩
  obtain ⟨ed, around, levels, w, superclass₀, mixins₀, methods₀, statics₀, stands, rfl, rfl, rfl,
    rfl⟩ := placed_class sound.placed
  refine ⟨ed, around, levels, w, superclass₀, mixins₀, methods₀, statics₀, stands.keep kept, ?_, ?_,
    ?_, parents, rfl, rfl⟩
  · exact .intro sound.passed run run₁ run₂
  · rw [kept.environment]
    exact introduced
  · rw [same, Option.isSome_map]

/-! ### Methods -/

/-- A call that is made has as many arguments as the callee takes. -/
theorem length_of_checkCall {paren : Token} {callee : Value} {given arity : Nat}
    (check : checkCall paren callee given = .ok ()) (takes : callee.arity? = some arity) :
    given = arity := by
  simp only [checkCall, takes] at check
  split at check
  · assumption
  · cases check

/-- The methods of the class that a value finds its methods in. -/
theorem readyMethod_of_receiver {v : Value} {r : Receiver} {c : Class} {x : String} {f : Closure}
    (sound : v.Sound W m) (receiver : v.receiver? = some r) (cls : r.cls = some c)
    (found : c.findMethod x = some f) : ReadyMethod W m f := by
  cases v with
  | «class» c' =>
    cases receiver
    have ready : c'.Ready W m := sound
    obtain ⟨inner, cls', methods⟩ := ready.statics
    cases cls'.symm.trans cls
    exact methods x f found
  | «instance» o =>
    cases receiver
    cases cls
    exact sound.2.methods x f found
  | _ => cases receiver

end Steps

end LoxLang
