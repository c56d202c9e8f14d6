/-
LoxLang.Proofs.Binding.Bodies: the statements of one body.

A body is the code of one routine, or all the code at top level.  Its statements are those that are
reached through blocks, branches and loops; what stands in the body of a routine inside of it does
not belong to it.

* `Stmt.LiesIn`: a statement of a body, with the innermost loop around it.

Main statements: `exits_forLoop`, that the loop which a `for` loop stands for has the exits of its
body; `Edition.Accepted.not_liesIn`, that no `return` lies in the top-level code of a program that
was accepted.
-/
import LoxLang.Proofs.Binding.Levels

namespace LoxLang

/-- A statement has another one as a part of the same body.  The repeated statement of a loop comes
with the loop. -/
inductive Stmt.Part {ρ : Type} : Stmt ρ → Option (Expr ρ × Stmt ρ) → Stmt ρ → Prop
  | block {ss : List (Stmt ρ)} {s : Stmt ρ} (mem : s ∈ ss) : Part (.block ss) none s
  | thenBranch {c : Expr ρ} {t : Stmt ρ} {e : Option (Stmt ρ)} : Part (.ifElse c t e) none t
  | elseBranch {c : Expr ρ} {t e : Stmt ρ} : Part (.ifElse c t (some e)) none e
  | loop {c : Expr ρ} {b : Stmt ρ} : Part (.whileLoop c b) (some (c, b)) b

/-- The statement stands in the body; the innermost loop of the body around it, if there is one, has
that condition and that statement to repeat. -/
inductive Stmt.LiesIn {ρ : Type} (body : List (Stmt ρ)) : Option (Expr ρ × Stmt ρ) → Stmt ρ → Prop
  | here {s : Stmt ρ} (mem : s ∈ body) : LiesIn body none s
  | part {l l' : Option (Expr ρ × Stmt ρ)} {s s' : Stmt ρ} (outer : LiesIn body l s)
      (part : s.Part l' s') : LiesIn body (l'.or l) s'

namespace Stmt

variable {ρ σ : Type} {body body' : List (Stmt ρ)} {l l' : Option (Expr ρ × Stmt ρ)}
  {s s' t : Stmt ρ}

/-- With other marks the parts of a statement are still the same. -/
theorem Part.of_map {f : ρ → σ} {l : Option (Expr σ × Stmt σ)} {t : Stmt σ}
    (h : (s.map f).Part l t) : ∃ l₀ t₀, s.Part l₀ t₀ ∧ t = t₀.map f := by
  cases s with
  | block ss =>
    cases h with
    | block mem =>
      rw [Stmt.mapAll_eq] at mem
      obtain ⟨t₀, mem₀, rfl⟩ := List.mem_map.mp mem
      exact ⟨none, t₀, .block mem₀, rfl⟩
  | ifElse c t e =>
    cases e with
    | none =>
      cases h with
      | thenBranch => exact ⟨none, t, .thenBranch, rfl⟩
    | some e =>
      cases h with
      | thenBranch => exact ⟨none, t, .thenBranch, rfl⟩
      | elseBranch => exact ⟨none, e, .elseBranch, rfl⟩
  | whileLoop c b =>
    cases h with
    | loop => exact ⟨some (c, b), b, .loop, rfl⟩
  | var _ value => cases value <;> cases h
  | ret _ value => cases value <;> cases h
  | _ => cases h

namespace LiesIn

/-- A part of a statement of the body is a statement of the body. -/
theorem inside (h : LiesIn body l s) (part : LiesIn [s] l' s') : LiesIn body (l'.or l) s' := by
  induction part with
  | here mem =>
    cases List.mem_singleton.mp mem
    exact h
  | part _ part ih =>
    rw [Option.or_assoc]
    exact ih.part part

/-- What stands in a body stands in every body with its statements. -/
theorem mono (h : LiesIn body l s) (sub : body ⊆ body') : LiesIn body' l s := by
  induction h with
  | here mem => exact .here (sub mem)
  | part _ part ih => exact ih.part part

/-- With other marks the statements of a body are still the same. -/
theorem of_map {f : ρ → σ} {l : Option (Expr σ × Stmt σ)} {s : Stmt σ}
    (h : LiesIn (Stmt.mapAll f body) l s) : ∃ l₀ s₀, LiesIn body l₀ s₀ ∧ s = s₀.map f := by
  induction h with
  | here mem =>
    rw [Stmt.mapAll_eq] at mem
    obtain ⟨s₀, mem₀, rfl⟩ := List.mem_map.mp mem
    exact ⟨none, s₀, .here mem₀, rfl⟩
  | part _ part ih =>
    obtain ⟨l₀, s₀, lies, rfl⟩ := ih
    obtain ⟨l₁, s₁, part₁, same⟩ := part.of_map
    exact ⟨l₁.or l₀, s₁, lies.part part₁, same⟩

/-- What stands in a body stands in one of its statements. -/
theorem iff_exists_mem : LiesIn body l t ↔ ∃ s ∈ body, LiesIn [s] l t := by
  constructor
  · intro lies
    induction lies with
    | here mem => exact ⟨_, mem, .here List.mem_cons_self⟩
    | part _ part ih =>
      obtain ⟨s, mem, lies⟩ := ih
      exact ⟨s, mem, lies.part part⟩
  · rintro ⟨s, mem, lies⟩
    exact lies.mono fun _ only => List.mem_singleton.mp only ▸ mem

/-- What stands in a part of a statement stands in the statement. -/
theorem of_part (h : LiesIn [s'] l t) (part : s.Part l' s') : LiesIn [s] (l.or l') t := by
  have lies : LiesIn [s] (l'.or none) s' := .part (.here List.mem_cons_self) part
  rw [Option.or_none] at lies
  exact lies.inside h

theorem of_plain (h : LiesIn [s'] l t) (part : s.Part none s') : LiesIn [s] l t := by
  simpa only [Option.or_none] using h.of_part part

/-- What stands in a statement is the statement, or stands in a part of it. -/
theorem split (h : LiesIn [s] l t) :
    (l = none ∧ t = s) ∨
      ∃ l₁ s₁ l₀, s.Part l₁ s₁ ∧ LiesIn [s₁] l₀ t ∧ l = l₀.or l₁ := by
  induction h with
  | here mem => exact .inl ⟨rfl, List.mem_singleton.mp mem⟩
  | @part _ l' _ s' _ part ih =>
    rcases ih with ⟨rfl, rfl⟩ | ⟨l₁, s₁, l₀, first, lies, rfl⟩
    · exact .inr ⟨l', s', none, part, .here List.mem_cons_self, by simp⟩
    · exact .inr ⟨l₁, s₁, l'.or l₀, first, lies.part part, (Option.or_assoc ..).symm⟩

end LiesIn

end Stmt

/-- A `return` stands in the statement, outside of the routines in it. -/
def Stmt.Returns {ρ : Type} (s : Stmt ρ) : Prop :=
  ∃ l keyword value, Stmt.LiesIn [s] l (.ret keyword value)

theorem Stmt.Returns.of_part {ρ : Type} {l : Option (Expr ρ × Stmt ρ)} {s part : Stmt ρ}
    (h : part.Returns) (lies : Stmt.LiesIn [s] l part) : s.Returns := by
  obtain ⟨l', keyword, value, inner⟩ := h
  exact ⟨_, keyword, value, lies.inside inner⟩

/-! ## Loops that stand for `for` loops -/

section ForLoops

variable {l : Option (Expr Site × Stmt Site)} {keyword : Token}

theorem liesIn_cons {s t : Stmt Site} {ss : List (Stmt Site)} :
    Stmt.LiesIn (s :: ss) l t ↔ Stmt.LiesIn [s] l t ∨ Stmt.LiesIn ss l t := by
  rw [Stmt.LiesIn.iff_exists_mem, @Stmt.LiesIn.iff_exists_mem Site ss]
  simp only [List.mem_cons, or_and_right, exists_or, exists_eq_left]

theorem exit_block {ss : List (Stmt Site)} :
    Stmt.LiesIn [.block ss] l (.loopExit keyword) ↔ Stmt.LiesIn ss l (.loopExit keyword) := by
  constructor
  · intro lies
    rcases lies.split with ⟨_, no⟩ | ⟨_, s, l₀, part, inner, rfl⟩
    · cases no
    · cases part with
      | block mem =>
        rw [Option.or_none]
        exact Stmt.LiesIn.iff_exists_mem.mpr ⟨s, mem, inner⟩
  · intro lies
    obtain ⟨s, mem, inner⟩ := Stmt.LiesIn.iff_exists_mem.mp lies
    exact inner.of_plain (.block mem)

theorem exit_ifElse {c : Expr Site} {t : Stmt Site} {e : Option (Stmt Site)} :
    Stmt.LiesIn [.ifElse c t e] l (.loopExit keyword) ↔
      Stmt.LiesIn [t] l (.loopExit keyword) ∨
        ∃ e' ∈ e, Stmt.LiesIn [e'] l (.loopExit keyword) := by
  constructor
  · intro lies
    rcases lies.split with ⟨_, no⟩ | ⟨_, _, l₀, part, inner, rfl⟩
    · cases no
    · cases part with
      | thenBranch =>
        rw [Option.or_none]
        exact .inl inner
      | elseBranch =>
        rw [Option.or_none]
        exact .inr ⟨_, rfl, inner⟩
  · rintro (inner | ⟨e', rfl, inner⟩)
    · exact inner.of_plain .thenBranch
    · exact inner.of_plain .elseBranch

theorem exit_whileLoop {c : Expr Site} {b : Stmt Site} :
    Stmt.LiesIn [.whileLoop c b] l (.loopExit keyword) ↔
      ∃ l₀, Stmt.LiesIn [b] l₀ (.loopExit keyword) ∧ l = l₀.or (some (c, b)) := by
  constructor
  · intro lies
    rcases lies.split with ⟨_, no⟩ | ⟨_, _, l₀, part, inner, rfl⟩
    · cases no
    · cases part with
      | loop => exact ⟨l₀, inner, rfl⟩
  · rintro ⟨l₀, inner, rfl⟩
    exact inner.of_part .loop

theorem not_exit_expression {e : Expr Site} :
    ¬ Stmt.LiesIn [.expression e] l (.loopExit keyword) := by
  intro lies
  rcases lies.split with ⟨_, no⟩ | ⟨_, _, _, part, _⟩
  · cases no
  · cases part

variable (increment : Expr Site)

mutual

/-- With copies of the increment in it a body has the same exits. -/
theorem exit_withIncrement : ∀ (s : Stmt Site) (k : Site),
    Stmt.LiesIn [(s.withIncrement increment k).1] l (.loopExit keyword) ↔
      Stmt.LiesIn [s] l (.loopExit keyword)
  | .block body, k => by
    show Stmt.LiesIn [.block (Stmt.withIncrementAll increment body k).1] _ _ ↔ _
    rw [exit_block, exit_block, exit_withIncrementAll body k]
  | .loopExit other, k => by
    rw [Stmt.withIncrement]
    split
    · rfl
    · show Stmt.LiesIn [.block [.expression _, .loopExit other]] _ _ ↔ _
      rw [exit_block, liesIn_cons]
      exact or_iff_right not_exit_expression
  | .ifElse c t none, k => by
    show Stmt.LiesIn [.ifElse c (t.withIncrement increment k).1 none] _ _ ↔ _
    rw [exit_ifElse, exit_ifElse, exit_withIncrement t k]
  | .ifElse c t (some e), k => by
    show Stmt.LiesIn [.ifElse c (t.withIncrement increment k).1
      (some (e.withIncrement increment (t.withIncrement increment k).2).1)] _ _ ↔ _
    rw [exit_ifElse, exit_ifElse, exit_withIncrement t k]
    simp only [Option.mem_some_iff, exists_eq_left']
    rw [exit_withIncrement e]
  | .missing, _ => Iff.rfl
  | .expression _, _ => Iff.rfl
  | .print _, _ => Iff.rfl
  | .var _ _, _ => Iff.rfl
  | .whileLoop _ _, _ => Iff.rfl
  | .ret _ _, _ => Iff.rfl
  | .function _, _ => Iff.rfl
  | .classDecl _ _ _ _ _, _ => Iff.rfl

theorem exit_withIncrementAll : ∀ (ss : List (Stmt Site)) (k : Site),
    Stmt.LiesIn (Stmt.withIncrementAll increment ss k).1 l (.loopExit keyword) ↔
      Stmt.LiesIn ss l (.loopExit keyword)
  | [], _ => Iff.rfl
  | s :: ss, k => by
    show Stmt.LiesIn ((s.withIncrement increment k).1 ::
      (Stmt.withIncrementAll increment ss (s.withIncrement increment k).2).1) _ _ ↔ _
    rw [liesIn_cons, exit_withIncrement s k, exit_withIncrementAll ss, ← liesIn_cons]

end

/-- A `for` loop stands for a loop of the tree.  Its exits are those of its initial statement and
those of its body, and what has no loop of the body around it has that loop around it. -/
theorem exits_forLoop (init : Option (Stmt Site)) (condition increment : Option (Expr Site))
    (body : Stmt Site) (k : Site) :
    let s := (forLoop init condition increment body k).1
    ∃ c b, Stmt.LiesIn [s] none (.whileLoop c b) ∧
      ∀ l keyword, Stmt.LiesIn [s] l (.loopExit keyword) ↔
        (∃ i ∈ init, Stmt.LiesIn [i] l (.loopExit keyword)) ∨
          ∃ l₀, Stmt.LiesIn [body] l₀ (.loopExit keyword) ∧ l = l₀.or (some (c, b)) := by
  intro s
  have copies : ∀ l keyword, Stmt.LiesIn [(loopBody increment body k).1] l (.loopExit keyword) ↔
      Stmt.LiesIn [body] l (.loopExit keyword) := by
    intro l keyword
    cases increment with
    | none => rfl
    | some e =>
      show Stmt.LiesIn [.block [(body.withIncrement e k).1, .expression e]] _ _ ↔ _
      rw [exit_block, liesIn_cons, exit_withIncrement]
      exact or_iff_left not_exit_expression
  refine ⟨condition.getD (.literal (.bool true)), (loopBody increment body k).1, ?_⟩
  cases init with
  | none =>
    refine ⟨.here List.mem_cons_self, fun l keyword => ?_⟩
    show Stmt.LiesIn [.whileLoop _ (loopBody increment body k).1] _ _ ↔ _
    rw [exit_whileLoop]
    simp [copies]
  | some i =>
    constructor
    · exact .part (.here List.mem_cons_self) (.block (List.mem_cons_of_mem _ List.mem_cons_self))
    · intro l keyword
      show Stmt.LiesIn [.block [i, .whileLoop _ (loopBody increment body k).1]] _ _ ↔ _
      rw [exit_block, liesIn_cons, exit_whileLoop]
      simp [copies]

end ForLoops

/-! ## Code at top level -/

namespace Edition

variable {ed : Edition} {around : Surroundings}

theorem Visits.of_mem {levels : List Level} {ss : List (Stmt Site)} {s : Stmt Site} (mem : s ∈ ss) :
    ∀ {w : Walk}, ed.Visits ⟨around, levels, .stmts ss, w⟩ →
      ∃ w', ed.Visits ⟨around, levels, .stmt s, w'⟩ := by
  induction ss with
  | nil => cases mem
  | cons first rest ih =>
    intro w visits
    rcases List.mem_cons.mp mem with rfl | mem
    · exact ⟨w, visits.enter .first⟩
    · exact ih mem (visits.enter .rest)

/-- The walk comes to every statement of the top-level code, outside of all routines and classes. -/
theorem visits_of_liesIn {l : Option (Expr Site × Stmt Site)} {s : Stmt Site}
    (h : Stmt.LiesIn ed.program l s) :
    ∃ levels w, ed.Visits ⟨.top ed.isGlobal, levels, .stmt s, w⟩ := by
  induction h with
  | here mem =>
    obtain ⟨w, visits⟩ := Visits.of_mem mem (.refl : ed.Visits ed.root)
    exact ⟨_, w, visits⟩
  | part _ part ih =>
    obtain ⟨levels, w, visits⟩ := ih
    cases part with
    | block mem =>
      obtain ⟨w', visits'⟩ := Visits.of_mem mem (visits.enter .block)
      exact ⟨_, w', visits'⟩
    | thenBranch => exact ⟨_, _, visits.enter .thenBranch⟩
    | elseBranch => exact ⟨_, _, visits.enter .elseBranch⟩
    | loop => exact ⟨_, _, visits.enter .loopBody⟩

/-- The rules complain about a `return` outside of all routines. -/
theorem Visits.ret_routine {levels : List Level} {keyword : Token} {value : Option (Expr Site)}
    {w : Walk} (visits : ed.Visits ⟨around, levels, .stmt (.ret keyword value), w⟩)
    (accepted : ed.Accepted) : around.routine ≠ .none := by
  intro outside
  have none := visits.accepted accepted
  have complained : (w.after (complainIf (around.routine = .none) keyword
      .returnAtTopLevel)).complaints ≠ [] := by
    rw [decide_eq_true outside]
    exact List.append_ne_nil_of_right_ne_nil _ (List.cons_ne_nil _ _)
  have checked := (step_complainIf (value.isSome && decide (around.routine = .initializer)) keyword
    .returnFromInitializer (w.after (complainIf (around.routine = .none) keyword
      .returnAtTopLevel))).complaints
  have behind : (w.after (checkReturn around keyword value.isSome)).complaints <+:
      (w.after (bindStmt around (.ret keyword value))).complaints := by
    cases value with
    | none => exact List.prefix_refl _
    | some e => exact (step_bindExpr around e _).complaints
  have none : (w.after (bindStmt around (.ret keyword value))).complaints = [] := none
  rw [none] at behind
  exact complained (List.prefix_nil.mp (checked.trans behind))

/-- No `return` lies in the top-level code of a program that was accepted. -/
theorem Accepted.not_liesIn (accepted : ed.Accepted) {l : Option (Expr Distance × Stmt Distance)}
    {keyword : Token} {value : Option (Expr Distance)} :
    ¬ Stmt.LiesIn (Stmt.mapAll ed.table.get? ed.program) l (.ret keyword value) := by
  intro lies
  obtain ⟨l₀, s₀, lies₀, same⟩ := lies.of_map
  obtain ⟨levels, w, visits⟩ := visits_of_liesIn lies₀
  cases s₀ with
  | ret keyword₀ value₀ => exact visits.ret_routine accepted rfl
  | var _ value => cases value <;> cases same
  | ifElse _ _ e => cases e <;> cases same
  | _ => cases same

end Edition

end LoxLang
