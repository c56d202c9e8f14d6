/-
LoxLang.Proofs.Machine.Placed: where a run is in the text.

A moment at a node has its place in the walk over the program: a visit of the node, whose scopes the
environment mirrors.  The names that the walk has declared so far have places in the frames, except
for those that a run gives a place later than the walk does.

* `Visit.Expects`: the names that the frames are known to have.
* `Stands`: a machine is where the walk was at a visit.
* `Activity.Shows`: what a run does at an item.

Main statements: `Stands.operand`, `Stands.block`, `Stands.rest` and so on, one for each way in
which a run comes from a node to a part of it, and `Stands.closure` for routines.
-/
import LoxLang.Proofs.Machine.Changes

namespace LoxLang

/-! ## Standing at a visit -/

/-- The walk declares the name of a class in front of its header, and a run behind it. -/
def Item.Awaits : Item → Nat → String → Prop
  | header cls _ _, d, x => d = 0 ∧ x = cls.lexeme
  | _, _, _ => False

/-- The names that the frames have at a visit. -/
def Visit.Expects (v : Visit) (d : Nat) (x : String) : Prop :=
  v.walk.Declares d x ∧ ¬ Pends v.levels d x ∧ ¬ v.item.Awaits d x

/-- The machine is where the walk over a program was at a visit. -/
structure Stands (W : World) (m : Machine) (ed : Edition) (v : Visit) : Prop where
  edition : W.editions ed
  visits : ed.Visits v
  frames : Frames W ed.table v.levels v.Expects m.environment m
  owned : Owned W ed v m.environment m

/-- The header of a class declares its name. -/
theorem step_headerWalk (around : Surroundings) (name : Token)
    (superclass : Option (Reference Site)) (mixins : List (Reference Site)) (w : Walk) :
    Walk.Step ((superclass.toList ++ mixins).map Reference.mark) [name.lexeme] w
      (headerWalk around name superclass mixins w) := by
  have step := ((step_declareName name w).trans (step_defineName name _)).trans
    ((step_superclass around name superclass _).trans
      (step_bindParents around name .mixesInItself mixins _))
  exact step.mono (by simp) (by simp)

/-- The activity is at the item, in a tree with the distances of a table. -/
def Activity.Shows (table : Distances) : Activity → Item → Prop
  | .eval _ e, .expr e₀ => e = e₀.map table.get?
  | .exec _ s, .stmt s₀ => s = s₀.map table.get?
  | .runAll _ ss, .stmts ss₀ => ss = Stmt.mapAll table.get? ss₀
  | .runTop _ ss, .stmts ss₀ => ss = Stmt.mapAll table.get? ss₀
  | .iterate _ c b _, .stmt (.whileLoop c₀ b₀) => c = c₀.map table.get? ∧ b = b₀.map table.get?
  | .parent _ ref, .header _ _ ref₀ => ref = ref₀.map table.get?
  | _, _ => False

namespace Stands

variable {W : World} {m m' : Machine} {ed : Edition} {v v' : Visit} {around : Surroundings}
  {levels : List Level} {w w' : Walk} {item item' : Item}

theorem grow (h : Stands W m ed v) (grows : Grows W m m')
    (environment : m'.environment = m.environment) : Stands W m' ed v where
  edition := h.edition
  visits := h.visits
  frames := by
    rw [environment]
    exact h.frames.grow grows
  owned := by
    rw [environment]
    exact h.owned.grow grows

theorem keep (h : Stands W m ed v) (kept : Kept W m m') : Stands W m' ed v :=
  h.grow kept.grows kept.environment

theorem sound (h : Stands W m ed v) (lawful : W.Lawful) : v.Sound W.worded :=
  h.visits.sound (lawful.formed h.edition)

/-- To a part in the same scopes, behind a stretch of the walk that declares nothing. -/
theorem part (h : Stands W m ed ⟨around, levels, item, w⟩)
    (enters : Visit.Enters ⟨around, levels, item, w⟩ ⟨around, levels, item', w'⟩)
    {sites : List Site} (step : Walk.Step sites [] w w')
    (await : ∀ d x, item.Awaits d x → item'.Awaits d x) :
    Stands W m ed ⟨around, levels, item', w'⟩ where
  edition := h.edition
  visits := h.visits.enter enters
  frames := by
    refine h.frames.sub fun d x expects => ?_
    obtain ⟨declares, pends, awaits⟩ := expects
    exact ⟨((step.declares d x).mp declares).resolve_right (by simp), pends,
      fun awaited => awaits (await d x awaited)⟩
  owned := h.owned.enter rfl (fun within => within.part enters rfl) (List.suffix_refl _)

theorem operand {e e' : Expr Site} {before behind : List (Expr Site)}
    (h : Stands W m ed ⟨around, levels, .expr e, w⟩) (parts : e.operands = before ++ e' :: behind) :
    Stands W m ed ⟨around, levels, .expr e', w.after (bindExprs around before)⟩ :=
  h.part (.operand parts) (step_bindExprs around before w) fun _ _ no => no

theorem first {s : Stmt Site} {ss : List (Stmt Site)}
    (h : Stands W m ed ⟨around, levels, .stmts (s :: ss), w⟩) :
    Stands W m ed ⟨around, levels, .stmt s, w⟩ :=
  h.part .first (.refl w) fun _ _ no => no

/-- Behind declarations whose names have their places. -/
theorem behind (h : Stands W m ed ⟨around, levels, item, w⟩) (plain : ∀ d x, ¬ item.Awaits d x)
    {sites : List Site} {names : List String} (step : Walk.Step sites names w w')
    (introduced : ∀ x ∈ names, m.store.contains (innermost m.environment) x = true) :
    Frames W ed.table levels (fun d x => w'.Declares d x ∧ ¬ Pends levels d x) m.environment m where
  mirrors := h.frames.mirrors
  alive := h.frames.alive
  filled d k x found expects := by
    obtain ⟨declares, pends⟩ := expects
    rcases (step.declares d x).mp declares with before | ⟨rfl, _, mem⟩
    · exact h.frames.filled d k x found ⟨before, pends, plain d x⟩
    · obtain ⟨k', outer, env⟩ := h.frames.mirrors.exists_cons
      have added := introduced x mem
      rw [env] at added found
      cases found
      exact added
  supers := h.frames.supers

/-- Behind a statement, whose names have their places now. -/
theorem rest {s : Stmt Site} {ss : List (Stmt Site)}
    (h : Stands W m ed ⟨around, levels, .stmts (s :: ss), w⟩)
    (introduced : ∀ x ∈ s.introduces, m.store.contains (innermost m.environment) x = true) :
    Stands W m ed ⟨around, levels, .stmts ss, w.after (bindStmt around s)⟩ where
  edition := h.edition
  visits := h.visits.enter .rest
  frames := (h.behind (fun _ _ no => no) (step_bindStmt around s w) introduced).sub
    fun _ _ expects => ⟨expects.1, expects.2.1⟩
  owned := h.owned.enter rfl (fun within => within.part .rest rfl) (List.suffix_refl _)

theorem value {s : Stmt Site} {e : Expr Site} (h : Stands W m ed ⟨around, levels, .stmt s, w⟩)
    (part : s.operand? = some e) :
    Stands W m ed ⟨around, levels, .expr e, w.after (bindPreface around s)⟩ := by
  have step : Walk.Step [] [] w (w.after (bindPreface around s)) := by
    cases s with
    | ret keyword value => exact step_checkReturn around keyword value.isSome w
    | _ => exact .refl w
  exact h.part (.value part) step fun _ _ no => no

/-- In the initial value of a variable, which has no place yet. -/
theorem initial {name : Token} {e : Expr Site} (lawful : W.Lawful)
    (h : Stands W m ed ⟨around, levels, .stmt (.var name (some e)), w⟩) :
    Stands W m ed ⟨around, pend name.lexeme levels, .expr e, w.after (declareName name)⟩ where
  edition := h.edition
  visits := h.visits.enter .initial
  frames := by
    have sound := h.sound lawful
    refine (h.frames.pend name.lexeme).sub fun d x expects => ?_
    obtain ⟨declares, pends, _⟩ := expects
    have apart : ∀ {level : Level} {outer : List Level}, levels = level :: outer → d = 0 →
        x ≠ name.lexeme := by
      rintro level outer rfl rfl rfl
      exact pends ⟨_, rfl, sound.head level rfl, rfl⟩
    refine ⟨?_, ?_, fun no => no⟩
    · rcases ((step_declareName name w).declares d x).mp declares with before | ⟨zero, scopes, mem⟩
      · exact before
      · have height := sound.enclosed.fit.height
        cases levels with
        | nil => exact absurd (List.length_eq_zero_iff.mp height) scopes
        | cons level outer => exact absurd (List.mem_singleton.mp mem) (apart rfl zero)
    · rintro ⟨level, found, isOpen, pending⟩
      cases levels with
      | nil => cases found
      | cons first outer =>
        cases d with
        | zero =>
          have settled := sound.settled trivial level found
          rw [settled] at pending
          cases pending
        | succ d => exact pends ⟨level, found, isOpen, pending⟩
  owned := h.owned.enter rfl (fun within => within.enter .initial rfl) (List.suffix_refl _)

theorem thenBranch {c : Expr Site} {t : Stmt Site} {e : Option (Stmt Site)}
    (h : Stands W m ed ⟨around, levels, .stmt (.ifElse c t e), w⟩) :
    Stands W m ed ⟨around, levels, .stmt t, w.after (bindExpr around c)⟩ :=
  h.part .thenBranch (step_bindExpr around c w) fun _ _ no => no

theorem elseBranch {c : Expr Site} {t e : Stmt Site} (lawful : W.Lawful)
    (h : Stands W m ed ⟨around, levels, .stmt (.ifElse c t (some e)), w⟩) :
    Stands W m ed
      ⟨around, levels, .stmt e, (w.after (bindExpr around c)).after (bindStmt around t)⟩ := by
  have closed : t.introduces = [] := (h.sound lawful).formed.2.1.2
  have step := (step_bindExpr around c w).trans (step_bindStmt around t _)
  rw [closed] at step
  exact h.part .elseBranch step fun _ _ no => no

theorem loopBody {c : Expr Site} {b : Stmt Site}
    (h : Stands W m ed ⟨around, levels, .stmt (.whileLoop c b), w⟩) :
    Stands W m ed ⟨around, levels, .stmt b, w.after (bindExpr around c)⟩ :=
  h.part .loopBody (step_bindExpr around c w) fun _ _ no => no

/-- In a block, in a frame of its own. -/
theorem block {body : List (Stmt Site)} {n : Nat}
    (h : Stands W m ed ⟨around, levels, .stmt (.block body), w⟩)
    (passed : W.passes ⟨.exec (n + 1) (.block (Stmt.mapAll ed.table.get? body)), m⟩)
    (good : m.Good W) :
    Stands W (m.entered m.environment) ed
      ⟨around, ⟨.block body, none⟩ :: levels, .stmts body, w.opened⟩ where
  edition := h.edition
  visits := h.visits.enter .block
  frames := by
    have grows : Grows W m (m.entered m.environment) :=
      (Kept.addFrame good).grows.trans (.of_store rfl (Nat.le_refl _))
    refine h.frames.push passed .block rfl grows (by simp [Machine.entered]) (fun x expects => ?_)
      (fun d x expects => ?_) fun _ parent => ?_
    · exact absurd expects.1 (w.not_declares_opened_zero x)
    · exact ⟨(w.declares_opened_succ d x).mp expects.1, expects.2.1, fun no => no⟩
    · cases parent
  owned := by
    have grows : Grows W m (m.entered m.environment) :=
      (Kept.addFrame good).grows.trans (.of_store rfl (Nat.le_refl _))
    exact (h.owned.grow grows).enter rfl (fun within => within.enter .block rfl)
      (List.suffix_cons _ _)

theorem superclass {name : Token} {ref : Reference Site} {mixins : List (Reference Site)}
    {methods statics : List (Routine Site)}
    (h : Stands W m ed
      ⟨around, levels, .stmt (.classDecl name (some ref) mixins methods statics), w⟩) :
    Stands W m ed ⟨around, levels, .header name .inheritsItself ref, w.after (introduce name)⟩ where
  edition := h.edition
  visits := h.visits.enter .superclass
  frames := by
    refine h.frames.sub fun d x expects => ?_
    obtain ⟨declares, pends, awaits⟩ := expects
    have step := (step_declareName name w).trans (step_defineName name _)
    refine ⟨((step.declares d x).mp declares).resolve_right ?_, pends, fun no => no⟩
    rintro ⟨zero, _, mem⟩
    exact awaits ⟨zero, List.mem_singleton.mp mem⟩
  owned := h.owned.enter rfl (fun within => within.part .superclass rfl) (List.suffix_refl _)

theorem mixin {name : Token} {superclass : Option (Reference Site)} {ref : Reference Site}
    {before behind : List (Reference Site)} {methods statics : List (Routine Site)}
    (h : Stands W m ed
      ⟨around, levels, .stmt (.classDecl name superclass (before ++ ref :: behind) methods statics),
        w⟩) :
    Stands W m ed
      ⟨around, levels, .header name .mixesInItself ref,
        headerWalk around name superclass before w⟩ where
  edition := h.edition
  visits := h.visits.enter .mixin
  frames := by
    refine h.frames.sub fun d x expects => ?_
    obtain ⟨declares, pends, awaits⟩ := expects
    refine ⟨(((step_headerWalk around name superclass before w).declares d x).mp
      declares).resolve_right ?_, pends, fun no => no⟩
    rintro ⟨zero, _, mem⟩
    exact awaits ⟨zero, List.mem_singleton.mp mem⟩
  owned := h.owned.enter rfl (fun within => within.part .mixin rfl) (List.suffix_refl _)

/-- A closure over the environment of a node, outside of class declarations. -/
theorem closure {context : RoutineContext} {body : List (Stmt Site)} {f : Closure}
    (h : Stands W m ed ⟨around, levels, item, w⟩) (outside : item.members = [])
    (enters : Visit.Enters ⟨around, levels, item, w⟩
      (bodyVisit around levels context f.params body w'))
    (frames : Frames W ed.table levels (fun d x => w'.Declares d x ∧ ¬ Pends levels d x)
      m.environment m)
    (code : f.body = Stmt.mapAll ed.table.get? body) (environment : f.environment = m.environment)
    (kind : f.kind = .plain) : Ready W m [] f := by
  refine .intro h.edition (h.visits.enter enters) code ?_ (fun getter => ?_) (fun init => ?_)
    (fun no => nomatch no) fun _ => ?_
  · rw [environment]
    exact frames
  · rw [kind] at getter
    cases getter
  · rw [kind] at init
    cases init
  · rw [environment]
    exact h.owned.enter rfl (fun within => within.enter enters outside) (List.suffix_refl _)

/-- The closure of a routine without a name. -/
theorem anonymous {keyword : Token} {params : List Token} {body : List (Stmt Site)} {f : Closure}
    (h : Stands W m ed ⟨around, levels, .expr (.function keyword params body), w⟩)
    (parameters : f.params = params) (code : f.body = Stmt.mapAll ed.table.get? body)
    (environment : f.environment = m.environment) (kind : f.kind = .plain) : Ready W m [] f := by
  subst parameters
  have frames := h.behind (fun _ _ no => no) (.refl w) (by simp)
  exact h.closure rfl .anonymous frames code environment kind

/-- The closure of a function, whose name has a place. -/
theorem function {name : Token} {params : List Token} {body : List (Stmt Site)} {getter : Bool}
    {f : Closure}
    (h : Stands W m ed ⟨around, levels, .stmt (.function ⟨name, params, body, getter⟩), w⟩)
    (introduced : m.store.contains (innermost m.environment) name.lexeme = true)
    (parameters : f.params = params) (code : f.body = Stmt.mapAll ed.table.get? body)
    (environment : f.environment = m.environment) (kind : f.kind = .plain) : Ready W m [] f := by
  subst parameters
  have step := (((step_declareName name w).trans (step_defineName name _)).trans
    (step_useName name _)).trans
      (step_checkGetter around (⟨name, f.params, body, getter⟩ : Routine Site) _)
  have frames := h.behind (fun _ _ no => no) step fun x mem => by
    rw [List.mem_singleton.mp mem]
    exact introduced
  exact h.closure rfl .function frames code environment kind

end Stands

end LoxLang
