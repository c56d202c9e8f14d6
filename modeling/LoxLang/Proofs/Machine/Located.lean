/-
LoxLang.Proofs.Machine.Located: the body and the loop that a statement is executed in.

A statement is executed in the course of an activation: a call of a closure, or code at top level.
In between there are only blocks, branches and loops of one body, and the last turn of a loop in
between belongs to the innermost loop around the statement.

* `Activity.IsActivation`: where the code of a body begins.
* `Located`: the activation that a statement is executed in, and the turn of a loop.

Main statements: `exists_located`, that there is such an activation, and `Located.lies`, that it and
the loop are those of the text.
-/
import LoxLang.Proofs.Binding.Bodies
import LoxLang.Proofs.Machine.Moments
import LoxLang.Proofs.Machine.Steady

namespace LoxLang

/-! ## Activations -/

namespace Activity

/-- A call of a closure, or code at top level. -/
def IsActivation : Activity → Prop
  | .call .. => True
  | .runTop .. => True
  | _ => False

/-- The body that an activation executes. -/
def code : Activity → List (Stmt Distance)
  | .call _ f _ => f.body
  | .runTop _ ss => ss
  | _ => []

/-- A part of a body. -/
def IsPart : Activity → Prop
  | .exec .. => True
  | .runAll .. => True
  | .runTop .. => True
  | .iterate .. => True
  | _ => False

/-- The turns of a loop. -/
def IsLoop : Activity → Prop
  | .iterate .. => True
  | _ => False

/-- The condition of a loop, and the statement that it repeats. -/
def loop? : Activity → Option (Expr Distance × Stmt Distance)
  | .iterate _ c b _ => some (c, b)
  | _ => none

/-- What is executed stands in a body, in that loop. -/
def LiesIn (body : List (Stmt Distance)) (l : Option (Expr Distance × Stmt Distance)) :
    Activity → Prop
  | .exec _ s => Stmt.LiesIn body l s
  | .runAll _ ss => ∀ s ∈ ss, Stmt.LiesIn body l s
  | .runTop _ ss => ∀ s ∈ ss, Stmt.LiesIn body l s
  | .call _ f _ => ∀ s ∈ f.body, Stmt.LiesIn body l s
  | .iterate _ c b _ => Stmt.LiesIn body l (.whileLoop c b)
  | _ => True

end Activity

/-- The moment belongs to the activation `A`.  If a turn of a loop of the same body is in progress,
the other moment is the one at which the innermost such turn begins. -/
inductive Located (turns : Nat) (A : Moment) : Option Moment → Moment → Prop
  | activation (activation : A.activity.IsActivation) : Located turns A none A
  | part {l : Option Moment} {M M' : Moment} (outer : Located turns A l M)
      (starts : Starts turns M M') (isPart : M'.activity.IsPart)
      (stays : M.activity.IsLoop → M'.activity.IsLoop) : Located turns A l M'
  | turn {l : Option Moment} {M M' : Moment} (outer : Located turns A l M)
      (starts : Starts turns M M') (isPart : M'.activity.IsPart) (loop : M.activity.IsLoop)
      (enters : ¬ M'.activity.IsLoop) : Located turns A (some M) M'

section Location

variable {turns : Nat} {A M M' root : Moment} {l : Option Moment}

theorem Located.reaches (h : Located turns A l M) : Reaches turns A M := by
  induction h with
  | activation => exact .refl
  | part _ starts _ _ ih => exact ih.tail starts
  | turn _ starts _ _ _ ih => exact ih.tail starts

theorem Located.isActivation (h : Located turns A l M) : A.activity.IsActivation := by
  induction h with
  | activation activation => exact activation
  | part _ _ _ _ ih => exact ih
  | turn _ _ _ _ _ ih => exact ih

/-- The parts of a body are executed by other parts of it, or by a call. -/
theorem Starts.of_part (starts : Starts turns M M') (isPart : M'.activity.IsPart) :
    M.activity.IsPart ∨ M.activity.IsActivation := by
  cases starts with
  | branch | loop | turn | again | block | statement | statements | topStatement | topStatements =>
    exact .inl trivial
  | body => exact .inr trivial
  | _ => exact isPart.elim

/-- Every part of a body that is executed belongs to an activation: to a call, or to what the run
began with. -/
theorem exists_located (reaches : Reaches turns root M) (isPart : M.activity.IsPart)
    (begins : root.activity.IsPart → root.activity.IsActivation) :
    ∃ A l, Reaches turns root A ∧ Located turns A l M ∧
      (A = root ∨ ∃ n f arguments, A.activity = .call n f arguments) := by
  induction reaches with
  | refl => exact ⟨root, none, .refl, .activation (begins isPart), .inl rfl⟩
  | @tail M M' reaches starts ih =>
    have further : ∀ {A l}, Located turns A l M → ∃ l', Located turns A l' M' := by
      intro A l located
      by_cases loop : M.activity.IsLoop
      · by_cases again : M'.activity.IsLoop
        · exact ⟨l, located.part starts isPart fun _ => again⟩
        · exact ⟨some M, located.turn starts isPart loop again⟩
      · exact ⟨l, located.part starts isPart fun is => absurd is loop⟩
    by_cases inside : M.activity.IsPart
    · obtain ⟨A, l, toA, located, what⟩ := ih inside
      obtain ⟨l', located'⟩ := further located
      exact ⟨A, l', toA, located', what⟩
    · have activation := (starts.of_part isPart).resolve_left inside
      obtain ⟨l', located'⟩ := further (.activation activation)
      refine ⟨M, l', reaches, located', .inr ?_⟩
      obtain ⟨activity, m⟩ := M
      cases activity with
      | call n f arguments => exact ⟨n, f, arguments, rfl⟩
      | runTop _ _ => exact absurd trivial inside
      | _ => exact activation.elim

/-- A call is located at itself only: no part of a body is a call of a closure. -/
theorem Located.of_call {n : Nat} {f : Closure} {arguments : List Value} {m : Machine}
    (h : Located turns A l ⟨.call n f arguments, m⟩) : A = ⟨.call n f arguments, m⟩ ∧ l = none := by
  cases h with
  | activation => exact ⟨rfl, rfl⟩
  | part _ _ isPart => exact isPart.elim
  | turn _ _ isPart => exact isPart.elim

/-- What is left of the code at top level has the end of the whole code. -/
theorem Located.of_top {n : Nat} {ss : List (Stmt Distance)} {m : Machine}
    (h : Located turns A l ⟨.runTop n ss, m⟩) :
    l = none ∧ m.environment = A.machine.environment ∧ ∃ whole, A.activity = .runTop n whole ∧
      ss <:+ whole ∧
      runStatements (exec turns n) whole A.machine = runStatements (exec turns n) ss m := by
  generalize same : (⟨.runTop n ss, m⟩ : Moment) = M at h
  induction h generalizing ss m with
  | activation _ =>
    cases same
    exact ⟨rfl, rfl, ss, rfl, List.suffix_refl _, rfl⟩
  | part _ starts _ _ ih =>
    cases same
    cases starts with
    | @topStatements _ s _ m₀ completion _ run stays =>
      obtain ⟨none, environment, whole, code, suffix, ends⟩ := ih rfl
      have kept := (steady_exec turns n s).of_run run
      exact ⟨none, kept.trans environment, whole, code, (List.suffix_cons s ss).trans suffix,
        ends.trans (runStatements_rest run stays)⟩
  | turn _ starts _ loop _ _ =>
    cases same
    cases starts with
    | topStatements => exact loop.elim

/-! ## The text -/

theorem Stmt.LiesIn.branch {ρ : Type} {body : List (Stmt ρ)} {l : Option (Expr ρ × Stmt ρ)}
    {s t : Stmt ρ} {v : Value} (h : Stmt.LiesIn body l s) (chosen : s.branch? v = some t) :
    Stmt.LiesIn body l t := by
  cases s with
  | ifElse c t' e =>
    rw [Stmt.branch?] at chosen
    split at chosen
    · cases chosen
      exact h.part .thenBranch
    · cases chosen
      exact h.part .elseBranch
  | _ => cases chosen

/-- What is executed of a body, apart from the turns of a loop, stands in the same loop. -/
theorem Starts.lies {body : List (Stmt Distance)} {l : Option (Expr Distance × Stmt Distance)}
    (starts : Starts turns M M') (isPart : M'.activity.IsPart)
    (stays : M.activity.IsLoop → M'.activity.IsLoop) (lies : M.activity.LiesIn body l) :
    M'.activity.LiesIn body l := by
  cases starts with
  | branch part run chosen => exact Stmt.LiesIn.branch lies chosen
  | loop => exact lies
  | turn => exact (stays trivial).elim
  | again => exact lies
  | block => exact fun s mem => Stmt.LiesIn.part lies (.block mem)
  | statement => exact lies _ List.mem_cons_self
  | statements => exact fun s mem => lies s (List.mem_cons_of_mem _ mem)
  | topStatement => exact lies _ List.mem_cons_self
  | topStatements => exact fun s mem => lies s (List.mem_cons_of_mem _ mem)
  | body => exact lies
  | _ => exact isPart.elim

/-- The turn of a loop executes what the loop repeats. -/
theorem Starts.lies_turn {body : List (Stmt Distance)}
    {l : Option (Expr Distance × Stmt Distance)} (starts : Starts turns M M')
    (isPart : M'.activity.IsPart) (loop : M.activity.IsLoop) (enters : ¬ M'.activity.IsLoop)
    (lies : M.activity.LiesIn body l) : M'.activity.LiesIn body M.activity.loop? := by
  cases starts with
  | turn => exact Stmt.LiesIn.part lies .loop
  | again => exact absurd trivial enters
  | _ => first | exact loop.elim | exact isPart.elim

/-- What is executed stands in the code of its activation, and the loop whose turn is in progress is
the innermost one around it there. -/
theorem Located.lies (h : Located turns A l M) :
    M.activity.LiesIn A.activity.code (l.bind fun I => I.activity.loop?) := by
  induction h with
  | activation activation =>
    obtain ⟨activity, m⟩ := A
    cases activity with
    | call => exact fun s mem => .here mem
    | runTop => exact fun s mem => .here mem
    | _ => exact activation.elim
  | part _ starts isPart stays ih => exact starts.lies isPart stays ih
  | turn _ starts isPart loop enters ih => exact starts.lies_turn isPart loop enters ih

end Location

end LoxLang
