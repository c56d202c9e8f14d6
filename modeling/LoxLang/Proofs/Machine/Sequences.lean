/-
LoxLang.Proofs.Machine.Sequences: statements and turns one after another.

Sequences, loops and code at top level are put together from runs of single statements.  How they
end follows from how the first statement or the first turn ends.

* `Ending`: how the run of a statement ends, and the machine that it leaves.

Main statements: `runAll_cons`, `iterate_succ`, `runStatements_cons`.
-/
import LoxLang.Machine.Eval
import LoxLang.Proofs.Outcome

namespace LoxLang

/-- How the run of a statement ends, and the machine that it leaves. -/
abbrev Ending := Except Failure Completion × Machine

/-! ## Statements -/

theorem runAll_cons (exec : Stmt Distance → Run Completion) (s : Stmt Distance)
    (ss : List (Stmt Distance)) (m : Machine) :
    (runAll exec (s :: ss) m : Ending) =
      match (exec s m : Ending) with
      | (.ok .normal, m') => runAll exec ss m'
      | ending => ending := by
  rw [runAll, run_bind]
  rcases (exec s m : Ending) with ⟨_ | completion, _⟩
  · rfl
  · cases completion <;> rfl

theorem runAll_single (exec : Stmt Distance → Run Completion) (s : Stmt Distance) (m : Machine) :
    (runAll exec [s] m : Ending) = exec s m := by
  rw [runAll_cons]
  rcases (exec s m : Ending) with ⟨_ | completion, _⟩
  · rfl
  · cases completion <;> rfl

/-! ## Loops -/

/-- The first turn of a loop, and the turns behind it. -/
theorem iterate_succ (condition : Run Value) (body : Run Completion) (left : Nat) (m : Machine) :
    (iterate condition body (left + 1) m : Ending) =
      match (condition m : Except Failure Value × Machine) with
      | (.error failure, m₁) => (.error failure, m₁)
      | (.ok v, m₁) =>
        if v.isTruthy = false then (.ok .normal, m₁)
        else
          match (body m₁ : Ending) with
          | (.error failure, m₂) => (.error failure, m₂)
          | (.ok (.returned value), m₂) => (.ok (.returned value), m₂)
          | (.ok .normal, m₂) => iterate condition body left m₂
          | (.ok (.exited keyword), m₂) =>
            if keyword.isBreak = true then (.ok .normal, m₂)
            else iterate condition body left m₂ := by
  rw [iterate, run_bind]
  rcases (condition m : Except Failure Value × Machine) with ⟨_ | v, m₁⟩
  · rfl
  dsimp only
  cases v.isTruthy with
  | false => rfl
  | true =>
    simp only [Bool.not_true, Bool.false_eq_true, Bool.true_eq_false, if_false]
    refine (run_bind body _ m₁).trans ?_
    rcases (body m₁ : Ending) with ⟨_ | completion, m₂⟩
    · rfl
    · cases completion with
      | exited keyword =>
        cases h : keyword.isBreak with
        | false => simp only [h]; rfl
        | true => simp only [h, if_true]; rfl
      | _ => rfl

/-! ## Code at top level -/

theorem runStatements_cons (exec : Stmt Distance → Run Completion) (s : Stmt Distance)
    (ss : List (Stmt Distance)) (m : Machine) :
    (runStatements exec (s :: ss) m : Except Failure Unit × Machine) =
      match (exec s m : Ending) with
      | (.error failure, m') => (.error failure, m')
      | (.ok (.exited keyword), m') => (.error (strayExit keyword), m')
      | (.ok _, m') => runStatements exec ss m' := by
  rw [runStatements, run_bind]
  rcases (exec s m : Ending) with ⟨_ | completion, _⟩
  · rfl
  · cases completion <;> rfl

end LoxLang
