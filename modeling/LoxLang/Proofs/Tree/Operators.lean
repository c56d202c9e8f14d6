/-
LoxLang.Proofs.Tree.Operators: how tightly binary operators bind.

Every binary operator has a level, and the operators of a lower level bind tighter: products and
quotients are on the first level, and `or` is on the sixth.  This is all that the grammar knows of
them.  The reader goes by a table that lists the operators of each level, the loosest first.

* `Kind.binaryLevel?`, `Kind.logicalLevel?`: the level of an operator that always evaluates both of
  its sides, and of one that may do without its right side.
* `LevelsUpTo`: a table of the levels up to one.

Main statements: `levelsUpTo_operatorLevels`, that the reader's table has the six levels;
`LevelsUpTo.operator_le`, that a table has no operators of looser levels.
-/
import LoxLang.Tree.Grammar

namespace LoxLang

/-! ## Levels -/

/-- The level of a binary operator that evaluates both of its sides. -/
def Kind.binaryLevel? : Kind → Option Nat
  | .star | .slash => some 1
  | .plus | .minus => some 2
  | .less | .lessEqual | .greater | .greaterEqual => some 3
  | .equalEqual | .bangEqual => some 4
  | _ => none

/-- The level of a binary operator that may do without its right side. -/
def Kind.logicalLevel? : Kind → Option Nat
  | .andWord => some 5
  | .orWord => some 6
  | _ => none

/-- The level of a binary operator. -/
def Kind.operatorLevel? (k : Kind) : Option Nat := k.binaryLevel?.or k.logicalLevel?

/-- An operator that may do without its right side is on no level of the other ones. -/
theorem binaryLevel?_of_logicalLevel? {k : Kind} {i : Nat} (h : k.logicalLevel? = some i) :
    k.binaryLevel? = none := by
  cases k <;> first | rfl | cases h

/-! ## Tables -/

/-- The entry of a table lists the operators of the level. -/
structure OperatorLevel.Is (level : OperatorLevel) (i : Nat) : Prop where
  binary : ∀ k : Kind, k.binaryLevel? = some i ↔ level.isLogical = false ∧ k ∈ level.kinds
  logical : ∀ k : Kind, k.logicalLevel? = some i ↔ level.isLogical = true ∧ k ∈ level.kinds

/-- The table lists the levels up to one, the loosest first. -/
inductive LevelsUpTo : Nat → List OperatorLevel → Prop
  | none : LevelsUpTo 0 []
  | one {i : Nat} {level : OperatorLevel} {levels : List OperatorLevel} (loosest : level.Is (i + 1))
      (tighter : LevelsUpTo i levels) : LevelsUpTo (i + 1) (level :: levels)

/-- The reader's table lists the six levels. -/
theorem levelsUpTo_operatorLevels : LevelsUpTo 6 operatorLevels := by
  refine .one ?_ (.one ?_ (.one ?_ (.one ?_ (.one ?_ (.one ?_ .none)))))
  all_goals
    constructor
    · intro k
      cases k <;> simp [Kind.binaryLevel?]
    · intro k
      cases k <;> simp [Kind.logicalLevel?]

variable {level : OperatorLevel} {levels : List OperatorLevel} {i : Nat} {k : Kind}

theorem OperatorLevel.Is.operatorLevel? (h : level.Is i) (mem : k ∈ level.kinds) :
    k.operatorLevel? = some i := by
  cases logical : level.isLogical with
  | false =>
    have binary := (h.binary k).mpr ⟨logical, mem⟩
    rw [Kind.operatorLevel?, binary]
    rfl
  | true =>
    have logical := (h.logical k).mpr ⟨logical, mem⟩
    rw [Kind.operatorLevel?, binaryLevel?_of_logicalLevel? logical, logical]
    rfl

/-- A table has no operators of looser levels. -/
theorem LevelsUpTo.operator_le (h : LevelsUpTo i levels) (known : level ∈ levels)
    (mem : k ∈ level.kinds) : ∃ j ≤ i, k.operatorLevel? = some j := by
  induction h with
  | none => cases known
  | one loosest _ ih =>
    rcases List.mem_cons.mp known with rfl | known
    · exact ⟨_, Nat.le_refl _, loosest.operatorLevel? mem⟩
    · obtain ⟨j, le, at'⟩ := ih known
      exact ⟨j, Nat.le_succ_of_le le, at'⟩

/-- An operator of a level is on no tighter one. -/
theorem LevelsUpTo.notMem_tighter (h : LevelsUpTo (i + 1) (level :: levels))
    (mem : k ∈ level.kinds) : ∀ tighter ∈ levels, k ∉ tighter.kinds := by
  obtain _ | ⟨loosest, tighter⟩ := h
  intro level' known mem'
  obtain ⟨j, le, at'⟩ := tighter.operator_le known mem'
  cases (loosest.operatorLevel? mem).symm.trans at'
  exact Nat.not_succ_le_self _ le

end LoxLang
