/-
LoxLang.Proofs.Tree.Holes: the places of statements that could not be read.

A statement that could not be read leaves a hole in the list of statements it belongs to: at top
level, in a block, or in the body of a routine, which may stand anywhere inside an expression.

* `Expr.holed`, `Stmt.holed`, `Routine.holed`: a tree has a hole inside of it.
* `Stmt.leavesHole`: a statement of a list is a hole or has one inside of it.

A copy of a tree with new marks has the same holes: `holed_numberExpr`.  The copies of the increment
of a `for` loop add none that the increment has not got: `holed_forLoop`.
-/
import LoxLang.Proofs.Tree.Formed

namespace LoxLang

/-- The place of a statement that could not be read. -/
def Stmt.isMissing {ρ : Type} : Stmt ρ → Bool
  | .missing => true
  | _ => false

section Holes

variable {ρ σ : Type} (anywhere : Bool)

mutual

/-- A list of statements somewhere in the expression has a hole.  `anywhere` says whether a branch
or the body of a loop counts as a hole if it is missing. -/
def Expr.holed : Expr ρ → Bool
  | .literal _ | .variable _ | .this _ | .super _ _ => false
  | .grouping e => e.holed
  | .unary _ e => e.holed
  | .binary l _ r => l.holed || r.holed
  | .logical l _ r => l.holed || r.holed
  | .assign _ e => e.holed
  | .call f _ es => f.holed || Expr.holedAny es
  | .get e _ => e.holed
  | .set e _ v => e.holed || v.holed
  | .function _ _ body => Stmt.holedAny body

def Expr.holedAny : List (Expr ρ) → Bool
  | [] => false
  | e :: es => e.holed || Expr.holedAny es

/-- A list of statements somewhere in the statement has a hole. -/
def Stmt.holed : Stmt ρ → Bool
  | .missing => anywhere
  | .expression e => e.holed
  | .print e => e.holed
  | .var _ none => false
  | .var _ (some e) => e.holed
  | .block body => Stmt.holedAny body
  | .ifElse c t none => c.holed || t.holed
  | .ifElse c t (some e) => c.holed || t.holed || e.holed
  | .whileLoop c b => c.holed || b.holed
  | .ret _ none => false
  | .ret _ (some e) => e.holed
  | .loopExit _ => false
  | .function r => r.holed
  | .classDecl _ _ _ methods statics => Routine.holedAny methods || Routine.holedAny statics

/-- A list of statements has a hole, or one of its statements has one inside. -/
def Stmt.holedAny : List (Stmt ρ) → Bool
  | [] => false
  | s :: ss => s.isMissing || s.holed || Stmt.holedAny ss

/-- A list of statements somewhere in the routine has a hole. -/
def Routine.holed : Routine ρ → Bool
  | ⟨_, _, body, _⟩ => Stmt.holedAny body

def Routine.holedAny : List (Routine ρ) → Bool
  | [] => false
  | r :: rs => r.holed || Routine.holedAny rs

end

/-- A statement of a list that is a hole, or has one inside. -/
def Stmt.leavesHole (s : Stmt ρ) : Bool := s.isMissing || s.holed anywhere

/-! ## Copies -/

theorem isMissing_map (f : ρ → σ) (s : Stmt ρ) : (s.map f).isMissing = s.isMissing := by
  cases s with
  | var _ init => cases init <;> rfl
  | ifElse _ _ e => cases e <;> rfl
  | ret _ value => cases value <;> rfl
  | _ => rfl

mutual

/-- The holes of an expression do not depend on its marks. -/
theorem holed_mapExpr (f : ρ → σ) : ∀ e : Expr ρ, (e.map f).holed anywhere = e.holed anywhere
  | .literal _ | .variable _ | .this _ | .super _ _ => rfl
  | .grouping e => holed_mapExpr f e
  | .unary _ e => holed_mapExpr f e
  | .binary l _ r => congr (congrArg or (holed_mapExpr f l)) (holed_mapExpr f r)
  | .logical l _ r => congr (congrArg or (holed_mapExpr f l)) (holed_mapExpr f r)
  | .assign _ e => holed_mapExpr f e
  | .call g _ es => congr (congrArg or (holed_mapExpr f g)) (holed_mapExprs f es)
  | .get e _ => holed_mapExpr f e
  | .set e _ v => congr (congrArg or (holed_mapExpr f e)) (holed_mapExpr f v)
  | .function _ _ body => holed_mapStmts f body

theorem holed_mapExprs (f : ρ → σ) :
    ∀ es : List (Expr ρ), Expr.holedAny anywhere (Expr.mapAll f es) = Expr.holedAny anywhere es
  | [] => rfl
  | e :: es => congr (congrArg or (holed_mapExpr f e)) (holed_mapExprs f es)

/-- The holes of a statement do not depend on its marks. -/
theorem holed_mapStmt (f : ρ → σ) : ∀ s : Stmt ρ, (s.map f).holed anywhere = s.holed anywhere
  | .missing | .var _ none | .ret _ none | .loopExit _ => rfl
  | .expression e => holed_mapExpr f e
  | .print e => holed_mapExpr f e
  | .var _ (some e) => holed_mapExpr f e
  | .block body => holed_mapStmts f body
  | .ifElse c t none => congr (congrArg or (holed_mapExpr f c)) (holed_mapStmt f t)
  | .ifElse c t (some e) =>
    congr (congrArg or (congr (congrArg or (holed_mapExpr f c)) (holed_mapStmt f t)))
      (holed_mapStmt f e)
  | .whileLoop c b => congr (congrArg or (holed_mapExpr f c)) (holed_mapStmt f b)
  | .ret _ (some e) => holed_mapExpr f e
  | .function r => holed_mapRoutine f r
  | .classDecl _ _ _ methods statics =>
    congr (congrArg or (holed_mapRoutines f methods)) (holed_mapRoutines f statics)

theorem holed_mapStmts (f : ρ → σ) :
    ∀ ss : List (Stmt ρ), Stmt.holedAny anywhere (Stmt.mapAll f ss) = Stmt.holedAny anywhere ss
  | [] => rfl
  | s :: ss =>
    congr (congrArg or (congr (congrArg or (isMissing_map f s)) (holed_mapStmt f s)))
      (holed_mapStmts f ss)

/-- The holes of a routine do not depend on its marks. -/
theorem holed_mapRoutine (f : ρ → σ) :
    ∀ r : Routine ρ, (r.map f).holed anywhere = r.holed anywhere
  | ⟨_, _, body, _⟩ => holed_mapStmts f body

theorem holed_mapRoutines (f : ρ → σ) : ∀ rs : List (Routine ρ),
    Routine.holedAny anywhere (Routine.mapAll f rs) = Routine.holedAny anywhere rs
  | [] => rfl
  | r :: rs => congr (congrArg or (holed_mapRoutine f r)) (holed_mapRoutines f rs)

end

theorem holed_numberExpr (e : Expr ρ) (n : Site) :
    (e.number n).1.holed anywhere = e.holed anywhere := by
  rw [← holed_mapExpr anywhere fun _ => (), ← holed_mapExpr anywhere (fun _ => ()) e]
  exact congrArg (Expr.holed anywhere) (erase_numberExpr e n)

end Holes

/-! ## The body of a `for` loop -/

section ForLoop

variable {anywhere : Bool} {increment : Expr Site}

theorem isMissing_withIncrement (s : Stmt Site) (n : Site) :
    (s.withIncrement increment n).1.isMissing = s.isMissing := by
  cases s with
  | loopExit keyword =>
    rw [Stmt.withIncrement]
    split <;> rfl
  | ifElse _ _ e => cases e <;> rfl
  | _ => rfl

mutual

/-- An increment without holes brings none into the body. -/
theorem holed_withIncrement (h : increment.holed anywhere = false) : ∀ (s : Stmt Site) (n : Site),
    (s.withIncrement increment n).1.holed anywhere = s.holed anywhere
  | .block body, n => holed_withIncrementAll h body n
  | .loopExit keyword, n => by
    rw [Stmt.withIncrement]
    split
    · rfl
    · have copied := (holed_numberExpr anywhere increment n).trans h
      show (false || (increment.number n).1.holed anywhere || false) = false
      rw [copied]
      rfl
  | .ifElse _ t none, n => congrArg (or _) (holed_withIncrement h t n)
  | .ifElse c t (some e), n => by
    show (c.holed anywhere || _ || _) = (c.holed anywhere || _ || _)
    rw [holed_withIncrement h t n, holed_withIncrement h e _]
  | .missing, _ | .expression _, _ | .print _, _ | .var _ _, _ => rfl
  | .whileLoop _ _, _ | .ret _ _, _ | .function _, _ | .classDecl .., _ => rfl

theorem holed_withIncrementAll (h : increment.holed anywhere = false) :
    ∀ (ss : List (Stmt Site)) (n : Site),
      Stmt.holedAny anywhere (Stmt.withIncrementAll increment ss n).1 = Stmt.holedAny anywhere ss
  | [], _ => rfl
  | s :: ss, n => by
    show (_ || _ || _) = (s.isMissing || s.holed anywhere || _)
    rw [isMissing_withIncrement s n, holed_withIncrement h s n, holed_withIncrementAll h ss _]

end

/-- The body with its copies has the holes of the increment and of the body. -/
theorem holed_loopBody (increment : Option (Expr Site)) {body : Stmt Site} (h : body ≠ .missing)
    (n : Site) : (loopBody increment body n).1.holed anywhere =
      (increment.any (Expr.holed anywhere) || body.holed anywhere) := by
  cases increment with
  | none => rfl
  | some e =>
    have present : body.isMissing = false := by
      cases body <;> first | rfl | exact absurd rfl h
    show ((body.withIncrement e n).1.isMissing || (body.withIncrement e n).1.holed anywhere ||
      (false || e.holed anywhere || false)) = (e.holed anywhere || body.holed anywhere)
    rw [isMissing_withIncrement, present]
    cases he : e.holed anywhere with
    | false => simp [holed_withIncrement he]
    | true => simp

/-- The holes of the loop are those of its parts, although the increment may have been copied and
the body taken apart. -/
theorem holed_forLoop (init : Option (Stmt Site)) (condition : Option (Expr Site))
    (increment : Option (Expr Site)) {body : Stmt Site} (hi : init ≠ some .missing)
    (hb : body ≠ .missing) (n : Site) :
    (forLoop init condition increment body n).1.holed anywhere =
      (init.any (Stmt.holed anywhere) || (condition.any (Expr.holed anywhere) ||
        (increment.any (Expr.holed anywhere) || body.holed anywhere))) := by
  have bodies : (loopBody increment body n).1.holed anywhere = _ := holed_loopBody increment hb n
  have conditions : (condition.getD (.literal (.bool true))).holed anywhere =
      condition.any (Expr.holed anywhere) := by
    cases condition <;> rfl
  cases init with
  | none =>
    show (_ || (loopBody increment body n).1.holed anywhere) = _
    rw [bodies, conditions]
    rfl
  | some s =>
    have present : s.isMissing = false := by
      cases s <;> first | rfl | exact absurd rfl hi
    show (s.isMissing || s.holed anywhere ||
      (false || (_ || (loopBody increment body n).1.holed anywhere) || false)) = _
    rw [present, bodies, conditions]
    simp

end ForLoop

end LoxLang
