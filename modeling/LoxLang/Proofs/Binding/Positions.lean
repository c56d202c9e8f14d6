/-
LoxLang.Proofs.Binding.Positions: where the references of a program stand, and what they mean.

The position of a reference says what can be seen from it: the names that each scope around it has
so far.  Positions are read off the tree alone; there are no scopes in them that change, no table
and no complaints.

* `Outlook`, `Position`: a reference and what it sees.
* `Expr.positions`, `Stmt.positions`, `Routine.positions`: all positions of a tree, in the order in
  which they are bound.
* `Position.Lexical`: the scope that a reference means by the rule of the innermost declaration.
* `Position.Reread`: a variable is read in its own initial value again, after a routine in that
  initial value.  Such a reference is bound to the variable itself.
* `Position.distance`: the number of scopes up to the one that is meant.

Main statements: `distance_eq_some_iff`, `positions_stmts`.
-/
import LoxLang.Proofs.Binding.Visits

namespace LoxLang

/-! ## Positions -/

/-- What can be seen from a position in a program. -/
structure Outlook where
  /-- The names that the scopes around it have so far, the innermost scope first. -/
  scopes : List (List String)
  /-- A class surrounds it. -/
  inClass : Bool
  /-- The variable of the innermost scope whose initial value it stands in. -/
  own : Option String
  /-- That variable has been read before, by a routine in the initial value. -/
  reread : Bool
  deriving Repr

/-- A reference and its position. -/
structure Position where
  role : ReferenceRole
  ref : Reference Site
  outlook : Outlook
  deriving Repr

namespace Position

def name (p : Position) : String := p.ref.name

/-- The number of scopes around the reference. -/
def depth (p : Position) : Nat := p.outlook.scopes.length

/-- The reference reads a variable in the variable's own initial value, in the scope of the
variable. -/
def IsOwnRead (p : Position) : Prop := p.role = .variable ∧ p.outlook.own = some p.name

instance (p : Position) : Decidable p.IsOwnRead := inferInstanceAs (Decidable (_ ∧ _))

/-- `this` or `super` without a class around it. -/
def IsStray (p : Position) : Prop := (p.role = .this ∨ p.role = .super) ∧ p.outlook.inClass = false

instance (p : Position) : Decidable p.IsStray := inferInstanceAs (Decidable (_ ∧ _))

/-- The scope that is so many scopes outwards has the name of the reference; for a read in the
variable's own initial value the innermost scope does not count. -/
def Sees (p : Position) (d : Nat) : Prop :=
  (∃ names, p.outlook.scopes[d]? = some names ∧ p.name ∈ names) ∧ ¬ (d = 0 ∧ p.IsOwnRead)

/-- The scope is the innermost one that has the name. -/
def Lexical (p : Position) (d : Nat) : Prop := ¬ p.IsStray ∧ p.Sees d ∧ ∀ i < d, ¬ p.Sees i

/-- The reference reads a variable in its own initial value, after a routine there has read it. -/
def Reread (p : Position) : Prop :=
  p.IsOwnRead ∧ p.outlook.reread = true ∧ ∃ names, p.outlook.scopes[0]? = some names ∧
    p.name ∈ names

/-- The number of scopes that are passed over. -/
def skip (p : Position) : Nat := if p.IsOwnRead ∧ p.outlook.reread = false then 1 else 0

/-- The number of scopes between the reference and the one that it means. -/
def distance (p : Position) : Distance :=
  if p.IsStray then none
  else ((p.outlook.scopes.drop p.skip).findIdx? (·.contains p.name)).map (· + p.skip)

/-- The reference reads the variable `x` of a scope: the one that is `d` scopes outwards from where
only `n` scopes are around. -/
def reads (p : Position) (n d : Nat) (x : String) : Bool :=
  p.role ≠ .assign && p.name = x && p.distance.any fun k => k + n = d + p.depth

end Position

/-- The innermost scope with a name, from some scope on. -/
theorem findScope_eq_some {scopes : List (List String)} {x : String} {k d : Nat} :
    ((scopes.drop k).findIdx? (·.contains x)).map (· + k) = some d ↔
      (k ≤ d ∧ ∃ names, scopes[d]? = some names ∧ x ∈ names) ∧
        ∀ i < d, ¬ (k ≤ i ∧ ∃ names, scopes[i]? = some names ∧ x ∈ names) := by
  have inside : ∀ {i : Nat} (h : i < (scopes.drop k).length),
      ((scopes.drop k)[i].contains x = true ↔ ∃ names, scopes[i + k]? = some names ∧
        x ∈ names) := by
    intro i h
    have bound : k + i < scopes.length := by
      rw [List.length_drop] at h
      omega
    rw [List.getElem_drop, Nat.add_comm i k, List.getElem?_eq_getElem bound]
    simp
  rw [Option.map_eq_some_iff]
  constructor
  · rintro ⟨i, found, rfl⟩
    obtain ⟨h, hit, first⟩ := List.findIdx?_eq_some_iff_getElem.mp found
    refine ⟨⟨Nat.le_add_left k i, (inside h).mp hit⟩, ?_⟩
    rintro j lt ⟨le, has⟩
    have earlier : j - k < i := by omega
    refine first (j - k) earlier ((inside (Nat.lt_trans earlier h)).mpr ?_)
    rwa [Nat.sub_add_cancel le]
  · rintro ⟨⟨le, names, found, mem⟩, first⟩
    have bound : d < scopes.length := (List.getElem?_eq_some_iff.mp found).1
    have h : d - k < (scopes.drop k).length := by
      rw [List.length_drop]
      omega
    refine ⟨d - k, List.findIdx?_eq_some_iff_getElem.mpr ⟨h, ?_, fun j lt hit => ?_⟩,
      Nat.sub_add_cancel le⟩
    · rw [inside h, Nat.sub_add_cancel le]
      exact ⟨names, found, mem⟩
    · refine first (j + k) (by omega) ⟨Nat.le_add_left k j, ?_⟩
      exact (inside (Nat.lt_trans lt h)).mp hit

namespace Position

variable {p : Position}

/-- A reference means the innermost scope that has its name. -/
theorem distance_eq_some_iff (plain : ¬ p.Reread) (d : Nat) :
    p.distance = some d ↔ p.Lexical d := by
  unfold distance Lexical
  split
  · rename_i stray
    simp [stray]
  · rename_i stray
    have sees : ∀ i, p.Sees i ↔
        p.skip ≤ i ∧ ∃ names, p.outlook.scopes[i]? = some names ∧ p.name ∈ names := by
      intro i
      rw [Sees, and_comm]
      refine and_congr_left fun has => ?_
      by_cases own : p.IsOwnRead
      · cases again : p.outlook.reread with
        | false => simp [skip, own, again, Nat.one_le_iff_ne_zero]
        | true =>
          have apart : i ≠ 0 := by
            rintro rfl
            exact plain ⟨own, again, has⟩
          simp [skip, own, again, apart]
      · simp [skip, own]
    simp only [stray, not_false_eq_true, true_and, sees]
    exact findScope_eq_some

/-- A variable that is read in its own initial value again means itself. -/
theorem distance_of_reread (reread : p.Reread) : p.distance = some 0 ∧ ¬ p.Lexical 0 := by
  obtain ⟨own, again, has⟩ := reread
  have stray : ¬ p.IsStray := by simp [IsStray, own.1]
  have skip : p.skip = 0 := by simp [Position.skip, again]
  refine ⟨?_, fun lexical => lexical.2.1.2 ⟨rfl, own⟩⟩
  rw [distance, if_neg stray, skip]
  exact findScope_eq_some.mpr ⟨⟨Nat.le_refl 0, has⟩, fun i lt => absurd lt (Nat.not_lt_zero i)⟩

end Position

namespace Outlook

/-- A position at top level. -/
def top : Outlook := ⟨[], false, none, false⟩

/-- A position in a new scope. -/
def enter (o : Outlook) (names : List String) : Outlook :=
  ⟨names :: o.scopes, o.inClass, none, false⟩

/-- A position in the body of a class. -/
def enterClass (o : Outlook) (hasSuperclass : Bool) : Outlook :=
  ⟨[thisName] :: if hasSuperclass then [superName] :: o.scopes else o.scopes, true, none, false⟩

/-- A position behind declarations. -/
def introduce (o : Outlook) (names : List String) : Outlook :=
  { o with scopes := o.scopes.modifyHead (names ++ ·) }

/-- A position in the initial value of a variable. -/
def initial (o : Outlook) (name : String) : Outlook :=
  { o.introduce [name] with own := some name, reread := false }

/-- What is seen behind some references. -/
def behind (o : Outlook) (ps : List Position) : Outlook :=
  { o with reread := o.reread || o.own.any fun x => ps.any (·.reads o.scopes.length 0 x) }

@[simp] theorem length_introduce (o : Outlook) (names : List String) :
    (o.introduce names).scopes.length = o.scopes.length := by
  simp [introduce]

@[simp] theorem length_initial (o : Outlook) (name : String) :
    (o.initial name).scopes.length = o.scopes.length :=
  length_introduce o [name]

@[simp] theorem behind_nil (o : Outlook) : o.behind [] = o := by
  obtain ⟨scopes, inClass, own, reread⟩ := o
  cases own <;> simp [behind]

theorem behind_of_plain {o : Outlook} (plain : o.own = none) (ps : List Position) :
    o.behind ps = o := by
  obtain ⟨scopes, inClass, own, reread⟩ := o
  simp_all [behind]

end Outlook

mutual

/-- The positions in an expression, from what is seen before it. -/
def Expr.positions (o : Outlook) : Expr Site → List Position
  | .literal _ => []
  | .grouping e => e.positions o
  | .unary _ e => e.positions o
  | .binary l _ r =>
    let ps := l.positions o
    ps ++ r.positions (o.behind ps)
  | .logical l _ r =>
    let ps := l.positions o
    ps ++ r.positions (o.behind ps)
  | .variable ref => [⟨.variable, ref, o⟩]
  | .assign ref e =>
    let ps := e.positions o
    ps ++ [⟨.assign, ref, o.behind ps⟩]
  | .call f _ es =>
    let ps := f.positions o
    ps ++ Expr.positionsAll (o.behind ps) es
  | .get e _ => e.positions o
  | .set e _ v =>
    let ps := v.positions o
    ps ++ e.positions (o.behind ps)
  | .this ref => [⟨.this, ref, o⟩]
  | .super ref _ => [⟨.super, ref, o⟩]
  | .function _ params body => Stmt.positionsAll (o.enter (params.map Token.lexeme)) body

def Expr.positionsAll (o : Outlook) : List (Expr Site) → List Position
  | [] => []
  | e :: es =>
    let ps := e.positions o
    ps ++ Expr.positionsAll (o.behind ps) es

/-- The positions in a statement, from what is seen before it. -/
def Stmt.positions (o : Outlook) : Stmt Site → List Position
  | .missing => []
  | .expression e => e.positions o
  | .print e => e.positions o
  | .var _ none => []
  | .var name (some e) => e.positions (o.initial name.lexeme)
  | .block body => Stmt.positionsAll (o.enter []) body
  | .ifElse c t none => c.positions o ++ t.positions o
  | .ifElse c t (some e) =>
    c.positions o ++ (t.positions o ++ e.positions (o.introduce t.introduces))
  | .whileLoop c b => c.positions o ++ b.positions o
  | .ret _ none => []
  | .ret _ (some e) => e.positions o
  | .loopExit _ => []
  | .function r => r.positions (o.introduce [r.name.lexeme])
  | .classDecl name superclass mixins methods statics =>
    let o' := o.introduce [name.lexeme]
    let inside := o'.enterClass superclass.isSome
    (superclass.toList ++ mixins).map (⟨.variable, ·, o'⟩)
      ++ (Routine.positionsAll inside methods ++ Routine.positionsAll inside statics)

def Stmt.positionsAll (o : Outlook) : List (Stmt Site) → List Position
  | [] => []
  | s :: ss => s.positions o ++ Stmt.positionsAll (o.introduce s.introduces) ss

/-- The positions in a routine, whose parameters and body share a scope. -/
def Routine.positions (o : Outlook) : Routine Site → List Position
  | ⟨_, params, body, _⟩ => Stmt.positionsAll (o.enter (params.map Token.lexeme)) body

def Routine.positionsAll (o : Outlook) : List (Routine Site) → List Position
  | [] => []
  | r :: rs => r.positions o ++ Routine.positionsAll o rs

end

/-! ## Every reference has a position -/

/-- The references at some positions. -/
def occurrencesOf (ps : List Position) : List (Occurrence Site) := ps.map fun p => (p.role, p.ref)

@[simp] theorem occurrencesOf_append (ps qs : List Position) :
    occurrencesOf (ps ++ qs) = occurrencesOf ps ++ occurrencesOf qs := List.map_append

mutual

/-- The positions in an expression are those of its references. -/
theorem positions_expr : ∀ (o : Outlook) (e : Expr Site),
    (occurrencesOf (e.positions o)).Perm e.references
  | _, .literal _ | _, .variable _ | _, .this _ | _, .super _ _ => .refl _
  | o, .grouping e => positions_expr o e
  | o, .unary _ e => positions_expr o e
  | o, .binary l _ r => by
    rw [Expr.positions, Expr.references, occurrencesOf_append]
    exact (positions_expr o l).append (positions_expr _ r)
  | o, .logical l _ r => by
    rw [Expr.positions, Expr.references, occurrencesOf_append]
    exact (positions_expr o l).append (positions_expr _ r)
  | o, .assign ref e => by
    rw [Expr.positions, Expr.references, occurrencesOf_append]
    exact ((positions_expr o e).append_right _).trans List.perm_append_comm
  | o, .call f _ es => by
    rw [Expr.positions, Expr.references, occurrencesOf_append]
    exact (positions_expr o f).append (positions_exprs _ es)
  | o, .get e _ => positions_expr o e
  | o, .set e _ v => by
    rw [Expr.positions, Expr.references, occurrencesOf_append]
    exact ((positions_expr o v).append (positions_expr _ e)).trans List.perm_append_comm
  | o, .function _ _ body => positions_stmts _ body

theorem positions_exprs : ∀ (o : Outlook) (es : List (Expr Site)),
    (occurrencesOf (Expr.positionsAll o es)).Perm (Expr.referencesAll es)
  | _, [] => .refl _
  | o, e :: es => by
    rw [Expr.positionsAll, Expr.referencesAll, occurrencesOf_append]
    exact (positions_expr o e).append (positions_exprs _ es)

/-- The positions in a statement are those of its references. -/
theorem positions_stmt : ∀ (o : Outlook) (s : Stmt Site),
    (occurrencesOf (s.positions o)).Perm s.references
  | _, .missing | _, .var _ none | _, .ret _ none | _, .loopExit _ => .refl _
  | o, .expression e => positions_expr o e
  | o, .print e => positions_expr o e
  | o, .var _ (some e) => positions_expr _ e
  | o, .block body => positions_stmts _ body
  | o, .ifElse c t none => by
    rw [Stmt.positions, Stmt.references, occurrencesOf_append]
    exact (positions_expr o c).append (positions_stmt o t)
  | o, .ifElse c t (some e) => by
    rw [Stmt.positions, Stmt.references, occurrencesOf_append, occurrencesOf_append,
      List.append_assoc]
    exact (positions_expr o c).append ((positions_stmt o t).append (positions_stmt _ e))
  | o, .whileLoop c b => by
    rw [Stmt.positions, Stmt.references, occurrencesOf_append]
    exact (positions_expr o c).append (positions_stmt o b)
  | o, .ret _ (some e) => positions_expr o e
  | o, .function r => positions_routine _ r
  | o, .classDecl name superclass mixins methods statics => by
    rw [Stmt.positions, Stmt.references, occurrencesOf_append, occurrencesOf_append,
      List.append_assoc]
    refine .append ?_ ((positions_routines _ methods).append (positions_routines _ statics))
    rw [occurrencesOf, List.map_map]
    exact .refl _

theorem positions_stmts : ∀ (o : Outlook) (ss : List (Stmt Site)),
    (occurrencesOf (Stmt.positionsAll o ss)).Perm (Stmt.referencesAll ss)
  | _, [] => .refl _
  | o, s :: ss => by
    rw [Stmt.positionsAll, Stmt.referencesAll, occurrencesOf_append]
    exact (positions_stmt o s).append (positions_stmts _ ss)

/-- The positions in a routine are those of its references. -/
theorem positions_routine : ∀ (o : Outlook) (r : Routine Site),
    (occurrencesOf (r.positions o)).Perm r.references
  | _, ⟨_, _, body, _⟩ => positions_stmts _ body

theorem positions_routines : ∀ (o : Outlook) (rs : List (Routine Site)),
    (occurrencesOf (Routine.positionsAll o rs)).Perm (Routine.referencesAll rs)
  | _, [] => .refl _
  | o, r :: rs => by
    rw [Routine.positionsAll, Routine.referencesAll, occurrencesOf_append]
    exact (positions_routine o r).append (positions_routines o rs)

end

end LoxLang
