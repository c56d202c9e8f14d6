/-
LoxLang.Proofs.Binding.Extents: the scopes of a program that can have variables.

A block and a routine make a scope; the scopes of a class only have `this` and `super`.  What such a
scope declares, and what stands in it, is read off the tree alone, as the positions are.

* `Stmt.tracked`: the variables and classes that a statement declares where it stands.
* `Extent`: a scope of a block or of a routine.
* `Expr.extents`, `Stmt.extents`, `Routine.extents`: all of them in a tree, in the order in which
  they end.
* `Extent.Reads`: a variable of the scope is meant by some reference that reads a variable.

Main statements: `extents_expr`, `extents_stmt`, `Edition.keywordsApart_of_formed`.
-/
import LoxLang.Proofs.Binding.Recorded

namespace LoxLang

/-! ## Extents -/

/-- The tokens of the variables and classes that a statement declares in the scope it stands in. -/
def Stmt.tracked {ρ : Type} : Stmt ρ → List Token
  | .var name _ => [name]
  | .classDecl name _ _ _ _ => [name]
  | .ifElse _ t none => t.tracked
  | .ifElse _ t (some e) => t.tracked ++ e.tracked
  | .whileLoop _ b => b.tracked
  | _ => []

/-- The tokens of the variables and classes that some statements declare in the scope they stand
in. -/
def Stmt.trackedAll {ρ : Type} (ss : List (Stmt ρ)) : List Token := ss.flatMap Stmt.tracked

/-- The scope of a block or of a routine. -/
structure Extent where
  /-- The number of scopes around what stands in it, itself included. -/
  depth : Nat
  /-- The variables and classes that it declares, in the order of their declarations. -/
  tracked : List Token
  /-- The references that stand in it. -/
  positions : List Position
  deriving Repr

namespace Extent

/-- The scope of a body, from what is seen at its beginning. -/
def ofBody (o : Outlook) (body : List (Stmt Site)) : Extent :=
  ⟨o.scopes.length, Stmt.trackedAll body, Stmt.positionsAll o body⟩

/-- A reference in the scope that reads a variable means the variable of this name in the scope. -/
def reads (c : Extent) (table : Distances) (name : String) : Bool :=
  c.positions.any fun p => p.role = .variable && p.name = name &&
    (table.get? p.ref.mark).any fun d => d + c.depth = p.depth

/-- What there is to complain about when the scope ends: its variables that no reference reads. -/
def unread (c : Extent) (table : Distances) : List (Token × BindingFault) :=
  (c.tracked.filter fun name => !c.reads table name.lexeme).map fun name =>
    (name, .unused name.lexeme)

end Extent

mutual

/-- The scopes in an expression, from what is seen before it. -/
def Expr.extents (o : Outlook) : Expr Site → List Extent
  | .literal _ => []
  | .grouping e => e.extents o
  | .unary _ e => e.extents o
  | .binary l _ r => l.extents o ++ r.extents (o.behind (l.positions o))
  | .logical l _ r => l.extents o ++ r.extents (o.behind (l.positions o))
  | .variable _ => []
  | .assign _ e => e.extents o
  | .call f _ es => f.extents o ++ Expr.extentsAll (o.behind (f.positions o)) es
  | .get e _ => e.extents o
  | .set e _ v => v.extents o ++ e.extents (o.behind (v.positions o))
  | .this _ => []
  | .super _ _ => []
  | .function _ params body =>
    let inside := o.enter (params.map Token.lexeme)
    Stmt.extentsAll inside body ++ [.ofBody inside body]

def Expr.extentsAll (o : Outlook) : List (Expr Site) → List Extent
  | [] => []
  | e :: es => e.extents o ++ Expr.extentsAll (o.behind (e.positions o)) es

/-- The scopes in a statement, from what is seen before it. -/
def Stmt.extents (o : Outlook) : Stmt Site → List Extent
  | .missing => []
  | .expression e => e.extents o
  | .print e => e.extents o
  | .var _ none => []
  | .var name (some e) => e.extents (o.initial name.lexeme)
  | .block body => Stmt.extentsAll (o.enter []) body ++ [.ofBody (o.enter []) body]
  | .ifElse c t none => c.extents o ++ t.extents o
  | .ifElse c t (some e) =>
    c.extents o ++ (t.extents o ++ e.extents (o.introduce t.introduces))
  | .whileLoop c b => c.extents o ++ b.extents o
  | .ret _ none => []
  | .ret _ (some e) => e.extents o
  | .loopExit _ => []
  | .function r => r.extents (o.introduce [r.name.lexeme])
  | .classDecl name superclass _ methods statics =>
    let inside := (o.introduce [name.lexeme]).enterClass superclass.isSome
    Routine.extentsAll inside methods ++ Routine.extentsAll inside statics

def Stmt.extentsAll (o : Outlook) : List (Stmt Site) → List Extent
  | [] => []
  | s :: ss => s.extents o ++ Stmt.extentsAll (o.introduce s.introduces) ss

/-- The scopes in a routine, its own one last. -/
def Routine.extents (o : Outlook) : Routine Site → List Extent
  | ⟨_, params, body, _⟩ =>
    let inside := o.enter (params.map Token.lexeme)
    Stmt.extentsAll inside body ++ [.ofBody inside body]

def Routine.extentsAll (o : Outlook) : List (Routine Site) → List Extent
  | [] => []
  | r :: rs => r.extents o ++ Routine.extentsAll o rs

end

/-! ## What stands in a scope -/

section Inside

variable {T : Kind → Token → Prop}

/-- A scope stands among some positions of a tree, and its variables are named by tokens that may
name one if the tree is formed. -/
structure Extent.Inside (T : Kind → Token → Prop) (formed : Prop) (ps : List Position)
    (c : Extent) : Prop where
  positions : c.positions ⊆ ps
  words : formed → ∀ name ∈ c.tracked, T .identifier name

namespace Extent.Inside

variable {formed formed' : Prop} {ps qs : List Position} {cs ds : List Extent} {c : Extent}

theorem mono (inside : Inside T formed ps c) (positions : ps ⊆ qs) (imp : formed' → formed) :
    Inside T formed' qs c :=
  ⟨List.Subset.trans inside.positions positions, fun h => inside.words (imp h)⟩

/-- The scopes of two parts. -/
theorem append (first : ∀ c ∈ cs, Inside T formed ps c) (second : ∀ c ∈ ds, Inside T formed' qs c) :
    ∀ c ∈ cs ++ ds, Inside T (formed ∧ formed') (ps ++ qs) c := by
  intro c mem
  rcases List.mem_append.mp mem with mem | mem
  · exact (first c mem).mono (List.subset_append_left ps qs) And.left
  · exact (second c mem).mono (List.subset_append_right ps qs) And.right

end Extent.Inside

theorem formed_tracked : ∀ {s : Stmt Site}, s.Formed T → ∀ name ∈ s.tracked, T .identifier name
  | .var _ none, formed, _, mem => List.mem_singleton.mp mem ▸ formed
  | .var _ (some _), formed, _, mem => List.mem_singleton.mp mem ▸ formed.1
  | .classDecl .., formed, _, mem => List.mem_singleton.mp mem ▸ formed.1
  | .ifElse _ _ none, formed, name, mem => formed_tracked formed.2.1 name mem
  | .ifElse _ _ (some _), formed, name, mem =>
    (List.mem_append.mp mem).elim (formed_tracked formed.2.1.1 name)
      (formed_tracked formed.2.2.1 name)
  | .whileLoop _ _, formed, name, mem => formed_tracked formed.2.1 name mem
  | .missing, _, _, mem | .expression _, _, _, mem | .print _, _, _, mem => nomatch mem
  | .block _, _, _, mem | .ret _ _, _, _, mem | .loopExit _, _, _, mem => nomatch mem
  | .function _, _, _, mem => nomatch mem

/-- The scope of a body is the last to end of those in it. -/
theorem inside_body {o : Outlook} {body : List (Stmt Site)}
    (inner : ∀ c ∈ Stmt.extentsAll o body,
      c.Inside T (Stmt.FormedAll T body) (Stmt.positionsAll o body)) :
    ∀ c ∈ Stmt.extentsAll o body ++ [.ofBody o body],
      c.Inside T (Stmt.FormedAll T body) (Stmt.positionsAll o body) := by
  intro c mem
  rcases List.mem_append.mp mem with mem | own
  · exact inner c mem
  · rw [List.mem_singleton.mp own]
    refine ⟨List.Subset.refl _, fun formed name mem => ?_⟩
    obtain ⟨s, among, mem⟩ := List.mem_flatMap.mp mem
    exact formed_tracked (Stmt.formedAll_iff.mp formed s among) name mem

mutual

/-- What stands in a scope of an expression stands in the expression. -/
theorem extents_expr : ∀ (o : Outlook) (e : Expr Site),
    ∀ c ∈ e.extents o, c.Inside T (e.Formed T) (e.positions o)
  | _, .literal _, _, mem | _, .variable _, _, mem => nomatch mem
  | _, .this _, _, mem | _, .super _ _, _, mem => nomatch mem
  | o, .grouping e, c, mem => extents_expr o e c mem
  | o, .unary _ e, c, mem => extents_expr o e c mem
  | o, .binary l _ r, c, mem => Extent.Inside.append (extents_expr o l) (extents_expr _ r) c mem
  | o, .logical l _ r, c, mem => Extent.Inside.append (extents_expr o l) (extents_expr _ r) c mem
  | o, .assign _ e, c, mem =>
    (extents_expr o e c mem).mono (List.subset_append_left _ _) And.right
  | o, .call f _ es, c, mem => Extent.Inside.append (extents_expr o f) (extents_exprs _ es) c mem
  | o, .get e _, c, mem => extents_expr o e c mem
  | o, .set e _ v, c, mem =>
    (Extent.Inside.append (extents_expr o v) (extents_expr _ e) c mem).mono (List.Subset.refl _)
      And.symm
  | _, .function _ _ body, c, mem =>
    (inside_body (extents_stmts _ body) c mem).mono (List.Subset.refl _) And.right

theorem extents_exprs : ∀ (o : Outlook) (es : List (Expr Site)),
    ∀ c ∈ Expr.extentsAll o es, c.Inside T (Expr.FormedAll T es) (Expr.positionsAll o es)
  | _, [], _, mem => nomatch mem
  | o, e :: es, c, mem => Extent.Inside.append (extents_expr o e) (extents_exprs _ es) c mem

/-- What stands in a scope of a statement stands in the statement. -/
theorem extents_stmt : ∀ (o : Outlook) (s : Stmt Site),
    ∀ c ∈ s.extents o, c.Inside T (s.Formed T) (s.positions o)
  | _, .missing, _, mem | _, .var _ none, _, mem => nomatch mem
  | _, .ret _ none, _, mem | _, .loopExit _, _, mem => nomatch mem
  | o, .expression e, c, mem => extents_expr o e c mem
  | o, .print e, c, mem => extents_expr o e c mem
  | _, .var _ (some e), c, mem => (extents_expr _ e c mem).mono (List.Subset.refl _) And.right
  | _, .block body, c, mem => inside_body (extents_stmts _ body) c mem
  | o, .ifElse k t none, c, mem =>
    (Extent.Inside.append (extents_expr o k) (extents_stmt o t) c mem).mono (List.Subset.refl _)
      fun formed => ⟨formed.1, formed.2.1⟩
  | o, .ifElse k t (some e), c, mem =>
    (Extent.Inside.append (extents_expr o k)
        (Extent.Inside.append (extents_stmt o t) (extents_stmt _ e)) c mem).mono
      (List.Subset.refl _) fun formed => ⟨formed.1, formed.2.1.1, formed.2.2.1⟩
  | o, .whileLoop k b, c, mem =>
    (Extent.Inside.append (extents_expr o k) (extents_stmt o b) c mem).mono (List.Subset.refl _)
      fun formed => ⟨formed.1, formed.2.1⟩
  | o, .ret _ (some e), c, mem => extents_expr o e c mem
  | _, .function r, c, mem => extents_routine _ r c mem
  | _, .classDecl _ _ _ methods statics, c, mem =>
    (Extent.Inside.append (extents_routines _ methods) (extents_routines _ statics) c mem).mono
      (List.subset_append_right _ _) fun formed => ⟨formed.2.2.2.1, formed.2.2.2.2⟩

theorem extents_stmts : ∀ (o : Outlook) (ss : List (Stmt Site)),
    ∀ c ∈ Stmt.extentsAll o ss, c.Inside T (Stmt.FormedAll T ss) (Stmt.positionsAll o ss)
  | _, [], _, mem => nomatch mem
  | o, s :: ss, c, mem => Extent.Inside.append (extents_stmt o s) (extents_stmts _ ss) c mem

/-- What stands in a scope of a routine stands in the routine. -/
theorem extents_routine : ∀ (o : Outlook) (r : Routine Site),
    ∀ c ∈ r.extents o, c.Inside T (r.Formed T) (r.positions o)
  | _, ⟨_, _, body, _⟩, c, mem =>
    (inside_body (extents_stmts _ body) c mem).mono (List.Subset.refl _) fun formed => formed.2.2.2

theorem extents_routines : ∀ (o : Outlook) (rs : List (Routine Site)),
    ∀ c ∈ Routine.extentsAll o rs, c.Inside T (Routine.FormedAll T rs) (Routine.positionsAll o rs)
  | _, [], _, mem => nomatch mem
  | o, r :: rs, c, mem => Extent.Inside.append (extents_routine o r) (extents_routines _ rs) c mem

end

/-! ## What the references are called -/

/-- The kind of token that a reference stands on. -/
def ReferenceRole.kind : ReferenceRole → Kind
  | .variable => .identifier
  | .assign => .identifier
  | .this => .thisWord
  | .super => .superWord

mutual

/-- Every reference of a formed expression stands on a token that may stand there. -/
theorem formed_references_expr : ∀ {e : Expr Site}, e.Formed T →
    ∀ o ∈ e.references, T o.1.kind o.2.token
  | .literal _, _, _, mem => nomatch mem
  | .variable _, formed, _, mem | .this _, formed, _, mem | .super _ _, formed, _, mem =>
    List.mem_singleton.mp mem ▸ formed
  | .grouping e, formed, o, mem => formed_references_expr (e := e) formed o mem
  | .unary _ e, formed, o, mem => formed_references_expr (e := e) formed o mem
  | .get e _, formed, o, mem => formed_references_expr (e := e) formed o mem
  | .binary _ _ _, formed, o, mem | .logical _ _ _, formed, o, mem =>
    (List.mem_append.mp mem).elim (formed_references_expr formed.1 o)
      (formed_references_expr formed.2 o)
  | .assign _ _, formed, o, mem =>
    (List.mem_cons.mp mem).elim (fun own => own ▸ formed.1) (formed_references_expr formed.2 o)
  | .call _ _ _, formed, o, mem =>
    (List.mem_append.mp mem).elim (formed_references_expr formed.1 o)
      (formed_references_exprs formed.2 o)
  | .set _ _ _, formed, o, mem =>
    (List.mem_append.mp mem).elim (formed_references_expr formed.1 o)
      (formed_references_expr formed.2 o)
  | .function _ _ _, formed, o, mem => formed_references_stmts formed.2 o mem

theorem formed_references_exprs : ∀ {es : List (Expr Site)}, Expr.FormedAll T es →
    ∀ o ∈ Expr.referencesAll es, T o.1.kind o.2.token
  | [], _, _, mem => nomatch mem
  | _ :: _, formed, o, mem =>
    (List.mem_append.mp mem).elim (formed_references_expr formed.1 o)
      (formed_references_exprs formed.2 o)

/-- Every reference of a formed statement stands on a token that may stand there. -/
theorem formed_references_stmt : ∀ {s : Stmt Site}, s.Formed T →
    ∀ o ∈ s.references, T o.1.kind o.2.token
  | .missing, _, _, mem | .var _ none, _, _, mem => nomatch mem
  | .ret _ none, _, _, mem | .loopExit _, _, _, mem => nomatch mem
  | .expression e, formed, o, mem => formed_references_expr (e := e) formed o mem
  | .print e, formed, o, mem => formed_references_expr (e := e) formed o mem
  | .ret _ (some e), formed, o, mem => formed_references_expr (e := e) formed o mem
  | .var _ (some _), formed, o, mem => formed_references_expr formed.2 o mem
  | .block _, formed, o, mem => formed_references_stmts formed o mem
  | .ifElse _ _ none, formed, o, mem =>
    (List.mem_append.mp mem).elim (formed_references_expr formed.1 o)
      (formed_references_stmt formed.2.1 o)
  | .ifElse _ _ (some _), formed, o, mem =>
    (List.mem_append.mp mem).elim
      (fun mem => (List.mem_append.mp mem).elim (formed_references_expr formed.1 o)
        (formed_references_stmt formed.2.1.1 o))
      (formed_references_stmt formed.2.2.1 o)
  | .whileLoop _ _, formed, o, mem =>
    (List.mem_append.mp mem).elim (formed_references_expr formed.1 o)
      (formed_references_stmt formed.2.1 o)
  | .function _, formed, o, mem => formed_references_routine formed o mem
  | .classDecl _ superclass mixins _ _, ⟨_, parent, mixed, methods, statics⟩, o, mem => by
    simp only [Stmt.references, List.mem_append, List.mem_map] at mem
    rcases mem with (⟨ref, header, rfl⟩ | mem) | mem
    · exact header.elim (fun h => parent ref (by simpa using h)) (mixed ref)
    · exact formed_references_routines methods o mem
    · exact formed_references_routines statics o mem

theorem formed_references_stmts : ∀ {ss : List (Stmt Site)}, Stmt.FormedAll T ss →
    ∀ o ∈ Stmt.referencesAll ss, T o.1.kind o.2.token
  | [], _, _, mem => nomatch mem
  | _ :: _, formed, o, mem =>
    (List.mem_append.mp mem).elim (formed_references_stmt formed.1 o)
      (formed_references_stmts formed.2 o)

/-- Every reference of a formed routine stands on a token that may stand there. -/
theorem formed_references_routine : ∀ {r : Routine Site}, r.Formed T →
    ∀ o ∈ r.references, T o.1.kind o.2.token
  | ⟨_, _, _, _⟩, formed, o, mem => formed_references_stmts formed.2.2.2 o mem

theorem formed_references_routines : ∀ {rs : List (Routine Site)}, Routine.FormedAll T rs →
    ∀ o ∈ Routine.referencesAll rs, T o.1.kind o.2.token
  | [], _, _, mem => nomatch mem
  | _ :: _, formed, o, mem =>
    (List.mem_append.mp mem).elim (formed_references_routine formed.1 o)
      (formed_references_routines formed.2 o)

end

end Inside

namespace Edition

variable {ed : Edition}

/-- The scopes of a program that can have variables, in the order in which they end. -/
def extents (ed : Edition) : List Extent := Stmt.extentsAll .top ed.program

/-- What stands in a scope of a program stands in the program. -/
theorem positions_extents {c : Extent} (mem : c ∈ ed.extents) : c.positions ⊆ ed.positions :=
  (extents_stmts (T := fun _ _ => True) .top ed.program c mem).positions

/-- No variable has the name of a reference to `this` or `super` in its scope. -/
def KeywordsApart (ed : Edition) : Prop :=
  ∀ c ∈ ed.extents, ∀ p ∈ c.positions, p.role = .this ∨ p.role = .super →
    ∀ name ∈ c.tracked, name.lexeme ≠ p.name

/-- Keywords are apart if no token that may name a variable is written like one of them. -/
theorem keywordsApart_of_formed {T : Kind → Token → Prop} (formed : Stmt.FormedAll T ed.program)
    (apart : ∀ k ∈ [Kind.thisWord, .superWord], ∀ t t', T k t → T .identifier t' →
      t'.lexeme ≠ t.lexeme) : ed.KeywordsApart := by
  intro c mem p among keyword name declared
  have inside := extents_stmts (T := T) .top ed.program c mem
  have reference : (p.role, p.ref) ∈ Stmt.referencesAll ed.program :=
    (positions_stmts .top ed.program).subset (List.mem_map.mpr ⟨p, inside.positions among, rfl⟩)
  have word : T p.role.kind p.ref.token := formed_references_stmts formed _ reference
  refine apart p.role.kind ?_ p.ref.token name word (inside.words formed name declared)
  rcases keyword with role | role <;> simp [role, ReferenceRole.kind]

end Edition

end LoxLang
