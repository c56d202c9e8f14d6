/-
LoxLang.Tree.Marks: replacing the marks of a tree.

* `Expr.map`, `Stmt.map`, `Routine.map`: apply a function to every mark.
* `Expr.number`, `Stmt.number`, `Routine.number`: give every reference a site of its own, counting
  on from a given one.  A copy of a tree that is to stand beside it is numbered anew.
-/
import LoxLang.Tree.Basic

namespace LoxLang

/-- Applies a function to the mark. -/
def Reference.map {ρ σ : Type} (f : ρ → σ) (r : Reference ρ) : Reference σ := ⟨r.token, f r.mark⟩

mutual

/-- Applies a function to every mark of an expression. -/
def Expr.map {ρ σ : Type} (f : ρ → σ) : Expr ρ → Expr σ
  | .literal v => .literal v
  | .grouping e => .grouping (e.map f)
  | .unary op e => .unary op (e.map f)
  | .binary l op r => .binary (l.map f) op (r.map f)
  | .logical l op r => .logical (l.map f) op (r.map f)
  | .variable r => .variable (r.map f)
  | .assign r e => .assign (r.map f) (e.map f)
  | .call g paren es => .call (g.map f) paren (Expr.mapAll f es)
  | .get e name => .get (e.map f) name
  | .set e name v => .set (e.map f) name (v.map f)
  | .this r => .this (r.map f)
  | .super r method => .super (r.map f) method
  | .function keyword params body => .function keyword params (Stmt.mapAll f body)

def Expr.mapAll {ρ σ : Type} (f : ρ → σ) : List (Expr ρ) → List (Expr σ)
  | [] => []
  | e :: es => e.map f :: Expr.mapAll f es

/-- Applies a function to every mark of a statement. -/
def Stmt.map {ρ σ : Type} (f : ρ → σ) : Stmt ρ → Stmt σ
  | .missing => .missing
  | .expression e => .expression (e.map f)
  | .print e => .print (e.map f)
  | .var name none => .var name none
  | .var name (some e) => .var name (some (e.map f))
  | .block body => .block (Stmt.mapAll f body)
  | .ifElse c t none => .ifElse (c.map f) (t.map f) none
  | .ifElse c t (some e) => .ifElse (c.map f) (t.map f) (some (e.map f))
  | .whileLoop c b => .whileLoop (c.map f) (b.map f)
  | .ret keyword none => .ret keyword none
  | .ret keyword (some e) => .ret keyword (some (e.map f))
  | .loopExit keyword => .loopExit keyword
  | .function r => .function (r.map f)
  | .classDecl name superclass mixins methods statics =>
    .classDecl name (superclass.map (·.map f)) (mixins.map (·.map f)) (Routine.mapAll f methods)
      (Routine.mapAll f statics)

def Stmt.mapAll {ρ σ : Type} (f : ρ → σ) : List (Stmt ρ) → List (Stmt σ)
  | [] => []
  | s :: ss => s.map f :: Stmt.mapAll f ss

/-- Applies a function to every mark of a routine. -/
def Routine.map {ρ σ : Type} (f : ρ → σ) : Routine ρ → Routine σ
  | ⟨name, params, body, getter⟩ => ⟨name, params, Stmt.mapAll f body, getter⟩

def Routine.mapAll {ρ σ : Type} (f : ρ → σ) : List (Routine ρ) → List (Routine σ)
  | [] => []
  | r :: rs => r.map f :: Routine.mapAll f rs

end

/-! ## Numbering -/

/-- Takes the next site. -/
def freshSite : StateM Site Site := modifyGet fun next => (next, next + 1)

/-- Marks a reference with the next site. -/
def Reference.number {ρ : Type} (r : Reference ρ) : StateM Site (Reference Site) := do
  return ⟨r.token, ← freshSite⟩

mutual

/-- Marks every reference of an expression with a site of its own. -/
def Expr.number {ρ : Type} : Expr ρ → StateM Site (Expr Site)
  | .literal v => return .literal v
  | .grouping e => return .grouping (← e.number)
  | .unary op e => return .unary op (← e.number)
  | .binary l op r => return .binary (← l.number) op (← r.number)
  | .logical l op r => return .logical (← l.number) op (← r.number)
  | .variable r => return .variable (← r.number)
  | .assign r e => return .assign (← r.number) (← e.number)
  | .call f paren es => return .call (← f.number) paren (← Expr.numberAll es)
  | .get e name => return .get (← e.number) name
  | .set e name v => return .set (← e.number) name (← v.number)
  | .this r => return .this (← r.number)
  | .super r method => return .super (← r.number) method
  | .function keyword params body => return .function keyword params (← Stmt.numberAll body)

def Expr.numberAll {ρ : Type} : List (Expr ρ) → StateM Site (List (Expr Site))
  | [] => return []
  | e :: es => return (← e.number) :: (← Expr.numberAll es)

/-- Marks every reference of a statement with a site of its own. -/
def Stmt.number {ρ : Type} : Stmt ρ → StateM Site (Stmt Site)
  | .missing => return .missing
  | .expression e => return .expression (← e.number)
  | .print e => return .print (← e.number)
  | .var name none => return .var name none
  | .var name (some e) => return .var name (some (← e.number))
  | .block body => return .block (← Stmt.numberAll body)
  | .ifElse c t none => return .ifElse (← c.number) (← t.number) none
  | .ifElse c t (some e) => return .ifElse (← c.number) (← t.number) (some (← e.number))
  | .whileLoop c b => return .whileLoop (← c.number) (← b.number)
  | .ret keyword none => return .ret keyword none
  | .ret keyword (some e) => return .ret keyword (some (← e.number))
  | .loopExit keyword => return .loopExit keyword
  | .function r => return .function (← r.number)
  | .classDecl name superclass mixins methods statics =>
    return .classDecl name (← superclass.mapM Reference.number) (← mixins.mapM Reference.number)
      (← Routine.numberAll methods) (← Routine.numberAll statics)

def Stmt.numberAll {ρ : Type} : List (Stmt ρ) → StateM Site (List (Stmt Site))
  | [] => return []
  | s :: ss => return (← s.number) :: (← Stmt.numberAll ss)

/-- Marks every reference of a routine with a site of its own. -/
def Routine.number {ρ : Type} : Routine ρ → StateM Site (Routine Site)
  | ⟨name, params, body, getter⟩ => return ⟨name, params, ← Stmt.numberAll body, getter⟩

def Routine.numberAll {ρ : Type} : List (Routine ρ) → StateM Site (List (Routine Site))
  | [] => return []
  | r :: rs => return (← r.number) :: (← Routine.numberAll rs)

end

end LoxLang
