/-
LoxLang.Proofs.Tree.Remarked: what replacing marks one after the other comes to.

Marks are replaced twice as they are replaced once by the composition, and only the marks that a
tree has matter.

Main statements: `map_mapExpr`, `map_mapStmt` and `mapStmt_congr` with their companions.
-/
import LoxLang.Proofs.Tree.Formed

namespace LoxLang

variable {ρ σ τ : Type}

/-! ## Twice and once -/

section Twice

variable (f : ρ → σ) (g : σ → τ)

mutual

theorem map_mapExpr : ∀ e : Expr ρ, (e.map f).map g = e.map (g ∘ f)
  | .literal _ | .variable _ | .this _ | .super _ _ => rfl
  | .grouping e => congrArg Expr.grouping (map_mapExpr e)
  | .unary op e => congrArg (Expr.unary op) (map_mapExpr e)
  | .binary l op r => congr (congrArg (Expr.binary · op) (map_mapExpr l)) (map_mapExpr r)
  | .logical l op r => congr (congrArg (Expr.logical · op) (map_mapExpr l)) (map_mapExpr r)
  | .assign _ e => congrArg (Expr.assign _) (map_mapExpr e)
  | .call h paren es => congr (congrArg (Expr.call · paren) (map_mapExpr h)) (map_mapExprs es)
  | .get e name => congrArg (Expr.get · name) (map_mapExpr e)
  | .set e name v => congr (congrArg (Expr.set · name) (map_mapExpr e)) (map_mapExpr v)
  | .function keyword params body => congrArg (Expr.function keyword params) (map_mapStmts body)

theorem map_mapExprs :
    ∀ es : List (Expr ρ), Expr.mapAll g (Expr.mapAll f es) = Expr.mapAll (g ∘ f) es
  | [] => rfl
  | e :: es => congr (congrArg List.cons (map_mapExpr e)) (map_mapExprs es)

theorem map_mapStmt : ∀ s : Stmt ρ, (s.map f).map g = s.map (g ∘ f)
  | .missing | .var _ none | .ret _ none | .loopExit _ => rfl
  | .expression e => congrArg Stmt.expression (map_mapExpr e)
  | .print e => congrArg Stmt.print (map_mapExpr e)
  | .var name (some e) => congrArg (Stmt.var name ∘ some) (map_mapExpr e)
  | .block body => congrArg Stmt.block (map_mapStmts body)
  | .ifElse c t none => congr (congrArg (Stmt.ifElse · · none) (map_mapExpr c)) (map_mapStmt t)
  | .ifElse c t (some e) =>
    congr (congr (congrArg (Stmt.ifElse · · <| some ·) (map_mapExpr c)) (map_mapStmt t))
      (map_mapStmt e)
  | .whileLoop c b => congr (congrArg Stmt.whileLoop (map_mapExpr c)) (map_mapStmt b)
  | .ret keyword (some e) => congrArg (Stmt.ret keyword ∘ some) (map_mapExpr e)
  | .function r => congrArg Stmt.function (map_mapRoutine r)
  | .classDecl name superclass mixins methods statics => by
    simp only [Stmt.map, Option.map_map, List.map_map, map_mapRoutines methods,
      map_mapRoutines statics]
    rfl

theorem map_mapStmts :
    ∀ ss : List (Stmt ρ), Stmt.mapAll g (Stmt.mapAll f ss) = Stmt.mapAll (g ∘ f) ss
  | [] => rfl
  | s :: ss => congr (congrArg List.cons (map_mapStmt s)) (map_mapStmts ss)

theorem map_mapRoutine : ∀ r : Routine ρ, (r.map f).map g = r.map (g ∘ f)
  | ⟨name, params, body, getter⟩ => congrArg (Routine.mk name params · getter) (map_mapStmts body)

theorem map_mapRoutines : ∀ rs : List (Routine ρ),
    Routine.mapAll g (Routine.mapAll f rs) = Routine.mapAll (g ∘ f) rs
  | [] => rfl
  | r :: rs => congr (congrArg List.cons (map_mapRoutine r)) (map_mapRoutines rs)

end

/-- Other marks make no other tree. -/
theorem erase_mapExpr (e : Expr ρ) : (e.map f).erase = e.erase := map_mapExpr f (fun _ => ()) e

end Twice

/-! ## The marks that there are -/

section Congruence

variable {f g : ρ → σ}

/-- The functions agree on the marks of some references. -/
def AgreeOn (f g : ρ → σ) (os : List (Occurrence ρ)) : Prop := ∀ o ∈ os, f o.2.mark = g o.2.mark

theorem agreeOn_append {os os' : List (Occurrence ρ)} :
    AgreeOn f g (os ++ os') ↔ AgreeOn f g os ∧ AgreeOn f g os' := List.forall_mem_append

theorem map_congr_ref {r : Reference ρ} (h : f r.mark = g r.mark) : r.map f = r.map g :=
  congrArg (Reference.mk r.token) h

mutual

theorem mapExpr_congr : ∀ {e : Expr ρ}, AgreeOn f g e.references → e.map f = e.map g
  | .literal _, _ => rfl
  | .variable r, h => congrArg Expr.variable (map_congr_ref (h _ List.mem_cons_self))
  | .this r, h => congrArg Expr.this (map_congr_ref (h _ List.mem_cons_self))
  | .super r method, h => congrArg (Expr.super · method) (map_congr_ref (h _ List.mem_cons_self))
  | .grouping _, h => congrArg Expr.grouping (mapExpr_congr h)
  | .unary op _, h => congrArg (Expr.unary op) (mapExpr_congr h)
  | .binary _ op _, h => by
    obtain ⟨hl, hr⟩ := agreeOn_append.mp h
    rw [Expr.map, Expr.map, mapExpr_congr hl, mapExpr_congr hr]
  | .logical _ op _, h => by
    obtain ⟨hl, hr⟩ := agreeOn_append.mp h
    rw [Expr.map, Expr.map, mapExpr_congr hl, mapExpr_congr hr]
  | .assign r _, h => by
    obtain ⟨hr, he⟩ := List.forall_mem_cons.mp h
    rw [Expr.map, Expr.map, map_congr_ref hr, mapExpr_congr he]
  | .call _ paren _, h => by
    obtain ⟨hf, hes⟩ := agreeOn_append.mp h
    rw [Expr.map, Expr.map, mapExpr_congr hf, mapExprs_congr hes]
  | .get _ name, h => congrArg (Expr.get · name) (mapExpr_congr h)
  | .set _ name _, h => by
    obtain ⟨he, hv⟩ := agreeOn_append.mp h
    rw [Expr.map, Expr.map, mapExpr_congr he, mapExpr_congr hv]
  | .function keyword params _, h => congrArg (Expr.function keyword params) (mapStmts_congr h)

theorem mapExprs_congr : ∀ {es : List (Expr ρ)}, AgreeOn f g (Expr.referencesAll es) →
    Expr.mapAll f es = Expr.mapAll g es
  | [], _ => rfl
  | _ :: _, h => by
    obtain ⟨he, hes⟩ := agreeOn_append.mp h
    rw [Expr.mapAll, Expr.mapAll, mapExpr_congr he, mapExprs_congr hes]

theorem mapStmt_congr : ∀ {s : Stmt ρ}, AgreeOn f g s.references → s.map f = s.map g
  | .missing, _ | .var _ none, _ | .ret _ none, _ | .loopExit _, _ => rfl
  | .expression _, h => congrArg Stmt.expression (mapExpr_congr h)
  | .print _, h => congrArg Stmt.print (mapExpr_congr h)
  | .var name (some _), h => congrArg (Stmt.var name ∘ some) (mapExpr_congr h)
  | .block _, h => congrArg Stmt.block (mapStmts_congr h)
  | .ifElse _ _ none, h => by
    obtain ⟨hc, ht⟩ := agreeOn_append.mp h
    rw [Stmt.map, Stmt.map, mapExpr_congr hc, mapStmt_congr ht]
  | .ifElse _ _ (some _), h => by
    obtain ⟨h, he⟩ := agreeOn_append.mp h
    obtain ⟨hc, ht⟩ := agreeOn_append.mp h
    rw [Stmt.map, Stmt.map, mapExpr_congr hc, mapStmt_congr ht, mapStmt_congr he]
  | .whileLoop _ _, h => by
    obtain ⟨hc, hb⟩ := agreeOn_append.mp h
    rw [Stmt.map, Stmt.map, mapExpr_congr hc, mapStmt_congr hb]
  | .ret keyword (some _), h => congrArg (Stmt.ret keyword ∘ some) (mapExpr_congr h)
  | .function _, h => congrArg Stmt.function (mapRoutine_congr h)
  | .classDecl name superclass mixins methods statics, h => by
    obtain ⟨h, hs⟩ := agreeOn_append.mp h
    obtain ⟨hp, hm⟩ := agreeOn_append.mp h
    have parents : ∀ r ∈ superclass.toList ++ mixins, r.map f = r.map g := fun r mem =>
      map_congr_ref (hp (.variable, r) (List.mem_map.mpr ⟨r, mem, rfl⟩))
    have parent : superclass.map (·.map f) = superclass.map (·.map g) := by
      cases superclass with
      | none => rfl
      | some r => exact congrArg some (parents r (by simp))
    have mixed : mixins.map (·.map f) = mixins.map (·.map g) :=
      List.map_congr_left fun r mem => parents r (by simp [mem])
    rw [Stmt.map, Stmt.map, parent, mixed, mapRoutines_congr hm, mapRoutines_congr hs]

theorem mapStmts_congr : ∀ {ss : List (Stmt ρ)}, AgreeOn f g (Stmt.referencesAll ss) →
    Stmt.mapAll f ss = Stmt.mapAll g ss
  | [], _ => rfl
  | _ :: _, h => by
    obtain ⟨hs, hss⟩ := agreeOn_append.mp h
    rw [Stmt.mapAll, Stmt.mapAll, mapStmt_congr hs, mapStmts_congr hss]

theorem mapRoutine_congr : ∀ {r : Routine ρ}, AgreeOn f g r.references → r.map f = r.map g
  | ⟨name, params, _, getter⟩, h => congrArg (Routine.mk name params · getter) (mapStmts_congr h)

theorem mapRoutines_congr : ∀ {rs : List (Routine ρ)}, AgreeOn f g (Routine.referencesAll rs) →
    Routine.mapAll f rs = Routine.mapAll g rs
  | [], _ => rfl
  | _ :: _, h => by
    obtain ⟨hr, hrs⟩ := agreeOn_append.mp h
    rw [Routine.mapAll, Routine.mapAll, mapRoutine_congr hr, mapRoutines_congr hrs]

end

end Congruence

end LoxLang
