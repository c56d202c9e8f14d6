/-
LoxLang.Proofs.Binding.Outlooks: what is seen from every node that the walk comes to.

The outlook from a node depends on what stands before it, in the same way as the walk: an outlook
that the walk agrees with goes along with it from a node to each part.

* `Item.positions`, `Item.extents`: the positions in what is visited, and the scopes.
* `Visit.Shows`: the outlook from a visit.

Main statement: `Edition.Visits.shows`.
-/
import LoxLang.Proofs.Binding.Extents
import LoxLang.Proofs.Binding.Levels

namespace LoxLang

namespace Outlook

theorem behind_behind (o : Outlook) (ps qs : List Position) :
    (o.behind ps).behind qs = o.behind (ps ++ qs) := by
  obtain ⟨scopes, inClass, own, reread⟩ := o
  cases own <;> simp [behind, Bool.or_assoc]

end Outlook

theorem positionsAll_append (o : Outlook) (es es' : List (Expr Site)) :
    Expr.positionsAll o (es ++ es') =
      Expr.positionsAll o es ++ Expr.positionsAll (o.behind (Expr.positionsAll o es)) es' := by
  induction es generalizing o with
  | nil => simp [Expr.positionsAll]
  | cons e es ih =>
    simp only [List.cons_append, Expr.positionsAll, ih, Outlook.behind_behind, List.append_assoc]

/-- The positions in the operands of an expression come before its own. -/
theorem positions_operands (o : Outlook) (e : Expr Site) :
    Expr.positionsAll o e.operands <+: e.positions o := by
  cases e <;> simp [Expr.operands, Expr.positionsAll, Expr.positions]

theorem extentsAll_append (o : Outlook) (es es' : List (Expr Site)) :
    Expr.extentsAll o (es ++ es') =
      Expr.extentsAll o es ++ Expr.extentsAll (o.behind (Expr.positionsAll o es)) es' := by
  induction es generalizing o with
  | nil => simp [Expr.extentsAll, Expr.positionsAll]
  | cons e es ih =>
    simp only [List.cons_append, Expr.extentsAll, Expr.positionsAll, ih, Outlook.behind_behind,
      List.append_assoc]

/-- The scopes in the operands of an expression come before its own. -/
theorem extents_operands (o : Outlook) (e : Expr Site) :
    Expr.extentsAll o e.operands <+: e.extents o := by
  cases e <;> simp [Expr.operands, Expr.extentsAll, Expr.extents]

/-- The positions in a visited item. -/
def Item.positions (o : Outlook) : Item → List Position
  | expr e => e.positions o
  | stmt s => s.positions o
  | stmts ss => Stmt.positionsAll o ss
  | header _ _ ref => [⟨.variable, ref, o⟩]

/-- The scopes in a visited item. -/
def Item.extents (o : Outlook) : Item → List Extent
  | expr e => e.extents o
  | stmt s => s.extents o
  | stmts ss => Stmt.extentsAll o ss
  | header _ _ _ => []

/-- What is seen from where the walk comes to an item. -/
structure Visit.Shows (v : Visit) (o : Outlook) : Prop where
  agrees : o.Agrees v.around v.walk
  plain : v.item.IsStatement → o.own = none

section Parts

variable {around : Surroundings} {levels : List Level} {w : Walk} {o : Outlook}

/-- At the beginning of a body. -/
theorem shows_bodyVisit (agrees : o.Agrees around w) (context : RoutineContext)
    (params : List Token) (body : List (Stmt Site)) :
    (bodyVisit around levels context params body w).Shows (o.enter (params.map Token.lexeme)) :=
  ⟨agrees.enter context params, fun _ => rfl⟩

theorem agrees_checkGetter (agrees : o.Agrees around w) (r : Routine Site) :
    o.Agrees around (w.after (checkGetter around r)) :=
  agrees.unchanged (.complainIf _ r.name .getterOutsideClass w) (step_checkGetter around r w)

theorem agrees_methodContext (agrees : o.Agrees around w) (r : Routine Site) :
    o.Agrees around (w.after (methodContext r)) := by
  have follows : Follows o.scopes.length [] w (w.after (methodContext r)) := by
    unfold methodContext
    split
    · exact .complainIf r.getter r.name .initializerAsGetter w
    · exact .refl w
  exact agrees.unchanged follows (step_methodContext r w)

theorem agrees_bindPreface (agrees : o.Agrees around w) (s : Stmt Site) :
    o.Agrees around (w.after (bindPreface around s)) := by
  cases s with
  | ret keyword value =>
    exact agrees.unchanged (follows_checkReturn around keyword value.isSome w)
      (step_checkReturn around keyword value.isSome w)
  | _ => exact agrees

/-- Behind some members of a class. -/
theorem agrees_bindMethods (agrees : o.Agrees around w) (plain : o.own = none)
    (rs : List (Routine Site)) : o.Agrees around (w.after (bindMethods around rs)) := by
  have behind :=
    agrees.behind (follows_methods around rs agrees plain) (step_bindMethods around rs w)
  rwa [Outlook.behind_of_plain plain] at behind

theorem agrees_bindStatics (agrees : o.Agrees around w) (plain : o.own = none)
    (rs : List (Routine Site)) : o.Agrees around (w.after (bindStatics around rs)) := by
  have behind :=
    agrees.behind (follows_statics around rs agrees plain) (step_bindStatics around rs w)
  rwa [Outlook.behind_of_plain plain] at behind

/-- Behind an expression that stands in no initial value. -/
theorem agrees_bindExpr (agrees : o.Agrees around w) (plain : o.own = none) (e : Expr Site) :
    o.Agrees around (w.after (bindExpr around e)) := by
  have behind := agrees.behind (follows_expr around e agrees) (step_bindExpr around e w)
  rwa [Outlook.behind_of_plain plain] at behind

/-- Before the body of a method. -/
theorem agrees_method (agrees : o.Agrees around w) (plain : o.own = none) (name : Token)
    (superclass : Option (Reference Site)) (mixins : List (Reference Site))
    (before : List (Routine Site)) (r : Routine Site) :
    let inside := around.inClass superclass.isSome
    let reached := (membersWalk around name superclass mixins w).after (bindMethods inside before)
    ((o.introduce [name.lexeme]).enterClass superclass.isSome).Agrees inside
      ((reached.after (methodContext r)).after (checkGetter inside r)) := by
  have header := (follows_headerWalk agrees plain name superclass mixins).1
  have reached := agrees_bindMethods (header.enterClass superclass.isSome) rfl before
  exact agrees_checkGetter (agrees_methodContext reached r) r

/-- Before the body of a static method. -/
theorem agrees_static (agrees : o.Agrees around w) (plain : o.own = none) (name : Token)
    (superclass : Option (Reference Site)) (mixins : List (Reference Site))
    (methods before : List (Routine Site)) (r : Routine Site) :
    let inside := around.inClass superclass.isSome
    let reached := ((membersWalk around name superclass mixins w).after
      (bindMethods inside methods)).after (bindStatics inside before)
    ((o.introduce [name.lexeme]).enterClass superclass.isSome).Agrees inside
      (reached.after (checkGetter inside r)) := by
  have header := (follows_headerWalk agrees plain name superclass mixins).1
  have members := agrees_bindMethods (header.enterClass superclass.isSome) rfl methods
  exact agrees_checkGetter (agrees_bindStatics members rfl before) r

end Parts

theorem positions_operand? {s : Stmt Site} {e : Expr Site} (o : Outlook)
    (part : s.operand? = some e) :
    e.positions o ⊆ s.positions o := by
  cases s with
  | ifElse c t f =>
    cases part
    cases f with
    | none => exact List.subset_append_left _ _
    | some f => exact List.subset_append_left _ _
  | whileLoop c b =>
    cases part
    exact List.subset_append_left _ _
  | expression _ | print _ | ret _ _ =>
    cases part
    exact List.Subset.refl _
  | _ => cases part

theorem extents_operand? {s : Stmt Site} {e : Expr Site} (o : Outlook)
    (part : s.operand? = some e) :
    e.extents o ⊆ s.extents o := by
  cases s with
  | ifElse c t f =>
    cases part
    cases f with
    | none => exact List.subset_append_left _ _
    | some f => exact List.subset_append_left _ _
  | whileLoop c b =>
    cases part
    exact List.subset_append_left _ _
  | expression _ | print _ | ret _ _ =>
    cases part
    exact List.Subset.refl _
  | _ => cases part

theorem positions_routines_subset {o : Outlook} {r : Routine Site} {rs : List (Routine Site)}
    (mem : r ∈ rs) : r.positions o ⊆ Routine.positionsAll o rs := by
  induction rs with
  | nil => cases mem
  | cons r' rs ih =>
    rcases List.mem_cons.mp mem with rfl | mem
    · exact List.subset_append_left _ _
    · exact List.Subset.trans (ih mem) (List.subset_append_right _ _)

theorem extents_routines_subset {o : Outlook} {r : Routine Site} {rs : List (Routine Site)}
    (mem : r ∈ rs) : r.extents o ⊆ Routine.extentsAll o rs := by
  induction rs with
  | nil => cases mem
  | cons r' rs ih =>
    rcases List.mem_cons.mp mem with rfl | mem
    · exact List.subset_append_left _ _
    · exact List.Subset.trans (ih mem) (List.subset_append_right _ _)

/-- The outlook goes along with the walk. -/
theorem Visit.Enters.shows {v v' : Visit} (enters : v.Enters v') {o : Outlook} (h : v.Shows o) :
    ∃ o', v'.Shows o' ∧ v'.item.positions o' ⊆ v.item.positions o ∧
      v'.item.extents o' ⊆ v.item.extents o := by
  obtain ⟨agrees, plain⟩ := h
  cases enters with
  | @operand around levels e w before e' behind parts =>
    have follows := follows_exprs around before agrees
    refine ⟨o.behind (Expr.positionsAll o before),
      ⟨agrees.behind follows (step_bindExprs around before w), fun no => no.elim⟩, ?_, ?_⟩
    · have all := (positions_operands o e).subset
      rw [parts, positionsAll_append, Expr.positionsAll] at all
      intro p mem
      exact all (List.mem_append_right _ (List.mem_append_left _ mem))
    · have all := (extents_operands o e).subset
      rw [parts, extentsAll_append, Expr.extentsAll] at all
      intro c mem
      exact all (List.mem_append_right _ (List.mem_append_left _ mem))
  | @anonymous around levels w keyword params body =>
    exact ⟨_, shows_bodyVisit agrees .function params body, List.Subset.refl _,
      List.subset_append_left _ _⟩
  | @first around levels w s ss =>
    exact ⟨o, ⟨agrees, fun _ => plain trivial⟩, List.subset_append_left _ _,
      List.subset_append_left _ _⟩
  | @rest around levels w s ss =>
    have follows := follows_stmt around s agrees (plain trivial)
    exact ⟨o.introduce s.introduces,
      ⟨agrees.introduce (plain trivial) follows (step_bindStmt around s w), fun _ => plain trivial⟩,
      List.subset_append_right _ _, List.subset_append_right _ _⟩
  | @value around levels w s e part =>
    exact ⟨o, ⟨agrees_bindPreface agrees s, fun no => no.elim⟩, positions_operand? o part,
      extents_operand? o part⟩
  | @initial around levels w name e =>
    exact ⟨o.initial name.lexeme, ⟨agrees.initial (plain trivial) name, fun no => no.elim⟩,
      List.Subset.refl _, List.Subset.refl _⟩
  | @block around levels w body =>
    exact ⟨o.enter [], ⟨agrees.enterBlock, fun _ => rfl⟩, List.Subset.refl _,
      List.subset_append_left _ _⟩
  | @thenBranch around levels w c t e =>
    refine ⟨o, ⟨agrees_bindExpr agrees (plain trivial) c, fun _ => plain trivial⟩, ?_⟩
    cases e with
    | none => exact ⟨List.subset_append_right _ _, List.subset_append_right _ _⟩
    | some e =>
      exact ⟨List.Subset.trans (List.subset_append_left _ _) (List.subset_append_right _ _),
        List.Subset.trans (List.subset_append_left _ _) (List.subset_append_right _ _)⟩
  | @elseBranch around levels w c t e =>
    have agrees' := agrees_bindExpr agrees (plain trivial) c
    have follows := follows_stmt around t agrees' (plain trivial)
    exact ⟨o.introduce t.introduces,
      ⟨agrees'.introduce (plain trivial) follows (step_bindStmt around t _),
        fun _ => plain trivial⟩,
      List.Subset.trans (List.subset_append_right _ _) (List.subset_append_right _ _),
      List.Subset.trans (List.subset_append_right _ _) (List.subset_append_right _ _)⟩
  | @loopBody around levels w c b =>
    exact ⟨o, ⟨agrees_bindExpr agrees (plain trivial) c, fun _ => plain trivial⟩,
      List.subset_append_right _ _, List.subset_append_right _ _⟩
  | @function around levels w name params body getter =>
    have agrees' := agrees.function (plain trivial) name
    exact ⟨_, shows_bodyVisit (agrees_checkGetter agrees' ⟨name, params, body, getter⟩) .function
      params body, List.Subset.refl _, List.subset_append_left _ _⟩
  | @superclass around levels w name ref mixins methods statics =>
    have introduced := follows_introduce agrees (plain trivial) name
    refine ⟨o.introduce [name.lexeme],
      ⟨agrees.introduce (plain trivial) introduced (step_introduce name w), fun _ => plain trivial⟩,
      ?_, List.nil_subset _⟩
    intro p mem
    rw [List.mem_singleton.mp mem]
    simp [Item.positions, Stmt.positions]
  | @mixin around levels w name superclass before ref behind methods statics =>
    have header := (follows_headerWalk agrees (plain trivial) name superclass before).1
    refine ⟨o.introduce [name.lexeme], ⟨header, fun _ => plain trivial⟩, ?_, List.nil_subset _⟩
    intro p mem
    rw [List.mem_singleton.mp mem]
    simp [Item.positions, Stmt.positions]
  | @method around levels w name superclass mixins before m params body getter behind statics =>
    let r : Routine Site := ⟨m, params, body, getter⟩
    have reached := agrees_method agrees (plain trivial) name superclass mixins before r
    have mem : r ∈ before ++ r :: behind := by simp
    refine ⟨_, shows_bodyVisit reached _ params body, ?_, ?_⟩
    · exact List.Subset.trans (positions_routines_subset mem)
        (List.Subset.trans (List.subset_append_left _ _) (List.subset_append_right _ _))
    · exact List.Subset.trans (List.subset_append_left _ _)
        (List.Subset.trans (extents_routines_subset mem) (List.subset_append_left _ _))
  | @static around levels w name superclass mixins methods before m params body getter behind =>
    let r : Routine Site := ⟨m, params, body, getter⟩
    have reached := agrees_static agrees (plain trivial) name superclass mixins methods before r
    have mem : r ∈ before ++ r :: behind := by simp
    refine ⟨_, shows_bodyVisit reached _ params body, ?_, ?_⟩
    · exact List.Subset.trans (positions_routines_subset mem)
        (List.Subset.trans (List.subset_append_right _ _) (List.subset_append_right _ _))
    · exact List.Subset.trans (List.subset_append_left _ _)
        (List.Subset.trans (extents_routines_subset mem) (List.subset_append_right _ _))

/-- From every visit of a program something is seen; its positions are positions of the program, and
its scopes scopes of the program. -/
theorem Edition.Visits.shows_all {ed : Edition} {v : Visit} (visits : ed.Visits v) :
    ∃ o, v.Shows o ∧ v.item.positions o ⊆ ed.positions ∧ v.item.extents o ⊆ ed.extents := by
  induction visits with
  | refl => exact ⟨.top, ⟨ed.agrees_root, fun _ => rfl⟩, List.Subset.refl _, List.Subset.refl _⟩
  | tail _ enters ih =>
    obtain ⟨o, shows, positions, extents⟩ := ih
    obtain ⟨o', shows', positions', extents'⟩ := enters.shows shows
    exact ⟨o', shows', List.Subset.trans positions' positions, List.Subset.trans extents' extents⟩

/-- From every visit of a program something is seen, and its positions are positions of the
program. -/
theorem Edition.Visits.shows {ed : Edition} {v : Visit} (visits : ed.Visits v) :
    ∃ o, v.Shows o ∧ v.item.positions o ⊆ ed.positions := by
  obtain ⟨o, shows, positions, _⟩ := visits.shows_all
  exact ⟨o, shows, positions⟩

end LoxLang
