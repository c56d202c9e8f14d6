/-
LoxLang.Proofs.Tree.Formed: what every tree looks like that was read from tokens.

* `Expr.Formed`, `Stmt.Formed`, `Routine.Formed`: a getter has no parameters, a branch or a loop
  body declares nothing in the scope around it, and every name stands on a token that may stand
  there.
* `Fresh`: sites out of a range of numbers, each once.
* `Expr.erase` and its companions: a tree without its marks.

Replacing marks changes nothing about the form, and a copy with new sites is the same tree:
`formed_mapExpr`, `erase_numberExpr`, `counted_expr`, `formed_forLoop`.
-/
import LoxLang.Tree.ForLoop

namespace LoxLang

/-! ## Names introduced by a statement -/

/-- The names that a statement declares in the scope it stands in. -/
def Stmt.introduces {ρ : Type} : Stmt ρ → List String
  | .var name _ => [name.lexeme]
  | .function r => [r.name.lexeme]
  | .classDecl name _ _ _ _ => [name.lexeme]
  | .ifElse _ t none => t.introduces
  | .ifElse _ t (some e) => t.introduces ++ e.introduces
  | .whileLoop _ b => b.introduces
  | _ => []

/-- The names that a list of statements declares in the scope it stands in. -/
def Stmt.introducesAll {ρ : Type} (ss : List (Stmt ρ)) : List String := ss.flatMap Stmt.introduces

/-- A statement that declares nothing outside of itself. -/
def Stmt.IsClosed {ρ : Type} (s : Stmt ρ) : Prop := s.introduces = []

/-! ## The form of a tree -/

section Form

variable {ρ : Type} (T : Kind → Token → Prop)

mutual

/-- The form of an expression.  `T kind t` says that the token `t` may stand where the grammar asks
for a token of the kind. -/
def Expr.Formed : Expr ρ → Prop
  | .literal _ => True
  | .grouping e => e.Formed
  | .unary _ e => e.Formed
  | .binary l _ r => l.Formed ∧ r.Formed
  | .logical l _ r => l.Formed ∧ r.Formed
  | .variable r => T .identifier r.token
  | .assign r e => T .identifier r.token ∧ e.Formed
  | .call f _ es => f.Formed ∧ Expr.FormedAll es
  | .get e _ => e.Formed
  | .set e _ v => e.Formed ∧ v.Formed
  | .this r => T .thisWord r.token
  | .super r _ => T .superWord r.token
  | .function _ params body => (∀ p ∈ params, T .identifier p) ∧ Stmt.FormedAll body

def Expr.FormedAll : List (Expr ρ) → Prop
  | [] => True
  | e :: es => e.Formed ∧ Expr.FormedAll es

/-- The form of a statement. -/
def Stmt.Formed : Stmt ρ → Prop
  | .missing => True
  | .expression e => e.Formed
  | .print e => e.Formed
  | .var name none => T .identifier name
  | .var name (some e) => T .identifier name ∧ e.Formed
  | .block body => Stmt.FormedAll body
  | .ifElse c t none => c.Formed ∧ t.Formed ∧ t.IsClosed
  | .ifElse c t (some e) => c.Formed ∧ (t.Formed ∧ t.IsClosed) ∧ e.Formed ∧ e.IsClosed
  | .whileLoop c b => c.Formed ∧ b.Formed ∧ b.IsClosed
  | .ret _ none => True
  | .ret _ (some e) => e.Formed
  | .loopExit _ => True
  | .function r => r.Formed
  | .classDecl name superclass mixins methods statics =>
    T .identifier name ∧ (∀ ref ∈ superclass, T .identifier ref.token) ∧
      (∀ ref ∈ mixins, T .identifier ref.token) ∧ Routine.FormedAll methods ∧
      Routine.FormedAll statics

def Stmt.FormedAll : List (Stmt ρ) → Prop
  | [] => True
  | s :: ss => s.Formed ∧ Stmt.FormedAll ss

/-- The form of a routine. -/
def Routine.Formed : Routine ρ → Prop
  | ⟨name, params, body, getter⟩ =>
    T .identifier name ∧ (∀ p ∈ params, T .identifier p) ∧ (getter = true → params = []) ∧
      Stmt.FormedAll body

def Routine.FormedAll : List (Routine ρ) → Prop
  | [] => True
  | r :: rs => r.Formed ∧ Routine.FormedAll rs

end

variable {T}

theorem Expr.formedAll_iff : ∀ {es : List (Expr ρ)}, Expr.FormedAll T es ↔ ∀ e ∈ es, e.Formed T
  | [] => by simp [Expr.FormedAll]
  | e :: es => by simp [Expr.FormedAll, Expr.formedAll_iff]

theorem Stmt.formedAll_iff : ∀ {ss : List (Stmt ρ)}, Stmt.FormedAll T ss ↔ ∀ s ∈ ss, s.Formed T
  | [] => by simp [Stmt.FormedAll]
  | s :: ss => by simp [Stmt.FormedAll, Stmt.formedAll_iff]

theorem Routine.formedAll_iff :
    ∀ {rs : List (Routine ρ)}, Routine.FormedAll T rs ↔ ∀ r ∈ rs, r.Formed T
  | [] => by simp [Routine.FormedAll]
  | r :: rs => by simp [Routine.FormedAll, Routine.formedAll_iff]

end Form

/-! ## Replacing marks -/

section Marks

variable {ρ σ τ : Type}

/-- What a statement introduces does not depend on the marks. -/
theorem introduces_map (f : ρ → σ) : ∀ s : Stmt ρ, (s.map f).introduces = s.introduces
  | .missing | .expression _ | .print _ | .var _ none | .var _ (some _) | .block _ => rfl
  | .ret _ none | .ret _ (some _) | .loopExit _ | .classDecl .. => rfl
  | .function ⟨_, _, _, _⟩ => rfl
  | .ifElse _ t none => introduces_map f t
  | .ifElse _ t (some e) => by
    simp only [Stmt.map, Stmt.introduces, introduces_map f t, introduces_map f e]
  | .whileLoop _ b => introduces_map f b

theorem isClosed_map (f : ρ → σ) (s : Stmt ρ) : (s.map f).IsClosed ↔ s.IsClosed := by
  rw [Stmt.IsClosed, Stmt.IsClosed, introduces_map]

theorem Expr.mapAll_eq (f : ρ → σ) : ∀ es : List (Expr ρ), Expr.mapAll f es = es.map (·.map f)
  | [] => rfl
  | e :: es => by rw [Expr.mapAll, Expr.mapAll_eq f es, List.map_cons]

theorem Stmt.mapAll_eq (f : ρ → σ) : ∀ ss : List (Stmt ρ), Stmt.mapAll f ss = ss.map (·.map f)
  | [] => rfl
  | s :: ss => by rw [Stmt.mapAll, Stmt.mapAll_eq f ss, List.map_cons]

theorem Routine.mapAll_eq (f : ρ → σ) :
    ∀ rs : List (Routine ρ), Routine.mapAll f rs = rs.map (·.map f)
  | [] => rfl
  | r :: rs => by rw [Routine.mapAll, Routine.mapAll_eq f rs, List.map_cons]

variable {T : Kind → Token → Prop}

mutual

/-- The form of an expression does not depend on its marks. -/
theorem formed_mapExpr (f : ρ → σ) : ∀ e : Expr ρ, (e.map f).Formed T ↔ e.Formed T
  | .literal _ | .variable _ | .this _ | .super _ _ => Iff.rfl
  | .grouping e => formed_mapExpr f e
  | .unary _ e => formed_mapExpr f e
  | .binary l _ r => and_congr (formed_mapExpr f l) (formed_mapExpr f r)
  | .logical l _ r => and_congr (formed_mapExpr f l) (formed_mapExpr f r)
  | .assign _ e => and_congr_right fun _ => formed_mapExpr f e
  | .call g _ es => and_congr (formed_mapExpr f g) (formed_mapExprs f es)
  | .get e _ => formed_mapExpr f e
  | .set e _ v => and_congr (formed_mapExpr f e) (formed_mapExpr f v)
  | .function _ _ body => and_congr_right fun _ => formed_mapStmts f body

theorem formed_mapExprs (f : ρ → σ) :
    ∀ es : List (Expr ρ), Expr.FormedAll T (Expr.mapAll f es) ↔ Expr.FormedAll T es
  | [] => Iff.rfl
  | e :: es => and_congr (formed_mapExpr f e) (formed_mapExprs f es)

/-- The form of a statement does not depend on its marks. -/
theorem formed_mapStmt (f : ρ → σ) : ∀ s : Stmt ρ, (s.map f).Formed T ↔ s.Formed T
  | .missing | .var _ none | .ret _ none | .loopExit _ => Iff.rfl
  | .expression e => formed_mapExpr f e
  | .print e => formed_mapExpr f e
  | .var _ (some e) => and_congr_right fun _ => formed_mapExpr f e
  | .block body => formed_mapStmts f body
  | .ifElse c t none =>
    and_congr (formed_mapExpr f c) (and_congr (formed_mapStmt f t) (isClosed_map f t))
  | .ifElse c t (some e) =>
    and_congr (formed_mapExpr f c)
      (and_congr (and_congr (formed_mapStmt f t) (isClosed_map f t))
        (and_congr (formed_mapStmt f e) (isClosed_map f e)))
  | .whileLoop c b =>
    and_congr (formed_mapExpr f c) (and_congr (formed_mapStmt f b) (isClosed_map f b))
  | .ret _ (some e) => formed_mapExpr f e
  | .function r => formed_mapRoutine f r
  | .classDecl name superclass mixins methods statics => by
    simp only [Stmt.map, Stmt.Formed, formed_mapRoutines f methods, formed_mapRoutines f statics,
      List.mem_map, forall_exists_index, and_imp, forall_apply_eq_imp_iff₂, Reference.map,
      Option.mem_def, Option.map_eq_some_iff]

theorem formed_mapStmts (f : ρ → σ) :
    ∀ ss : List (Stmt ρ), Stmt.FormedAll T (Stmt.mapAll f ss) ↔ Stmt.FormedAll T ss
  | [] => Iff.rfl
  | s :: ss => and_congr (formed_mapStmt f s) (formed_mapStmts f ss)

/-- The form of a routine does not depend on its marks. -/
theorem formed_mapRoutine (f : ρ → σ) : ∀ r : Routine ρ, (r.map f).Formed T ↔ r.Formed T
  | ⟨_, _, body, _⟩ =>
    and_congr_right fun _ => and_congr_right fun _ => and_congr_right fun _ =>
      formed_mapStmts f body

theorem formed_mapRoutines (f : ρ → σ) :
    ∀ rs : List (Routine ρ), Routine.FormedAll T (Routine.mapAll f rs) ↔ Routine.FormedAll T rs
  | [] => Iff.rfl
  | r :: rs => and_congr (formed_mapRoutine f r) (formed_mapRoutines f rs)

end

end Marks

/-! ## Sites -/

/-- The sites of references. -/
def sitesOf (os : List (Occurrence Site)) : List Site := os.map fun o => o.2.mark

@[simp] theorem sitesOf_nil : sitesOf [] = [] := rfl

@[simp] theorem sitesOf_cons (o : Occurrence Site) (os : List (Occurrence Site)) :
    sitesOf (o :: os) = o.2.mark :: sitesOf os := rfl

/-- The sites of references in a row are in a row. -/
@[simp] theorem sitesOf_append (os ps : List (Occurrence Site)) :
    sitesOf (os ++ ps) = sitesOf os ++ sitesOf ps := List.map_append

/-- The sites of references that are read as variables are their marks. -/
theorem sitesOf_variables (refs : List (Reference Site)) :
    sitesOf (refs.map (ReferenceRole.variable, ·)) = refs.map Reference.mark := by
  simp [sitesOf]

/-- Sites out of a range of numbers, each once. -/
structure Fresh (lo hi : Nat) (sites : List Nat) : Prop where
  nodup : sites.Nodup
  bounds : ∀ site ∈ sites, lo ≤ site ∧ site < hi

namespace Fresh

variable {lo mid hi : Nat} {sites sites' : List Nat}

theorem nil : Fresh lo hi [] := ⟨List.nodup_nil, by simp⟩

/-- Sites out of two ranges in a row are sites out of both together. -/
theorem append (first : Fresh lo mid sites) (second : Fresh mid hi sites') (le : lo ≤ mid)
    (le' : mid ≤ hi) : Fresh lo hi (sites ++ sites') where
  nodup := by
    refine List.nodup_append.mpr ⟨first.nodup, second.nodup, fun a ha b hb eq => ?_⟩
    have below := (first.bounds a ha).2
    have above := (second.bounds b hb).1
    omega
  bounds site mem := by
    rcases List.mem_append.mp mem with mem | mem
    · have := first.bounds site mem
      omega
    · have := second.bounds site mem
      omega

/-- The order of fresh sites does not matter. -/
theorem perm (h : Fresh lo hi sites) (same : sites.Perm sites') : Fresh lo hi sites' :=
  ⟨same.nodup_iff.mp h.nodup, fun site mem => h.bounds site (same.mem_iff.mpr mem)⟩

/-- Sites out of a range are sites out of a wider one. -/
theorem widen {lo' hi' : Nat} (h : Fresh lo hi sites) (below : lo' ≤ lo) (above : hi ≤ hi') :
    Fresh lo' hi' sites :=
  ⟨h.nodup, fun site mem => ⟨Nat.le_trans below (h.bounds site mem).1,
    Nat.lt_of_lt_of_le (h.bounds site mem).2 above⟩⟩

/-- All numbers of a range, each once. -/
theorem range (lo n : Nat) : Fresh lo (lo + n) (List.range' lo n) where
  nodup := List.nodup_range'
  bounds site mem := by simpa [List.mem_range'_1] using mem

end Fresh

/-! ## Numbering -/

/-- An expression without its marks. -/
def Expr.erase {ρ : Type} (e : Expr ρ) : Expr Unit := e.map fun _ => ()

/-- A statement without its marks. -/
def Stmt.erase {ρ : Type} (s : Stmt ρ) : Stmt Unit := s.map fun _ => ()

section Numbering

variable {ρ : Type}

/-- References that were numbered from a site on, up to the next free one. -/
structure Counted (first : Nat) (before : List (Occurrence ρ)) (after : List (Occurrence Site))
    (next : Nat) : Prop where
  sites : sitesOf after = List.range' first before.length
  next_eq : next = first + before.length

namespace Counted

variable {first next last : Nat} {os ps : List (Occurrence ρ)} {os' ps' : List (Occurrence Site)}

theorem nil : Counted first ([] : List (Occurrence ρ)) [] first := ⟨rfl, rfl⟩

/-- One reference gets one number. -/
theorem one (o : Occurrence ρ) (role : ReferenceRole) (t : Token) :
    Counted first [o] [(role, ⟨t, first⟩)] (first + 1) := ⟨rfl, rfl⟩

theorem append (left : Counted first os os' next) (right : Counted next ps ps' last) :
    Counted first (os ++ ps) (os' ++ ps') last where
  sites := by
    rw [sitesOf_append, left.sites, right.sites, left.next_eq, List.length_append,
      List.range'_append_1]
  next_eq := by rw [right.next_eq, left.next_eq, List.length_append, Nat.add_assoc]

end Counted

/-- Mixins and the like are numbered in their order. -/
theorem counted_references : ∀ (refs : List (Reference ρ)) (n : Site),
    Counted n (refs.map (ReferenceRole.variable, ·))
      ((refs.mapM Reference.number n).1.map (ReferenceRole.variable, ·))
      (refs.mapM Reference.number n).2
  | [], _ => .nil
  | r :: refs, n => by
    rw [List.mapM_cons]
    exact (Counted.one (.variable, r) .variable r.token).append (counted_references refs (n + 1))

mutual

/-- Numbering an expression counts its references. -/
theorem counted_expr : ∀ (e : Expr ρ) (n : Site),
    Counted n e.references (e.number n).1.references (e.number n).2
  | .literal _, _ => .nil
  | .grouping e, n => counted_expr e n
  | .unary _ e, n => counted_expr e n
  | .binary l _ r, n => (counted_expr l n).append (counted_expr r _)
  | .logical l _ r, n => (counted_expr l n).append (counted_expr r _)
  | .variable r, _ => .one (.variable, r) .variable r.token
  | .assign r e, n => (Counted.one (.assign, r) .assign r.token).append (counted_expr e (n + 1))
  | .call f _ es, n => (counted_expr f n).append (counted_exprs es _)
  | .get e _, n => counted_expr e n
  | .set e _ v, n => (counted_expr e n).append (counted_expr v _)
  | .this r, _ => .one (.this, r) .this r.token
  | .super r _, _ => .one (.super, r) .super r.token
  | .function _ _ body, n => counted_stmts body n

/-- Expressions in a row are numbered in a row. -/
theorem counted_exprs : ∀ (es : List (Expr ρ)) (n : Site),
    Counted n (Expr.referencesAll es) (Expr.referencesAll (Expr.numberAll es n).1)
      (Expr.numberAll es n).2
  | [], _ => .nil
  | e :: es, n => (counted_expr e n).append (counted_exprs es _)

/-- Numbering a statement counts its references. -/
theorem counted_stmt : ∀ (s : Stmt ρ) (n : Site),
    Counted n s.references (s.number n).1.references (s.number n).2
  | .missing, _ | .var _ none, _ | .ret _ none, _ | .loopExit _, _ => .nil
  | .expression e, n => counted_expr e n
  | .print e, n => counted_expr e n
  | .var _ (some e), n => counted_expr e n
  | .block body, n => counted_stmts body n
  | .ifElse c t none, n => (counted_expr c n).append (counted_stmt t _)
  | .ifElse c t (some e), n =>
    ((counted_expr c n).append (counted_stmt t _)).append (counted_stmt e _)
  | .whileLoop c b, n => (counted_expr c n).append (counted_stmt b _)
  | .ret _ (some e), n => counted_expr e n
  | .function r, n => counted_routine r n
  | .classDecl _ none mixins methods statics, n =>
    ((counted_references mixins n).append (counted_routines methods _)).append
      (counted_routines statics _)
  | .classDecl _ (some ref) mixins methods statics, n =>
    (((Counted.one (.variable, ref) .variable ref.token).append
      (counted_references mixins (n + 1))).append (counted_routines methods _)).append
        (counted_routines statics _)

/-- So are statements. -/
theorem counted_stmts : ∀ (ss : List (Stmt ρ)) (n : Site),
    Counted n (Stmt.referencesAll ss) (Stmt.referencesAll (Stmt.numberAll ss n).1)
      (Stmt.numberAll ss n).2
  | [], _ => .nil
  | s :: ss, n => (counted_stmt s n).append (counted_stmts ss _)

/-- Numbering a routine counts its references. -/
theorem counted_routine : ∀ (r : Routine ρ) (n : Site),
    Counted n r.references (r.number n).1.references (r.number n).2
  | ⟨_, _, body, _⟩, n => counted_stmts body n

/-- So are routines. -/
theorem counted_routines : ∀ (rs : List (Routine ρ)) (n : Site),
    Counted n (Routine.referencesAll rs) (Routine.referencesAll (Routine.numberAll rs n).1)
      (Routine.numberAll rs n).2
  | [], _ => .nil
  | r :: rs, n => (counted_routine r n).append (counted_routines rs _)

end

/-- Numbering changes marks only. -/
theorem erase_mapM_number : ∀ (refs : List (Reference ρ)) (n : Site),
    (refs.mapM Reference.number n).1.map (Reference.map fun _ => ()) =
      refs.map (Reference.map fun _ => ())
  | [], _ => rfl
  | r :: refs, n => by
    rw [List.mapM_cons]
    exact congrArg (_ :: ·) (erase_mapM_number refs (n + 1))

mutual

/-- Numbering changes nothing but the marks. -/
theorem erase_numberExpr : ∀ (e : Expr ρ) (n : Site), (e.number n).1.erase = e.erase
  | .literal _, _ | .variable _, _ | .this _, _ | .super _ _, _ => rfl
  | .grouping e, n => congrArg Expr.grouping (erase_numberExpr e n)
  | .unary op e, n => congrArg (Expr.unary op) (erase_numberExpr e n)
  | .binary l op r, n =>
    congr (congrArg (Expr.binary · op) (erase_numberExpr l n)) (erase_numberExpr r _)
  | .logical l op r, n =>
    congr (congrArg (Expr.logical · op) (erase_numberExpr l n)) (erase_numberExpr r _)
  | .assign _ e, n => congrArg (Expr.assign _) (erase_numberExpr e (n + 1))
  | .call f paren es, n =>
    congr (congrArg (Expr.call · paren) (erase_numberExpr f n)) (erase_numberExprs es _)
  | .get e name, n => congrArg (Expr.get · name) (erase_numberExpr e n)
  | .set e name v, n =>
    congr (congrArg (Expr.set · name) (erase_numberExpr e n)) (erase_numberExpr v _)
  | .function keyword params body, n =>
    congrArg (Expr.function keyword params) (erase_numberStmts body n)

theorem erase_numberExprs : ∀ (es : List (Expr ρ)) (n : Site),
    Expr.mapAll (fun _ => ()) (Expr.numberAll es n).1 = Expr.mapAll (fun _ => ()) es
  | [], _ => rfl
  | e :: es, n => congr (congrArg List.cons (erase_numberExpr e n)) (erase_numberExprs es _)

/-- Numbering changes nothing but the marks. -/
theorem erase_numberStmt : ∀ (s : Stmt ρ) (n : Site), (s.number n).1.erase = s.erase
  | .missing, _ | .var _ none, _ | .ret _ none, _ | .loopExit _, _ => rfl
  | .expression e, n => congrArg Stmt.expression (erase_numberExpr e n)
  | .print e, n => congrArg Stmt.print (erase_numberExpr e n)
  | .var name (some e), n => congrArg (Stmt.var name ∘ some) (erase_numberExpr e n)
  | .block body, n => congrArg Stmt.block (erase_numberStmts body n)
  | .ifElse c t none, n =>
    congr (congrArg (Stmt.ifElse · · none) (erase_numberExpr c n)) (erase_numberStmt t _)
  | .ifElse c t (some e), n =>
    congr (congr (congrArg (Stmt.ifElse · · <| some ·) (erase_numberExpr c n))
      (erase_numberStmt t _)) (erase_numberStmt e _)
  | .whileLoop c b, n =>
    congr (congrArg Stmt.whileLoop (erase_numberExpr c n)) (erase_numberStmt b _)
  | .ret keyword (some e), n => congrArg (Stmt.ret keyword ∘ some) (erase_numberExpr e n)
  | .function r, n => congrArg Stmt.function (erase_numberRoutine r n)
  | .classDecl name none mixins methods statics, n =>
    congr (congr (congrArg (Stmt.classDecl name none) (erase_mapM_number mixins n))
      (erase_numberRoutines methods _)) (erase_numberRoutines statics _)
  | .classDecl name (some _) mixins methods statics, n =>
    congr (congr (congrArg (Stmt.classDecl name (some _)) (erase_mapM_number mixins (n + 1)))
      (erase_numberRoutines methods _)) (erase_numberRoutines statics _)

theorem erase_numberStmts : ∀ (ss : List (Stmt ρ)) (n : Site),
    Stmt.mapAll (fun _ => ()) (Stmt.numberAll ss n).1 = Stmt.mapAll (fun _ => ()) ss
  | [], _ => rfl
  | s :: ss, n => congr (congrArg List.cons (erase_numberStmt s n)) (erase_numberStmts ss _)

/-- Numbering changes nothing but the marks. -/
theorem erase_numberRoutine : ∀ (r : Routine ρ) (n : Site),
    (r.number n).1.map (fun _ => ()) = r.map (fun _ => ())
  | ⟨name, params, body, getter⟩, n =>
    congrArg (Routine.mk name params · getter) (erase_numberStmts body n)

theorem erase_numberRoutines : ∀ (rs : List (Routine ρ)) (n : Site),
    Routine.mapAll (fun _ => ()) (Routine.numberAll rs n).1 = Routine.mapAll (fun _ => ()) rs
  | [], _ => rfl
  | r :: rs, n =>
    congr (congrArg List.cons (erase_numberRoutine r n)) (erase_numberRoutines rs _)

end

variable {T : Kind → Token → Prop}

/-- So it leaves an expression well-formed. -/
theorem formed_numberExpr (e : Expr ρ) (n : Site) : (e.number n).1.Formed T ↔ e.Formed T := by
  rw [← formed_mapExpr fun _ => (), ← formed_mapExpr (fun _ => ()) e]
  exact iff_of_eq (congrArg (Expr.Formed T) (erase_numberExpr e n))

end Numbering

/-! ## The body of a `for` loop -/

/-- Sites to which the ones between two numbers were added. -/
def Grown (first : Nat) (before after : List Nat) (next : Nat) : Prop :=
  ∃ k, next = first + k ∧ after.Perm (before ++ List.range' first k)

namespace Grown

variable {first next last : Nat} {sites sites' more more' : List Nat}

/-- Nothing is added. -/
theorem same : Grown first sites sites first := ⟨0, rfl, by simp⟩

theorem append (left : Grown first sites sites' next) (right : Grown next more more' last) :
    Grown first (sites ++ more) (sites' ++ more') last := by
  obtain ⟨k, rfl, left⟩ := left
  obtain ⟨j, rfl, right⟩ := right
  refine ⟨k + j, Nat.add_assoc first k j, (left.append right).trans ?_⟩
  rw [← List.range'_append_1, List.append_assoc, List.append_assoc]
  exact (List.perm_append_comm_assoc _ _ _).append_left _

/-- A tree that is numbered adds all of its sites. -/
theorem of_counted {os : List (Occurrence Site)} {os' : List (Occurrence Site)}
    (counted : Counted first os os' next) : Grown first [] (sitesOf os') next :=
  ⟨os.length, counted.next_eq, by rw [counted.sites]; rfl⟩

/-- What is added is fresh beside what was there. -/
theorem fresh (grown : Grown first sites sites' next) {lo : Nat} (le : lo ≤ first)
    (h : Fresh lo first sites) : first ≤ next ∧ Fresh lo next sites' := by
  obtain ⟨k, rfl, perm⟩ := grown
  exact ⟨Nat.le_add_right _ _,
    (h.append (Fresh.range first k) le (Nat.le_add_right _ _)).perm perm.symm⟩

end Grown

/-- What putting copies of the increment into a statement does to it. -/
structure Incremented (T : Kind → Token → Prop) (first : Site) (before after : Stmt Site)
    (next : Site) : Prop where
  formed : before.Formed T → after.Formed T
  introduces : after.introduces = before.introduces
  sites : Grown first (sitesOf before.references) (sitesOf after.references) next

variable {T : Kind → Token → Prop}

mutual

/-- A copy of the increment before each `continue` adds its own sites, and keeps the form. -/
theorem incremented {increment : Expr Site} (h : increment.Formed T) :
    ∀ (s : Stmt Site) (n : Site),
      Incremented T n s (s.withIncrement increment n).1 (s.withIncrement increment n).2
  | .block body, n => by
    obtain ⟨formed, sites⟩ := incrementedAll h body n
    exact ⟨formed, rfl, sites⟩
  | .loopExit keyword, n => by
    rw [Stmt.withIncrement]
    split
    · exact ⟨id, rfl, .same⟩
    · refine ⟨fun _ => ⟨(formed_numberExpr increment n).mpr h, trivial, trivial⟩, rfl, ?_⟩
      show Grown n [] (sitesOf ((increment.number n).1.references ++ [])) _
      rw [List.append_nil]
      exact .of_counted (counted_expr increment n)
  | .ifElse c t none, n => by
    obtain ⟨formed, introduces, sites⟩ := incremented h t n
    refine ⟨fun ⟨hc, ht, closed⟩ => ⟨hc, formed ht, introduces.trans closed⟩, introduces, ?_⟩
    show Grown n (sitesOf (_ ++ _)) (sitesOf (_ ++ _)) _
    rw [sitesOf_append, sitesOf_append]
    exact Grown.same.append sites
  | .ifElse c t (some e), n => by
    obtain ⟨formed, introduces, sites⟩ := incremented h t n
    obtain ⟨formed', introduces', sites'⟩ := incremented h e (t.withIncrement increment n).2
    refine ⟨fun ⟨hc, ⟨ht, closed⟩, he, closed'⟩ => ⟨hc, ⟨formed ht, introduces.trans closed⟩,
      formed' he, introduces'.trans closed'⟩, ?_, ?_⟩
    · show _ ++ _ = _ ++ _
      rw [introduces, introduces']
    · show Grown n (sitesOf (_ ++ _ ++ _)) (sitesOf (_ ++ _ ++ _)) _
      simp only [sitesOf_append]
      exact (Grown.same.append sites).append sites'
  | .missing, _ | .expression _, _ | .print _, _ | .var _ _, _ => ⟨id, rfl, .same⟩
  | .whileLoop _ _, _ | .ret _ _, _ | .function _, _ | .classDecl .., _ => ⟨id, rfl, .same⟩

/-- So it is for the statements of a block, one after the other. -/
theorem incrementedAll {increment : Expr Site} (h : increment.Formed T) :
    ∀ (ss : List (Stmt Site)) (n : Site),
      (Stmt.FormedAll T ss → Stmt.FormedAll T (Stmt.withIncrementAll increment ss n).1) ∧
        Grown n (sitesOf (Stmt.referencesAll ss))
          (sitesOf (Stmt.referencesAll (Stmt.withIncrementAll increment ss n).1))
          (Stmt.withIncrementAll increment ss n).2
  | [], _ => ⟨id, .same⟩
  | s :: ss, n => by
    obtain ⟨formed, _, sites⟩ := incremented h s n
    obtain ⟨formedAll, sitesAll⟩ := incrementedAll h ss (s.withIncrement increment n).2
    refine ⟨fun ⟨hs, hss⟩ => ⟨formed hs, formedAll hss⟩, ?_⟩
    show Grown n (sitesOf (_ ++ _)) (sitesOf (_ ++ _)) _
    rw [sitesOf_append, sitesOf_append]
    exact sites.append sitesAll

end

/-- The sites of a part that may be absent. -/
def sitesOfOption {α : Type} (references : α → List (Occurrence Site)) (o : Option α) : List Site :=
  (o.map fun a => sitesOf (references a)).getD []

/-- The body of the loop with the increment behind it is a well-formed branch. -/
theorem formed_loopBody {increment : Option (Expr Site)} {body : Stmt Site}
    (hn : ∀ e ∈ increment, e.Formed T) (hb : body.Formed T) (closed : body.IsClosed) (n : Site) :
    (loopBody increment body n).1.Formed T ∧ (loopBody increment body n).1.IsClosed ∧
      Grown n (sitesOf body.references ++ sitesOfOption Expr.references increment)
        (sitesOf (loopBody increment body n).1.references) (loopBody increment body n).2 := by
  cases increment with
  | none =>
    refine ⟨hb, closed, ?_⟩
    rw [sitesOfOption, Option.map_none, Option.getD_none, List.append_nil]
    exact .same
  | some e =>
    obtain ⟨formed, _, sites⟩ := incremented (hn e rfl) body n
    refine ⟨⟨formed hb, hn e rfl, trivial⟩, rfl, ?_⟩
    show Grown n _ (sitesOf (_ ++ (_ ++ []))) _
    rw [sitesOf_append, List.append_nil]
    exact sites.append .same

/-- The loop that a `for` loop stands for has the form of a statement. -/
theorem formed_forLoop {init : Option (Stmt Site)} {condition increment : Option (Expr Site)}
    {body : Stmt Site} (hi : ∀ s ∈ init, s.Formed T) (hc : ∀ e ∈ condition, e.Formed T)
    (hn : ∀ e ∈ increment, e.Formed T) (hb : body.Formed T) (closed : body.IsClosed) (n : Site) :
    (forLoop init condition increment body n).1.Formed T ∧
      (forLoop init condition increment body n).1.IsClosed ∧
      Grown n (sitesOfOption Stmt.references init ++ (sitesOfOption Expr.references condition ++
          (sitesOf body.references ++ sitesOfOption Expr.references increment)))
        (sitesOf (forLoop init condition increment body n).1.references)
        (forLoop init condition increment body n).2 := by
  obtain ⟨formed, isClosed, sites⟩ := formed_loopBody hn hb closed n
  have loop : (Stmt.whileLoop (condition.getD (.literal (.bool true)))
      (loopBody increment body n).1).Formed T := by
    refine ⟨?_, formed, isClosed⟩
    cases condition with
    | none => trivial
    | some e => exact hc e rfl
  have loopSites : sitesOf (Stmt.whileLoop (condition.getD (.literal (.bool true)))
      (loopBody increment body n).1).references =
        sitesOfOption Expr.references condition ++
          sitesOf (loopBody increment body n).1.references := by
    rw [Stmt.references, sitesOf_append]
    cases condition <;> rfl
  cases init with
  | none =>
    refine ⟨loop, isClosed, ?_⟩
    show Grown n ([] ++ _)
      (sitesOf (Stmt.whileLoop _ (loopBody increment body n).1).references) _
    rw [loopSites, List.nil_append]
    exact Grown.same.append sites
  | some s =>
    refine ⟨⟨hi s rfl, loop, trivial⟩, rfl, ?_⟩
    show Grown n _ (sitesOf (s.references ++
      ((Stmt.whileLoop _ (loopBody increment body n).1).references ++ []))) _
    rw [List.append_nil, sitesOf_append, loopSites]
    exact Grown.same.append (Grown.same.append sites)

end LoxLang
