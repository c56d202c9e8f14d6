/-
LoxLang.Proofs.Binding.Copies: what the copies of an increment are bound to.

A copy stands further inside than the increment itself: between the two lie the blocks around the
`continue` that the copy belongs to, with the names that they have so far.  A reference of the copy
means the same scope as the reference that it is a copy of, unless one of the blocks between has its
name.

* `Position.Widens`: the same reference, seen from further inside.
* `Position.Captured`: a scope in between has the name.
* `Stmt.copies`: the copies in a body, and what is seen from each.

Main statements: `Widens.distance_eq_iff`, `widens_number`, `positions_withIncrement`.
-/
import LoxLang.Proofs.Binding.Positions
import Mathlib.Data.List.Forall2

namespace LoxLang

/-! ## Scopes in between -/

/-- The distance of the same scope from further inside: the scopes that are nearer than the given
bound come along, and behind them so many others lie in between. -/
def Distance.past (d : Distance) (near between : Nat) : Distance :=
  d.map fun d => if d < near then d else d + between

namespace Position

variable {p : Position}

/-- The scope has the name, and it is not passed over. -/
def Hits (p : Position) (d : Nat) : Prop :=
  p.skip ≤ d ∧ ∃ names, p.outlook.scopes[d]? = some names ∧ p.name ∈ names

/-- A position is at a distance if the scope there is the first one that it hits. -/
theorem distance_eq_some {d : Nat} :
    p.distance = some d ↔ ¬ p.IsStray ∧ p.Hits d ∧ ∀ i < d, ¬ p.Hits i := by
  unfold distance
  split
  · rename_i stray
    simp [stray]
  · rename_i stray
    simp only [stray, not_false_iff, true_and]
    exact findScope_eq_some

/-- A reference that means no scope. -/
theorem distance_eq_none (h : ¬ p.IsStray) : p.distance = none ↔ ∀ d, ¬ p.Hits d := by
  constructor
  · intro nothing d
    induction d using Nat.strongRecOn with
    | _ d ih =>
      intro hit
      have found := distance_eq_some.mpr ⟨h, hit, ih⟩
      rw [nothing] at found
      cases found
  · intro none
    rw [Option.eq_none_iff_forall_ne_some]
    intro d found
    exact none d (distance_eq_some.mp found).2.1

end Position

section Between

variable (outer inner : List (List String))

/-- The same outlook from further inside. -/
structure Outlook.Widens (near : List (List String)) (o o' : Outlook) : Prop where
  here : o.scopes = near ++ outer
  there : o'.scopes = near ++ (inner ++ outer)
  /-- A variable in whose initial value both stand is not outside. -/
  initial : o.own ≠ none → near ≠ []
  inClass : o'.inClass = o.inClass
  own : o'.own = o.own
  reread : o'.reread = o.reread

/-- The same reference, seen from further inside. -/
structure Position.Widens (p p' : Position) : Prop where
  role : p'.role = p.role
  token : p'.ref.token = p.ref.token
  outlook : ∃ near, p.outlook.Widens outer inner near p'.outlook

/-- A reference means no scope that comes along, and one of the scopes in between has its name. -/
def Position.Captured (p : Position) : Prop :=
  ¬ p.IsStray ∧ (∀ d, p.distance = some d → p.depth ≤ d + outer.length) ∧
    ∃ names ∈ inner, p.name ∈ names

variable {outer inner}

namespace Position.Widens

variable {p p' : Position}

/-- A copy has the name of the original. -/
theorem name (h : p.Widens outer inner p') : p'.name = p.name :=
  congrArg Token.lexeme h.token

/-- It is a read in its own initial value if the original is. -/
theorem isOwnRead_iff (h : p.Widens outer inner p') : p'.IsOwnRead ↔ p.IsOwnRead := by
  obtain ⟨near, outlook⟩ := h.outlook
  rw [IsOwnRead, IsOwnRead, h.role, h.name, outlook.own]

/-- It is astray if the original is. -/
theorem isStray_iff (h : p.Widens outer inner p') : p'.IsStray ↔ p.IsStray := by
  obtain ⟨near, outlook⟩ := h.outlook
  rw [IsStray, IsStray, h.role, outlook.inClass]

/-- So both pass over as many scopes. -/
theorem skip (h : p.Widens outer inner p') : p'.skip = p.skip := by
  obtain ⟨near, outlook⟩ := h.outlook
  have own := h.isOwnRead_iff
  unfold Position.skip
  rw [outlook.reread]
  simp only [own]

variable {near : List (List String)}

/-- Only a scope that comes along is passed over. -/
theorem skip_le (h : p.outlook.Widens outer inner near p'.outlook) : p.skip ≤ near.length := by
  unfold Position.skip
  split
  · rename_i own
    have initial := h.initial (by simp [own.1.2])
    exact List.length_pos_iff.mpr initial
  · exact Nat.zero_le _

/-- In the scopes that both have around them they hit the same. -/
theorem hits_near (h : p.Widens outer inner p')
    (outlook : p.outlook.Widens outer inner near p'.outlook) {i : Nat} (lt : i < near.length) :
    p'.Hits i ↔ p.Hits i := by
  rw [Hits, Hits, h.skip, h.name, outlook.here, outlook.there, List.getElem?_append_left lt,
    List.getElem?_append_left lt]

/-- A scope in between. -/
theorem hits_between (h : p.Widens outer inner p')
    (outlook : p.outlook.Widens outer inner near p'.outlook) {j : Nat} (lt : j < inner.length) :
    p'.Hits (near.length + j) ↔ p.name ∈ inner[j] := by
  have passed := skip_le outlook
  have le : p.skip ≤ near.length + j := by omega
  rw [Hits, h.skip, h.name, outlook.there, List.getElem?_append_right (Nat.le_add_right _ _),
    Nat.add_sub_cancel_left, List.getElem?_append_left lt, List.getElem?_eq_getElem lt]
  simp [le]

/-- A scope around both. -/
theorem hits_far (h : p.Widens outer inner p')
    (outlook : p.outlook.Widens outer inner near p'.outlook) {i : Nat} (le : near.length ≤ i) :
    p'.Hits (i + inner.length) ↔ p.Hits i := by
  have passed := skip_le outlook
  have first : near.length ≤ i + inner.length := by omega
  have second : inner.length ≤ i + inner.length - near.length := by omega
  have same : i + inner.length - near.length - inner.length = i - near.length := by omega
  rw [Hits, Hits, h.skip, h.name, outlook.here, outlook.there, List.getElem?_append_right le,
    List.getElem?_append_right first, List.getElem?_append_right second, same]
  exact and_congr_left fun _ => by omega

/-- A scope that comes along keeps its distance. -/
theorem distance_near (h : p.Widens outer inner p')
    (outlook : p.outlook.Widens outer inner near p'.outlook) {d : Nat} (lt : d < near.length) :
    p'.distance = some d ↔ p.distance = some d := by
  rw [distance_eq_some, distance_eq_some, h.isStray_iff, h.hits_near outlook lt]
  refine and_congr_right fun _ => and_congr_right fun _ => forall₂_congr fun i below => ?_
  rw [h.hits_near outlook (by omega)]

/-- No scope that comes along is meant. -/
theorem not_hits_near (stray : ¬ p.IsStray) {n : Nat} (far : ∀ d, p.distance = some d → n ≤ d)
    {i : Nat} (lt : i < n) : ¬ p.Hits i := by
  induction i using Nat.strongRecOn with
  | _ i ih =>
    intro hit
    have le := far i (distance_eq_some.mpr ⟨stray, hit, fun j below => ih j below (by omega)⟩)
    omega

/-- A reference that is captured means one of the scopes in between. -/
theorem distance_of_captured (h : p.Widens outer inner p')
    (outlook : p.outlook.Widens outer inner near p'.outlook) (stray : ¬ p.IsStray)
    (far : ∀ d, p.distance = some d → near.length ≤ d) (hit : ∃ names ∈ inner, p.name ∈ names) :
    ∃ j, j < inner.length ∧ p'.distance = some (near.length + j) := by
  obtain ⟨names, mem, has⟩ := hit
  have found : (inner.findIdx? (·.contains p.name)).isSome := by
    rw [List.findIdx?_isSome, List.any_eq_true]
    exact ⟨names, mem, by simpa using has⟩
  obtain ⟨j, found⟩ := Option.isSome_iff_exists.mp found
  obtain ⟨lt, has, first⟩ := List.findIdx?_eq_some_iff_getElem.mp found
  refine ⟨j, lt, distance_eq_some.mpr ⟨h.isStray_iff.not.mpr stray, ?_, fun i below => ?_⟩⟩
  · rw [h.hits_between outlook lt]
    simpa using has
  · by_cases close : i < near.length
    · rw [h.hits_near outlook close]
      exact not_hits_near stray far close
    · obtain ⟨k, rfl⟩ := Nat.exists_eq_add_of_le (Nat.le_of_not_lt close)
      rw [h.hits_between outlook (by omega)]
      simpa using first k (by omega)

/-- A reference that no scope in between captures means the same scope. -/
theorem distance_of_free (h : p.Widens outer inner p')
    (outlook : p.outlook.Widens outer inner near p'.outlook) (stray : ¬ p.IsStray)
    (far : ∀ d, p.distance = some d → near.length ≤ d) (free : ∀ names ∈ inner, p.name ∉ names) :
    p'.distance = p.distance.map (· + inner.length) := by
  have stray' : ¬ p'.IsStray := h.isStray_iff.not.mpr stray
  -- Before the scopes around both there is no scope with the name.
  have before : ∀ i < near.length + inner.length, ¬ p'.Hits i := by
    intro i lt
    by_cases close : i < near.length
    · rw [h.hits_near outlook close]
      exact not_hits_near stray far close
    · obtain ⟨k, rfl⟩ := Nat.exists_eq_add_of_le (Nat.le_of_not_lt close)
      rw [h.hits_between outlook (by omega)]
      exact free _ (List.getElem_mem _)
  have behind : ∀ i, near.length + inner.length ≤ i → (p'.Hits i ↔ p.Hits (i - inner.length)) := by
    intro i le
    have same := h.hits_far outlook (i := i - inner.length) (by omega)
    rwa [Nat.sub_add_cancel (by omega)] at same
  cases found : p.distance with
  | none =>
    have none := (distance_eq_none stray).mp found
    rw [Option.map_none, distance_eq_none stray']
    intro i hit
    by_cases lt : i < near.length + inner.length
    · exact before i lt hit
    · exact none _ ((behind i (by omega)).mp hit)
  | some d =>
    have le := far d found
    obtain ⟨_, hit, first⟩ := distance_eq_some.mp found
    rw [Option.map_some, distance_eq_some]
    refine ⟨stray', (h.hits_far outlook le).mpr hit, fun i lt hit => ?_⟩
    by_cases close : i < near.length + inner.length
    · exact before i close hit
    · exact first _ (by omega) ((behind i (by omega)).mp hit)

/-- A reference means the same scope from further inside, if and only if no scope in between
captures it. -/
theorem distance_eq_iff (h : p.Widens outer inner p') :
    p'.distance = p.distance.past (p.depth - outer.length) inner.length ↔
      ¬ p.Captured outer inner := by
  obtain ⟨near, outlook⟩ := h.outlook
  have depth : p.depth = near.length + outer.length := by
    rw [Position.depth, outlook.here, List.length_append]
  rw [depth, Nat.add_sub_cancel]
  by_cases stray : p.IsStray
  · have global : p.distance = none := if_pos stray
    have global' : p'.distance = none := if_pos (h.isStray_iff.mpr stray)
    simp [global, global', Distance.past, Position.Captured, stray]
  by_cases close : ∃ d, p.distance = some d ∧ d < near.length
  · obtain ⟨d, found, lt⟩ := close
    have apart : ¬ p.depth ≤ d + outer.length := by omega
    simp [(h.distance_near outlook lt).mpr found, found, Distance.past, lt, Position.Captured,
      apart]
  have far : ∀ d, p.distance = some d → near.length ≤ d := by
    intro d found
    by_contra lt
    exact close ⟨d, found, by omega⟩
  have past : p.distance.past near.length inner.length = p.distance.map (· + inner.length) := by
    cases found : p.distance with
    | none => rfl
    | some d =>
      have le := far d found
      simp [Distance.past, Nat.not_lt.mpr le]
  rw [past]
  by_cases hit : ∃ names ∈ inner, p.name ∈ names
  · have captured : p.Captured outer inner := by
      refine ⟨stray, fun d found => ?_, hit⟩
      have le := far d found
      omega
    obtain ⟨j, lt, found⟩ := h.distance_of_captured outlook stray far hit
    refine iff_of_false (fun same => ?_) (not_not.mpr captured)
    rw [found, eq_comm, Option.map_eq_some_iff] at same
    obtain ⟨d, found, eq⟩ := same
    have le := far d found
    omega
  · have free : ∀ names ∈ inner, p.name ∉ names := by simpa using hit
    exact iff_of_true (h.distance_of_free outlook stray far free) fun captured => hit captured.2.2

end Position.Widens

/-! ## Trees from further inside -/

namespace Outlook.Widens

variable {near : List (List String)} {o o' : Outlook}

/-- The copy has the scopes in between around it, and the original does not. -/
theorem length (h : o.Widens outer inner near o') :
    o.scopes.length = near.length + outer.length ∧
      o'.scopes.length = near.length + inner.length + outer.length := by
  rw [h.here, h.there]
  simp [Nat.add_assoc]

/-- Whether a variable has been read does not depend on how far inside that is. -/
theorem reads {p p' : Position} (h : o.Widens outer inner near o') (nonempty : near ≠ [])
    (widens : p.Widens outer inner p') (x : String) :
    p'.reads o'.scopes.length 0 x = p.reads o.scopes.length 0 x := by
  obtain ⟨far, outlook⟩ := widens.outlook
  have positive := List.length_pos_iff.mpr nonempty
  have depth : p.depth = far.length + outer.length := outlook.length.1
  have depth' : p'.depth = far.length + inner.length + outer.length := outlook.length.2
  have same : (p'.distance.any fun k => k + o'.scopes.length = 0 + p'.depth) =
      (p.distance.any fun k => k + o.scopes.length = 0 + p.depth) := by
    rw [Bool.eq_iff_iff, Option.any_eq_true, Option.any_eq_true, h.length.1, h.length.2, depth,
      depth']
    refine exists_congr fun k => ?_
    by_cases lt : k < far.length
    · rw [widens.distance_near outlook lt]
      refine and_congr_right fun _ => ?_
      simp only [decide_eq_true_iff]
      omega
    · refine iff_of_false (fun both => lt ?_) fun both => lt ?_
      · have := of_decide_eq_true both.2
        omega
      · have := of_decide_eq_true both.2
        omega
  unfold Position.reads
  rw [widens.role, widens.name, same]

/-- What was read before was read by a copy and by its original. -/
theorem behind (h : o.Widens outer inner near o') {ps ps' : List Position}
    (widens : List.Forall₂ (Position.Widens outer inner) ps ps') :
    (o.behind ps).Widens outer inner near (o'.behind ps') := by
  refine ⟨h.here, h.there, h.initial, h.inClass, h.own, ?_⟩
  have own := h.own
  cases pending : o.own with
  | none => simp [Outlook.behind, own, pending, h.reread]
  | some x =>
    have nonempty := h.initial (by simp [pending])
    have any : ps'.any (·.reads o'.scopes.length 0 x) = ps.any (·.reads o.scopes.length 0 x) := by
      induction widens with
      | nil => rfl
      | cons first _ ih => simp [h.reads nonempty first x, ih]
    simp [Outlook.behind, own, pending, h.reread, any]

/-- A new scope is near to both. -/
theorem enter (h : o.Widens outer inner near o') (names : List String) :
    (o.enter names).Widens outer inner (names :: near) (o'.enter names) :=
  ⟨by simp [Outlook.enter, h.here], by simp [Outlook.enter, h.there], by simp [Outlook.enter],
    h.inClass, rfl, rfl⟩

/-- Both introduce the same names, in the nearest scope. -/
theorem introduce {scope : List String} (h : o.Widens outer inner (scope :: near) o')
    (names : List String) :
    (o.introduce names).Widens outer inner ((names ++ scope) :: near) (o'.introduce names) :=
  ⟨by simp [Outlook.introduce, h.here], by simp [Outlook.introduce, h.there], by simp, h.inClass,
    h.own, h.reread⟩

/-- Both are in the initial value of the same variable. -/
theorem initialValue {scope : List String} (h : o.Widens outer inner (scope :: near) o')
    (name : String) :
    (o.initial name).Widens outer inner ((name :: scope) :: near) (o'.initial name) :=
  ⟨by simp [Outlook.initial, Outlook.introduce, h.here],
    by simp [Outlook.initial, Outlook.introduce, h.there], by simp, h.inClass, rfl, rfl⟩

/-- The scopes of a class are near to both. -/
theorem enterClass (h : o.Widens outer inner near o') (hasSuperclass : Bool) :
    (o.enterClass hasSuperclass).Widens outer inner
      ([thisName] :: if hasSuperclass then [superName] :: near else near)
      (o'.enterClass hasSuperclass) := by
  cases hasSuperclass <;>
    exact ⟨by simp [Outlook.enterClass, h.here], by simp [Outlook.enterClass, h.there],
      by simp, rfl, rfl, rfl⟩

end Outlook.Widens

end Between

/-- New sites change nothing of what a statement introduces. -/
theorem introduces_number {ρ : Type} (s : Stmt ρ) (k : Site) :
    (s.number k).1.introduces = s.introduces := by
  have same := congrArg Stmt.introduces (erase_numberStmt s k)
  rwa [Stmt.erase, Stmt.erase, introduces_map, introduces_map] at same

section Numbered

variable {outer inner : List (List String)}

/-- References in a row are copied in a row. -/
theorem widens_references {o o' : Outlook} {near : List (List String)}
    (h : o.Widens outer inner near o') (role : ReferenceRole) :
    ∀ (refs : List (Reference Site)) (k : Site),
      List.Forall₂ (Position.Widens outer inner) (refs.map (⟨role, ·, o⟩))
        ((refs.mapM Reference.number k).1.map (⟨role, ·, o'⟩))
  | [], _ => .nil
  | ref :: refs, k => by
    rw [List.mapM_cons]
    exact .cons ⟨rfl, rfl, near, h⟩ (widens_references h role refs (k + 1))

mutual

/-- The references of a copy, from further inside. -/
theorem widens_number : ∀ (e : Expr Site) (k : Site) {near : List (List String)} {o o' : Outlook},
    o.Widens outer inner near o' →
      List.Forall₂ (Position.Widens outer inner) (e.positions o) ((e.number k).1.positions o')
  | .literal _, _, _, _, _, _ => .nil
  | .variable _, _, near, _, _, h => .cons ⟨rfl, rfl, near, h⟩ .nil
  | .this _, _, near, _, _, h => .cons ⟨rfl, rfl, near, h⟩ .nil
  | .super _ _, _, near, _, _, h => .cons ⟨rfl, rfl, near, h⟩ .nil
  | .grouping e, k, _, _, _, h => widens_number e k h
  | .unary _ e, k, _, _, _, h => widens_number e k h
  | .get e _, k, _, _, _, h => widens_number e k h
  | .binary l _ r, k, _, _, _, h => by
    have left := widens_number l k h
    exact List.rel_append left (widens_number r _ (h.behind left))
  | .logical l _ r, k, _, _, _, h => by
    have left := widens_number l k h
    exact List.rel_append left (widens_number r _ (h.behind left))
  | .assign _ e, k, near, _, _, h => by
    have value := widens_number e (k + 1) h
    exact List.rel_append value (.cons ⟨rfl, rfl, near, h.behind value⟩ .nil)
  | .call f _ es, k, _, _, _, h => by
    have callee := widens_number f k h
    exact List.rel_append callee (widens_numberAll es _ (h.behind callee))
  | .set e _ v, k, _, _, _, h => by
    have value := widens_number v (e.number k).2 h
    exact List.rel_append value (widens_number e k (h.behind value))
  | .function _ params body, k, _, _, _, h =>
    widens_numberStmts body k (h.enter (params.map Token.lexeme))

/-- So are expressions. -/
theorem widens_numberAll : ∀ (es : List (Expr Site)) (k : Site) {near : List (List String)}
    {o o' : Outlook}, o.Widens outer inner near o' →
      List.Forall₂ (Position.Widens outer inner) (Expr.positionsAll o es)
        (Expr.positionsAll o' (Expr.numberAll es k).1)
  | [], _, _, _, _, _ => .nil
  | e :: es, k, _, _, _, h => by
    have first := widens_number e k h
    exact List.rel_append first (widens_numberAll es _ (h.behind first))

/-- Statements only stand inside the routines of an expression. -/
theorem widens_numberStmt : ∀ (s : Stmt Site) (k : Site) {scope : List String}
    {near : List (List String)} {o o' : Outlook}, o.Widens outer inner (scope :: near) o' →
      List.Forall₂ (Position.Widens outer inner) (s.positions o) ((s.number k).1.positions o')
  | .missing, _, _, _, _, _, _ | .var _ none, _, _, _, _, _, _ | .ret _ none, _, _, _, _, _, _
  | .loopExit _, _, _, _, _, _, _ => .nil
  | .expression e, k, _, _, _, _, h => widens_number e k h
  | .print e, k, _, _, _, _, h => widens_number e k h
  | .ret _ (some e), k, _, _, _, _, h => widens_number e k h
  | .var name (some e), k, _, _, _, _, h => widens_number e k (h.initialValue name.lexeme)
  | .block body, k, _, _, _, _, h => widens_numberStmts body k (h.enter [])
  | .ifElse c t none, k, _, _, _, _, h =>
    List.rel_append (widens_number c k h) (widens_numberStmt t _ h)
  | .ifElse c t (some e), k, scope, near, o, o', h => by
    have elseBranch := widens_numberStmt e (t.number (c.number k).2).2 (h.introduce t.introduces)
    have all := List.rel_append (widens_number c k h)
      (List.rel_append (widens_numberStmt t (c.number k).2 h) elseBranch)
    have number : ((Stmt.ifElse c t (some e)).number k).1 = .ifElse (c.number k).1
      (t.number (c.number k).2).1 (some (e.number (t.number (c.number k).2).2).1) := rfl
    rwa [number, Stmt.positions, Stmt.positions, introduces_number]
  | .whileLoop c b, k, _, _, _, _, h =>
    List.rel_append (widens_number c k h) (widens_numberStmt b _ h)
  | .function ⟨name, params, body, _⟩, k, _, _, _, _, h =>
    widens_numberStmts body k ((h.introduce [name.lexeme]).enter (params.map Token.lexeme))
  | .classDecl name none mixins methods statics, k, _, _, _, _, h => by
    have inside := h.introduce [name.lexeme]
    have members := inside.enterClass false
    exact List.rel_append (widens_references inside .variable mixins k)
      (List.rel_append (widens_numberRoutines methods _ members)
        (widens_numberRoutines statics _ members))
  | .classDecl name (some ref) mixins methods statics, k, _, _, _, _, h => by
    have inside := h.introduce [name.lexeme]
    have members := inside.enterClass true
    refine .cons ⟨rfl, rfl, _, inside⟩ ?_
    exact List.rel_append (widens_references inside .variable mixins (k + 1))
      (List.rel_append (widens_numberRoutines methods _ members)
        (widens_numberRoutines statics _ members))

/-- So are statements, with what they introduce. -/
theorem widens_numberStmts : ∀ (ss : List (Stmt Site)) (k : Site) {scope : List String}
    {near : List (List String)} {o o' : Outlook}, o.Widens outer inner (scope :: near) o' →
      List.Forall₂ (Position.Widens outer inner) (Stmt.positionsAll o ss)
        (Stmt.positionsAll o' (Stmt.numberAll ss k).1)
  | [], _, _, _, _, _, _ => .nil
  | s :: ss, k, _, _, o, o', h => by
    have rest := widens_numberStmts ss (s.number k).2 (h.introduce s.introduces)
    have number : (Stmt.numberAll (s :: ss) k).1 =
      (s.number k).1 :: (Stmt.numberAll ss (s.number k).2).1 := rfl
    rw [number, Stmt.positionsAll, Stmt.positionsAll, introduces_number]
    exact List.rel_append (widens_numberStmt s k h) rest

/-- And so are routines. -/
theorem widens_numberRoutines : ∀ (rs : List (Routine Site)) (k : Site) {near : List (List String)}
    {o o' : Outlook}, o.Widens outer inner near o' →
      List.Forall₂ (Position.Widens outer inner) (Routine.positionsAll o rs)
        (Routine.positionsAll o' (Routine.numberAll rs k).1)
  | [], _, _, _, _, _ => .nil
  | ⟨_, params, body, _⟩ :: rs, k, _, _, _, h =>
    List.rel_append (widens_numberStmts body k (h.enter (params.map Token.lexeme)))
      (widens_numberRoutines rs _ h)

end

end Numbered

/-! ## The copies in a body -/

/-- To introduce no name changes nothing. -/
theorem Outlook.introduce_nil (o : Outlook) : o.introduce [] = o := by
  obtain ⟨scopes, inClass, own, reread⟩ := o
  cases scopes <;> rfl

/-- A copy of an increment, and what is seen from it. -/
structure Copy where
  expr : Expr Site
  outlook : Outlook

/-- The references of a copy. -/
def Copy.positions (c : Copy) : List Position := c.expr.positions c.outlook

section Copies

variable (increment : Expr Site)

mutual

/-- The copies of an increment that are put into a statement, in the order of the text. -/
def Stmt.copies (o : Outlook) : Stmt Site → Site → List Copy
  | .block body, k => Stmt.copiesAll (o.enter []) body k
  | .loopExit keyword, k => if keyword.isBreak then [] else [⟨(increment.number k).1, o.enter []⟩]
  | .ifElse _ t none, k => t.copies o k
  | .ifElse _ t (some e), k =>
    t.copies o k ++ e.copies (o.introduce t.introduces) (t.withIncrement increment k).2
  | _, _ => []

def Stmt.copiesAll (o : Outlook) : List (Stmt Site) → Site → List Copy
  | [], _ => []
  | s :: ss, k =>
    s.copies o k ++ Stmt.copiesAll (o.introduce s.introduces) ss (s.withIncrement increment k).2

end

mutual

/-- The names that a body declares do not depend on the copies in it. -/
theorem introduces_withIncrement : ∀ (s : Stmt Site) (k : Site),
    (s.withIncrement increment k).1.introduces = s.introduces
  | .block _, _ => rfl
  | .loopExit keyword, k => by
    rw [Stmt.withIncrement]
    split <;> rfl
  | .ifElse _ t none, k => introduces_withIncrement t k
  | .ifElse c t (some e), k => by
    show _ ++ _ = _ ++ _
    rw [introduces_withIncrement t k, introduces_withIncrement e]
  | .missing, _ | .expression _, _ | .print _, _ | .var _ _, _ => rfl
  | .whileLoop _ _, _ | .ret _ _, _ | .function _, _ | .classDecl .., _ => rfl

/-- The references in a body with its copies are those of the body, each where it stood before, and
those of the copies. -/
theorem positions_withIncrement : ∀ (s : Stmt Site) (o : Outlook) (k : Site),
    ((s.withIncrement increment k).1.positions o).Perm
      (s.positions o ++ (s.copies increment o k).flatMap Copy.positions)
  | .block body, o, k => positions_withIncrementAll body (o.enter []) k
  | .loopExit keyword, o, k => by
    rw [Stmt.withIncrement, Stmt.copies]
    split
    · exact .refl _
    · exact .refl _
  | .ifElse c t none, o, k => by
    show (c.positions o ++ _).Perm (c.positions o ++ _ ++ _)
    rw [List.append_assoc]
    exact (positions_withIncrement t o k).append_left _
  | .ifElse c t (some e), o, k => by
    have thenBranch := positions_withIncrement t o k
    have elseBranch := positions_withIncrement e (o.introduce t.introduces)
      (t.withIncrement increment k).2
    show (c.positions o ++ (_ ++ Stmt.positions (o.introduce _) _)).Perm _
    rw [introduces_withIncrement, Stmt.positions, Stmt.copies, List.flatMap_append,
      List.append_assoc,
      List.append_assoc]
    refine .append_left _ ((thenBranch.append elseBranch).trans ?_)
    rw [List.append_assoc]
    refine .append_left _ ?_
    rw [← List.append_assoc, ← List.append_assoc]
    exact List.perm_append_comm.append_right _
  | .missing, _, _ | .expression _, _, _ | .print _, _, _ | .var _ _, _, _ =>
    .of_eq (List.append_nil _).symm
  | .whileLoop _ _, _, _ | .ret _ _, _, _ | .function _, _, _ | .classDecl .., _, _ =>
    .of_eq (List.append_nil _).symm

/-- The positions of a body with copies are its own ones and those of the copies. -/
theorem positions_withIncrementAll : ∀ (ss : List (Stmt Site)) (o : Outlook) (k : Site),
    (Stmt.positionsAll o (Stmt.withIncrementAll increment ss k).1).Perm
      (Stmt.positionsAll o ss ++ (Stmt.copiesAll increment o ss k).flatMap Copy.positions)
  | [], _, _ => .refl _
  | s :: ss, o, k => by
    have first := positions_withIncrement s o k
    have rest :=
      positions_withIncrementAll ss (o.introduce s.introduces) (s.withIncrement increment k).2
    show (_ ++ Stmt.positionsAll (o.introduce _) _).Perm _
    rw [introduces_withIncrement, Stmt.positionsAll, Stmt.copiesAll, List.flatMap_append,
      List.append_assoc]
    refine (first.append rest).trans ?_
    rw [List.append_assoc]
    refine .append_left _ ?_
    rw [← List.append_assoc, ← List.append_assoc]
    exact List.perm_append_comm.append_right _

end

variable {T : Kind → Token → Prop}

mutual

/-- Between a statement and a copy in it lie blocks. -/
theorem copies_inside {inClass : Bool} {c : Copy} :
    ∀ (s : Stmt Site) {k : Site} {scopes : List (List String)},
      (s.withIncrement increment k).1.Formed T →
        c ∈ s.copies increment ⟨scopes, inClass, none, false⟩ k →
          (∃ n, c.expr = (increment.number n).1) ∧
            ∃ inner, c.outlook = ⟨inner ++ scopes, inClass, none, false⟩
  | .block body, _, scopes, formed, mem => @copiesAll_inside inClass c body _ [] scopes formed mem
  | .loopExit keyword, k, scopes, _, mem => by
    rw [Stmt.copies] at mem
    split at mem
    · cases mem
    · rw [List.mem_singleton.mp mem]
      exact ⟨⟨k, rfl⟩, [[]], rfl⟩
  | .ifElse _ t none, _, _, formed, mem => copies_inside t formed.2.1 mem
  | .ifElse c t (some e), k, scopes, formed, mem => by
    obtain ⟨_, ⟨formed, closed⟩, formed', _⟩ := formed
    rw [Stmt.IsClosed, introduces_withIncrement] at closed
    rcases List.mem_append.mp mem with mem | mem
    · exact copies_inside t formed mem
    · rw [closed] at mem
      rw [Outlook.introduce_nil] at mem
      exact copies_inside e formed' mem
  | .missing, _, _, _, mem | .expression _, _, _, _, mem | .print _, _, _, _, mem
  | .var _ _, _, _, _, mem | .whileLoop _ _, _, _, _, mem | .ret _ _, _, _, _, mem
  | .function _, _, _, _, mem | .classDecl .., _, _, _, mem => nomatch List.not_mem_nil mem

/-- A copy in a block is inside the scopes of the block. -/
theorem copiesAll_inside {inClass : Bool} {c : Copy} :
    ∀ (ss : List (Stmt Site)) {k : Site} {scope : List String} {outer : List (List String)},
      Stmt.FormedAll T (Stmt.withIncrementAll increment ss k).1 →
        c ∈ Stmt.copiesAll increment ⟨scope :: outer, inClass, none, false⟩ ss k →
          (∃ n, c.expr = (increment.number n).1) ∧
            ∃ inner, c.outlook = ⟨inner ++ outer, inClass, none, false⟩
  | [], _, _, _, _, mem => nomatch List.not_mem_nil mem
  | s :: ss, _, scope, outer, formed, mem => by
    rcases List.mem_append.mp mem with mem | mem
    · obtain ⟨number, inner, outlook⟩ := copies_inside s formed.1 mem
      exact ⟨number, inner ++ [scope], by simp [outlook]⟩
    · exact copiesAll_inside ss formed.2 mem

end

/-- A body with a copy in it is no declaration. -/
theorem isClosed_of_copies {s : Stmt Site} {k : Site} {o : Outlook} {c : Copy}
    (formed : (s.withIncrement increment k).1.Formed T) (mem : c ∈ s.copies increment o k) :
    s.IsClosed := by
  cases s with
  | block _ => rfl
  | loopExit _ => rfl
  | ifElse _ t e =>
    cases e with
    | none =>
      have closed : (t.withIncrement increment k).1.IsClosed := formed.2.2
      rwa [Stmt.IsClosed, introduces_withIncrement] at closed
    | some e =>
      have closed : (t.withIncrement increment k).1.IsClosed := formed.2.1.2
      have closed' : (e.withIncrement increment _).1.IsClosed := formed.2.2.2
      rw [Stmt.IsClosed, introduces_withIncrement] at closed closed'
      rw [Stmt.IsClosed, Stmt.introduces, closed, closed', List.append_nil]
  | _ => cases mem

end Copies

end LoxLang
