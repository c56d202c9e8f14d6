/-
LoxLang.Proofs.Binding.Recorded: the walk records what the positions say.

The walk keeps scopes that change while it goes on.  At every node they agree with the outlook from
there: they have the same names, and the only name that is declared and not defined is the variable
whose initial value is being passed, unless it has been read meanwhile.

* `Walk.Pending`: a name is declared in a scope and not defined.
* `Outlook.Agrees`: the scopes of a walk have what an outlook shows.
* `Follows`: what a stretch of the walk records and settles, for the positions in it.

Main statements: `follows_expr`, `follows_stmt`, `Edition.get?_table`.
-/
import LoxLang.Proofs.Binding.Positions

namespace LoxLang

/-! ## Names that are declared and not defined -/

/-- The name is declared in a scope of the walk, and its initial value has not been passed. -/
def Walk.Pending (w : Walk) (d : Nat) (x : String) : Prop :=
  ∃ scope, w.scopes[d]? = some scope ∧ scope.status? x = some .declared

namespace Scope

theorem pending_declare (s : Scope) (b : Binding) (x : String) :
    (s.declare b).status? x = some .declared ↔
      (x = b.name ∧ b.status = .declared) ∨ (x ≠ b.name ∧ s.status? x = some .declared) := by
  by_cases h : x = b.name
  · subst h
    simp [status?]
  · simp [status?, find?_declare_of_ne s h, h]

theorem pending_define (s : Scope) (name x : String) :
    (s.define name).status? x = some .declared ↔ x ≠ name ∧ s.status? x = some .declared := by
  by_cases h : x = name
  · subst h
    cases found : s.find? x with
    | none => simp [status?, found]
    | some b =>
      simp only [status?, find?_define_self, found, Option.map_some, Option.some.injEq, ne_eq,
        not_true_eq_false, false_and, iff_false]
      unfold Binding.defined
      split
      · simp
      · assumption
  · simp [status?, find?_define_of_ne s h, h]

theorem pending_use (s : Scope) (name x : String) :
    (s.use name).status? x = some .declared ↔ x ≠ name ∧ s.status? x = some .declared := by
  by_cases h : x = name
  · subst h
    cases found : s.find? x with
    | none => simp [status?, found]
    | some b => simp [status?, found, Binding.used]
  · simp [status?, find?_use_of_ne s h, h]

end Scope

theorem Walk.not_pending_of_nil {w : Walk} (h : w.scopes = []) (d : Nat) (x : String) :
    ¬ w.Pending d x := by
  simp [Walk.Pending, h]

/-- Changing a scope so that one name is no longer pending. -/
theorem Walk.pending_modify {w : Walk} {f : Scope → Scope} {name : String}
    (settles : ∀ s x, (f s).status? x = some .declared ↔ x ≠ name ∧ s.status? x = some .declared)
    {w' : Walk} (k : Nat) (scopes : w'.scopes = w.scopes.modify k f) (d : Nat) (x : String) :
    w'.Pending d x ↔ w.Pending d x ∧ ¬ (d = k ∧ x = name) := by
  simp only [Walk.Pending, scopes, List.getElem?_modify]
  by_cases same : k = d
  · subst same
    cases w.scopes[k]? <;> simp [settles, and_comm]
  · simp [same, Ne.symm same]

theorem pending_complainIf (wrong : Bool) (t : Token) (fault : BindingFault) (w : Walk) (d : Nat)
    (x : String) : (w.after (complainIf wrong t fault)).Pending d x ↔ w.Pending d x := by
  cases wrong <;> exact Iff.rfl

/-- A name that is defined is pending no more. -/
theorem pending_defineName (name : Token) (w : Walk) (d : Nat) (x : String) :
    (w.after (defineName name)).Pending d x ↔ w.Pending d x ∧ ¬ (d = 0 ∧ x = name.lexeme) := by
  obtain ⟨scopes, pending, defined, distances, complaints⟩ := w
  cases scopes with
  | nil =>
    exact iff_of_false (Walk.not_pending_of_nil rfl d x) fun h =>
      Walk.not_pending_of_nil rfl d x h.1
  | cons scope outer =>
    exact Walk.pending_modify (fun s x => Scope.pending_define s name.lexeme x) 0 rfl d x

/-- Nor is a name that is used. -/
theorem pending_useName (name : Token) (w : Walk) (d : Nat) (x : String) :
    (w.after (useName name)).Pending d x ↔ w.Pending d x ∧ ¬ (d = 0 ∧ x = name.lexeme) := by
  refine Walk.pending_modify (fun s x => Scope.pending_use s name.lexeme x) 0 ?_ d x
  exact modifyHead_eq_modify w.scopes _

/-- A name that is declared inside a scope is pending. -/
theorem pending_declareName (name : Token) (w : Walk) (d : Nat) (x : String) :
    (w.after (declareName name)).Pending d x ↔
      w.Pending d x ∨ (d = 0 ∧ w.scopes ≠ [] ∧ x = name.lexeme) := by
  obtain ⟨scopes, pending, defined, distances, complaints⟩ := w
  cases scopes with
  | nil =>
    refine iff_of_false (Walk.not_pending_of_nil rfl d x) ?_
    rintro (h | ⟨_, nonempty, _⟩)
    · exact Walk.not_pending_of_nil rfl d x h
    · exact nonempty rfl
  | cons scope outer =>
    let declared : Walk :=
      ⟨scope.declare ⟨name.lexeme, .declared, some name⟩ :: outer, pending, defined, distances,
        complaints⟩
    refine (pending_complainIf (scope.contains name.lexeme) name .redeclared declared d x).trans ?_
    cases d with
    | zero =>
      simp only [Walk.Pending, declared, List.getElem?_cons_zero, Option.some.injEq,
        exists_eq_left', Scope.pending_declare]
      by_cases same : x = name.lexeme <;> simp [same]
    | succ d => simp [Walk.Pending, declared]

/-! ## Agreement -/

/-- The scopes of a walk have what an outlook shows. -/
structure Outlook.Agrees (o : Outlook) (around : Surroundings) (w : Walk) : Prop where
  height : w.scopes.length = o.scopes.length
  declares : ∀ d x, w.Declares d x ↔ ∃ names, o.scopes[d]? = some names ∧ x ∈ names
  pending : ∀ x, w.Pending 0 x ↔ w.scopes ≠ [] ∧ o.own = some x ∧ o.reread = false
  inClass : around.cls = .none ↔ o.inClass = false

/-- The distance of a site after some positions. -/
def recordAll (site : Site) (ps : List Position) (before : Distance) : Distance :=
  ps.foldl (fun acc p => if p.ref.mark = site then p.distance.or acc else acc) before

/-- What a stretch of the walk does for the positions in it: their distances are recorded, and the
names that they read are no longer pending. -/
structure Follows (n : Nat) (ps : List Position) (w w' : Walk) : Prop where
  recorded : ∀ site, w'.distances.get? site = recordAll site ps (w.distances.get? site)
  pending : ∀ d x, w'.Pending d x ↔ w.Pending d x ∧ ∀ p ∈ ps, p.reads n d x = false

namespace Follows

variable {n : Nat} {ps qs : List Position} {w w' w'' : Walk}

/-- Where neither the distances nor the pending names change, no position is visited. -/
theorem of_same (distances : w'.distances = w.distances)
    (pending : ∀ d x, w'.Pending d x ↔ w.Pending d x) : Follows n [] w w' where
  recorded site := by rw [distances]; rfl
  pending d x := by simp [pending]

/-- Standing still, the walk visits no position. -/
theorem refl (w : Walk) : Follows n [] w w := of_same rfl fun _ _ => Iff.rfl

/-- It visits the positions of one stretch and then those of the next. -/
theorem trans (first : Follows n ps w w') (second : Follows n qs w' w'') :
    Follows n (ps ++ qs) w w'' where
  recorded site := by
    rw [second.recorded, first.recorded, recordAll, recordAll, recordAll, List.foldl_append]
  pending d x := by
    rw [second.pending, first.pending, and_assoc]
    simp only [List.mem_append, or_imp, forall_and]

/-- A position that means no scope. -/
theorem of_global {p : Position} (nothing : p.distance = none) (follows : Follows n [] w w') :
    Follows n [p] w w' where
  recorded site := by
    rw [follows.recorded]
    simp [recordAll, nothing]
  pending d x := by
    rw [follows.pending]
    simp [Position.reads, nothing]

/-- A complaint records nothing. -/
theorem complainIf (wrong : Bool) (t : Token) (fault : BindingFault) (w : Walk) :
    Follows n [] w (w.after (complainIf wrong t fault)) := by
  refine of_same ?_ (pending_complainIf wrong t fault w)
  cases wrong <;> rfl

end Follows

namespace Outlook.Agrees

variable {o : Outlook} {around : Surroundings} {w w' : Walk}

/-- Behind some positions in an expression, the walk agrees with the outlook from there. -/
theorem behind (agrees : o.Agrees around w) {ps : List Position} {sites : List Site}
    (follows : Follows o.scopes.length ps w w') (step : Walk.Step sites [] w w') :
    (o.behind ps).Agrees around w' where
  height := step.height.trans agrees.height
  declares d x := by
    rw [step.declares, agrees.declares]
    simp [Outlook.behind]
  pending x := by
    have nonempty : w'.scopes ≠ [] ↔ w.scopes ≠ [] := by
      rw [← List.length_pos_iff, ← List.length_pos_iff, step.height]
    rw [follows.pending, agrees.pending, nonempty, and_assoc]
    refine and_congr_right fun _ => ?_
    rw [and_assoc]
    refine and_congr_right fun own => ?_
    simp [Outlook.behind, own]
  inClass := agrees.inClass

/-- Complaints and reads of settled names do not matter. -/
theorem unchanged (agrees : o.Agrees around w) {sites : List Site}
    (follows : Follows o.scopes.length [] w w') (step : Walk.Step sites [] w w') :
    o.Agrees around w' := by
  have behind := agrees.behind follows step
  rwa [Outlook.behind_nil] at behind

/-- The scopes of the walk have the names of those around the position. -/
theorem contains_iff (agrees : o.Agrees around w) (x : String) :
    w.scopes.map (·.contains x) = o.scopes.map (·.contains x) := by
  refine List.ext_getElem? fun d => ?_
  have same := agrees.declares d x
  have bounds := agrees.height
  simp only [List.getElem?_map]
  by_cases h : d < w.scopes.length
  · have h' : d < o.scopes.length := bounds ▸ h
    rw [List.getElem?_eq_getElem h, List.getElem?_eq_getElem h']
    simp only [Walk.Declares, List.getElem?_eq_getElem h, List.getElem?_eq_getElem h',
      Option.some.injEq, exists_eq_left'] at same
    simp only [Option.map_some, Option.some.injEq]
    exact Bool.eq_iff_iff.mpr (by simpa using same)
  · rw [List.getElem?_eq_none (Nat.le_of_not_lt h),
      List.getElem?_eq_none (Nat.le_of_not_lt (bounds ▸ h))]
    rfl

/-- The walk locates a name where the outlook shows it. -/
theorem locate_eq (agrees : o.Agrees around w) (x : String) (skip : Nat) :
    locate w.scopes x skip = ((o.scopes.drop skip).findIdx? (·.contains x)).map (· + skip) := by
  have same : ((w.scopes.drop skip).map (·.contains x)).findIdx? id =
      ((o.scopes.drop skip).map (·.contains x)).findIdx? id := by
    rw [List.map_drop, List.map_drop, agrees.contains_iff]
  rw [List.findIdx?_map, List.findIdx?_map] at same
  unfold locate
  exact congrArg (Option.map (· + skip)) same

/-- The walk locates the name of a reference where its position says. -/
theorem located (agrees : o.Agrees around w) {p : Position} (here : p.outlook = o)
    (stray : ¬ p.IsStray) : locate w.scopes p.ref.name p.skip = p.distance := by
  rw [agrees.locate_eq, Position.distance, if_neg stray, here]
  rfl

/-- So it does for a reference that reads no variable. -/
theorem located_of_ne (agrees : o.Agrees around w) {p : Position} (here : p.outlook = o)
    (stray : ¬ p.IsStray) (other : p.role ≠ .variable) :
    locate w.scopes p.ref.name 0 = p.distance := by
  have skip : p.skip = 0 := by simp [Position.skip, Position.IsOwnRead, other]
  rw [← skip]
  exact agrees.located here stray

end Outlook.Agrees

/-! ## References -/

/-- Binding a reference where the outlook shows it. -/
theorem follows_bindLocal {w : Walk} {p : Position} (read : Bool) (skip : Nat)
    (role : read = true ↔ p.role ≠ .assign)
    (located : locate w.scopes p.ref.name skip = p.distance) :
    Follows p.depth [p] w (w.after (bindLocal p.ref read skip)) := by
  unfold Walk.after
  rw [run_bindLocal, located]
  cases found : p.distance with
  | none =>
    refine ⟨fun site => ?_, fun d x => ?_⟩
    · simp [recordAll, found]
    · simp [Position.reads, found]
  | some k =>
    refine ⟨fun site => ?_, fun d x => ?_⟩
    · by_cases same : p.ref.mark = site
      · subst same
        simp [recordAll, found]
      · simp [recordAll, same, Distances.get?_record_of_ne _ (Ne.symm same)]
    · have reads : p.reads p.depth d x = (read && decide (p.name = x) && decide (k = d)) := by
        cases read <;> simp_all [Position.reads]
      rw [List.forall_mem_singleton, reads]
      cases read with
      | false => simp [Walk.Pending]
      | true =>
        rw [Walk.pending_modify (fun s x => Scope.pending_use s p.ref.name x) k rfl d x]
        refine and_congr_right fun _ => ?_
        rw [← Bool.not_eq_true, Bool.true_and, Bool.and_eq_true, decide_eq_true_iff,
          decide_eq_true_iff]
        refine not_congr ?_
        exact ⟨fun ⟨h, h'⟩ => ⟨h'.symm, h.symm⟩, fun ⟨h, h'⟩ => ⟨h'.symm, h.symm⟩⟩

/-- Reading a variable is binding it where the outlook shows it, and perhaps a complaint. -/
theorem bindVariable_of_agrees {o : Outlook} {around : Surroundings} {w : Walk}
    (agrees : o.Agrees around w) (ref : Reference Site) :
    ∃ skip wrong, locate w.scopes ref.name skip = (⟨.variable, ref, o⟩ : Position).distance ∧
      w.after (bindVariable around ref) =
        (w.after (bindLocal ref true skip)).after (complainIf wrong ref.token .ownInitializer) := by
  let p : Position := ⟨.variable, ref, o⟩
  have stray : ¬ p.IsStray := by simp [Position.IsStray, p]
  have located : locate w.scopes ref.name p.skip = p.distance := agrees.located rfl stray
  refine ⟨p.skip, ?_⟩
  rw [after_bindVariable]
  split
  · rename_i empty
    have nowhere : locate w.scopes ref.name p.skip = none := by simp [locate, empty]
    refine ⟨w.pendingGlobals.contains ref.name && !isKnownGlobal around w ref.name, located, ?_⟩
    have unbound : w.after (bindLocal ref true p.skip) = w := by
      rw [Walk.after, run_bindLocal, nowhere]
    rw [unbound]
  · rename_i scope outer scopes
    have pending : scope.status? ref.name = some .declared ↔ p.skip = 1 := by
      have head := agrees.pending ref.name
      simp only [Walk.Pending, scopes, List.getElem?_cons_zero, Option.some.injEq,
        exists_eq_left', ne_eq, reduceCtorEq, not_false_iff, true_and] at head
      rw [head]
      simp [Position.skip, Position.IsOwnRead, Position.name, p]
    split
    · rename_i declared
      rw [pending.mp declared] at located ⊢
      exact ⟨_, located, Walk.after_bind _ _ _⟩
    · rename_i settled
      have zero : p.skip = 0 := by
        have := fun one => settled (pending.mpr one)
        unfold Position.skip at this ⊢
        split <;> simp_all
      rw [zero] at located ⊢
      exact ⟨false, located, rfl⟩

/-- A variable that is read is one position. -/
theorem follows_bindVariable {o : Outlook} {around : Surroundings} {w : Walk}
    (agrees : o.Agrees around w) (ref : Reference Site) :
    Follows o.scopes.length [⟨.variable, ref, o⟩] w (w.after (bindVariable around ref)) := by
  obtain ⟨skip, wrong, located, same⟩ := bindVariable_of_agrees agrees ref
  rw [same]
  exact (follows_bindLocal (p := ⟨.variable, ref, o⟩) true skip (by simp) located).trans
    (.complainIf wrong ref.token .ownInitializer _)

/-- `this` or `super` inside a class, and outside of every class. -/
theorem follows_keyword {o : Outlook} {around : Surroundings} {w : Walk}
    (agrees : o.Agrees around w) (ref : Reference Site) {role : ReferenceRole}
    (keyword : role = .this ∨ role = .super) :
    (around.cls ≠ .none →
      Follows o.scopes.length [⟨role, ref, o⟩] w (w.after (bindLocal ref true 0))) ∧
    (around.cls = .none → (⟨role, ref, o⟩ : Position).distance = none) := by
  let p : Position := ⟨role, ref, o⟩
  constructor
  · intro inside
    have stray : ¬ p.IsStray := fun stray => inside (agrees.inClass.mpr stray.2)
    refine follows_bindLocal (p := p) true 0 ?_ (agrees.located_of_ne rfl stray ?_)
    · rcases keyword with rfl | rfl <;> simp [p]
    · rcases keyword with rfl | rfl <;> simp [p]
  · intro outside
    have stray : p.IsStray := ⟨keyword, agrees.inClass.mp outside⟩
    exact if_pos stray

/-! ## Scopes -/

/-- What is pending stays so in a new scope, one further out. -/
theorem Walk.pending_opened (w : Walk) (d : Nat) (x : String) :
    w.opened.Pending (d + 1) x ↔ w.Pending d x := Iff.rfl

/-- In the new scope nothing is pending. -/
theorem Walk.not_pending_opened (w : Walk) (x : String) : ¬ w.opened.Pending 0 x := by
  rintro ⟨scope, first, pending⟩
  cases first
  simp [Scope.status?, Scope.find?, Scope.empty] at pending

/-- Whether a position reads a name of some scope is the same from inside, one further out. -/
theorem reads_outside (p : Position) (n d : Nat) (x : String) :
    p.reads (n + 1) (d + 1) x = p.reads n d x := by
  unfold Position.reads
  congr 2
  funext k
  exact decide_eq_decide.mpr (by omega)

/-- What happened inside a scope, seen from outside. -/
theorem Follows.close {n : Nat} {ps : List Position} {w inner inner' : Walk}
    (inside : Follows (n + 1) ps inner inner')
    (distances : ∀ site, inner.distances.get? site = w.distances.get? site)
    (pending : ∀ d x, inner.Pending (d + 1) x ↔ w.Pending d x) :
    Follows n ps w (inner'.after closeScope) := by
  obtain ⟨scopes, same, _⟩ := inner'.after_closeScope
  refine ⟨fun site => ?_, fun d x => ?_⟩
  · rw [same, inside.recorded, distances]
  · have outside : (inner'.after closeScope).Pending d x ↔ inner'.Pending (d + 1) x := by
      simp [Walk.Pending, scopes]
    rw [outside, inside.pending, pending]
    simp only [reads_outside]

/-- Parameters are defined as soon as they are declared. -/
theorem pending_bindParams : ∀ (params : List Token) (w : Walk) (d : Nat) (x : String),
    (w.after (bindParams params)).Pending d x ↔
      w.Pending d x ∧ ¬ (d = 0 ∧ x ∈ params.map Token.lexeme)
  | [], w, d, x => by simp [bindParams]
  | param :: params, w, d, x => by
    have rest := pending_bindParams params
      (((w.after (declareName param)).after (defineName param)).after (useName param)) d x
    refine rest.trans ?_
    rw [pending_useName, pending_defineName, pending_declareName, List.map_cons, List.mem_cons]
    constructor
    · rintro ⟨⟨⟨pending | ⟨zero, _, same⟩, other⟩, _⟩, apart⟩
      · exact ⟨pending, fun ⟨zero, mem⟩ => mem.elim (fun same => other ⟨zero, same⟩)
          fun mem => apart ⟨zero, mem⟩⟩
      · exact absurd ⟨zero, same⟩ other
    · rintro ⟨pending, apart⟩
      exact ⟨⟨⟨.inl pending, fun ⟨zero, same⟩ => apart ⟨zero, .inl same⟩⟩,
        fun ⟨zero, same⟩ => apart ⟨zero, .inl same⟩⟩, fun ⟨zero, mem⟩ => apart ⟨zero, .inr mem⟩⟩

namespace Outlook.Agrees

variable {o : Outlook} {around : Surroundings} {w : Walk}

/-- At the beginning of a routine. -/
theorem enter (agrees : o.Agrees around w) (context : RoutineContext) (params : List Token) :
    (o.enter (params.map Token.lexeme)).Agrees { around with routine := context }
      (w.opened.after (bindParams params)) where
  height := by
    rw [(step_bindParams params w.opened).height]
    exact congrArg Nat.succ agrees.height
  declares d x := by
    rw [(step_bindParams params w.opened).declares]
    cases d with
    | zero =>
      have fresh := w.not_declares_opened_zero x
      have nonempty : w.opened.scopes ≠ [] := List.cons_ne_nil _ _
      simp [fresh, nonempty, Outlook.enter]
    | succ d => simp [Walk.declares_opened_succ, agrees.declares, Outlook.enter]
  pending x := by
    rw [pending_bindParams]
    exact iff_of_false (fun h => w.not_pending_opened x h.1) (by simp [Outlook.enter])
  inClass := agrees.inClass

/-- At the beginning of a block. -/
theorem enterBlock (agrees : o.Agrees around w) : (o.enter []).Agrees around w.opened :=
  agrees.enter around.routine []

/-- Behind a statement. -/
theorem introduce (agrees : o.Agrees around w) (plain : o.own = none) {ps : List Position}
    {sites : List Site} {names : List String} {w' : Walk}
    (follows : Follows o.scopes.length ps w w') (step : Walk.Step sites names w w') :
    (o.introduce names).Agrees around w' where
  height := by simpa [Outlook.introduce] using step.height.trans agrees.height
  declares d x := by
    rw [step.declares, agrees.declares]
    have empty : w.scopes ≠ [] ↔ o.scopes ≠ [] := by
      rw [← List.length_pos_iff, ← List.length_pos_iff, agrees.height]
    rw [empty]
    obtain ⟨scopes, inClass, own, reread⟩ := o
    cases scopes with
    | nil => simp [Outlook.introduce]
    | cons scope outer => cases d <;> simp [Outlook.introduce, or_comm]
  pending x := by
    have before := agrees.pending x
    rw [plain] at before
    rw [follows.pending, before]
    simp [Outlook.introduce, plain]
  inClass := agrees.inClass

end Outlook.Agrees

/-! ## Declarations -/

/-- What lies between the declaration of a name and its definition is visited. -/
theorem follows_declareName_defineName {o : Outlook} {around : Surroundings} {w : Walk}
    (agrees : o.Agrees around w) (plain : o.own = none) (name : Token) {ps : List Position}
    {w' : Walk} (between : Follows o.scopes.length ps (w.after (declareName name)) w') :
    Follows o.scopes.length ps w (w'.after (defineName name)) := by
  have settled : ¬ w.Pending 0 name.lexeme := by
    rw [agrees.pending, plain]
    simp
  refine ⟨fun site => ?_, fun d x => ?_⟩
  · rw [(step_defineName name w').distances site (by simp), between.recorded,
      (step_declareName name w).distances site (by simp)]
  · rw [pending_defineName, between.pending, pending_declareName]
    constructor
    · rintro ⟨⟨pending | ⟨zero, _, same⟩, unread⟩, other⟩
      · exact ⟨pending, unread⟩
      · exact absurd ⟨zero, same⟩ other
    · rintro ⟨pending, unread⟩
      refine ⟨⟨.inl pending, unread⟩, ?_⟩
      rintro ⟨rfl, rfl⟩
      exact settled pending

/-- To introduce a name visits no position. -/
theorem follows_introduce {o : Outlook} {around : Surroundings} {w : Walk}
    (agrees : o.Agrees around w) (plain : o.own = none) (name : Token) :
    Follows o.scopes.length [] w (w.after (introduce name)) :=
  follows_declareName_defineName agrees plain name (.refl _)

/-- And it adds the name to the innermost scope. -/
theorem step_introduce (name : Token) (w : Walk) :
    Walk.Step [] [name.lexeme] w (w.after (introduce name)) :=
  (step_declareName name w).trans (step_defineName name _)

/-- To use a name that is defined changes nothing that is pending. -/
theorem follows_useName {n : Nat} (name : Token) {w : Walk} (settled : ¬ w.Pending 0 name.lexeme) :
    Follows n [] w (w.after (useName name)) := by
  refine .of_same rfl fun d x => ?_
  rw [pending_useName]
  refine and_iff_left_of_imp fun pending => ?_
  rintro ⟨rfl, rfl⟩
  exact settled pending

/-- Reading a name that was just declared settles nothing. -/
theorem follows_introduced_useName {o : Outlook} {around : Surroundings} {w : Walk}
    (agrees : o.Agrees around w) (plain : o.own = none) (name : Token) :
    Follows o.scopes.length [] (w.after (introduce name))
      ((w.after (introduce name)).after (useName name)) := by
  refine follows_useName name fun pending => ?_
  have agrees' :=
    agrees.introduce plain (follows_introduce agrees plain name) (step_introduce name w)
  have own : o.own = some name.lexeme := ((agrees'.pending name.lexeme).mp pending).2.1
  rw [plain] at own
  cases own

/-- Behind the name of a function. -/
theorem Outlook.Agrees.function {o : Outlook} {around : Surroundings} {w : Walk}
    (agrees : o.Agrees around w) (plain : o.own = none) (name : Token) :
    (o.introduce [name.lexeme]).Agrees around
      ((w.after (LoxLang.introduce name)).after (useName name)) := by
  have agrees' :=
    agrees.introduce plain (follows_introduce agrees plain name) (step_introduce name w)
  have used := follows_introduced_useName agrees plain name
  exact agrees'.unchanged (by rwa [Outlook.length_introduce]) (step_useName name _)

/-- In the initial value of a variable. -/
theorem Outlook.Agrees.initial {o : Outlook} {around : Surroundings} {w : Walk}
    (agrees : o.Agrees around w) (plain : o.own = none) (name : Token) :
    (o.initial name.lexeme).Agrees around (w.after (declareName name)) where
  height := by
    rw [(step_declareName name w).height, agrees.height]
    simp [Outlook.initial, Outlook.introduce]
  declares := by
    have declared : (o.introduce [name.lexeme]).Agrees around (w.after (LoxLang.introduce name)) :=
      agrees.introduce plain (follows_introduce agrees plain name) (step_introduce name w)
    intro d x
    rw [(step_declareName name w).declares, ← (step_introduce name w).declares]
    exact declared.declares d x
  pending x := by
    have before : ¬ w.Pending 0 x := by
      rw [agrees.pending, plain]
      simp
    have nonempty : (w.after (declareName name)).scopes ≠ [] ↔ w.scopes ≠ [] := by
      rw [← List.length_pos_iff, ← List.length_pos_iff, (step_declareName name w).height]
    rw [pending_declareName, nonempty]
    simp [before, Outlook.initial, eq_comm]
  inClass := agrees.inClass

/-! ## Classes -/

/-- A scope that has one name without a token. -/
def implicitScope (name : String) : Scope := Scope.empty.declare ⟨name, .used, none⟩

/-- The scope of `this` or `super` has that name alone. -/
theorem contains_implicitScope (name x : String) :
    (implicitScope name).contains x = true ↔ x = name := by
  simp [implicitScope, Scope.contains_declare]

/-- And that name is never pending. -/
theorem not_pending_implicitScope (name x : String) :
    (implicitScope name).status? x ≠ some .declared := by
  rw [implicitScope, ne_eq, Scope.pending_declare]
  simp [Scope.status?, Scope.find?, Scope.empty]

/-- A class opens a scope for `this`, inside one for `super` if it has a superclass. -/
theorem scopes_openClass (hasSuperclass : Bool) (w : Walk) :
    (w.after (openClass hasSuperclass)).scopes = implicitScope thisName ::
      if hasSuperclass then implicitScope superName :: w.scopes else w.scopes := by
  cases hasSuperclass <;> rfl

/-- At the beginning of the members of a class. -/
theorem Outlook.Agrees.enterClass {o : Outlook} {around : Surroundings} {w : Walk}
    (agrees : o.Agrees around w) (hasSuperclass : Bool) :
    (o.enterClass hasSuperclass).Agrees (around.inClass hasSuperclass)
      (w.after (openClass hasSuperclass)) where
  height := by
    rw [scopes_openClass]
    cases hasSuperclass <;> simp [Outlook.enterClass, agrees.height]
  declares d x := by
    simp only [Walk.Declares, scopes_openClass, Outlook.enterClass]
    rcases d with _ | d
    · simp [contains_implicitScope]
    · cases hasSuperclass with
      | false => simpa [Walk.Declares] using agrees.declares d x
      | true =>
        rcases d with _ | d
        · simp [contains_implicitScope]
        · simpa [Walk.Declares] using agrees.declares d x
  pending x := by
    refine iff_of_false ?_ (by simp [Outlook.enterClass])
    simp [Walk.Pending, scopes_openClass, not_pending_implicitScope]
  inClass := by
    refine iff_of_false ?_ (by simp [Outlook.enterClass])
    cases hasSuperclass <;> simp [Surroundings.inClass]

/-- What is visited in the scopes of a class is visited. -/
theorem Follows.closeClass {n : Nat} {ps : List Position} {w w' : Walk} (hasSuperclass : Bool)
    (inside :
      Follows (n + if hasSuperclass then 2 else 1) ps (w.after (openClass hasSuperclass)) w') :
    Follows n ps w (w'.after (closeClass hasSuperclass)) := by
  have distances : ∀ site, (w.after (openClass hasSuperclass)).distances.get? site =
      w.distances.get? site := fun site =>
    (Walk.Later.openClass hasSuperclass w).distances site (by simp)
  cases hasSuperclass with
  | false => exact inside.close distances fun d x => Iff.rfl
  | true =>
    let outer := w.opened.after (declareImplicit superName)
    have inner : Follows (n + 1) ps outer (w'.after closeScope) :=
      Follows.close inside distances fun d x => Iff.rfl
    exact inner.close (fun _ => rfl) fun d x => Iff.rfl

/-! ## The walk over a tree -/

section Headers

variable {o : Outlook} {around : Surroundings}

/-- A parent is a variable that is read. -/
theorem follows_bindParent {w : Walk} (agrees : o.Agrees around w) (cls : Token)
    (fault : BindingFault) (ref : Reference Site) :
    Follows o.scopes.length [⟨.variable, ref, o⟩] w
      (w.after (bindParent around cls fault ref)) := by
  rw [bindParent, Walk.after_bind]
  have checked := Follows.complainIf (n := o.scopes.length) (decide (ref.name = cls.lexeme))
    ref.token fault w
  have agrees' := agrees.unchanged checked (step_complainIf _ ref.token fault w)
  exact checked.trans (follows_bindVariable agrees' ref)

/-- Mixins are read in their order. -/
theorem follows_bindParents (plain : o.own = none) (cls : Token) (fault : BindingFault) :
    ∀ (refs : List (Reference Site)) {w : Walk}, o.Agrees around w →
      Follows o.scopes.length (refs.map (⟨.variable, ·, o⟩)) w
        (w.after (refs.forM (bindParent around cls fault)))
  | [], _, _ => .refl _
  | ref :: refs, w, agrees => by
    have first := follows_bindParent agrees cls fault ref
    have agrees' := agrees.behind first (step_bindParent around cls fault ref w)
    rw [Outlook.behind_of_plain plain] at agrees'
    exact first.trans (follows_bindParents plain cls fault refs agrees')

/-- The header of a class. -/
theorem follows_headerWalk {w : Walk} (agrees : o.Agrees around w) (plain : o.own = none)
    (name : Token) (superclass : Option (Reference Site)) (mixins : List (Reference Site)) :
    (o.introduce [name.lexeme]).Agrees around (headerWalk around name superclass mixins w) ∧
      Follows o.scopes.length
        ((superclass.toList ++ mixins).map (⟨.variable, ·, o.introduce [name.lexeme]⟩)) w
        (headerWalk around name superclass mixins w) := by
  have introduced := follows_introduce agrees plain name
  have agrees₁ := agrees.introduce plain introduced (step_introduce name w)
  have parent := follows_bindParents (o := o.introduce [name.lexeme]) plain name .inheritsItself
    superclass.toList agrees₁
  have same : (w.after (introduce name)).after
      (superclass.toList.forM (bindParent around name .inheritsItself)) =
        (w.after (introduce name)).after
          (superclass.forM (bindParent around name .inheritsItself)) := by
    cases superclass <;> rfl
  rw [same] at parent
  have agrees₂ := agrees₁.behind parent (step_superclass around name superclass _)
  rw [Outlook.behind_of_plain (o := o.introduce [name.lexeme]) plain] at agrees₂
  have mixed := follows_bindParents (o := o.introduce [name.lexeme]) plain name .mixesInItself
    mixins agrees₂
  have agrees₃ := agrees₂.behind mixed (step_bindParents around name .mixesInItself mixins _)
  rw [Outlook.behind_of_plain (o := o.introduce [name.lexeme]) plain] at agrees₃
  refine ⟨agrees₃, ?_⟩
  rw [Outlook.length_introduce] at parent mixed
  have all := introduced.trans (parent.trans mixed)
  rwa [← List.map_append] at all

end Headers

/-- A misplaced `return` is complained about, and nothing is visited. -/
theorem follows_checkReturn {n : Nat} (around : Surroundings) (keyword : Token) (hasValue : Bool)
    (w : Walk) : Follows n [] w (w.after (checkReturn around keyword hasValue)) := by
  rw [checkReturn, Walk.after_bind]
  exact (Follows.complainIf _ keyword .returnAtTopLevel w).trans
    (.complainIf _ keyword .returnFromInitializer _)

/-- The body of a routine, seen from outside. -/
theorem follows_body {n : Nat} {ps : List Position} {w w' : Walk} {params : List Token}
    (inside : Follows (n + 1) ps (w.opened.after (bindParams params)) w') :
    Follows n ps w (w'.after closeScope) := by
  refine inside.close (fun site => ?_) fun d x => ?_
  · exact (step_bindParams params w.opened).distances site (by simp)
  · rw [pending_bindParams]
    simp [Walk.pending_opened]

mutual

/-- The walk over an expression records what its positions say. -/
theorem follows_expr (around : Surroundings) : ∀ (e : Expr Site) {o : Outlook} {w : Walk},
    o.Agrees around w →
      Follows o.scopes.length (e.positions o) w (w.after (bindExpr around e))
  | .literal _, _, _, _ => .refl _
  | .grouping e, _, _, agrees => follows_expr around e agrees
  | .unary _ e, _, _, agrees => follows_expr around e agrees
  | .binary l _ r, _, w, agrees => by
    have left := follows_expr around l agrees
    exact left.trans (follows_expr around r (agrees.behind left (step_bindExpr around l w)))
  | .logical l _ r, _, w, agrees => by
    have left := follows_expr around l agrees
    exact left.trans (follows_expr around r (agrees.behind left (step_bindExpr around l w)))
  | .variable ref, _, _, agrees => follows_bindVariable agrees ref
  | .assign ref e, o, w, agrees => by
    have value := follows_expr around e agrees
    have agrees' := agrees.behind value (step_bindExpr around e w)
    let p : Position := ⟨.assign, ref, o.behind (e.positions o)⟩
    have target : Follows p.depth [p] (w.after (bindExpr around e))
        ((w.after (bindExpr around e)).after (bindLocal ref false 0)) := by
      refine follows_bindLocal (p := p) false 0 (by simp [p]) (agrees'.located_of_ne rfl ?_ ?_)
      · simp [p, Position.IsStray]
      · simp [p]
    exact value.trans target
  | .call f _ es, _, w, agrees => by
    have callee := follows_expr around f agrees
    exact callee.trans (follows_exprs around es (agrees.behind callee (step_bindExpr around f w)))
  | .get e _, _, _, agrees => follows_expr around e agrees
  | .set e _ v, _, w, agrees => by
    have value := follows_expr around v agrees
    exact value.trans (follows_expr around e (agrees.behind value (step_bindExpr around v w)))
  | .this ref, _, w, agrees => by
    obtain ⟨inside, outside⟩ := follows_keyword agrees ref (.inl rfl)
    rw [bindExpr]
    split
    · rename_i none
      exact .of_global (outside none) (.complainIf true ref.token .thisOutsideClass w)
    · rename_i some
      exact inside some
  | .super ref _, o, w, agrees => by
    obtain ⟨inside, outside⟩ := follows_keyword agrees ref (.inr rfl)
    rw [bindExpr]
    split
    · rename_i none
      exact .of_global (outside none) (.complainIf true ref.token .superOutsideClass w)
    · rename_i some
      have checked := Follows.complainIf (n := o.scopes.length)
        (decide (around.cls ≠ .subclass)) ref.token .superWithoutSuperclass w
      have agrees' := agrees.unchanged checked (step_complainIf _ ref.token _ w)
      rw [Walk.after_bind]
      exact checked.trans ((follows_keyword agrees' ref (.inr rfl)).1 some)
  | .function _ params body, _, _, agrees =>
    follows_body (follows_stmts { around with routine := .function } body
      (agrees.enter .function params) rfl)

/-- The positions of expressions in a row are visited in a row. -/
theorem follows_exprs (around : Surroundings) : ∀ (es : List (Expr Site)) {o : Outlook} {w : Walk},
    o.Agrees around w →
      Follows o.scopes.length (Expr.positionsAll o es) w (w.after (bindExprs around es))
  | [], _, _, _ => .refl _
  | e :: es, _, w, agrees => by
    have first := follows_expr around e agrees
    exact first.trans (follows_exprs around es (agrees.behind first (step_bindExpr around e w)))

/-- The walk over a statement records what its positions say. -/
theorem follows_stmt (around : Surroundings) : ∀ (s : Stmt Site) {o : Outlook} {w : Walk},
    o.Agrees around w → o.own = none →
      Follows o.scopes.length (s.positions o) w (w.after (bindStmt around s))
  | .missing, _, _, _, _ => .refl _
  | .expression e, _, _, agrees, _ => follows_expr around e agrees
  | .print e, _, _, agrees, _ => follows_expr around e agrees
  | .var name none, _, _, agrees, plain => follows_introduce agrees plain name
  | .var name (some e), o, _, agrees, plain => by
    have value := follows_expr around e (agrees.initial plain name)
    rw [Outlook.length_initial] at value
    exact follows_declareName_defineName agrees plain name value
  | .block body, _, _, agrees, _ =>
    (follows_stmts around body agrees.enterBlock rfl).close (fun _ => rfl) fun _ _ => Iff.rfl
  | .ifElse c t none, o, w, agrees, plain => by
    have condition := follows_expr around c agrees
    have agrees' := agrees.behind condition (step_bindExpr around c w)
    rw [Outlook.behind_of_plain plain] at agrees'
    exact condition.trans (follows_stmt around t agrees' plain)
  | .ifElse c t (some e), o, w, agrees, plain => by
    have condition := follows_expr around c agrees
    have agrees' := agrees.behind condition (step_bindExpr around c w)
    rw [Outlook.behind_of_plain plain] at agrees'
    have thenBranch := follows_stmt around t agrees' plain
    have agrees'' := agrees'.introduce plain thenBranch (step_bindStmt around t _)
    have elseBranch := follows_stmt around e agrees'' plain
    rw [Outlook.length_introduce] at elseBranch
    exact condition.trans (thenBranch.trans elseBranch)
  | .whileLoop c b, o, w, agrees, plain => by
    have condition := follows_expr around c agrees
    have agrees' := agrees.behind condition (step_bindExpr around c w)
    rw [Outlook.behind_of_plain plain] at agrees'
    exact condition.trans (follows_stmt around b agrees' plain)
  | .ret keyword none, _, _, _, _ => follows_checkReturn around keyword false _
  | .ret keyword (some e), o, w, agrees, _ => by
    have checked := follows_checkReturn (n := o.scopes.length) around keyword true w
    have agrees' := agrees.unchanged checked (step_checkReturn around keyword true w)
    rw [bindStmt, Walk.after_bind]
    exact checked.trans (follows_expr around e agrees')
  | .loopExit _, _, _, _, _ => .refl _
  | .function r, o, w, agrees, plain => by
    have introduced := follows_introduce agrees plain r.name
    have used := follows_introduced_useName agrees plain r.name
    have routine := follows_routine around .function r (agrees.function plain r.name)
    rw [Outlook.length_introduce] at routine
    exact introduced.trans (used.trans routine)
  | .classDecl name superclass mixins methods statics, o, w, agrees, plain => by
    obtain ⟨agrees', header⟩ := follows_headerWalk agrees plain name superclass mixins
    have members := agrees'.enterClass superclass.isSome
    have methods' := follows_methods (around.inClass superclass.isSome) methods members rfl
    have members' := members.behind methods' (step_bindMethods _ methods _)
    rw [Outlook.behind_of_plain rfl] at members'
    have statics' := follows_statics (around.inClass superclass.isSome) statics members' rfl
    rw [after_classDecl]
    refine header.trans (Follows.closeClass superclass.isSome ?_)
    have all := methods'.trans statics'
    have depth : ((o.introduce [name.lexeme]).enterClass superclass.isSome).scopes.length =
        o.scopes.length + if superclass.isSome then 2 else 1 := by
      cases superclass <;> simp [Outlook.enterClass]
    rw [depth] at all
    exact all

/-- So are those of statements, each with the names of those before it in scope. -/
theorem follows_stmts (around : Surroundings) : ∀ (ss : List (Stmt Site)) {o : Outlook} {w : Walk},
    o.Agrees around w → o.own = none →
      Follows o.scopes.length (Stmt.positionsAll o ss) w (w.after (bindStmts around ss))
  | [], _, _, _, _ => .refl _
  | s :: ss, _, w, agrees, plain => by
    have first := follows_stmt around s agrees plain
    have agrees' := agrees.introduce plain first (step_bindStmt around s w)
    have rest := follows_stmts around ss agrees' plain
    rw [Outlook.length_introduce] at rest
    exact first.trans rest

/-- The walk over a routine records what its positions say. -/
theorem follows_routine (around : Surroundings) (context : RoutineContext) :
    ∀ (r : Routine Site) {o : Outlook} {w : Walk}, o.Agrees around w →
      Follows o.scopes.length (r.positions o) w (w.after (bindRoutine around context r))
  | ⟨name, params, body, getter⟩, o, w, agrees => by
    have checked := Follows.complainIf (n := o.scopes.length)
      (getter && decide (around.cls = .none)) name .getterOutsideClass w
    have agrees' := agrees.unchanged checked (step_complainIf _ name _ w)
    rw [bindRoutine, Walk.after_bind, Walk.after_bind, Walk.after_bind, Walk.after_bind]
    exact checked.trans (follows_body (follows_stmts { around with routine := context } body
      (agrees'.enter context params) rfl))

/-- So are those of methods. -/
theorem follows_methods (around : Surroundings) :
    ∀ (rs : List (Routine Site)) {o : Outlook} {w : Walk}, o.Agrees around w → o.own = none →
      Follows o.scopes.length (Routine.positionsAll o rs) w (w.after (bindMethods around rs))
  | [], _, _, _, _ => .refl _
  | r :: rs, o, w, agrees, plain => by
    have checked : Follows o.scopes.length [] w (w.after (methodContext r)) := by
      unfold methodContext
      split
      · exact .complainIf r.getter r.name .initializerAsGetter w
      · exact .refl w
    have agrees' := agrees.unchanged checked (step_methodContext r w)
    have routine := follows_routine around (methodContext r w).1 r agrees'
    have agrees'' := agrees'.behind routine (step_bindRoutine around _ r _)
    rw [Outlook.behind_of_plain plain] at agrees''
    exact checked.trans (routine.trans (follows_methods around rs agrees'' plain))

theorem follows_statics (around : Surroundings) :
    ∀ (rs : List (Routine Site)) {o : Outlook} {w : Walk}, o.Agrees around w → o.own = none →
      Follows o.scopes.length (Routine.positionsAll o rs) w (w.after (bindStatics around rs))
  | [], _, _, _, _ => .refl _
  | r :: rs, o, w, agrees, plain => by
    have routine := follows_routine around .method r agrees
    have agrees' := agrees.behind routine (step_bindRoutine around .method r w)
    rw [Outlook.behind_of_plain plain] at agrees'
    exact routine.trans (follows_statics around rs agrees' plain)

end

/-! ## Programs -/

/-- A site that is not among the positions keeps what was recorded before. -/
theorem recordAll_of_notMem {site : Site} : ∀ {ps : List Position} (before : Distance),
    (∀ p ∈ ps, p.ref.mark ≠ site) → recordAll site ps before = before
  | [], _, _ => rfl
  | p :: ps, before, h => by
    have apart := h p List.mem_cons_self
    rw [recordAll, List.foldl_cons, if_neg apart]
    exact recordAll_of_notMem before fun q mem => h q (List.mem_cons_of_mem p mem)

/-- Of references with sites of their own each is recorded once. -/
theorem recordAll_of_mem {p : Position} : ∀ {ps : List Position},
    (ps.map (·.ref.mark)).Nodup → p ∈ ps → recordAll p.ref.mark ps none = p.distance
  | q :: ps, distinct, mem => by
    rw [List.map_cons, List.nodup_cons] at distinct
    rw [recordAll, List.foldl_cons]
    rcases List.mem_cons.mp mem with rfl | mem
    · rw [if_pos rfl, Option.or_none]
      refine recordAll_of_notMem p.distance fun r later same => distinct.1 ?_
      exact List.mem_map.mpr ⟨r, later, same⟩
    · have apart : q.ref.mark ≠ p.ref.mark := fun same =>
        distinct.1 (List.mem_map.mpr ⟨p, mem, same.symm⟩)
      rw [if_neg apart]
      exact recordAll_of_mem distinct.2 mem

namespace Edition

/-- The positions of a program. -/
def positions (ed : Edition) : List Position := Stmt.positionsAll .top ed.program

/-- At the beginning there is no scope, on either side. -/
theorem agrees_root (ed : Edition) : Outlook.top.Agrees (.top ed.isGlobal) (.start ed.before) where
  height := rfl
  declares d x := by simp [Walk.Declares, Walk.start, Outlook.top]
  pending x := by simp [Walk.Pending, Walk.start]
  inClass := by simp [Surroundings.top, Outlook.top]

/-- The table has the distance of every position. -/
theorem get?_table {ed : Edition} (distinct : ed.Distinct) (fresh : ed.Fresh) {p : Position}
    (mem : p ∈ ed.positions) : ed.table.get? p.ref.mark = p.distance := by
  have follows := follows_stmts (.top ed.isGlobal) ed.program ed.agrees_root rfl
  have perm := (positions_stmts .top ed.program).map fun o => o.2.mark
  rw [occurrencesOf, List.map_map] at perm
  have unrecorded : ed.before.get? p.ref.mark = none :=
    fresh _ (perm.subset (List.mem_map.mpr ⟨p, mem, rfl⟩))
  have recorded : ed.table.get? p.ref.mark =
      recordAll p.ref.mark ed.positions (ed.before.get? p.ref.mark) := follows.recorded p.ref.mark
  rw [recorded, unrecorded]
  exact recordAll_of_mem (perm.nodup_iff.mpr distinct) mem

end Edition

end LoxLang
