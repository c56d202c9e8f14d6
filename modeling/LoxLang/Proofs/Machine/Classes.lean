/-
LoxLang.Proofs.Machine.Classes: the classes that a run makes.

The methods of a class are closures over the scope of the class, or over the frame for `super`
inside it.  They lack the frame for `this`, which binding a method to an object adds.

Main statements: `Stands.ends_makeClass`, that a class that is made is ready, and `ends_bindMethod`,
that a method that is bound is ready to be called.
-/
import LoxLang.Proofs.Machine.Placed

namespace LoxLang

variable {W : World} {m m' : Machine} {ed : Edition} {around : Surroundings} {levels : List Level}
  {w w' : Walk}

/-! ## Binding a method -/

/-- The scope for `this` has no other names. -/
theorem Edition.Visits.object {context : RoutineContext} {params : List Token}
    {body : List (Stmt Site)} (lawful : W.Lawful) (edition : W.editions ed)
    (visits : ed.Visits (bodyVisit around (⟨.object, none⟩ :: levels) context params body w))
    (x : String) :
    w.Declares 0 x ↔ x = thisName := by
  have sound := visits.sound (lawful.formed edition)
  have fits := sound.enclosed.fit.fits 1 ⟨.object, none⟩ rfl x
  refine Iff.trans ?_ fits
  rw [bodyVisit, (step_bindParams params w.opened).declares, Walk.declares_opened_succ]
  simp

/-- The frame for `this` that binding a method adds has the object. -/
theorem Member.Made.owned {member : Member} {method f : Closure} {self : Value}
    {context : RoutineContext} {outer : List Level} {body : List (Stmt Site)}
    (made : member.Made W.passes ed method)
    (here : member.body = bodyVisit around (⟨.object, none⟩ :: outer) context method.params body w)
    (passed : W.passes ⟨.bind method self, m⟩)
    (length : method.environment.length = outer.length + 1) (params : f.params = method.params)
    (environment : f.environment = m.store.frames.size :: method.environment)
    (held : W.Plain → member.Held m')
    (object : m'.store.slot? m.store.frames.size thisName = some (.value self)) :
    Owned W ed (bodyVisit around (⟨.object, none⟩ :: outer) context f.params body w) f.environment
      m' := by
  intro _
  rw [params, environment, ← here]
  let owner : Owner := ⟨member, method, self, m⟩
  refine ⟨owner, ⟨made, .refl, passed, List.suffix_refl _, ?_⟩, fun plain => ⟨object, held plain⟩⟩
  show method.environment.length + 1 = member.body.levels.length
  rw [length, here]
  rfl

/-- A method that is bound to an object has a frame for `this`. -/
theorem ends_bindMethod {method : Closure} {self : Value} (lawful : W.Lawful) (good : m.Good W)
    (ready : ReadyMethod W m method) (sound : self.Sound W m)
    (passed : W.passes ⟨.bind method self, m⟩) :
    Ends (bindMethod method self) m
      (fun f m' => Kept W m m' ∧ Ready W m' [] f ∧ f.params = method.params ∧ f.kind = method.kind)
      (fun _ _ => False) := by
  obtain ⟨edition, visits, code, frames, getter, object, made, _⟩ := ready
  let k := m.store.frames.size
  have alive : k < m.store.addFrame.frames.size := by simp [k]
  let m₁ : Machine := { m with store := m.store.addFrame }
  let m₂ : Machine := { m₁ with store := m₁.store.put k thisName (.value self) }
  have framed : Kept W m m₁ := .addFrame good
  have grows : Grows W m₁ m₂ := .put m₁ k fun _ _ => by
    rw [Store.slot?_addFrame, m.store.slot?_eq_none_of_le (Nat.le_refl _)]
  have defined : Kept W m m₂ := framed.trans (.put framed.good grows fun v same => by
    cases same
    exact (sound.grow framed.grows).grow grows)
  have kept : Kept W m { m₂ with nextClosure := m₂.nextClosure + 1 } :=
    defined.trans (.of_same defined.good rfl rfl rfl)
  have slot : m₂.store.slot? k thisName = some (.value self) :=
    m.store.addFrame.slot?_put_self alive thisName _
  refine ⟨kept, .intro edition visits code ?_ getter object (fun no => nomatch no) fun _ => ?_, rfl,
    rfl⟩
  · refine frames.push passed .bind rfl kept.grows ?_ (fun x expects => ?_) (fun d x expects => ?_)
      fun _ parent => ?_
    · show k < (m.store.addFrame.put k thisName (.value self)).frames.size
      rwa [Store.size_put]
    · rw [(visits.object lawful edition x).mp expects.1]
      exact m.store.addFrame.contains_put_self alive thisName (.value self)
    · exact expects
    · cases parent
  · obtain ⟨member, made, body, held⟩ := made rfl
    exact made.owned body passed frames.mirrors.length rfl rfl
      (fun plain => (held plain).grow plain kept.grows) slot

/-! ## Making a class -/

/-- The scopes around the scope for `this`. -/
def superLevels (hasSuperclass : Bool) (levels : List Level) : List Level :=
  if hasSuperclass then ⟨.parent, none⟩ :: levels else levels

theorem declares_opened_implicit (name : String) (w : Walk) (d : Nat) (x : String) :
    (w.opened.after (declareImplicit name)).Declares (d + 1) x ↔ w.Declares d x := by
  rw [(step_declareImplicit name w.opened).declares, Walk.declares_opened_succ]
  simp

theorem declares_implicit (name : String) (w : Walk) (x : String) :
    (w.opened.after (declareImplicit name)).Declares 0 x ↔ x = name := by
  have nonempty : w.opened.scopes ≠ [] := List.cons_ne_nil _ _
  rw [(step_declareImplicit name w.opened).declares]
  simp [w.not_declares_opened_zero x, nonempty]

/-- The environment of the methods of a class, in which the frame for `super` has the superclass. -/
theorem ends_memberEnvironment {n : Nat} {name : Token} {superclass : Option Class}
    {mixins : List Class} {ms ss : List (Routine Distance)} (good : m.Good W)
    (frames :
      Frames W ed.table levels (fun d x => w.Declares d x ∧ ¬ Pends levels d x) m.environment m)
    (sound : ∀ c, superclass = some c → c.Ready W m)
    (passed : W.passes ⟨.makeClass n name superclass mixins ms ss, m⟩) :
    Ends (memberEnvironment superclass) m
      (fun env m' => Kept W m m' ∧ Frames W ed.table (superLevels superclass.isSome levels)
        (fun d x => (w.after (openClass superclass.isSome)).Declares (d + 1) x ∧
          ¬ Pends (superLevels superclass.isSome levels) d x) env m' ∧
        env = m.memberEnvironment superclass ∧ ∀ c, superclass = some c →
          m'.store.slot? m.store.frames.size superName = some (.value (.class c)))
      (fun _ _ => False) := by
  cases superclass with
  | none =>
    refine ⟨.refl good, frames.sub fun d x expects => ?_, rfl, fun _ no => nomatch no⟩
    exact ⟨(declares_opened_implicit thisName w d x).mp expects.1, expects.2⟩
  | some c =>
    let k := m.store.frames.size
    have alive : k < m.store.addFrame.frames.size := by simp [k]
    let m₁ : Machine := { m with store := m.store.addFrame }
    have framed : Kept W m m₁ := .addFrame good
    have grows : Grows W m₁ { m₁ with store := m₁.store.put k superName (.value (.class c)) } :=
      .put m₁ k fun _ _ => by
        rw [Store.slot?_addFrame, m.store.slot?_eq_none_of_le (Nat.le_refl _)]
    have kept := framed.trans (Kept.put framed.good grows fun v same => by
      cases same
      exact ((sound c rfl).grow framed.grows).grow grows)
    have slot := m.store.addFrame.slot?_put_self alive superName (.value (.class c))
    refine ⟨kept, frames.push passed .superclass rfl kept.grows ?_ (fun x expects => ?_)
      (fun d x expects => ?_) fun _ _ => ⟨c, slot⟩, rfl, fun c' same => ?_⟩
    · show k < (m.store.addFrame.put k superName (.value (.class c))).frames.size
      rwa [Store.size_put]
    · have opened := (declares_opened_implicit thisName _ 0 x).mp expects.1
      rw [(declares_implicit superName w x).mp opened]
      exact m.store.addFrame.contains_put_self alive superName (.value (.class c))
    · have opened := (declares_opened_implicit thisName _ (d + 1) x).mp expects.1
      exact ⟨(declares_opened_implicit superName w d x).mp opened, expects.2⟩
    · cases same
      exact slot

/-- The closures of some routines. -/
theorem ends_newMethods (kind : Routine Distance → ClosureKind) (env : Environment) :
    ∀ {rs : List (Routine Distance)} {methods : List (String × Closure)} {m : Machine}, m.Good W →
      (∀ r ∈ rs, ∀ id m', Kept W m m' →
        ReadyMethod W m' ⟨id, some r.name, r.params, r.body, env, kind r⟩) →
      (∀ x f, entryOf? methods x = some f → ReadyMethod W m f) →
      Ends (newMethods kind env rs methods) m
        (fun methods' m' => Kept W m m' ∧
          ∀ x f, entryOf? methods' x = some f → ReadyMethod W m' f)
        (fun _ _ => False)
  | [], methods, m, good, _, ready => ⟨.refl good, ready⟩
  | r :: rs, methods, m, good, made, ready => by
    have counted : Kept W m { m with nextClosure := m.nextClosure + 1 } :=
      .of_same good rfl rfl rfl
    let f : Closure := ⟨m.nextClosure, some r.name, r.params, r.body, env, kind r⟩
    have ready' : ∀ x g, entryOf? (putEntry r.name.lexeme f methods) x = some g →
        ReadyMethod W { m with nextClosure := m.nextClosure + 1 } g := fun x g found => ?_
    · have rest := ends_newMethods kind env counted.good (fun r' mem id m' kept =>
        made r' (List.mem_cons_of_mem r mem) id m' (counted.trans kept)) ready'
      exact rest.mono (fun _ _ _ post => ⟨counted.trans post.1, post.2⟩) fun _ _ no => no
    · by_cases same : x = r.name.lexeme
      · subst same
        rw [entryOf?_putEntry_self] at found
        cases found
        exact made r List.mem_cons_self m.nextClosure _ counted
      · rw [entryOf?_putEntry_of_ne same] at found
        exact (ready x g found).grow counted.grows

theorem findMethodIn_eq_some {x : String} {f : Closure} : ∀ {cs : List Class},
    Class.findMethodIn x cs = some f → ∃ c ∈ cs, c.findMethod x = some f
  | c :: cs, found => by
    rw [Class.findMethodIn, Option.or_eq_some_iff] at found
    rcases found with found | ⟨_, found⟩
    · exact ⟨c, List.mem_cons_self, found⟩
    · obtain ⟨c', mem, found⟩ := findMethodIn_eq_some found
      exact ⟨c', List.mem_cons_of_mem c mem, found⟩

/-- A method of a class is its own or that of a parent. -/
theorem findMethod_eq_some {id : ObjectId} {name : String} {superclass : Option Class}
    {mixins : List Class} {methods : List (String × Closure)} {inner : Option Class} {x : String}
    {f : Closure}
    (found : Class.findMethod x ⟨id, name, superclass, mixins, methods, inner⟩ = some f) :
    entryOf? methods x = some f ∨ ∃ c, (superclass = some c ∨ c ∈ mixins) ∧
      c.findMethod x = some f := by
  cases superclass with
  | none =>
    rw [Class.findMethod, Option.or_eq_some_iff] at found
    rcases found with found | ⟨_, found⟩
    · exact .inl found
    · obtain ⟨c, mem, found⟩ := findMethodIn_eq_some found
      exact .inr ⟨c, .inr mem, found⟩
  | some c =>
    rw [Class.findMethod, Option.or_eq_some_iff, Option.or_eq_some_iff] at found
    rcases found with (found | ⟨_, found⟩) | ⟨_, found⟩
    · exact .inl found
    · exact .inr ⟨c, .inl rfl, found⟩
    · obtain ⟨c', mem, found⟩ := findMethodIn_eq_some found
      exact .inr ⟨c', .inr mem, found⟩

/-- A class that was declared is ready if its parents and its own methods are. -/
theorem ready_build {id metaId : ObjectId} {name : String} {superclass : Option Class}
    {mixins : List Class} {methods statics : List (String × Closure)}
    (declared : (Class.build id metaId name superclass mixins methods statics).Declared W.passes)
    (born : id < m.fields.size) (parents : ∀ c, superclass = some c ∨ c ∈ mixins → c.Ready W m)
    (own : ∀ x f, entryOf? methods x = some f → ReadyMethod W m f)
    (ownStatics : ∀ x f, entryOf? statics x = some f → ReadyMethod W m f) :
    (Class.build id metaId name superclass mixins methods statics).Ready W m where
  declared := declared
  born := born
  methods x f found := by
    rcases findMethod_eq_some found with found | ⟨c, parent, found⟩
    · exact own x f found
    · exact (parents c parent).methods x f found
  statics := by
    refine ⟨_, rfl, fun x f found => ?_⟩
    have inherited : ∀ c inner, (superclass = some c ∨ c ∈ mixins) → c.metaclass = some inner →
        inner.findMethod x = some f → ReadyMethod W m f := by
      intro c inner parent cls found
      obtain ⟨inner', cls', ready⟩ := (parents c parent).statics
      cases cls.symm.trans cls'
      exact ready x f found
    rcases findMethod_eq_some found with found | ⟨inner, parent | parent, found⟩
    · exact ownStatics x f found
    · obtain ⟨c, same, cls⟩ := Option.bind_eq_some_iff.mp parent
      exact inherited c inner (.inl same) cls found
    · obtain ⟨c, mem, cls⟩ := List.mem_filterMap.mp parent
      exact inherited c inner (.inr mem) cls found

/-- The names in the scopes of a class do not change while its members are passed. -/
theorem Frames.members {b : Bool} {env : Environment} {sites : List Site} {w w' : Walk}
    (frames : Frames W ed.table (superLevels b levels)
      (fun d x => w.Declares (d + 1) x ∧ ¬ Pends (superLevels b levels) d x) env m)
    (step : Walk.Step sites [] w w') (grows : Grows W m m') :
    Frames W ed.table (superLevels b levels)
      (fun d x => w'.Declares (d + 1) x ∧ ¬ Pends (superLevels b levels) d x) env m' := by
  refine (frames.grow grows).sub fun d x expects => ⟨?_, expects.2⟩
  exact ((step.declares (d + 1) x).mp expects.1).resolve_right (by simp)

theorem exists_of_mem_mapAll {f : Site → Distance} {rs : List (Routine Site)} {r : Routine Distance}
    (mem : r ∈ Routine.mapAll f rs) :
    ∃ name params body getter before behind,
      rs = before ++ ⟨name, params, body, getter⟩ :: behind ∧
        r = ⟨name, params, Stmt.mapAll f body, getter⟩ := by
  rw [Routine.mapAll_eq, List.mem_map] at mem
  obtain ⟨⟨name, params, body, getter⟩, mem, rfl⟩ := mem
  obtain ⟨before, behind, split⟩ := List.append_of_mem mem
  exact ⟨name, params, body, getter, before, behind, split, rfl⟩

theorem params_of_getter {T : Kind → Token → Prop} {rs before behind : List (Routine Site)}
    {name : Token} {params : List Token} {body : List (Stmt Site)} {getter : Bool}
    (formed : Routine.FormedAll T rs)
    (split : rs = before ++ ⟨name, params, body, getter⟩ :: behind) :
    getter = true → params = [] :=
  (Routine.formedAll_iff.mp formed ⟨name, params, body, getter⟩ (by simp [split])).2.2.1

/-- Only a routine that is written as a getter is called as one. -/
theorem getter_of_methodKind {r : Routine Distance} (kind : methodKind r = .getter) :
    r.getter = true := by
  cases isGetter : r.getter with
  | true => rfl
  | false =>
    simp only [methodKind, isGetter, Bool.false_eq_true, if_false] at kind
    split at kind <;> cases kind

theorem getter_of_staticKind {r : Routine Distance} (kind : staticKind r = .getter) :
    r.getter = true := by
  cases isGetter : r.getter with
  | true => rfl
  | false =>
    simp only [staticKind, isGetter, Bool.false_eq_true, if_false] at kind
    cases kind

namespace Stands

variable {name : Token} {sup : Option (Reference Site)} {mixins : List (Reference Site)}
  {methods statics : List (Routine Site)}

/-- The closure of a member lacks the frame for `this` only. -/
theorem readyMember {context : RoutineContext} {r : Routine Site} {env : Environment} {id : Nat}
    {kind : ClosureKind} {superclass : Option Class}
    (h : Stands W m ed ⟨around, levels, .stmt (.classDecl name sup mixins methods statics), w⟩)
    (header : HeaderRead W.passes ed
      ⟨around, levels, .stmt (.classDecl name sup mixins methods statics), w⟩ superclass m)
    (enters : Visit.Enters ⟨around, levels, .stmt (.classDecl name sup mixins methods statics), w⟩
      (bodyVisit (around.inClass sup.isSome) (classLevels sup.isSome levels) context r.params r.body
        w'))
    (mem : r ∈ methods ++ statics)
    (frames : Frames W ed.table (superLevels sup.isSome levels)
      (fun d x => w'.Declares (d + 1) x ∧ ¬ Pends (superLevels sup.isSome levels) d x) env m')
    (environment : env = m.memberEnvironment superclass)
    (held : W.Plain → ∀ c, superclass = some c →
      m'.store.slot? m.store.frames.size superName = some (.value (.class c)))
    (getter : kind = .getter → r.params = []) :
    ReadyMethod W m' ⟨id, some r.name, r.params, Stmt.mapAll ed.table.get? r.body, env, kind⟩ := by
  let body := bodyVisit (around.inClass sup.isSome) (classLevels sup.isSome levels) context r.params
    r.body w'
  let member : Member :=
    ⟨⟨around, levels, .stmt (.classDecl name sup mixins methods statics), w⟩, r, body, superclass,
      m⟩
  have made : member.Made W.passes ed
      ⟨id, some r.name, r.params, Stmt.mapAll ed.table.get? r.body, env, kind⟩ :=
    ⟨h.visits, ⟨enters, mem, rfl, rfl, rfl⟩, header, rfl, rfl, rfl, environment⟩
  have inside : (around.inClass sup.isSome).cls ≠ .none := by
    cases sup with
    | none => exact fun no => nomatch no
    | some _ => exact fun no => nomatch no
  exact .intro h.edition (h.visits.enter enters) rfl frames getter (fun _ => ⟨rfl, inside⟩)
    (fun _ => ⟨member, made, rfl, held⟩) fun no => nomatch no

variable {env : Environment} {r : Routine Distance} {id : Nat} {superclass : Option Class}

theorem readyMethod (lawful : W.Lawful)
    (h : Stands W m ed ⟨around, levels, .stmt (.classDecl name sup mixins methods statics), w⟩)
    (header : HeaderRead W.passes ed
      ⟨around, levels, .stmt (.classDecl name sup mixins methods statics), w⟩ superclass m)
    (frames : Frames W ed.table (superLevels sup.isSome levels)
      (fun d x => (membersWalk around name sup mixins w).Declares (d + 1) x ∧
        ¬ Pends (superLevels sup.isSome levels) d x) env m')
    (environment : env = m.memberEnvironment superclass)
    (held : W.Plain → ∀ c, superclass = some c →
      m'.store.slot? m.store.frames.size superName = some (.value (.class c)))
    (mem : r ∈ Routine.mapAll ed.table.get? methods) :
    ReadyMethod W m' ⟨id, some r.name, r.params, r.body, env, methodKind r⟩ := by
  obtain ⟨mname, params, body, getter, before, behind, rfl, rfl⟩ := exists_of_mem_mapAll mem
  have formed := (h.sound lawful).formed.2.2.2.1
  have step := ((step_bindMethods (around.inClass sup.isSome) before
    (membersWalk around name sup mixins w)).trans
      (step_methodContext (⟨mname, params, body, getter⟩ : Routine Site) _)).trans
        (step_checkGetter (around.inClass sup.isSome) (⟨mname, params, body, getter⟩ : Routine Site)
          _)
  have names : ∀ x, x ∈ ([] ++ [] ++ [] : List String) ↔ x ∈ ([] : List String) := by simp
  have reached := frames.members (step.mono (fun _ mem => mem) names) (.refl m')
  refine h.readyMember header .method (r := ⟨mname, params, body, getter⟩) (by simp) reached
    environment held fun kind => ?_
  exact params_of_getter formed rfl (getter_of_methodKind kind)

theorem readyStatic (lawful : W.Lawful)
    (h : Stands W m ed ⟨around, levels, .stmt (.classDecl name sup mixins methods statics), w⟩)
    (header : HeaderRead W.passes ed
      ⟨around, levels, .stmt (.classDecl name sup mixins methods statics), w⟩ superclass m)
    (frames : Frames W ed.table (superLevels sup.isSome levels)
      (fun d x => (membersWalk around name sup mixins w).Declares (d + 1) x ∧
        ¬ Pends (superLevels sup.isSome levels) d x) env m')
    (environment : env = m.memberEnvironment superclass)
    (held : W.Plain → ∀ c, superclass = some c →
      m'.store.slot? m.store.frames.size superName = some (.value (.class c)))
    (mem : r ∈ Routine.mapAll ed.table.get? statics) :
    ReadyMethod W m' ⟨id, some r.name, r.params, r.body, env, staticKind r⟩ := by
  obtain ⟨mname, params, body, getter, before, behind, rfl, rfl⟩ := exists_of_mem_mapAll mem
  have formed := (h.sound lawful).formed.2.2.2.2
  have step := ((step_bindMethods (around.inClass sup.isSome) methods
    (membersWalk around name sup mixins w)).trans
      (step_bindStatics (around.inClass sup.isSome) before _)).trans
        (step_checkGetter (around.inClass sup.isSome) (⟨mname, params, body, getter⟩ : Routine Site)
          _)
  have names : ∀ x, x ∈ ([] ++ [] ++ [] : List String) ↔ x ∈ ([] : List String) := by simp
  have reached := frames.members (step.mono (fun _ mem => mem) names) (.refl m')
  refine h.readyMember header .static (r := ⟨mname, params, body, getter⟩) (by simp) reached
    environment held fun kind => ?_
  exact params_of_getter formed rfl (getter_of_staticKind kind)

/-- The class that is made behind the header of its declaration, unless there is an overflow. -/
theorem ends_makeClass {n : Nat} {classes : List Class} (lawful : W.Lawful) (good : m.Good W)
    (h : Stands W m ed ⟨around, levels, .stmt (.classDecl name sup mixins methods statics), w⟩)
    (read : HeaderRead W.passes ed
      ⟨around, levels, .stmt (.classDecl name sup mixins methods statics), w⟩ superclass m)
    (introduced : m.store.contains (innermost m.environment) name.lexeme = true)
    (same : superclass.isSome = sup.isSome)
    (parents : ∀ c, superclass = some c ∨ c ∈ classes → c.Ready W m)
    (passed : W.passes ⟨.makeClass n name superclass classes (Routine.mapAll ed.table.get? methods)
      (Routine.mapAll ed.table.get? statics), m⟩) :
    Ends (makeClass n name superclass classes (Routine.mapAll ed.table.get? methods)
        (Routine.mapAll ed.table.get? statics)) m
      (fun c m' => Kept W m m' ∧ c.Ready W m')
      (fun failure m' => failure = .overflow ∧ Kept W m m') := by
  have header := h.behind (fun _ _ no => no) (step_headerWalk around name sup mixins w)
    fun x mem => by rw [List.mem_singleton.mp mem]; exact introduced
  have opened := ends_memberEnvironment good header (fun c is => parents c (.inl is)) passed
  rw [same] at opened
  have members : Ends (makeClass n name superclass classes (Routine.mapAll ed.table.get? methods)
      (Routine.mapAll ed.table.get? statics)) m
      (fun c m' => Kept W m m' ∧ (c.Declared W.passes → c.Ready W m'))
      (fun failure m' => failure = .overflow ∧ Kept W m m') := ?_
  · refine members.mono (fun c m' run post => ⟨post.1, post.2 (.intro passed run ?_)⟩)
      fun _ _ fails => fails
    exact fun p parent => (parents p parent).declared
  rw [makeClass_eq]
  refine opened.bind (fun env m₁ _ post₁ => ?_) fun _ _ no => no.elim
  obtain ⟨kept₁, frames, environment, held⟩ := post₁
  refine (ends_needLevel n m₁).bind (fun _ _ _ same => same ▸ ?_)
    fun _ _ fails => ⟨fails.1, fails.2 ▸ kept₁⟩
  have stays : ∀ {m'}, Kept W m₁ m' → W.Plain → ∀ c, superclass = some c →
      m'.store.slot? m.store.frames.size superName = some (.value (.class c)) :=
    fun kept plain c is => kept.grows.exact plain _ _ _ (.inr rfl) (held c is)
  have nothing : ∀ {m' : Machine} x f, entryOf? ([] : List (String × Closure)) x = some f →
      ReadyMethod W m' f := fun x f no => by cases no
  have own := ends_newMethods methodKind env kept₁.good
    (fun r mem id m' kept =>
      h.readyMethod lawful read (frames.grow kept.grows) environment (stays kept) mem) nothing
  refine own.bind (fun methods' m₂ _ post₂ => ?_) fun _ _ no => no.elim
  obtain ⟨kept₂, ready⟩ := post₂
  have ownStatics := ends_newMethods staticKind env kept₂.good
    (fun r mem id m' kept => h.readyStatic lawful read (frames.grow (kept₂.trans kept).grows)
      environment (stays (kept₂.trans kept)) mem) nothing
  refine ownStatics.bind (fun statics' m₃ _ post₃ => ?_) fun _ _ no => no.elim
  obtain ⟨kept₃, readyStatics⟩ := post₃
  have kept₄ := Kept.newObject kept₃.good
  have kept₅ := kept₄.trans (.newObject kept₄.good)
  have kept := ((kept₁.trans kept₂).trans kept₃).trans kept₅
  exact ⟨kept, fun declared =>
    ready_build declared (by simp) (fun c parent => (parents c parent).grow kept.grows)
      (fun x f found => (ready x f found).grow (kept₃.trans kept₅).grows)
      fun x f found => (readyStatics x f found).grow kept₅.grows⟩

end Stands

end LoxLang
