/-
LoxLang.Proofs.Machine.Initializers: what initializers and the calls of classes yield.

An initializer yields the object in the frame in front of its environment, however its body ends.
What is found under its name among the methods of a class is such a closure in accepted programs,
because a getter of that name is rejected; and an initializer that is read as a property is yielded
bound to the object, because it is no getter.  The call of a class yields the instance that it
makes, whatever the initializer does.

Main statements: `Class.Declared.initializer`, `Moment.Sound.initialized`, `run_construction`.
-/
import LoxLang.Proofs.Machine.Bindings
import LoxLang.Proofs.Machine.Metaclasses
import LoxLang.Proofs.Machine.Owners

namespace LoxLang

variable {W : World} {turns n : Nat} {m m₁ m₂ m' : Machine} {f : Closure} {c : Class}
  {v self : Value}

/-! ## Closures under the name of the initializer -/

/-- No method of a class in an accepted program is a getter under the name of the initializer. -/
theorem Edition.Visits.getter_of_init {ed : Edition} {around : Surroundings} {levels : List Level}
    {name : Token} {superclass : Option (Reference Site)} {mixins : List (Reference Site)}
    {methods statics : List (Routine Site)} {w : Walk} {r : Routine Site}
    (visits : ed.Visits
      ⟨around, levels, .stmt (.classDecl name superclass mixins methods statics), w⟩)
    (accepted : ed.Accepted) (mem : r ∈ methods) (init : r.name.lexeme = initName) :
    r.getter = false := by
  obtain ⟨before, behind, rfl⟩ := List.append_of_mem mem
  obtain ⟨method, params, body, getter⟩ := r
  have init : method.lexeme = initName := init
  cases getter with
  | false => rfl
  | true =>
    let inside := around.inClass superclass.isSome
    let reached := (membersWalk around name superclass mixins w).after (bindMethods inside before)
    let r : Routine Site := ⟨method, params, body, true⟩
    have complained :
        (method, .initializerAsGetter) ∈ (reached.after (methodContext r)).complaints := by
      have same : methodContext r = (do
        complain method .initializerAsGetter
        return RoutineContext.initializer) := if_pos init
      rw [same]
      exact List.mem_append_right _ List.mem_cons_self
    have checked := (step_checkGetter inside r (reached.after (methodContext r))).complaints
    have entered := (later_bodyVisit inside (classLevels superclass.isSome levels)
      (methodContext r reached).1 params body
        ((reached.after (methodContext r)).after (checkGetter inside r))).complaints
    have walked := (step_bindStmts { inside with routine := (methodContext r reached).1 } body
      (bodyVisit inside (classLevels superclass.isSome levels)
        (methodContext r reached).1 params body
        ((reached.after (methodContext r)).after (checkGetter inside r))).walk).complaints
    have quiet := (visits.enter .method).accepted accepted
    have kept := ((checked.trans entered).trans walked).subset complained
    have none : (method, BindingFault.initializerAsGetter) ∈ ([] : List _) := quiet ▸ kept
    cases none

/-- What a class has or inherits under the name of the initializer is an initializer. -/
theorem Class.Declared.initializer (sound : ∀ {M}, W.passes M → M.Sound W) (clean : W.Clean)
    (declared : c.Declared W.passes) (found : c.findMethod initName = some f) :
    f.kind = .initializer := by
  rw [Class.findMethod_eq] at found
  obtain ⟨d, mem, own⟩ := List.exists_of_findSome?_eq_some found
  obtain ⟨left, name, superclass, mixins, methods, statics, m, passed, _, _, declares⟩ :=
    (declared.of_mem_order d mem).declares
  obtain ⟨some_last, no_last⟩ := declares.methods initName
  cases last : lastCalled initName methods with
  | none => cases own.symm.trans (no_last last)
  | some r =>
    obtain ⟨f', entry, makes⟩ := some_last r last
    cases own.symm.trans entry
    have init : r.name.lexeme = initName := by
      simpa using List.find?_some last
    obtain ⟨ed, around, levels, w, sup, mixins₀, methods₀, statics₀, stands, _, _, _, _, rfl, _⟩ :=
      (sound passed).placed
    have among : r ∈ Routine.mapAll ed.table.get? methods₀ :=
      List.mem_reverse.mp (List.mem_of_find?_eq_some last)
    obtain ⟨method, params, body, getter, before, behind, rfl, rfl⟩ := exists_of_mem_mapAll among
    have plain := stands.visits.getter_of_init (clean.accepted stands.edition)
      (r := ⟨method, params, body, getter⟩) (by simp) init
    have plain : getter = false := plain
    have init : method.lexeme = initName := init
    rw [makes.kind, methodKind, plain, init]
    rfl

/-! ## Calls of initializers -/

/-- The call of an initializer that succeeds yields the object that it is bound to. -/
theorem Moment.Sound.initialized {arguments : List Value} (lawful : W.Lawful) (plain : W.Plain)
    (sound : Moment.Sound W ⟨.call n f arguments, m⟩) (kind : f.kind = .initializer)
    (run : callClosure (exec W.turns n) f arguments m = (.ok v, m')) :
    ∃ method binder, W.passes ⟨.bind method v, binder⟩ ∧
      f.environment = binder.store.frames.size :: method.environment := by
  obtain ⟨env, m₁, opening, run⟩ := run_bind_ok_iff.mp run
  obtain ⟨completion, m₂, body, run⟩ := run_bind_ok_iff.mp run
  obtain ⟨left, ran, rfl⟩ : ∃ left, (runAll (exec W.turns n) f.body (m₁.within env) :
      Except Failure Completion × Machine) = (.ok completion, left) ∧
        m₂ = left.within m₁.environment := by
    rw [run_inEnvironment, Prod.mk.injEq] at body
    exact ⟨_, Prod.ext body.1 rfl, body.2.symm⟩
  have yields : (callClosure.boundObject f (left.within m₁.environment) :
      Except Failure Value × Machine) = (.ok v, m') := by
    cases completion with
    | exited keyword => cases run
    | returned u =>
      simp only [kind, if_true] at run
      exact run
    | normal =>
      simp only [kind, if_true] at run
      exact run
  obtain ⟨self, method, binder, bound, environment, object⟩ :=
    sound.boundSelf lawful plain kind opening ran m₁.environment
  cases yields.symm.trans object
  exact ⟨method, binder, bound, environment⟩

/-! ## Expressions that succeed -/

theorem of_run_catchOverflow {α : Type} {token : Option Token} {act : Run α} {a : α}
    (run : catchOverflow token act m = (.ok a, m')) : act m = (.ok a, m') := by
  rw [catchOverflow, run_tryCatch] at run
  rcases ran : (act m : Except Failure α × Machine) with ⟨failure | b, m₁⟩
  · rw [ran] at run
    cases failure <;> cases run
  · rwa [ran] at run

section Expressions

variable {e g : Expr Distance} {es : List (Expr Distance)} {paren name : Token} {callee : Value}

/-- A call that succeeds has called its callee with the values of its arguments. -/
theorem of_eval_call (run : eval turns n g m = (.ok callee, m₁))
    (succeeds : eval turns (n + 1) (.call g paren es) m = (.ok v, m')) :
    ∃ vs m₂, evalAll (eval turns n) es m₁ = (.ok vs, m₂) ∧
      checkCall paren callee vs.length = .ok () ∧
      invoke (exec turns n) callee vs m₂ = (.ok v, m') := by
  obtain ⟨callee', m₁', first, rest⟩ := run_bind_ok_iff.mp succeeds
  cases run.symm.trans first
  obtain ⟨vs, m₂, arguments, rest⟩ := run_bind_ok_iff.mp rest
  obtain ⟨_, m₃, checked, invoked⟩ := run_bind_ok_iff.mp rest
  obtain ⟨check, rfl⟩ := run_orFail_ok_iff.mp checked
  exact ⟨vs, m₃, arguments, check, of_run_catchOverflow invoked⟩

/-- The call of a class that succeeds yields an instance of that class with the next number. -/
theorem run_construction {arguments : List Value}
    (run : invoke (exec turns n) (.class c) arguments m = (.ok v, m')) :
    v = .instance ⟨m.fields.size, c⟩ := by
  obtain ⟨o, m₁, made, run⟩ := run_bind_ok_iff.mp run
  cases made
  cases found : c.findMethod initName with
  | none =>
    simp only [found] at run
    cases run
    rfl
  | some method =>
    simp only [found] at run
    obtain ⟨init, m₂, _, run⟩ := run_bind_ok_iff.mp run
    obtain ⟨_, m₃, _, run⟩ := run_bind_ok_iff.mp run
    cases run
    rfl

/-- A property that is no field is a method of the class, bound to the object.  A method that is no
getter is yielded as it is. -/
theorem of_eval_method {r : Receiver} (run : eval turns n e m = (.ok self, m₁))
    (receiver : self.receiver? = some r) (field : m₁.field? r.id name.lexeme = none)
    (cls : r.cls = some c) (succeeds : eval turns (n + 1) (.get e name) m = (.ok v, m')) :
    ∃ method f m₂, c.findMethod name.lexeme = some method ∧
      bindMethod method self m₁ = (.ok f, m₂) ∧ (method.kind ≠ .getter → v = .function f) := by
  obtain ⟨self', m₁', first, rest⟩ := run_bind_ok_iff.mp succeeds
  cases run.symm.trans first
  simp only [receiver] at rest
  obtain ⟨w, m₂, read, rest⟩ := run_bind_ok_iff.mp rest
  obtain ⟨_, _, get, read⟩ := run_bind_ok_iff.mp read
  cases get
  simp only [field, cls] at read
  cases found : c.findMethod name.lexeme with
  | none =>
    simp only [found] at read
    cases read
  | some method =>
    simp only [found] at read
    obtain ⟨f, _, bound, read⟩ := run_bind_ok_iff.mp read
    cases read
    refine ⟨method, f, m₂, rfl, bound, fun plain => ?_⟩
    rw [callIfGetter, (run_bindMethod bound).1.kind, if_neg plain] at rest
    cases rest
    rfl

end Expressions

end LoxLang
