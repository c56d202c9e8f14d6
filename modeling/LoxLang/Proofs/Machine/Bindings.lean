/-
LoxLang.Proofs.Machine.Bindings: every method that is bound has a frame of its own for its object.

The number of a frame is how many there were before it.  Along the timeline of a run there are never
fewer of them, so a frame of a given number is made once, and all closures that have it in front are
bound to the object that it was made for.

* `Crossing`: the place on a timeline where the frame for an object is made.

Main statements: `Starts.crossing`, that every method that is bound has such a place, and
`Crossing.unique`, that there is only one for a number.
-/
import LoxLang.Proofs.Machine.Fields

namespace LoxLang

variable {turns n : Nat} {m m₁ m₂ m' : Machine} {M : Moment} {method f : Closure} {self : Value}

/-! ## Binding a method -/

/-- The method in a frame of its own, which holds the object. -/
structure Closure.IsBound (f method : Closure) (k : FrameId) : Prop where
  environment : f.environment = k :: method.environment
  kind : f.kind = method.kind

/-- The frame is there and holds the object. -/
structure Machine.HasObject (m : Machine) (k : FrameId) (object : Value) : Prop where
  alive : k < m.store.frames.size
  slot : m.store.slot? k thisName = some (.value object)

theorem run_bindMethod (run : bindMethod method self m = (.ok f, m')) :
    f.IsBound method m.store.frames.size ∧ m'.HasObject m.store.frames.size self := by
  have alive : m.store.frames.size < m.store.addFrame.frames.size := by simp [Store.addFrame]
  cases run
  refine ⟨⟨rfl, rfl⟩, ?_, m.store.addFrame.slot?_put_self alive thisName (.value self)⟩
  show m.store.frames.size <
    (m.store.addFrame.put m.store.frames.size thisName (.value self)).frames.size
  rwa [Store.size_put]

/-! ## Where frames are made -/

/-- Between two instants in a row the frame of the number is made, for the object. -/
def Crossing (turns : Nat) (line : List Instant) (k : FrameId) (self : Value) : Prop :=
  ∃ t t', [t, t'] <:+: line ∧ (t.machine turns).store.frames.size ≤ k ∧
    (t'.machine turns).HasObject k self

theorem Crossing.mono {line line' : List Instant} {k : FrameId} (h : Crossing turns line k self)
    (stretch : line <:+: line') : Crossing turns line' k self := by
  obtain ⟨t, t', inside, before, holds⟩ := h
  exact ⟨t, t', inside.trans stretch, before, holds⟩

instance : Trans (Instant.Ahead turns) (Instant.Ahead turns) (Instant.Ahead turns) where
  trans first second := first.trans second

/-- The second instant is the first one at which there are more frames than the number says. -/
theorem find?_of_crossing {line : List Instant} {k : FrameId} {t t' : Instant}
    (ahead : line.IsChain (Instant.Ahead turns)) (inside : [t, t'] <:+: line)
    (before : (t.machine turns).store.frames.size ≤ k)
    (behind : k < (t'.machine turns).store.frames.size) :
    line.find? (fun u => k < (u.machine turns).store.frames.size) = some t' := by
  obtain ⟨front, rest, rfl⟩ := inside
  have split : front ++ [t, t'] ++ rest = (front ++ [t]) ++ t' :: rest := by simp
  have pairs : (front ++ [t] ++ t' :: rest).Pairwise (Instant.Ahead turns) :=
    split ▸ ahead.pairwise
  rw [split, List.find?_eq_some_iff_append]
  refine ⟨by simpa using behind, front ++ [t], rest, rfl, fun u mem => ?_⟩
  have early : (u.machine turns).store.frames.size ≤ (t.machine turns).store.frames.size := by
    rcases List.mem_append.mp mem with mem | mem
    · have upTo := (List.pairwise_append.mp pairs).1
      exact ((List.pairwise_append.mp upTo).2.2 u mem t (by simp)).frames
    · rw [List.mem_singleton.mp mem]
  simpa using Nat.le_trans early before

/-- A frame is made once, for one object. -/
theorem Crossing.unique {line : List Instant} {k : FrameId} {self' : Value}
    (ahead : line.IsChain (Instant.Ahead turns)) (h : Crossing turns line k self)
    (h' : Crossing turns line k self') : self = self' := by
  obtain ⟨t, t', inside, before, holds⟩ := h
  obtain ⟨u, u', inside', before', holds'⟩ := h'
  have first := find?_of_crossing ahead inside before holds.alive
  have second := find?_of_crossing ahead inside' before' holds'.alive
  cases first.symm.trans second
  cases holds.slot.symm.trans holds'.slot
  rfl

/-! ## Where methods are bound -/

/-- The last of the parts of a call that are evaluated leaves the machine on which the call is
made. -/
theorem exists_last_argument {es : List (Expr Distance)} {vs : List Value} :
    ∀ {m₁ : Machine} {C : Moment}, C.after turns = m₁ →
      evalAll (eval turns n) es m₁ = (.ok vs, m₂) →
        ∃ before D, C :: argumentCalls turns n es m₁ = before ++ [D] ∧ D.after turns = m₂ := by
  induction es generalizing vs with
  | nil =>
    rintro m₁ C after run
    cases run
    exact ⟨[], C, rfl, after⟩
  | cons e es ih =>
    rintro m₁ C after run
    obtain ⟨v, m', first, run⟩ := run_bind_ok_iff.mp run
    obtain ⟨us, m'', rest, run⟩ := run_bind_ok_iff.mp run
    cases run
    have left : Moment.after turns ⟨.eval n e, m₁⟩ = m' := congrArg Prod.snd first
    obtain ⟨before, D, split, last⟩ := ih left rest
    refine ⟨C :: before, D, ?_, last⟩
    rw [argumentCalls, onward_ok first, split]
    rfl

/-- The call of a class makes the frame for the instance between the last of its arguments and the
call of the initializer. -/
theorem crossing_construction {g : Expr Distance} {paren : Token} {es : List (Expr Distance)}
    {c : Class} {vs : List Value} {o : ObjectId} {m₀ : Machine}
    (run₀ : eval turns n g m₀ = (.ok (.class c), m₁))
    (run₁ : evalAll (eval turns n) es m₁ = (.ok vs, m₂))
    (check : checkCall paren (.class c) vs.length = .ok ())
    (found : c.findMethod initName = some method) (run₂ : newObject m₂ = (.ok o, m))
    (run : bindMethod method (.instance ⟨o, c⟩) m = (.ok f, m')) :
    Crossing turns (Moment.timeline turns ⟨.eval (n + 1) (.call g paren es), m₀⟩)
      m.store.frames.size (.instance ⟨o, c⟩) := by
  have first : Moment.after turns ⟨.eval n g, m₀⟩ = m₁ := congrArg Prod.snd run₀
  have checked : (orFail (checkCall paren (.class c) vs.length) m₂ :
      Except Failure Unit × Machine) = (.ok (), m₂) := run_orFail_ok_iff.mpr ⟨check, rfl⟩
  obtain ⟨before, C, split, last⟩ := exists_last_argument first run₁
  let D : Moment := ⟨.call n f vs, m'⟩
  have calls : Moment.calls turns ⟨.eval (n + 1) (.call g paren es), m₀⟩ =
      before ++ C :: D :: [] := by
    have parts : before ++ C :: D :: [] =
        ⟨.eval n g, m₀⟩ :: (argumentCalls turns n es m₁ ++ [D]) := by
      rw [← List.singleton_append, ← List.append_assoc, ← split]
      rfl
    rw [parts]
    simp [Moment.calls, Expr.calls, Expr.first?, onward_ok run₀, Expr.laterCalls, onward_ok run₁,
      onward_ok checked, invokeCalls, onward_ok run₂, found, onward_ok run, D]
  have inside := consecutive_timeline calls (ends_timeline turns C) (begins_timeline turns D)
  refine ⟨.ended C, .began D, inside, ?_, (run_bindMethod run).2⟩
  show (C.after turns).store.frames.size ≤ _
  cases run₂
  exact Nat.le_of_eq (by rw [last])

/-- What is read of a property that is no field is the method, bound to the object. -/
theorem run_readProperty_bound {r : Receiver} {c : Class} {name : Token}
    (field : m.field? r.id name.lexeme = none) (cls : r.cls = some c)
    (found : c.findMethod name.lexeme = some method)
    (run : bindMethod method self m = (.ok f, m')) :
    (readProperty self r name m : Except Failure Value × Machine) = (.ok (.function f), m') := by
  have get : ((get : Run Machine) m : Except Failure Machine × Machine) = (.ok m, m) := rfl
  rw [readProperty, run_bind, get]
  simp only [field, cls, found]
  rw [run_bind, run]
  rfl

/-- An access to a method makes the frame for the object behind the evaluation of the object. -/
theorem crossing_property {e : Expr Distance} {name : Token} {r : Receiver} {m₀ : Machine}
    (run₀ : eval turns n e m₀ = (.ok self, m)) (receiver : self.receiver? = some r)
    (read : readProperty self r name m = (.ok (.function f), m'))
    (holds : m'.HasObject m.store.frames.size self) :
    Crossing turns (Moment.timeline turns ⟨.eval (n + 1) (.get e name), m₀⟩)
      m.store.frames.size self := by
  let C : Moment := ⟨.eval n e, m₀⟩
  have calls : Moment.calls turns ⟨.eval (n + 1) (.get e name), m₀⟩ =
      [] ++ C :: getterCalls n (.function f) m' := by
    simp [Moment.calls, Expr.calls, Expr.first?, onward_ok run₀, Expr.laterCalls, receiver,
      onward_ok read, C]
  have size : ((Instant.ended C).machine turns).store.frames.size ≤ m.store.frames.size := by
    have left : C.after turns = m := congrArg Prod.snd run₀
    exact Nat.le_of_eq (by rw [Instant.machine, left])
  by_cases kind : f.kind = .getter
  · -- The getter is called right away, so that its call is the next instant.
    let D : Moment := ⟨.call n f [], m'⟩
    have called : getterCalls n (.function f) m' = D :: [] := if_pos kind
    have inside := consecutive_timeline (called ▸ calls) (ends_timeline turns C)
      (begins_timeline turns D)
    exact ⟨.ended C, .began D, inside, size, holds⟩
  · have called : getterCalls n (.function f) m' = [] := if_neg kind
    have inside := (ended_timeline (called ▸ calls) (ends_timeline turns C)).isInfix
    refine ⟨.ended C, .ended _, inside, size, ?_⟩
    have evaluated : (eval turns (n + 1) (.get e name) m₀ : Except Failure Value × Machine) =
        (.ok (.function f), m') := by
      show ((eval turns n e >>= fun v => _) m₀ : Except Failure Value × Machine) = _
      rw [run_bind, run₀]
      simp only [receiver]
      rw [run_bind, read]
      simp only [callIfGetter, kind, if_false]
      rfl
    show (eval turns (n + 1) (.get e name) m₀ : Except Failure Value × Machine).2.HasObject _ _
    rwa [evaluated]

/-- An access through `super` makes the frame between its beginning and its end. -/
theorem crossing_super {ref : Reference Distance} {name : Token}
    (evaluated : eval turns (n + 1) (.super ref name) m = (.ok (.function f), m'))
    (holds : m'.HasObject m.store.frames.size self) :
    Crossing turns (Moment.timeline turns ⟨.eval (n + 1) (.super ref name), m⟩)
      m.store.frames.size self := by
  let S : Moment := ⟨.eval (n + 1) (.super ref name), m⟩
  have line : S.timeline turns = [.began S, .ended S] := by
    rw [Moment.timeline_eq]
    rfl
  refine ⟨.began S, .ended S, line ▸ List.infix_refl _, Nat.le_refl _, ?_⟩
  show (eval turns (n + 1) (.super ref name) m : Except Failure Value × Machine).2.HasObject _ _
  rwa [evaluated]

/-- Whatever binds a method to an object makes the frame for it between two instants of its
timeline. -/
theorem Starts.crossing (starts : Starts turns M ⟨.bind method self, m⟩) :
    Crossing turns (M.timeline turns) m.store.frames.size self := by
  obtain ⟨f, m', run⟩ : ∃ f m', (bindMethod method self m : Except Failure Closure × Machine) =
    (.ok f, m') := ⟨_, _, rfl⟩
  have holds := (run_bindMethod run).2
  cases starts with
  | bindInit run₀ run₁ check found run₂ =>
    exact crossing_construction run₀ run₁ check found run₂ run
  | method run₀ receiver field cls found =>
    exact crossing_property run₀ receiver (run_readProperty_bound field cls found run) holds
  | @superMethod _ _ name _ _ _ _ _ mark superclass object found =>
    have read := run_readSuper mark superclass object name
    simp only [found] at read
    rw [run_bind, run] at read
    exact crossing_super read holds

end LoxLang
