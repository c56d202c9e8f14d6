/-
LoxLang.Proofs.Machine.Parameters: what the parameters of a call stand for.

A call makes a frame and gives each parameter its argument there, one after another.  An argument is
lost if there are more of them than parameters, or if a later parameter has the name of an earlier
one.  Neither happens in an accepted program, whatever makes the call.

* `Store.defineAll`: a row of definitions in one frame.

Main statement: `Moment.Sound.parameters`.
-/
import LoxLang.Proofs.Binding.Tallies
import LoxLang.Proofs.Machine.Sound

namespace LoxLang

/-! ## Definitions in a row -/

/-- The store in which names of a frame have got values, one after another. -/
def Store.defineAll (s : Store Value) (k : FrameId) (ps : List (Token × Value)) : Store Value :=
  ps.foldl (fun s p => s.define k p.1.lexeme p.2) s

section Row

variable {k : FrameId} {ps : List (Token × Value)}

/-- A name that is not among them keeps its state. -/
theorem Store.slot?_defineAll_of_notMem {x : String} (absent : x ∉ ps.map (·.1.lexeme)) :
    ∀ s : Store Value, (s.defineAll k ps).slot? k x = s.slot? k x := by
  induction ps with
  | nil => exact fun _ => rfl
  | cons p ps ih =>
    intro s
    obtain ⟨other, absent⟩ := List.ne_and_not_mem_of_not_mem_cons absent
    have rest := ih absent (s.define k p.1.lexeme p.2)
    exact rest.trans (s.slot?_put_of_ne (.inr other) (.value p.2))

/-- If no two of the names are the same, each of them has its value in the end. -/
theorem Store.slot?_defineAll (nodup : (ps.map (·.1.lexeme)).Nodup) {p : Token} {v : Value}
    (mem : (p, v) ∈ ps) : ∀ {s : Store Value}, k < s.frames.size →
      (s.defineAll k ps).slot? k p.lexeme = some (.value v) := by
  induction ps with
  | nil => cases mem
  | cons q ps ih =>
    intro s alive
    obtain ⟨absent, nodup⟩ := List.nodup_cons.mp nodup
    rcases List.mem_cons.mp mem with rfl | mem
    · have rest := Store.slot?_defineAll_of_notMem (k := k) absent (s.define k p.lexeme v)
      exact rest.trans (s.slot?_put_self alive p.lexeme (.value v))
    · refine ih nodup mem ?_
      show k < (s.put k q.1.lexeme (.value q.2)).frames.size
      rwa [Store.size_put]

theorem run_defineAll (env : Environment) : ∀ (ps : List (Token × Value)) (m : Machine),
    ((ps.forM fun (param, v) => defineIn env param.lexeme v) m : Except Failure Unit × Machine) =
      (.ok (), { m with store := m.store.defineAll (innermost env) ps })
  | [], _ => rfl
  | p :: ps, m =>
    run_defineAll env ps { m with store := m.store.define (innermost env) p.1.lexeme p.2 }

/-- What opens the frame of a call. -/
theorem run_openCall (f : Closure) (arguments : List Value) (m : Machine) :
    (openCall f arguments m : Except Failure Environment × Machine) =
      (.ok (m.store.frames.size :: f.environment), { m with
        store := m.store.addFrame.defineAll m.store.frames.size (f.params.zip arguments) }) := by
  have defined := run_defineAll (m.store.frames.size :: f.environment) (f.params.zip arguments)
    { m with store := m.store.addFrame }
  refine (run_bind _ _ m).trans ?_
  show ((_ >>= _ : Run Environment) { m with store := m.store.addFrame }) = _
  rw [run_bind, defined]
  rfl

end Row

/-! ## Parameters in the text -/

/-- No two parameters of a routine in an accepted program have the same name. -/
theorem Edition.Visits.nodup_params {ed : Edition} {around : Surroundings} {levels : List Level}
    {context : RoutineContext} {params : List Token} {body : List (Stmt Site)} {w : Walk}
    (visits : ed.Visits (bodyVisit around levels context params body w)) (accepted : ed.Accepted) :
    (params.map Token.lexeme).Nodup := by
  have quiet := visits.accepted accepted
  have single : (w.opened.after (bindParams params)).Single := by
    intro name mem
    have kept := (step_bindStmts { around with routine := context } body
      (w.opened.after (bindParams params))).complaints.subset mem
    have none : (name, BindingFault.redeclared) ∈ ([] : List _) := quiet ▸ kept
    cases none
  have tallies : Tallies 0 _ _ _ w.opened _ := tallies_bindParams single
  obtain ⟨s, _, nodup, mentions⟩ := tallies.scopes 0 .empty rfl List.nodup_nil
  rw [← s.map_name_mentions, mentions, List.map_map] at nodup
  refine List.Nodup.sublist ?_ nodup
  simp [Scope.mentions, Scope.empty, Mention.ofToken, Function.comp_def]

/-! ## Calls -/

/-- A call in a history of accepted programs has as many arguments as the closure has parameters,
and the frame of the call has for each parameter the argument at its place. -/
theorem Moment.Sound.parameters {W : World} {n : Nat} {f : Closure} {arguments : List Value}
    {m : Machine} (clean : W.Clean) (sound : Moment.Sound W ⟨.call n f arguments, m⟩) :
    arguments.length = f.params.length ∧ (f.params.map Token.lexeme).Nodup ∧
      ∃ m', openCall f arguments m = (.ok (m.store.frames.size :: f.environment), m') ∧
        ∀ (i : Nat) p v, f.params[i]? = some p → arguments[i]? = some v →
          m'.store.slot? m.store.frames.size p.lexeme = some (.value v) := by
  obtain ⟨ready, length, _⟩ := sound.placed
  obtain @⟨ed, _, _, _, _, _, edition, visits, _⟩ := ready
  have nodup := visits.nodup_params (clean.accepted edition)
  refine ⟨length, nodup, _, run_openCall f arguments m, fun i p v param argument => ?_⟩
  have mem : (p, v) ∈ f.params.zip arguments :=
    List.mem_of_getElem? (List.getElem?_zip_eq_some.mpr ⟨param, argument⟩)
  refine Store.slot?_defineAll ?_ mem (by simp)
  have names : (f.params.zip arguments).map (·.1.lexeme) = f.params.map Token.lexeme := by
    have tokens := List.map_fst_zip (Nat.le_of_eq length.symm)
    rw [← congrArg (List.map Token.lexeme) tokens, List.map_map]
    rfl
  rw [names]
  exact nodup

end LoxLang
