/-
LoxLang.Proofs.Machine.Runs: what whole runs keep.

Every call of the evaluator from a sound moment ends in a good machine that lacks nothing that was
there before, in the same environment.  The induction is on the bound on nesting: the calls that a
call makes come with a smaller one.  An internal failure comes from a moment that misses its
variable, as long as all programs were accepted.

* `Fine`: how a moment may end with a failure.
* `KeepsEval`, `KeepsExec`: the statement for the two halves of the evaluator.

Main statements: `keeps_runAll`, `keeps_iterate` and `keeps_call`, for sequences, loops and calls.
-/
import LoxLang.Proofs.Machine.Access

namespace LoxLang

variable {W : World} {m m₁ m₂ m₃ : Machine} {n : Nat}

/-! ## How a moment ends -/

/-- Every failure leaves the machine good, and internal ones come from a miss. -/
structure Fine (W : World) (M : Moment) (failure : Failure) (m' : Machine) : Prop where
  kept : Kept W M.machine m'
  internal : W.Clean → failure.IsInternal →
    ∃ M', Reaches W.turns M M' ∧ Misses W M'

namespace Fine

variable {M M' : Moment} {failure : Failure} {m' : Machine}

theorem of_plain (kept : Kept W M.machine m') (plain : ¬ failure.IsInternal) :
    Fine W M failure m' := ⟨kept, fun _ isInternal => absurd isInternal plain⟩

/-- A failure of a moment that was started. -/
theorem of_starts (kept : Kept W M.machine M'.machine) (starts : Starts W.turns M M')
    (fine : Fine W M' failure m') : Fine W M failure m' where
  kept := kept.trans fine.kept
  internal clean isInternal := by
    obtain ⟨M'', steps, misses⟩ := fine.internal clean isInternal
    exact ⟨M'', .head starts steps, misses⟩

/-- A failure of a moment that was started at once. -/
theorem of_first {activity activity' : Activity}
    (starts : Starts W.turns ⟨activity, m⟩ ⟨activity', m⟩)
    (fine : Fine W ⟨activity', m⟩ failure m') :
    Fine W ⟨activity, m⟩ failure m' where
  kept := fine.kept
  internal clean isInternal := by
    obtain ⟨M'', steps, misses⟩ := fine.internal clean isInternal
    exact ⟨M'', .head starts steps, misses⟩

end Fine

/-- The values that a statement ends with are sound. -/
def Completion.Sound (W : World) (m : Machine) : Completion → Prop
  | .returned v => v.Sound W m
  | _ => True

def KeepsEval (W : World) (n : Nat) : Prop :=
  ∀ {e m}, Moment.Sound W ⟨.eval n e, m⟩ →
    Ends (eval W.turns n e) m (fun v m' => Kept W m m' ∧ v.Sound W m') (Fine W ⟨.eval n e, m⟩)

def KeepsExec (W : World) (n : Nat) : Prop :=
  ∀ {s m}, Moment.Sound W ⟨.exec n s, m⟩ →
    Ends (exec W.turns n s) m
      (fun completion m' => Kept W m m' ∧ completion.Sound W m' ∧
        ∀ x ∈ s.introduces, m'.store.contains (innermost m.environment) x = true)
      (Fine W ⟨.exec n s, m⟩)

/-! ## Arguments -/

theorem run_evalAll_append {eval : Expr Distance → Run Value} {e : Expr Distance} {v : Value} :
    ∀ {before : List (Expr Distance)} {m : Machine} {vs : List Value},
      evalAll eval before m = (.ok vs, m₁) → eval e m₁ = (.ok v, m₂) →
        evalAll eval (before ++ [e]) m = (.ok (vs ++ [v]), m₂)
  | [], _, _, run, run₁ => by
    cases run
    rw [List.nil_append, evalAll, run_bind, run₁]
    rfl
  | e' :: before, _, _, run, run₁ => by
    obtain ⟨v', m', run', run⟩ := run_bind_ok_iff.mp run
    obtain ⟨vs', m'', run'', run⟩ := run_bind_ok_iff.mp run
    cases run
    have rest := run_evalAll_append run'' run₁
    exact run_bind_ok_iff.mpr ⟨v', m', run', run_bind_ok_iff.mpr ⟨_, _, rest, rfl⟩⟩

/-- Some of the arguments of a call, behind others. -/
theorem keeps_evalAll (lawful : W.Lawful) (evals : KeepsEval W n) {f : Expr Distance}
    {paren : Token} {es behind : List (Expr Distance)} {callee : Value}
    (sound : Moment.Sound W ⟨.eval (n + 1) (.call f paren es), m⟩)
    (run : eval W.turns n f m = (.ok callee, m₁)) :
    ∀ {rest before : List (Expr Distance)} {vs : List Value} {m₂ : Machine},
      es = before ++ rest ++ behind →
      evalAll (eval W.turns n) before m₁ = (.ok vs, m₂) → Kept W m m₂ →
      Ends (evalAll (eval W.turns n) rest) m₂
        (fun vs' m' => Kept W m₂ m' ∧ ∀ v ∈ vs', v.Sound W m')
        (Fine W ⟨.eval (n + 1) (.call f paren es), m⟩)
  | [], _, _, _, _, _, kept => ⟨.refl kept.good, by simp⟩
  | e :: rest, before, vs, m₂, split, run₁, kept => by
    have split : es = before ++ e :: (rest ++ behind) := by simpa using split
    have starts : Starts W.turns ⟨.eval (n + 1) (.call f paren es), m⟩ ⟨.eval n e, m₂⟩ := by
      subst split
      exact .argument run run₁
    have argument : Moment.Sound W ⟨.eval n e, m₂⟩ :=
      sound_operand lawful sound kept starts fun same => operand_of_argument (split ▸ same)
    refine (evals argument).bind (fun v m₃ run₂ post => ?_) fun failure m' fine =>
      .of_starts kept starts fine
    obtain ⟨kept₃, soundv⟩ := post
    have split' : es = (before ++ [e]) ++ rest ++ behind := by simpa using split
    have rest := keeps_evalAll lawful evals sound run split' (run_evalAll_append run₁ run₂)
      (kept.trans kept₃)
    refine rest.bind (fun vs' m' _ post => ?_) fun _ _ fine => fine
    refine ⟨kept₃.trans post.1, fun u mem => ?_⟩
    rcases List.mem_cons.mp mem with rfl | mem
    · exact soundv.grow post.1.grows
    · exact post.2 u mem

/-! ## Sequences and loops -/

theorem keeps_runAll (lawful : W.Lawful) (execs : KeepsExec W n) :
    ∀ {ss : List (Stmt Distance)} {m : Machine}, Moment.Sound W ⟨.runAll n ss, m⟩ →
      Ends (runAll (exec W.turns n) ss) m
        (fun completion m' => Kept W m m' ∧ completion.Sound W m') (Fine W ⟨.runAll n ss, m⟩)
  | [], m, sound => ⟨.refl sound.good, trivial⟩
  | s :: ss, m, sound => by
    refine (execs (sound_statement lawful sound)).bind (fun completion m₁ run post => ?_)
      fun failure m' fine => .of_first .statement fine
    obtain ⟨kept, values, introduced⟩ := post
    cases completion with
    | normal =>
      have rest := keeps_runAll lawful execs (sound_statements lawful sound kept run introduced)
      exact rest.mono (fun _ _ _ post => ⟨kept.trans post.1, post.2⟩) fun failure m' fine =>
        .of_starts kept (.statements run) fine
    | returned v => exact ⟨kept, values⟩
    | exited keyword => exact ⟨kept, values⟩

theorem keeps_runTop (lawful : W.Lawful) (execs : KeepsExec W n) :
    ∀ {ss : List (Stmt Distance)} {m : Machine}, Moment.Sound W ⟨.runTop n ss, m⟩ →
      Ends (runStatements (exec W.turns n) ss) m (fun _ m' => Kept W m m')
        (Fine W ⟨.runTop n ss, m⟩)
  | [], m, sound => .refl sound.good
  | s :: ss, m, sound => by
    refine (execs (sound_topStatement lawful sound)).bind (fun completion m₁ run post => ?_)
      fun failure m' fine => .of_first .topStatement fine
    obtain ⟨kept, values, introduced⟩ := post
    have goOn : completion.Stays → Ends (runStatements (exec W.turns n) ss) m₁
        (fun _ m' => Kept W m m') (Fine W ⟨.runTop n (s :: ss), m⟩) := by
      intro stays
      have rest := keeps_runTop lawful execs
        (sound_topStatements lawful sound kept run stays introduced)
      exact rest.mono (fun _ _ _ post => kept.trans post) fun failure m' fine =>
        .of_starts kept (.topStatements run stays) fine
    cases completion with
    | normal => exact goOn trivial
    | returned v => exact goOn trivial
    | exited keyword => exact .of_plain kept fun no => no

theorem keeps_iterate (lawful : W.Lawful) (evals : KeepsEval W n) (execs : KeepsExec W n)
    {c : Expr Distance} {b : Stmt Distance} :
    ∀ {left : Nat} {m : Machine}, Moment.Sound W ⟨.iterate n c b left, m⟩ →
      Ends (iterate (eval W.turns n c) (exec W.turns n b) left) m
        (fun completion m' => Kept W m m' ∧ completion.Sound W m')
        (Fine W ⟨.iterate n c b left, m⟩)
  | 0, m, sound => .of_plain (.refl sound.good) fun no => no
  | left + 1, m, sound => by
    refine (evals (sound_condition lawful sound)).bind (fun v m₁ run post => ?_)
      fun failure m' fine => .of_first .condition fine
    obtain ⟨kept, _⟩ := post
    cases holds : v.isTruthy with
    | false => exact ⟨kept, trivial⟩
    | true =>
      have turn := sound_turn lawful sound kept run holds
      refine (execs turn).bind (fun completion m₂ run₁ post => ?_) fun failure m' fine =>
        .of_starts kept (.turn run holds) fine
      obtain ⟨kept₁, values, _⟩ := post
      have goOn : completion.GoesOn → Ends (iterate (eval W.turns n c) (exec W.turns n b) left) m₂
          (fun completion m' => Kept W m m' ∧ completion.Sound W m')
          (Fine W ⟨.iterate n c b (left + 1), m⟩) := by
        intro goesOn
        have both := kept.trans kept₁
        have rest := keeps_iterate lawful evals execs
          (sound_again lawful sound both run holds run₁ goesOn)
        exact rest.mono (fun _ _ _ post => ⟨both.trans post.1, post.2⟩) fun failure m' fine =>
          .of_starts both (.again run holds run₁ goesOn) fine
      cases completion with
      | normal => exact goOn trivial
      | returned u => exact ⟨kept.trans kept₁, values⟩
      | exited keyword =>
        dsimp only
        cases isBreak : keyword.isBreak with
        | true => exact ⟨kept.trans kept₁, trivial⟩
        | false => exact goOn isBreak

/-! ## Calls -/

theorem ends_inEnvironment {α : Type} {act : Run α} {env : Environment} {m : Machine}
    {ok : α → Machine → Prop} {err : Failure → Machine → Prop} :
    Ends (inEnvironment env act) m ok err ↔
      Ends act (m.within env) (fun a m' => ok a { m' with environment := m.environment })
        (fun f m' => err f { m' with environment := m.environment }) := by
  unfold Ends
  rw [run_inEnvironment]
  rcases (act (m.within env) : Except Failure α × Machine) with ⟨_ | _, _⟩ <;> rfl

theorem ends_catchOverflow {α : Type} {token : Option Token} {act : Run α} {M : Moment}
    {ok : α → Machine → Prop} (h : Ends act m ok (Fine W M)) :
    Ends (catchOverflow token act) m ok (Fine W M) := by
  rw [catchOverflow, ends_tryCatch]
  refine h.mono (fun _ _ _ post => post) fun failure m' fine => ?_
  cases failure with
  | overflow => exact .of_plain fine.kept fun no => no
  | runtime _ _ => exact fine
  | internal _ _ => exact fine
  | unfinished => exact fine

/-- An initializer that is bound finds its object. -/
theorem Ready.boundObject {f : Closure} (lawful : W.Lawful) (ready : Ready W m [] f)
    (kind : f.kind = .initializer) :
    ∃ k, f.environment[0]? = some k ∧ m.store.contains k thisName = true := by
  obtain @⟨ed, around, outer, context, body, w, edition, visits, _, frames, _, object, _, _⟩ :=
    ready
  obtain ⟨k, env, cons⟩ := frames.mirrors.exists_cons
  cases outer with
  | nil => cases (object kind).1
  | cons level levels =>
    cases (object kind).1
    have found : f.environment[0]? = some k := by rw [cons]; rfl
    refine ⟨k, found, frames.filled 0 k thisName found ⟨?_, ?_⟩⟩
    · exact (visits.object lawful edition thisName).mpr rfl
    · rintro ⟨level, at_0, isOpen, _⟩
      cases at_0
      exact isOpen

theorem ends_boundObject {f : Closure} (good : m.Good W)
    (bound : ∃ k, f.environment[0]? = some k ∧ m.store.contains k thisName = true) :
    Ends (callClosure.boundObject f) m (fun v m' => Kept W m m' ∧ v.Sound W m')
      (fun failure m' => Kept W m m' ∧ ¬ failure.IsInternal) := by
  obtain ⟨k, found, has⟩ := bound
  rw [callClosure.boundObject, ends_bind, ends_get]
  rcases readAt_cases m found thisName none with ⟨a, slot, is⟩ | ⟨_, is⟩ | ⟨lacks, _⟩
  · rw [is]
    exact ⟨.refl good, good.slots k _ a slot⟩
  · rw [is]
    exact ⟨.refl good, fun no => no⟩
  · rw [has] at lacks
    cases lacks

theorem keeps_call (lawful : W.Lawful) (execs : KeepsExec W n) {f : Closure}
    {arguments : List Value} (sound : Moment.Sound W ⟨.call n f arguments, m⟩) :
    Ends (callClosure (exec W.turns n) f arguments) m (fun v m' => Kept W m m' ∧ v.Sound W m')
      (Fine W ⟨.call n f arguments, m⟩) := by
  obtain ⟨ready, length, values⟩ := sound.placed
  have opened := ends_openCall lawful sound.good ready length values
  rw [callClosure]
  refine opened.bind (fun env m₁ run post => ?_) fun _ _ no => no.elim
  obtain ⟨kept, rfl, _, _⟩ := post
  have body := keeps_runAll lawful execs (sound_body lawful sound run)
  rw [ends_bind, ends_inEnvironment]
  refine body.mono (fun completion m₂ _ post => ?_) fun failure m₂ fine => ?_
  · obtain ⟨inside, soundc⟩ := post
    have left := kept.trans inside.leave
    have grows : Grows W m₂ { m₂ with environment := m₁.environment } :=
      .of_store rfl (Nat.le_refl _)
    have object : f.kind = .initializer → Ends (callClosure.boundObject f)
        { m₂ with environment := m₁.environment } (fun v m' => Kept W m m' ∧ v.Sound W m')
        (Fine W ⟨.call n f arguments, m⟩) := by
      intro kind
      obtain ⟨k, found, has⟩ := ready.boundObject lawful kind
      have bound := ends_boundObject left.good ⟨k, found, left.grows.slots k _ has⟩
      exact bound.mono (fun v m' _ post => ⟨left.trans post.1, post.2⟩) fun failure m' post =>
        .of_plain (left.trans post.1) post.2
    cases completion with
    | normal =>
      dsimp only
      split
      · exact object ‹_›
      · exact ⟨left, trivial⟩
    | returned v =>
      have value : v.Sound W m₂ := soundc
      dsimp only
      split
      · exact object ‹_›
      · exact ⟨left, value.grow grows⟩
    | exited keyword => exact .of_plain left fun no => no
  · refine ⟨kept.trans fine.kept.leave, fun clean isInternal => ?_⟩
    obtain ⟨M', steps, misses⟩ := fine.internal clean isInternal
    exact ⟨M', .head (.body run) steps, misses⟩

section Invoke

variable {f : Expr Distance} {paren : Token} {es : List (Expr Distance)} {vs : List Value}

theorem sound_call {c : Closure} (lawful : W.Lawful)
    (passed : W.passes ⟨.eval (n + 1) (.call f paren es), m⟩)
    (run : eval W.turns n f m = (.ok (.function c), m₁))
    (run₁ : evalAll (eval W.turns n) es m₁ = (.ok vs, m₂))
    (check : checkCall paren (.function c) vs.length = .ok ()) (good : m₂.Good W)
    (sound : Value.Sound W m₂ (.function c)) (values : ∀ v ∈ vs, v.Sound W m₂) :
    Moment.Sound W ⟨.call n c vs, m₂⟩ :=
  ⟨lawful.starts passed (.call run run₁ check), good, sound, length_of_checkCall check rfl, values⟩

/-- The initializer of a new object is bound to it. -/
theorem sound_bindInit {c : Class} {init : Closure} (lawful : W.Lawful)
    (passed : W.passes ⟨.eval (n + 1) (.call f paren es), m⟩)
    (run : eval W.turns n f m = (.ok (.class c), m₁))
    (run₁ : evalAll (eval W.turns n) es m₁ = (.ok vs, m₂))
    (check : checkCall paren (.class c) vs.length = .ok ()) (good : m₂.Good W)
    (sound : Value.Sound W m₂ (.class c)) (found : c.findMethod initName = some init) :
    Moment.Sound W ⟨.bind init (.instance ⟨m₂.fields.size, c⟩),
      { m₂ with fields := m₂.fields.push [] }⟩ := by
  have created := Kept.newObject good
  have ready : c.Ready W m₂ := sound
  have ready' := ready.grow created.grows
  exact ⟨lawful.starts passed (.bindInit run run₁ check found rfl), created.good,
    ready'.methods _ _ found, by simp, ready'⟩

/-- The initializer that was bound to a new object is called. -/
theorem sound_callInit {c : Class} {init bound : Closure} (lawful : W.Lawful)
    (passed : W.passes ⟨.eval (n + 1) (.call f paren es), m⟩)
    (run : eval W.turns n f m = (.ok (.class c), m₁))
    (run₁ : evalAll (eval W.turns n) es m₁ = (.ok vs, m₂))
    (check : checkCall paren (.class c) vs.length = .ok ()) (good : m₂.Good W)
    (values : ∀ v ∈ vs, v.Sound W m₂) (found : c.findMethod initName = some init)
    (run₂ :
      bindMethod init (.instance ⟨m₂.fields.size, c⟩) { m₂ with fields := m₂.fields.push [] } =
      (.ok bound, m₃))
    (kept : Kept W { m₂ with fields := m₂.fields.push [] } m₃) (ready : Ready W m₃ [] bound)
    (params : bound.params = init.params) : Moment.Sound W ⟨.call n bound vs, m₃⟩ := by
  refine ⟨lawful.starts passed (.callInit run run₁ check found rfl run₂), kept.good, ready, ?_,
    fun v mem => (values v mem).grow ((Kept.newObject good).trans kept).grows⟩
  rw [params]
  refine length_of_checkCall check ?_
  simp [Value.arity?, Class.arity, found, Closure.arity]

/-- A call, behind its arguments. -/
theorem keeps_invoke {callee : Value} (lawful : W.Lawful) (execs : KeepsExec W n)
    (passed : W.passes ⟨.eval (n + 1) (.call f paren es), m⟩)
    (run : eval W.turns n f m = (.ok callee, m₁))
    (run₁ : evalAll (eval W.turns n) es m₁ = (.ok vs, m₂))
    (check : checkCall paren callee vs.length = .ok ()) (kept : Kept W m m₂)
    (sound : callee.Sound W m₂) (values : ∀ v ∈ vs, v.Sound W m₂) :
    Ends (invoke (exec W.turns n) callee vs) m₂ (fun v m' => Kept W m m' ∧ v.Sound W m')
      (Fine W ⟨.eval (n + 1) (.call f paren es), m⟩) := by
  cases callee with
  | function c =>
    have called := keeps_call lawful execs
      (sound_call lawful passed run run₁ check kept.good sound values)
    exact called.mono (fun v m' _ post => ⟨kept.trans post.1, post.2⟩) fun failure m' fine =>
      .of_starts kept (.call run run₁ check) fine
  | «class» c =>
    have created := Kept.newObject kept.good
    have object : Value.Sound W _ (.instance ⟨m₂.fields.size, c⟩) :=
      ⟨by simp, Class.Ready.grow created.grows sound⟩
    rw [invoke, instantiate, ends_bind]
    show Ends _ { m₂ with fields := m₂.fields.push [] } _ _
    split
    · exact ⟨kept.trans created, object⟩
    · rename_i init found
      have binding := sound_bindInit lawful passed run run₁ check kept.good sound found
      have bound := ends_bindMethod lawful created.good binding.placed.1 object binding.passed
      refine bound.bind (fun g m₃ run₂ post => ?_) fun _ _ no => no.elim
      obtain ⟨kept₃, readyBound, params, _⟩ := post
      have sofar := kept.trans (created.trans kept₃)
      have called := keeps_call lawful execs (sound_callInit lawful passed run run₁ check kept.good
        values found run₂ kept₃ readyBound params)
      rw [ends_bind]
      refine called.mono (fun v m' _ post => ?_) fun failure m' fine =>
        .of_starts sofar (.callInit run run₁ check found rfl run₂) fine
      exact ⟨sofar.trans post.1, object.grow (kept₃.trans post.1).grows⟩
  | clock => exact ⟨kept.trans (.of_same kept.good rfl rfl rfl), trivial⟩
  | _ => exact ⟨kept, trivial⟩

end Invoke

end LoxLang
