/-
LoxLang.Proofs.Store.Logged: frames are told by the steps that were taken on them.

A frame keeps the names with values apart from those without, so that the state of a name is told by
two containers, which every step has to keep in line.  Frames make up a tree: a child is linked to
the frame that it stands in, and a closure keeps the way outwards from there.  Names can be
declared, defined and assigned on every frame, in whatever order, while the tree grows.

What the two containers of all frames say is a store with one state for each name, and each step on
the frames is the step of this store, with the same failure if there is one.

* `FrameTree`: frames with their links; `step`, `FrameTree.replay`.
* `view`: the store of states that the frames stand for.
* `Frame.OneState`, `Sound`: what every step keeps.
* `ToldBy`: everything that the steps tell about a tree.

Main statements: `Sound.step_exact`, a step on the frames is the step of the store of states;
`frames_told_by_log`.
-/
import LoxLang.Proofs.Machine.Changes
import LoxLang.Proofs.Store.States
import Mathlib.Data.List.Lattice

namespace LoxLang

variable {α : Type}

/-! ## Two containers -/

/-- No name of a frame has a value and has none. -/
def Frame.OneState (frame : Frame α) : Prop :=
  (namesOf frame.values).Disjoint frame.uninitialized

namespace Frame

variable {frame : Frame α} {x : String}

/-- In an empty frame no name is in either container. -/
theorem oneState_empty : (empty : Frame α).OneState := List.disjoint_nil_left _

/-- A change of a name puts it into one container and takes it out of the other one. -/
theorem OneState.put (h : frame.OneState) (name : String) (slot : Slot α) :
    (frame.put name slot).OneState := by
  intro x valued pending
  cases slot with
  | value a =>
    obtain ⟨pending, other⟩ := List.mem_filter.mp pending
    rcases mem_namesOf_putEntry.mp valued with rfl | valued
    · simp at other
    · exact h valued pending
  | uninitialized =>
    obtain ⟨other, valued⟩ := mem_namesOf_removeEntry.mp valued
    exact h valued ((List.mem_insert_iff.mp pending).resolve_left other)

/-- The state of a name is a value if and only if the container of values has it. -/
theorem slot?_eq_value_iff {a : α} : frame.slot? x = some (.value a) ↔ frame.value? x = some a := by
  rw [slot?]
  cases frame.value? x with
  | some b => simp
  | none => cases frame.isUninitialized x <;> simp

/-- A name without a value is told by the second container alone. -/
theorem OneState.slot?_eq_uninitialized_iff (h : frame.OneState) :
    frame.slot? x = some .uninitialized ↔ frame.isUninitialized x = true := by
  rw [slot?]
  cases held : frame.value? x with
  | none => cases frame.isUninitialized x <;> simp
  | some a =>
    have valued : x ∈ namesOf frame.values :=
      (isSome_entryOf? _ x).mp (Option.isSome_of_eq_some held)
    simpa [isUninitialized] using h valued

end Frame

/-! ## Trees of frames -/

/-- Frames, with the environment that begins with each of them and the frame that each is a child
of. -/
structure FrameTree (α : Type) where
  store : Store α
  environments : List Environment
  links : List (Option FrameId)

namespace FrameTree

/-- A single frame. -/
def start : FrameTree α := ⟨.start, [Store.globalEnvironment], [none]⟩

/-- The environment that begins with a frame. -/
def environment (t : FrameTree α) (id : FrameId) : Environment := t.environments[id]?.getD []

/-- The states that the containers of the frames tell, and the links. -/
def view (t : FrameTree α) : TriStore α := ⟨t.links, t.store.slot?⟩

/-- The tree with one frame more. -/
def grown (t : FrameTree α) (id : FrameId) : FrameTree α :=
  let (env, store) := t.store.child (t.environment id)
  ⟨store, t.environments ++ [env], t.links ++ [if t.view.Has id then some id else none]⟩

/-- What a step makes of the tree, if it does not fail.  A child of a frame that is not there
begins a tree of its own. -/
def step (t : FrameTree α) : FrameStep α → Except Failure (FrameTree α)
  | .child id => .ok (t.grown id)
  | .define id name a => .ok { t with store := t.store.define id name a }
  | .declare id name => .ok { t with store := t.store.declare id name }
  | .assign id name a => return { t with store := ← t.store.assign (t.environment id) name a }
  | .assignAt id distance name a =>
    return { t with store := ← t.store.assignAt (t.environment id) distance name a }

/-- The tree after a step; one that fails leaves it as it is. -/
def next (t : FrameTree α) (s : FrameStep α) : FrameTree α := (t.step s).toOption.getD t

/-- The tree after the steps, the oldest of which is the first. -/
def replay (log : List (FrameStep α)) : FrameTree α := log.foldl next start

/-! ## What every step keeps -/

/-- Every frame is in one state, and its environment is the frame and the environment of the one
that it is a child of. -/
structure Sound (t : FrameTree α) : Prop where
  frames : t.store.frames.size = t.links.length
  environments : t.environments.length = t.links.length
  enclosed : ∀ id f, t.view.enclosing? id = some f → t.view.Has f
  environment : ∀ id, t.environment id =
    if t.view.Has id then id :: (t.view.enclosing? id).elim [] t.environment else []
  oneState : ∀ (id : FrameId) frame, t.store.frames[id]? = some frame → frame.OneState

variable {t t' : FrameTree α}

theorem view_links (t : FrameTree α) : t.view.links = t.links := rfl

/-- The states that are seen are those that the two containers tell. -/
theorem view_state (t : FrameTree α) : t.view.state = t.store.slot? := rfl

/-- The tree begins with the frame of the globals, which is empty. -/
theorem sound_start : (start : FrameTree α).Sound where
  frames := rfl
  environments := rfl
  enclosed id f h := by
    cases id <;> cases h
  environment id := by
    cases id with
    | zero => rfl
    | succ id => rfl
  oneState id frame found := by
    cases id with
    | zero =>
      cases found
      exact Frame.oneState_empty
    | succ id => cases found

/-- The tree with another state of a name in a frame. -/
def put (t : FrameTree α) (id : FrameId) (name : String) (slot : Slot α) : FrameTree α :=
  { t with store := t.store.put id name slot }

/-- To put a name into a frame leaves the links alone. -/
theorem Sound.put (sound : t.Sound) (id : FrameId) (name : String) (slot : Slot α) :
    (t.put id name slot).Sound where
  frames := by rw [FrameTree.put, Store.size_put, sound.frames]
  environments := sound.environments
  enclosed := sound.enclosed
  environment := sound.environment
  oneState id' frame found := by
    simp only [FrameTree.put, Store.put_eq, Array.getElem?_modify] at found
    split at found
    · obtain ⟨before, held, rfl⟩ := Option.map_eq_some_iff.mp found
      exact (sound.oneState id' before held).put name slot
    · exact sound.oneState id' frame found

/-- There is no way outwards from a frame that is not there. -/
theorem Sound.environment_eq_nil (sound : t.Sound) {id : FrameId} (missing : ¬ t.view.Has id) :
    t.environment id = [] := by
  rw [sound.environment, if_neg missing]

/-- A new frame is seen as one. -/
theorem view_grown (t : FrameTree α) (id : FrameId) : (t.grown id).view = t.view.grown id := by
  have states : (t.grown id).store.slot? = t.store.slot? := by
    funext f x
    exact t.store.slot?_addFrame f x
  rw [view, states]
  rfl

/-- From the frames that were there the ways stay the same. -/
theorem Sound.environment_grown (sound : t.Sound) {id id' : FrameId} (before : t.view.Has id') :
    (t.grown id).environment id' = t.environment id' := by
  have inside : id' < t.environments.length := sound.environments ▸ before
  rw [FrameTree.environment, grown, List.getElem?_append_left inside, ← FrameTree.environment]

/-- From the new one the way leads through the frame that it is a child of. -/
theorem Sound.environment_grown_new (sound : t.Sound) (id : FrameId) :
    (t.grown id).environment t.links.length = t.links.length :: t.environment id := by
  simp [FrameTree.environment, grown, Store.child, ← sound.environments, sound.frames]

/-- The frame that one of the grown tree is a child of is there. -/
theorem Sound.enclosed_grown (sound : t.Sound) {id id' f : FrameId}
    (h : (t.view.grown id).enclosing? id' = some f) : (t.view.grown id).Has f := by
  obtain before | rfl | missing := TriStore.has_grown_cases t.view id id'
  · rw [TriStore.enclosing?_grown before] at h
    exact TriStore.has_grown.mpr (.inl (sound.enclosed id' f h))
  · rw [TriStore.enclosing?_grown_new] at h
    split at h <;> cases h
    rename_i known
    exact TriStore.has_grown.mpr (.inl known)
  · rw [TriStore.enclosing?_eq_none missing] at h
    cases h

/-- A frame that the grown tree lacks has no environment in it. -/
theorem Sound.environment_grown_missing (sound : t.Sound) {id id' : FrameId}
    (missing : ¬ (t.view.grown id).Has id') : (t.grown id).environment id' = [] := by
  have beyond : (t.grown id).environments.length ≤ id' := by
    refine Nat.le_of_not_lt fun less => missing ?_
    simpa [TriStore.Has, TriStore.grown, FrameTree.grown, view, sound.environments] using less
  rw [FrameTree.environment, List.getElem?_eq_none beyond]
  rfl

/-- In the grown tree, too, an environment is the frame and the environment of the one that it is a
child of. -/
theorem Sound.environment_grown_eq (sound : t.Sound) (id id' : FrameId) :
    (t.grown id).environment id' =
      if (t.view.grown id).Has id' then
        id' :: ((t.view.grown id).enclosing? id').elim [] (t.grown id).environment
      else [] := by
  obtain before | rfl | missing := TriStore.has_grown_cases t.view id id'
  · rw [sound.environment_grown before, if_pos (TriStore.has_grown.mpr (.inl before)),
      TriStore.enclosing?_grown before, sound.environment, if_pos before]
    cases around : t.view.enclosing? id' with
    | none => rfl
    | some f =>
      rw [Option.elim_some, Option.elim_some,
        sound.environment_grown (sound.enclosed id' f around)]
  · rw [if_pos (TriStore.has_grown.mpr (.inr rfl)), TriStore.enclosing?_grown_new, view_links,
      sound.environment_grown_new]
    split
    · rename_i known
      rw [Option.elim_some, sound.environment_grown known]
    · rename_i missing
      rw [sound.environment_eq_nil missing]
      rfl
  · rw [if_neg missing, sound.environment_grown_missing missing]

/-- So the tree with one frame more is sound. -/
theorem Sound.grown (sound : t.Sound) (id : FrameId) : (t.grown id).Sound where
  frames := by simp [FrameTree.grown, Store.child, sound.frames]
  environments := by simp [FrameTree.grown, sound.environments]
  enclosed id' f h := by
    rw [view_grown] at h ⊢
    exact sound.enclosed_grown h
  environment id' := by
    rw [view_grown]
    exact sound.environment_grown_eq id id'
  oneState id' frame found := by
    simp only [FrameTree.grown, Store.child, Store.addFrame, Array.getElem?_push] at found
    split at found
    · cases found
      exact Frame.oneState_empty
    · exact sound.oneState id' frame found

/-! ## Looking outwards -/

/-- The links lead along the environment. -/
theorem Sound.outwards?_eq (sound : t.Sound) (n : Nat) (id : FrameId) :
    t.view.outwards? n id = (t.environment id)[n]? := by
  induction n generalizing id with
  | zero =>
    rw [TriStore.outwards?, sound.environment]
    split <;> rfl
  | succ n ih =>
    rw [TriStore.outwards?, sound.environment]
    split
    · cases t.view.enclosing? id with
      | none => rfl
      | some f => exact ih f
    · rename_i missing
      rw [TriStore.enclosing?_eq_none missing]
      rfl

/-- A name that neither container has is absent. -/
theorem not_contains_iff {f : FrameId} {x : String} :
    (!t.store.contains f x) = true ↔ t.view.state f x = none := by
  rw [Store.contains_eq, view_state]
  cases t.store.slot? f x <;> simp

/-- The frame that has a name is found along the links. -/
theorem Sound.owner?_eq_some (sound : t.Sound) {id f : FrameId} {x : String} :
    t.store.owner? (t.environment id) x = some f ↔ t.view.Nearest id x f := by
  rw [Store.owner?, List.find?_eq_some_iff_getElem]
  constructor
  · rintro ⟨has, n, inside, rfl, before⟩
    refine ⟨n, by rw [sound.outwards?_eq, List.getElem?_eq_getElem inside], fun absent => ?_,
      fun m lt g out => ?_⟩
    · have lacks := not_contains_iff.mpr absent
      rw [has] at lacks
      cases lacks
    · rw [sound.outwards?_eq, List.getElem?_eq_getElem (Nat.lt_trans lt inside)] at out
      cases out
      exact not_contains_iff.mp (before m lt)
  · rintro ⟨n, out, has, before⟩
    rw [sound.outwards?_eq] at out
    obtain ⟨inside, rfl⟩ := List.getElem?_eq_some_iff.mp out
    refine ⟨?_, n, inside, rfl, fun m lt => not_contains_iff.mpr (before m lt _ ?_)⟩
    · rw [Store.contains_eq]
      exact Option.isSome_iff_ne_none.mpr has
    · rw [sound.outwards?_eq, List.getElem?_eq_getElem (Nat.lt_trans lt inside)]

/-- An assignment finds no frame if and only if all of them lack the name. -/
theorem Sound.owner?_eq_none (sound : t.Sound) {id : FrameId} {x : String} :
    t.store.owner? (t.environment id) x = none ↔ t.view.Lacks id x := by
  rw [Store.owner?, List.find?_eq_none]
  constructor
  · intro none n f out
    rw [sound.outwards?_eq] at out
    exact not_contains_iff.mp (by simpa using none f (List.mem_of_getElem? out))
  · intro lacks f mem
    obtain ⟨n, out⟩ := List.mem_iff_getElem?.mp mem
    simpa using not_contains_iff.mpr (lacks n f (by rw [sound.outwards?_eq, out]))

/-- So many frames outwards is so many links outwards. -/
theorem Sound.ancestor_eq (sound : t.Sound) (id : FrameId) (distance : Nat) :
    Store.ancestor (t.environment id) distance =
      match t.view.outwards? distance id with
      | some f => .ok f
      | none => .error (.internal none (.noScope distance)) := by
  rw [sound.outwards?_eq]
  rfl

/-! ## What is read -/

/-- What is read by name is what the store of states has. -/
theorem Sound.read_iff (sound : t.Sound) {id : FrameId} {name : Token} {r : Except Failure α} :
    t.store.read (t.environment id) name = r ↔ t.view.Reads id name r := by
  rw [Store.read_eq]
  constructor
  · rintro rfl
    cases owner : t.store.owner? (t.environment id) name.lexeme with
    | none => exact .undefined (sound.owner?_eq_none.mp owner)
    | some f =>
      have nearest := sound.owner?_eq_some.mp owner
      rw [Option.bind_some]
      cases state : t.store.slot? f name.lexeme with
      | none =>
        obtain ⟨n, -, has, -⟩ := nearest
        exact absurd state has
      | some slot =>
        cases slot with
        | value a => exact .value nearest state
        | uninitialized => exact .uninitialized nearest state
  · intro h
    cases h with
    | value nearest state =>
      have state : t.store.slot? _ name.lexeme = _ := state
      rw [sound.owner?_eq_some.mpr nearest, Option.bind_some, state]
    | uninitialized nearest state =>
      have state : t.store.slot? _ name.lexeme = _ := state
      rw [sound.owner?_eq_some.mpr nearest, Option.bind_some, state]
    | undefined lacks =>
      rw [sound.owner?_eq_none.mpr lacks]
      rfl

/-- So is what is read by distance. -/
theorem Sound.readAt_iff (sound : t.Sound) {id : FrameId} {distance : Nat} {x : String}
    {token : Option Token} {r : Except Failure α} :
    t.store.readAt (t.environment id) distance x token = r ↔
      t.view.ReadsAt id distance x token r := by
  rw [Store.readAt_eq, sound.ancestor_eq]
  constructor
  · rintro rfl
    cases out : t.view.outwards? distance id with
    | none => exact .nowhere out
    | some f =>
      cases state : t.store.slot? f x with
      | none =>
        simp only [bind, Except.bind, state]
        exact .missing out state
      | some slot =>
        cases slot with
        | value a =>
          simp only [bind, Except.bind, state]
          exact .value out state
        | uninitialized =>
          simp only [bind, Except.bind, state]
          exact .uninitialized out state
  · intro h
    cases h with
    | nowhere out =>
      rw [out]
      rfl
    | value out state | uninitialized out state | missing out state =>
      have state : t.store.slot? _ x = _ := state
      simp only [out, bind, Except.bind, state]

/-! ## What a step does -/

/-- To put a name into a frame sets its state there, and no other. -/
theorem Sound.view_put (sound : t.Sound) {f : FrameId} (has : t.view.Has f) (x : String)
    (slot : Slot α) : (t.put f x slot).view = t.view.set f x slot := by
  have states : (t.store.put f x slot).slot? =
      fun g y => if g = f ∧ y = x then some slot else t.store.slot? g y := by
    funext g y
    split
    · rename_i same
      obtain ⟨rfl, rfl⟩ := same
      exact t.store.slot?_put_self (sound.frames ▸ has) _ slot
    · rename_i other
      exact t.store.slot?_put_of_ne (Decidable.not_and_iff_not_or_not.mp other) slot
  rw [view, FrameTree.put, states]
  rfl

/-- In a frame that is not there nothing changes. -/
theorem Sound.view_put_of_not (sound : t.Sound) {f : FrameId} (missing : ¬ t.view.Has f)
    (x : String) (slot : Slot α) : (t.put f x slot).view = t.view := by
  have states : (t.store.put f x slot).slot? = t.store.slot? := by
    funext g y
    exact t.store.put_of_le (sound.frames ▸ Nat.le_of_not_lt missing) x slot g y
  rw [view, FrameTree.put, states]
  rfl

/-- A change of one name, seen as a step of the store of states. -/
theorem Sound.takes_put (sound : t.Sound) {s : FrameStep α} {f : FrameId} {x : String}
    (slot : Slot α) (targets : t.view.Has f → t.view.Targets s f x slot)
    (idles : ¬ t.view.Has f → t.view.Idles s) :
    t.view.Takes s (.ok (t.put f x slot).view) := by
  by_cases has : t.view.Has f
  · rw [sound.view_put has]
    exact .set (targets has)
  · rw [sound.view_put_of_not has]
    exact .idle (idles has)

/-- A step on the frames does to the states what the step of the store of states does, and it fails
where that fails. -/
theorem Sound.takes (sound : t.Sound) (s : FrameStep α) :
    t.view.Takes s ((t.step s).map view) := by
  cases s with
  | child id =>
    show t.view.Takes (.child id) (.ok (t.grown id).view)
    rw [view_grown]
    exact .child
  | define id x a => exact sound.takes_put (.value a) .define .define
  | declare id x => exact sound.takes_put .uninitialized .declare .declare
  | assign id name a =>
    rw [step, Store.assign, Store.target]
    cases owner : t.store.owner? (t.environment id) name.lexeme with
    | none => exact .refuse (.assign (sound.owner?_eq_none.mp owner))
    | some f =>
      have targets : t.view.Targets (.assign id name a) f name.lexeme (.value a) :=
        .assign (sound.owner?_eq_some.mp owner)
      exact sound.takes_put (.value a) (fun _ => targets) (absurd targets.has)
  | assignAt id distance x a =>
    rw [step, Store.assignAt, sound.ancestor_eq]
    cases out : t.view.outwards? distance id with
    | none => exact .refuse (.assignAt out)
    | some f =>
      have targets : t.view.Targets (.assignAt id distance x a) f x (.value a) := .assignAt out
      exact sound.takes_put (.value a) (fun _ => targets) (absurd targets.has)

/-- The store of states takes no other step. -/
theorem Sound.step_exact (sound : t.Sound) {s : FrameStep α} {r : Except Failure (TriStore α)} :
    (t.step s).map view = r ↔ t.view.Takes s r := by
  constructor
  · rintro rfl
    exact sound.takes s
  · exact (sound.takes s).unique

/-- A step fails if and only if the store of states refuses it, with the same failure. -/
theorem Sound.step_eq_error_iff (sound : t.Sound) {s : FrameStep α} {e : Failure} :
    t.step s = .error e ↔ t.view.Refuses s e := by
  have mapped : (t.step s).map view = .error e ↔ t.step s = .error e := by
    cases t.step s <;> simp [Except.map]
  rw [← mapped, sound.step_exact]
  constructor
  · intro takes
    cases takes with
    | refuse refuses => exact refuses
  · exact .refuse

/-- A step that fails changes nothing. -/
theorem next_of_error {s : FrameStep α} {e : Failure} (h : t.step s = .error e) : t.next s = t := by
  rw [next, h]
  rfl

/-- What is seen behind a step is what the step leaves, if it does not fail. -/
theorem view_next (t : FrameTree α) (s : FrameStep α) :
    (t.next s).view = ((t.step s).map view).toOption.getD t.view := by
  rw [next]
  cases t.step s <;> rfl

/-- Every step leaves a sound tree. -/
theorem Sound.next (sound : t.Sound) (s : FrameStep α) : (t.next s).Sound := by
  cases s with
  | child id => exact sound.grown id
  | define id x a => exact sound.put id x (.value a)
  | declare id x => exact sound.put id x .uninitialized
  | assign id name a =>
    rw [FrameTree.next, step, Store.assign]
    cases t.store.target (t.environment id) name with
    | error e => exact sound
    | ok f => exact sound.put f name.lexeme (.value a)
  | assignAt id distance x a =>
    rw [FrameTree.next, step, Store.assignAt]
    cases Store.ancestor (t.environment id) distance with
    | error e => exact sound
    | ok f => exact sound.put f x (.value a)

/-! ## Many steps -/

theorem replay_append (log : List (FrameStep α)) (s : FrameStep α) :
    replay (log ++ [s]) = (replay log).next s := by
  rw [replay, List.foldl_append]
  rfl

/-- So every log leads to a sound tree, by induction on the log. -/
theorem sound_replay (log : List (FrameStep α)) : (replay log).Sound := by
  induction log using List.reverseRecOn with
  | nil => exact sound_start
  | append_singleton log s ih =>
    rw [replay_append]
    exact ih.next s

theorem view_start : (start : FrameTree α).view = .start := by
  have states : (Store.start : Store α).slot? = fun _ _ => none := by
    funext f x
    cases f <;> rfl
  rw [view, start, states]
  rfl

/-- The steps on the frames are a run of the store of states. -/
theorem runs_replay (log : List (FrameStep α)) : TriStore.start.Runs log (replay log).view := by
  induction log using List.reverseRecOn with
  | nil =>
    rw [replay, List.foldl_nil, view_start]
    exact .nil
  | append_singleton log s ih =>
    rw [replay_append, view_next]
    exact TriStore.runs_snoc.mpr ⟨_, _, ih, (sound_replay log).takes s, rfl⟩

/-! ## What the steps tell -/

/-- Everything that the steps tell about a tree of frames. -/
structure ToldBy (t : FrameTree α) (log : List (FrameStep α)) : Prop where
  /-- No name of a frame has a value and has none. -/
  oneState : ∀ frame ∈ t.store.frames, frame.OneState
  /-- A value in a frame is the state of its name. -/
  valued : ∀ f x a, t.view.state f x = some (.value a) ↔ t.store.value? f x = some a
  /-- So is being declared and having none. -/
  uninitialized : ∀ f x,
    t.view.state f x = some .uninitialized ↔ t.store.isUninitialized f x = true
  /-- The steps so far are a run of the store of states. -/
  ran : TriStore.start.Runs log t.view
  /-- Whatever the next step is, the store of states takes just this one. -/
  takes : ∀ s r, (t.step s).map view = r ↔ t.view.Takes s r
  /-- A name that is not absent from a frame is in the state that was set last. -/
  lastSet : ∀ f x slot, t.view.state f x = some slot ↔ TriStore.LastSet log f x slot
  /-- The links end. -/
  ends : ∀ id, ∃ n, t.view.outwards? n id = none
  /-- A read by name is about the nearest frame that has the name. -/
  reads : ∀ id (name : Token) r,
    t.store.read (t.environment id) name = r ↔ t.view.Reads id name r
  /-- A read by distance is about the frame that is so many links outwards. -/
  readsAt : ∀ id distance x token r,
    t.store.readAt (t.environment id) distance x token = r ↔ t.view.ReadsAt id distance x token r
  /-- Nothing fails but an assignment without a frame to take place in. -/
  refuses : ∀ s e, t.step s = .error e ↔ t.view.Refuses s e
  /-- What fails changes nothing. -/
  unchanged : ∀ s e, t.view.Refuses s e → t.next s = t
  /-- A step sets one name in one frame, and nothing else changes. -/
  oneTarget : ∀ s f x slot g y slot', t.view.Targets s f x slot → t.view.Targets s g y slot' →
    f = g ∧ x = y ∧ slot = slot'
  sets : ∀ s f x slot, (t.next s).view.state f x = some slot ↔ t.view.Targets s f x slot ∨
    (∀ slot', ¬ t.view.Targets s f x slot') ∧ t.view.state f x = some slot

/-- A name has a value if and only if its frame's container of values has it. -/
theorem state_eq_value_iff (t : FrameTree α) (f : FrameId) (x : String) (a : α) :
    t.view.state f x = some (.value a) ↔ t.store.value? f x = some a := by
  rw [view_state, Store.slot?, Store.value?]
  cases t.store.frames[f]? with
  | none => simp
  | some frame => exact Frame.slot?_eq_value_iff

/-- It is uninitialized if and only if the other container has it. -/
theorem Sound.state_eq_uninitialized_iff (sound : t.Sound) (f : FrameId) (x : String) :
    t.view.state f x = some .uninitialized ↔ t.store.isUninitialized f x = true := by
  rw [view_state, Store.slot?, Store.isUninitialized]
  cases found : t.store.frames[f]? with
  | none => simp
  | some frame => exact (sound.oneState f frame found).slot?_eq_uninitialized_iff

end FrameTree

/-- **Frames are told by their log.**  Whatever steps a tree of frames has taken, on whichever of
its frames: no name is in both containers of a frame, and what the containers tell is a store of
states that has taken the same steps.  Each name is in each frame absent, uninitialized or has a
value, as the last step that set it there left it; reads and assignments find their frame along the
links; what fails changes nothing, and what succeeds changes no more than one name in one frame. -/
theorem frames_told_by_log (log : List (FrameStep α)) : (FrameTree.replay log).ToldBy log := by
  have sound := FrameTree.sound_replay log
  constructor
  case oneState =>
    intro frame mem
    obtain ⟨id, found⟩ := Array.mem_iff_getElem?.mp mem
    exact sound.oneState id frame found
  case valued => exact FrameTree.state_eq_value_iff _
  case uninitialized => exact sound.state_eq_uninitialized_iff
  case ran => exact FrameTree.runs_replay log
  case takes => exact fun s r => sound.step_exact
  case lastSet => exact fun f x slot => (FrameTree.runs_replay log).state_iff
  case ends =>
    intro id
    exact ⟨_, (sound.outwards?_eq _ id).trans (List.getElem?_eq_none (Nat.le_refl _))⟩
  case reads => exact fun id name r => sound.read_iff
  case readsAt => exact fun id distance x token r => sound.readAt_iff
  case refuses => exact fun s e => sound.step_eq_error_iff
  case unchanged =>
    exact fun s e refuses => FrameTree.next_of_error (sound.step_eq_error_iff.mpr refuses)
  case oneTarget => exact fun s f x slot g y slot' first second => first.unique second
  case sets =>
    intro s f x slot
    rw [FrameTree.view_next]
    exact (sound.takes s).state_iff

/-- A declaration hides the value around it from reads; an assignment gives the inner name a value,
and the outer one keeps its own. -/
example :
    let x : Token := ⟨.identifier, "x", .nil, 1⟩
    let t : FrameTree Nat := .replay [.define 0 "x" 1, .child 0, .child 1, .declare 1 "x"]
    let t' := t.next (.assign 2 x 5)
    t.store.read (t.environment 2) x = .error (.runtime (some x) (.uninitialized "x")) ∧
      t'.store.slot? 1 "x" = some (.value 5) ∧ t'.store.slot? 0 "x" = some (.value 1) :=
  ⟨rfl, rfl, rfl⟩

end LoxLang
