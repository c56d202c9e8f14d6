/-
LoxLang.Proofs.Store.States: a store in which every name has one of three states.

In a frame a name is absent, uninitialized, or has a value.  The store here keeps this state of
every name in every frame, the frame that each frame is a child of, and nothing else.  What a step
on a frame does is said with the links alone: `define` and `declare` mean their own frame,
`assignAt` the one that is so many links outwards, and `assign` the nearest one outwards in which
the name is not absent, be it with a value or without.  The frames of a program are measured against
this store.

* `FrameStep`: the steps on a tree of frames.
* `TriStore`: links and states; `outwards?`, `Nearest`: the frame so many links outwards, the
  nearest one that has a name.
* `Reads`, `ReadsAt`: what is read by name and by distance.
* `Targets`, `Refuses`: what a step sets, and when it fails; `Takes`, `Runs`: what becomes of the
  store by a step and by a list of them.
* `LastSet`: what was set last.

Main statements: `Takes.unique` and `Takes.state_iff`, a step has one outcome and changes what it
targets; `Runs.state_iff`, the states are those that were set last.
-/
import LoxLang.Store.Basic
import Mathlib.Data.List.Basic
import Mathlib.Data.List.Induction

namespace LoxLang

variable {α : Type}

/-! ## Steps -/

/-- A step on the frames of a tree, which are meant by their numbers. -/
inductive FrameStep (α : Type) where
  | child (id : FrameId)
  | define (id : FrameId) (name : String) (a : α)
  | declare (id : FrameId) (name : String)
  | assign (id : FrameId) (name : Token) (a : α)
  | assignAt (id : FrameId) (distance : Nat) (name : String) (a : α)

/-- The frame that each frame is a child of, and the state of every name in every frame; there is
none for a name that is absent. -/
structure TriStore (α : Type) where
  links : List (Option FrameId)
  state : FrameId → String → Option (Slot α)

namespace TriStore

/-- A single frame, in which every name is absent. -/
def start : TriStore α := ⟨[none], fun _ _ => none⟩

variable (t : TriStore α)

/-- The frame is there. -/
def Has (id : FrameId) : Prop := id < t.links.length

instance (id : FrameId) : Decidable (t.Has id) := inferInstanceAs (Decidable (id < _))

/-- The frame that a frame is a child of. -/
def enclosing? (id : FrameId) : Option FrameId := t.links[id]?.join

/-- The frame that is so many links outwards. -/
def outwards? : Nat → FrameId → Option FrameId
  | 0, id => if t.Has id then some id else none
  | n + 1, id => (t.enclosing? id).bind (outwards? n)

/-- No frame outwards has the name. -/
def Lacks (id : FrameId) (name : String) : Prop :=
  ∀ n f, t.outwards? n id = some f → t.state f name = none

/-- The nearest frame outwards that has the name, with a value or without. -/
def Nearest (id : FrameId) (name : String) (f : FrameId) : Prop :=
  ∃ n, t.outwards? n id = some f ∧ t.state f name ≠ none ∧
    ∀ m < n, ∀ g, t.outwards? m id = some g → t.state g name = none

/-! ## What a step does -/

/-- What is read by name: the value in the nearest frame that has the name.  A name without a value
there is not looked for any further. -/
inductive Reads (id : FrameId) (name : Token) : Except Failure α → Prop
  | value {f : FrameId} {a : α} :
    t.Nearest id name.lexeme f → t.state f name.lexeme = some (.value a) → Reads id name (.ok a)
  | uninitialized {f : FrameId} :
    t.Nearest id name.lexeme f → t.state f name.lexeme = some .uninitialized →
      Reads id name (.error (.runtime (some name) (.uninitialized name.lexeme)))
  | undefined :
    t.Lacks id name.lexeme →
      Reads id name (.error (.runtime (some name) (.undefinedRead name.lexeme)))

/-- What is read by distance: the value in the frame that is so many links outwards. -/
inductive ReadsAt (id : FrameId) (distance : Nat) (name : String) (token : Option Token) :
    Except Failure α → Prop
  | value {f : FrameId} {a : α} :
    t.outwards? distance id = some f → t.state f name = some (.value a) →
      ReadsAt id distance name token (.ok a)
  | uninitialized {f : FrameId} :
    t.outwards? distance id = some f → t.state f name = some .uninitialized →
      ReadsAt id distance name token (.error (.runtime token (.uninitialized name)))
  | missing {f : FrameId} :
    t.outwards? distance id = some f → t.state f name = none →
      ReadsAt id distance name token (.error (.internal token (.missingFromScope name)))
  | nowhere :
    t.outwards? distance id = none →
      ReadsAt id distance name token (.error (.internal none (.noScope distance)))

/-- The step sets the state of the name in the frame. -/
inductive Targets : FrameStep α → FrameId → String → Slot α → Prop
  | define {id : FrameId} {name : String} {a : α} :
    t.Has id → Targets (.define id name a) id name (.value a)
  | declare {id : FrameId} {name : String} :
    t.Has id → Targets (.declare id name) id name .uninitialized
  | assign {id f : FrameId} {name : Token} {a : α} :
    t.Nearest id name.lexeme f → Targets (.assign id name a) f name.lexeme (.value a)
  | assignAt {id f : FrameId} {distance : Nat} {name : String} {a : α} :
    t.outwards? distance id = some f → Targets (.assignAt id distance name a) f name (.value a)

/-- The step fails. -/
inductive Refuses : FrameStep α → Failure → Prop
  | assign {id : FrameId} {name : Token} {a : α} :
    t.Lacks id name.lexeme →
      Refuses (.assign id name a) (.runtime (some name) (.undefinedWrite name.lexeme))
  | assignAt {id : FrameId} {distance : Nat} {name : String} {a : α} :
    t.outwards? distance id = none →
      Refuses (.assignAt id distance name a) (.internal none (.noScope distance))

/-- The step is about a frame that is not there. -/
inductive Idles : FrameStep α → Prop
  | define {id : FrameId} {name : String} {a : α} : ¬ t.Has id → Idles (.define id name a)
  | declare {id : FrameId} {name : String} : ¬ t.Has id → Idles (.declare id name)

/-- The store with another state of a name in a frame. -/
def set (f : FrameId) (x : String) (slot : Slot α) : TriStore α :=
  { t with state := fun g y => if g = f ∧ y = x then some slot else t.state g y }

/-- The store with one frame more.  A child of a frame that is not there begins a tree of its
own. -/
def grown (id : FrameId) : TriStore α :=
  { t with links := t.links ++ [if t.Has id then some id else none] }

/-- What a step makes of the store. -/
inductive Takes : FrameStep α → Except Failure (TriStore α) → Prop
  | child {id : FrameId} : Takes (.child id) (.ok (t.grown id))
  | set {s : FrameStep α} {f : FrameId} {x : String} {slot : Slot α} :
    t.Targets s f x slot → Takes s (.ok (t.set f x slot))
  | idle {s : FrameStep α} : t.Idles s → Takes s (.ok t)
  | refuse {s : FrameStep α} {e : Failure} : t.Refuses s e → Takes s (.error e)

/-- What steps make of the store, one after another; one that fails leaves it as it is. -/
inductive Runs : TriStore α → List (FrameStep α) → TriStore α → Prop
  | nil {t : TriStore α} : Runs t [] t
  | cons {t t' : TriStore α} {s : FrameStep α} {r : Except Failure (TriStore α)}
      {log : List (FrameStep α)} :
    t.Takes s r → Runs (r.toOption.getD t) log t' → Runs t (s :: log) t'

/-- The last of the steps that set the state of the name in the frame set it so. -/
def LastSet (log : List (FrameStep α)) (f : FrameId) (x : String) (slot : Slot α) : Prop :=
  ∃ before s after t, log = before ++ s :: after ∧ start.Runs before t ∧ t.Targets s f x slot ∧
    ∀ between s' rest u, after = between ++ s' :: rest → start.Runs (before ++ s :: between) u →
      ∀ slot', ¬ u.Targets s' f x slot'

/-! ## One more frame -/

variable {t}

theorem has_grown {id id' : FrameId} : (t.grown id).Has id' ↔ t.Has id' ∨ id' = t.links.length := by
  unfold Has grown
  rw [List.length_append, List.length_singleton]
  exact Nat.lt_succ_iff_lt_or_eq

/-- A frame is one that was there, or the new one, or none of the grown store. -/
theorem has_grown_cases (t : TriStore α) (id id' : FrameId) :
    t.Has id' ∨ id' = t.links.length ∨ ¬ (t.grown id).Has id' := by
  rw [has_grown, ← or_assoc]
  exact Classical.em _

/-- The links that there were stay. -/
theorem enclosing?_grown {id id' : FrameId} (before : t.Has id') :
    (t.grown id).enclosing? id' = t.enclosing? id' := by
  rw [enclosing?, grown, List.getElem?_append_left before, ← enclosing?]

/-- The new frame is linked to the one that it was made for. -/
theorem enclosing?_grown_new (t : TriStore α) (id : FrameId) :
    (t.grown id).enclosing? t.links.length = if t.Has id then some id else none := by
  simp [enclosing?, grown]

theorem enclosing?_eq_none {id : FrameId} (missing : ¬ t.Has id) : t.enclosing? id = none := by
  rw [enclosing?, List.getElem?_eq_none (Nat.le_of_not_lt missing)]
  rfl

/-! ## A step has one outcome -/

variable {t' u : TriStore α} {s : FrameStep α} {f g : FrameId} {x y : String} {slot slot' : Slot α}
  {e e' : Failure} {r r' : Except Failure (TriStore α)} {log : List (FrameStep α)}

theorem Nearest.unique {id : FrameId} (first : t.Nearest id x f) (second : t.Nearest id x g) :
    f = g := by
  obtain ⟨n, out, has, before⟩ := first
  obtain ⟨m, out', has', before'⟩ := second
  rcases Nat.lt_trichotomy n m with less | rfl | more
  · exact absurd (before' n less f out) has
  · exact Option.some.inj (out.symm.trans out')
  · exact absurd (before m more g out') has'

theorem Nearest.not_lacks {id : FrameId} (nearest : t.Nearest id x f) : ¬ t.Lacks id x := by
  obtain ⟨n, out, has, -⟩ := nearest
  exact fun lacks => has (lacks n f out)

/-- A frame that is somewhere outwards is there. -/
theorem has_of_outwards? {n : Nat} {id : FrameId} (out : t.outwards? n id = some f) : t.Has f := by
  induction n generalizing id with
  | zero =>
    rw [outwards?] at out
    split at out <;> cases out
    assumption
  | succ n ih =>
    obtain ⟨outer, -, out⟩ := Option.bind_eq_some_iff.mp out
    exact ih out

/-- What a step sets is a name in a frame that is there. -/
theorem Targets.has (h : t.Targets s f x slot) : t.Has f := by
  cases h with
  | define has => exact has
  | declare has => exact has
  | assign nearest =>
    obtain ⟨n, out, -⟩ := nearest
    exact has_of_outwards? out
  | assignAt out => exact has_of_outwards? out

/-- A step sets one state of one name in one frame. -/
theorem Targets.unique (h : t.Targets s f x slot) (h' : t.Targets s g y slot') :
    f = g ∧ x = y ∧ slot = slot' := by
  cases h with
  | define has => cases h'; exact ⟨rfl, rfl, rfl⟩
  | declare has => cases h'; exact ⟨rfl, rfl, rfl⟩
  | assign nearest =>
    cases h' with
    | assign nearest' => exact ⟨nearest.unique nearest', rfl, rfl⟩
  | assignAt out =>
    cases h' with
    | assignAt out' => exact ⟨Option.some.inj (out.symm.trans out'), rfl, rfl⟩

/-- A step that fails sets nothing. -/
theorem Refuses.not_targets (h : t.Refuses s e) : ¬ t.Targets s f x slot := by
  intro targets
  cases h with
  | assign lacks =>
    cases targets with
    | assign nearest => exact nearest.not_lacks lacks
  | assignAt nowhere =>
    cases targets with
    | assignAt out => cases nowhere.symm.trans out

theorem Refuses.unique (h : t.Refuses s e) (h' : t.Refuses s e') : e = e' := by
  cases h <;> cases h' <;> rfl

theorem Idles.not_targets (h : t.Idles s) : ¬ t.Targets s f x slot := by
  intro targets
  cases h with
  | define missing =>
    cases targets with
    | define has => exact missing has
  | declare missing =>
    cases targets with
    | declare has => exact missing has

theorem Idles.not_refuses (h : t.Idles s) : ¬ t.Refuses s e := by
  intro refuses
  cases h <;> cases refuses

/-- There is one outcome of a step at most. -/
theorem Takes.unique (h : t.Takes s r) (h' : t.Takes s r') : r = r' := by
  cases h with
  | child =>
    cases h' with
    | child => rfl
    | set targets => cases targets
    | idle idles => cases idles
    | refuse refuses => cases refuses
  | set targets =>
    cases h' with
    | child => cases targets
    | set targets' =>
      obtain ⟨rfl, rfl, rfl⟩ := targets.unique targets'
      rfl
    | idle idles => exact absurd targets idles.not_targets
    | refuse refuses => exact absurd targets refuses.not_targets
  | idle idles =>
    cases h' with
    | child => cases idles
    | set targets => exact absurd targets idles.not_targets
    | idle _ => rfl
    | refuse refuses => exact absurd refuses idles.not_refuses
  | refuse refuses =>
    cases h' with
    | child => cases refuses
    | set targets => exact absurd targets refuses.not_targets
    | idle idles => exact absurd refuses idles.not_refuses
    | refuse refuses' => rw [refuses.unique refuses']

/-- Behind a step, what it sets has been set, and all else is as it was. -/
theorem Takes.state_iff (h : t.Takes s r) : (r.toOption.getD t).state f x = some slot ↔
    t.Targets s f x slot ∨ (∀ slot', ¬ t.Targets s f x slot') ∧ t.state f x = some slot := by
  have kept (none : ∀ slot', ¬ t.Targets s f x slot') : t.state f x = some slot ↔
      t.Targets s f x slot ∨ (∀ slot', ¬ t.Targets s f x slot') ∧ t.state f x = some slot :=
    ⟨fun h => .inr ⟨none, h⟩, fun h => h.elim (absurd · (none slot)) And.right⟩
  cases h with
  | child => exact kept fun slot' targets => by cases targets
  | idle idles => exact kept fun slot' => idles.not_targets
  | refuse refuses => exact kept fun slot' => refuses.not_targets
  | @set _ g y held targets =>
    by_cases same : f = g ∧ x = y
    · obtain ⟨rfl, rfl⟩ := same
      have now : (t.set f x held).state f x = some held := if_pos ⟨rfl, rfl⟩
      show (t.set f x held).state f x = some slot ↔ _
      rw [now, Option.some.injEq]
      constructor
      · rintro rfl
        exact .inl targets
      · rintro (targets' | ⟨none, -⟩)
        · exact (targets.unique targets').2.2
        · exact absurd targets (none held)
    · have before : (t.set g y held).state f x = t.state f x := if_neg same
      show (t.set g y held).state f x = some slot ↔ _
      rw [before]
      refine kept fun slot' targets' => ?_
      obtain ⟨rfl, rfl, -⟩ := targets'.unique targets
      exact same ⟨rfl, rfl⟩

/-! ## Many steps -/

theorem Runs.unique (h : t.Runs log u) (h' : t.Runs log t') : u = t' := by
  induction h with
  | nil =>
    cases h'
    rfl
  | cons takes _ ih =>
    cases h' with
    | cons takes' rest' =>
      cases takes.unique takes'
      exact ih rest'

/-- A list of steps with one more behind it. -/
theorem runs_snoc : t.Runs (log ++ [s]) t' ↔
    ∃ u r, t.Runs log u ∧ u.Takes s r ∧ t' = r.toOption.getD u := by
  induction log generalizing t with
  | nil =>
    constructor
    · intro h
      obtain _ | ⟨takes, rest⟩ := h
      cases rest
      exact ⟨_, _, .nil, takes, rfl⟩
    · rintro ⟨u, r, ran, takes, rfl⟩
      cases ran
      exact .cons takes .nil
  | cons first log ih =>
    constructor
    · intro h
      obtain _ | ⟨takes, rest⟩ := h
      obtain ⟨u, r, ran, last, same⟩ := ih.mp rest
      exact ⟨u, r, .cons takes ran, last, same⟩
    · rintro ⟨u, r, ran, last, same⟩
      obtain _ | ⟨takes, rest⟩ := ran
      exact .cons takes (ih.mpr ⟨u, r, rest, last, same⟩)

/-- A step that sets the name is the last one; any other leaves the last one what it was. -/
theorem lastSet_snoc (ran : start.Runs log t) : LastSet (log ++ [s]) f x slot ↔
    t.Targets s f x slot ∨ (∀ slot', ¬ t.Targets s f x slot') ∧ LastSet log f x slot := by
  have ends {as bs : List (FrameStep α)} {a b : FrameStep α} (same : as ++ [a] = bs ++ [b]) :
      as = bs ∧ a = b := by simpa using same
  constructor
  · rintro ⟨before, s', after, u, same, ran', targets, later⟩
    rcases List.eq_nil_or_concat' after with rfl | ⟨after, last, rfl⟩
    · obtain ⟨rfl, rfl⟩ := ends same
      cases ran.unique ran'
      exact .inl targets
    · rw [← List.cons_append, ← List.append_assoc] at same
      obtain ⟨rfl, rfl⟩ := ends same
      refine .inr ⟨later after s [] t rfl ran, before, s', after, u, rfl, ran', targets, ?_⟩
      rintro between s'' rest v rfl
      exact later between s'' (rest ++ [s]) v (by rw [List.append_assoc, List.cons_append])
  · rintro (targets | ⟨none, before, s', after, u, rfl, ran', targets, later⟩)
    · refine ⟨log, s, [], t, rfl, ran, targets, fun between s' rest u same => ?_⟩
      cases between <;> cases same
    · refine ⟨before, s', after ++ [s], u, by rw [List.append_assoc, List.cons_append], ran',
        targets, ?_⟩
      intro between s'' rest v same ran''
      rcases List.eq_nil_or_concat' rest with rfl | ⟨rest, last, rfl⟩
      · obtain ⟨rfl, rfl⟩ := ends same
        cases ran.unique ran''
        exact none
      · rw [← List.cons_append, ← List.append_assoc] at same
        obtain ⟨rfl, rfl⟩ := ends same
        exact later between s'' rest v rfl ran''

/-- The state of a name in a frame is the one that was set last. -/
theorem Runs.state_iff (h : start.Runs log t) : t.state f x = some slot ↔ LastSet log f x slot := by
  induction log using List.reverseRecOn generalizing t slot with
  | nil =>
    cases h
    constructor
    · intro found
      cases found
    · rintro ⟨before, s, after, _, same, -⟩
      cases before <;> cases same
  | append_singleton log s ih =>
    obtain ⟨u, r, ran, takes, rfl⟩ := runs_snoc.mp h
    rw [takes.state_iff, lastSet_snoc ran, ih ran]

end TriStore

end LoxLang
