/-
LoxLang.Proofs.Machine.Access: what a run finds at its references.

A reference with a distance finds the frame that was made for the scope in which the walk found the
name.  Whether the frame has the name yet is another matter: it has, unless the reference stands in
the initial value of the variable.

* `Misses`: a variable is read that its frame does not have yet.

Main statements: `Stands.ancestor`, `Stands.readRef`, `Stands.readSuper`, `ends_readProperty`.
-/
import LoxLang.Proofs.Machine.Sound

namespace LoxLang

variable {W : World} {m m' : Machine} {ed : Edition} {v : Visit} {around : Surroundings}
  {levels : List Level} {w : Walk}

/-! ## Misses -/

/-- The activity reads a variable. -/
inductive Activity.Reads : Activity → Reference Distance → Prop
  | variable {n : Nat} {ref : Reference Distance} : Reads (.eval (n + 1) (.variable ref)) ref
  | parent {fault : RuntimeFault} {ref : Reference Distance} : Reads (.parent fault ref) ref

/-- A variable is read in a routine that its own initial value calls, before it has a place in its
frame. -/
def Misses (W : World) (M : Moment) : Prop :=
  ∃ ref d k, M.activity.Reads ref ∧ ref.mark = some d ∧ M.machine.environment[d]? = some k ∧
    M.machine.store.contains k ref.name = false ∧
    ∃ ed v, W.editions ed ∧ ed.Visits v ∧ M.activity.Shows ed.table v.item ∧
      Pends v.levels d ref.name

/-- What is read at a distance. -/
theorem readAt_cases (m : Machine) {env : Environment} {d : Nat} {k : FrameId}
    (found : env[d]? = some k) (x : String) (token : Option Token) :
    (∃ a, m.store.slot? k x = some (.value a) ∧ m.store.readAt env d x token = .ok a) ∨
      (m.store.contains k x = true ∧
        m.store.readAt env d x token = .error (.runtime token (.uninitialized x))) ∨
      (m.store.contains k x = false ∧
        m.store.readAt env d x token = .error (.internal token (.missingFromScope x))) := by
  have ancestor : Store.ancestor env d = .ok k := by
    rw [Store.ancestor, found]
  cases slot : m.store.slot? k x with
  | none =>
    refine .inr (.inr ⟨by rw [Store.contains_eq, slot]; rfl, ?_⟩)
    simp [Store.readAt_eq, ancestor, slot, bind, Except.bind]
  | some s =>
    cases s with
    | uninitialized =>
      refine .inr (.inl ⟨by rw [Store.contains_eq, slot]; rfl, ?_⟩)
      simp [Store.readAt_eq, ancestor, slot, bind, Except.bind]
    | value a =>
      exact .inl ⟨a, rfl, by simp [Store.readAt_eq, ancestor, slot, bind, Except.bind]⟩

section Reads

variable {env : Environment} {d : Nat} {k : FrameId} {x : String} {token : Option Token}

/-- A value that was read stands in the frame at the distance. -/
theorem slot?_of_readAt {a : Value} (found : env[d]? = some k)
    (read : m.store.readAt env d x token = .ok a) : m.store.slot? k x = some (.value a) := by
  rcases readAt_cases m found x token with ⟨b, slot, is⟩ | ⟨_, is⟩ | ⟨_, is⟩
  · cases is.symm.trans read
    exact slot
  · cases is.symm.trans read
  · cases is.symm.trans read

theorem sound_of_readAt {a : Value} (good : m.Good W)
    (read : m.store.readAt env d x token = .ok a) : a.Sound W m := by
  cases found : env[d]? with
  | none =>
    rw [Store.readAt, Store.ancestor, found] at read
    cases read
  | some k => exact good.slots k x _ (slot?_of_readAt found read)

/-- A read that fails internally fails since the frame at the distance does not have the name. -/
theorem lacks_of_readAt {failure : Failure} (found : env[d]? = some k)
    (read : m.store.readAt env d x token = .error failure) (isInternal : failure.IsInternal) :
    m.store.contains k x = false := by
  rcases readAt_cases m found x token with ⟨_, _, is⟩ | ⟨_, is⟩ | ⟨lacks, _⟩
  · cases is.symm.trans read
  · cases is.symm.trans read
    exact isInternal.elim
  · exact lacks

end Reads

theorem run_readRef (ref : Reference Distance) (m : Machine) :
    (readRef ref m : Except Failure Value × Machine) = (match ref.mark with
      | some distance => orFail (m.store.readAt m.environment distance ref.name (some ref.token))
      | none => orFail (m.store.read Store.globalEnvironment ref.token) : Run Value) m := rfl

theorem run_readRef_some {ref : Reference Distance} {d : Nat} (mark : ref.mark = some d)
    (m : Machine) :
    (readRef ref m : Except Failure Value × Machine) =
      orFail (m.store.readAt m.environment d ref.name (some ref.token)) m := by
  rw [run_readRef, mark]

/-- A moment that misses its variable fails with an internal failure. -/
theorem Misses.fails {turns : Nat} {M : Moment} (misses : Misses W M) :
    ∃ failure : Failure, failure.IsInternal ∧ M.Fails turns failure := by
  obtain ⟨ref, d, k, reads, mark, found, lacks, _⟩ := misses
  obtain ⟨activity, m⟩ := M
  have missing : Raises (readRef ref) m
      (.internal (some ref.token) (.missingFromScope ref.name)) := by
    rw [Raises, run_readRef_some mark]
    rcases readAt_cases m found ref.name (some ref.token) with
      ⟨a, slot, _⟩ | ⟨has, _⟩ | ⟨_, error⟩
    · rw [Store.contains_eq, slot] at lacks
      cases lacks
    · rw [has] at lacks
      cases lacks
    · rw [error]
      exact ⟨m, rfl⟩
  refine ⟨.internal (some ref.token) (.missingFromScope ref.name), trivial, ?_⟩
  cases reads with
  | «variable» => exact missing
  | parent => exact missing.bind

/-! ## Frames at distances -/

namespace Stands

/-- A recorded distance leads to the frame of the scope in which the name was found. -/
theorem ancestor (lawful : W.Lawful) (h : Stands W m ed v) {ref : Reference Site}
    (item : v.item.ref? = some ref) {d : Nat} (recorded : ed.table.get? ref.mark = some d) :
    v.walk.Declares d ref.name ∧
      ∃ k, ∃ level : Level, ∃ M, m.environment[d]? = some k ∧ v.levels[d]? = some level ∧
      W.passes M ∧
        M.Opens (level.opener.map ed.table.get?) k (m.environment.drop (d + 1)) := by
  have declares := h.visits.declares (lawful.distinct h.edition) (lawful.fresh h.edition) item
    recorded
  refine ⟨declares, ?_⟩
  obtain ⟨scope, at_d, _⟩ := declares
  have inside : d < v.levels.length := by
    rw [← (h.sound lawful).enclosed.fit.height]
    exact (List.getElem?_eq_some_iff.mp at_d).1
  have level := List.getElem?_eq_getElem inside
  obtain ⟨k, M, found, passed, opens⟩ := h.frames.mirrors.frameAt level
  exact ⟨k, _, M, found, level, passed, opens⟩

/-- A name that the frame does not have is one that is still to come. -/
theorem lacks (h : Stands W m ed v) {d : Nat} {k : FrameId} {x : String}
    (found : m.environment[d]? = some k) (declares : v.walk.Declares d x)
    (absent : m.store.contains k x = false) : Pends v.levels d x ∨ v.item.Awaits d x := by
  refine Classical.byContradiction fun none => ?_
  rw [not_or] at none
  rw [h.frames.filled d k x found ⟨declares, none.1, none.2⟩] at absent
  cases absent

/-- The words for the object and the superclass are never still to come. -/
theorem not_pends (lawful : W.Lawful) (plain : W.Plain) (h : Stands W m ed v) {d : Nat} {x : String}
    (word : x = thisName ∨ x = superName) (declares : v.walk.Declares d x) :
    ¬ Pends v.levels d x := by
  rintro ⟨level, found, isOpen, _⟩
  have fits := (h.sound lawful).enclosed.fit.fits d level found
  have named : Named W.worded x := by
    revert fits isOpen
    cases level.opener with
    | object => exact fun isOpen _ => isOpen.elim
    | parent => exact fun isOpen _ => isOpen.elim
    | block _ => exact fun _ fits => fits x declares
    | routine _ _ => exact fun _ fits => fits x declares
  obtain ⟨t, identifier, rfl⟩ := named
  obtain ⟨notThis, notSuper⟩ := plain.identifiers t identifier
  exact word.elim notThis notSuper

end Stands

theorem ends_orFail {α : Type} {x : Except Failure α} {ok : α → Machine → Prop}
    {err : Failure → Machine → Prop} (result : ∀ a, x = .ok a → ok a m)
    (failure : ∀ f, x = .error f → err f m) : Ends (orFail x) m ok err := by
  cases x with
  | ok a => exact result a rfl
  | error f => exact failure f rfl

/-! ## References -/

/-- What a reference reads: a sound value.  An internal failure means that the frame does not have
the name yet. -/
theorem Stands.readRef (lawful : W.Lawful) (good : m.Good W) (h : Stands W m ed v)
    {ref : Reference Site} (item : v.item.ref? = some ref) :
    Ends (readRef (ref.map ed.table.get?)) m (fun a m' => m' = m ∧ a.Sound W m)
      (fun f m' => m' = m ∧ (f.IsInternal → ∃ d k, ed.table.get? ref.mark = some d ∧
        m.environment[d]? = some k ∧ m.store.contains k ref.name = false ∧
        v.walk.Declares d ref.name ∧ (Pends v.levels d ref.name ∨ v.item.Awaits d ref.name))) := by
  cases mark : ed.table.get? ref.mark with
  | none =>
    have run : (LoxLang.readRef (ref.map ed.table.get?) m : Except Failure Value × Machine) =
        orFail (m.store.read Store.globalEnvironment ref.token) m := by
      have unmarked : (ref.map ed.table.get?).mark = none := mark
      rw [run_readRef, unmarked]
      rfl
    unfold Ends
    rw [run]
    refine ends_orFail (fun a read => ⟨rfl, ?_⟩) fun f read => ⟨rfl, fun isInternal => ?_⟩
    · rw [Store.read_eq] at read
      cases owner : m.store.owner? Store.globalEnvironment ref.token.lexeme with
      | none =>
        rw [owner] at read
        cases read
      | some k =>
        rw [owner, Option.bind_some] at read
        split at read
        · cases read
          exact good.slots _ _ _ ‹_›
        · cases read
        · cases read
    · rw [Store.read_eq] at read
      split at read <;> cases read <;> exact isInternal.elim
  | some d =>
    obtain ⟨declares, k, _, _, found, _⟩ := h.ancestor lawful item mark
    unfold Ends
    rw [run_readRef_some (show (ref.map ed.table.get?).mark = some d from mark)]
    refine ends_orFail (fun a read => ⟨rfl, ?_⟩) fun f read => ⟨rfl, fun isInternal => ?_⟩
    · exact sound_of_readAt good read
    · have lacks := lacks_of_readAt found read isInternal
      exact ⟨d, k, rfl, found, lacks, declares, h.lacks found declares lacks⟩

/-- The scope for `super` is outside of the scope for `this`, and their frames have a class and an
object. -/
theorem Stands.super_frames (lawful : W.Lawful) (plain : W.Plain) (h : Stands W m ed v)
    (expects : ∀ d x, ¬ v.item.Awaits d x) {d : Nat} {k : FrameId}
    (found : m.environment[d]? = some k) (declares : v.walk.Declares d superName) :
    (∃ c, m.store.slot? k superName = some (.value (.class c))) ∧
      ∀ k', m.environment[d - 1]? = some k' → m.store.contains k' thisName = true := by
  have sound := h.sound lawful
  obtain ⟨scope, at_d, has⟩ := declares
  have inside : d < v.levels.length := by
    rw [← sound.enclosed.fit.height]
    exact (List.getElem?_eq_some_iff.mp at_d).1
  have level := List.getElem?_eq_getElem inside
  have fits := sound.enclosed.fit.fits d _ level
  have parent : v.levels[d].opener = .parent := by
    revert fits
    have named : ¬ Named W.worded superName := by
      rintro ⟨t, identifier, same⟩
      exact (plain.identifiers t identifier).2 same
    cases v.levels[d].opener with
    | parent => exact fun _ => rfl
    | object => exact fun fits => absurd ((fits superName).mp ⟨scope, at_d, has⟩) (by decide)
    | block _ => exact fun fits => absurd (fits superName ⟨scope, at_d, has⟩) named
    | routine _ _ => exact fun fits => absurd (fits superName ⟨scope, at_d, has⟩) named
  refine ⟨h.frames.supers plain d _ k level parent found, fun k' found' => ?_⟩
  obtain ⟨i, inner, rfl, at_i, object⟩ := sound.enclosed.nested d _ level parent
  have this := sound.enclosed.fit.fits i inner at_i
  rw [object] at this
  have declares := (this thisName).mpr rfl
  exact h.frames.filled i k' thisName found'
    ⟨declares, h.not_pends lawful plain (.inl rfl) declares, expects i thisName⟩

/-- `super` finds the superclass and the current object. -/
theorem Stands.readSuper {n : Nat} {ref : Reference Site} {name : Token} (lawful : W.Lawful)
    (good : m.Good W) (h : Stands W m ed ⟨around, levels, .expr (.super ref name), w⟩)
    (passed : W.passes ⟨.eval (n + 1) (.super (ref.map ed.table.get?) name), m⟩) :
    Ends (readSuper (ref.map ed.table.get?) name) m (fun a m' => Kept W m m' ∧ a.Sound W m')
      (fun f m' => Kept W m m' ∧ (W.Clean → ¬ f.IsInternal)) := by
  have sound := h.sound lawful
  cases mark : ed.table.get? ref.mark with
  | none =>
    have run : (LoxLang.readSuper (ref.map ed.table.get?) name m : Except Failure Value × Machine) =
        (.error (.internal (some ref.token) .superNotResolved), m) := by
      have mark' : (ref.map ed.table.get?).mark = none := mark
      rw [LoxLang.readSuper, mark']
      rfl
    unfold Ends
    rw [run]
    refine ⟨.refl good, fun clean _ => ?_⟩
    obtain ⟨d, recorded⟩ := h.visits.super_recorded (lawful.distinct h.edition) sound
      (clean.accepted h.edition) (clean.plain.superWord _ sound.formed)
    rw [mark] at recorded
    cases recorded
  | some d =>
    obtain ⟨declares, k, _, _, found, _⟩ := h.ancestor lawful rfl mark
    have mark' : (ref.map ed.table.get?).mark = some d := mark
    obtain ⟨k', found'⟩ : ∃ k', m.environment[d - 1]? = some k' := by
      have inside := (List.getElem?_eq_some_iff.mp found).1
      exact ⟨_, List.getElem?_eq_getElem (Nat.lt_of_le_of_lt (Nat.sub_le d 1) inside)⟩
    have frames : W.Clean → (∃ c, m.store.slot? k superName = some (.value (.class c))) ∧
        ∀ k', m.environment[d - 1]? = some k' → m.store.contains k' thisName = true := by
      intro clean
      refine h.super_frames lawful clean.plain (fun _ _ no => no) found ?_
      rw [← clean.plain.superWord _ sound.formed]
      exact declares
    rw [LoxLang.readSuper, mark']
    rw [ends_bind, ends_get, ends_bind]
    refine ends_orFail (fun superclass readSuper => ?_) fun f readSuper => ?_
    · have slot := slot?_of_readAt found readSuper
      have ready := good.slots k _ _ slot
      rw [ends_bind]
      refine ends_orFail (fun self readThis => ?_) fun f readThis => ?_
      · have object := sound_of_readAt good readThis
        split
        · rename_i c
          split
          · rename_i method methodOf
            have bound :=
              ends_bindMethod lawful good (Class.Ready.methods ready _ _ methodOf) object
              (lawful.starts passed (.superMethod mark' readSuper readThis methodOf))
            rw [ends_bind]
            exact bound.mono (fun f m' _ post => ⟨post.1, post.2.1⟩) fun _ _ no => no.elim
          · exact ⟨.refl good, fun _ no => no⟩
        · rename_i noClass
          refine ⟨.refl good, fun clean _ => ?_⟩
          obtain ⟨c, slot'⟩ := (frames clean).1
          cases slot.symm.trans slot'
          exact noClass c rfl
      · refine ⟨.refl good, fun clean isInternal => ?_⟩
        have lacks := lacks_of_readAt found' readThis isInternal
        rw [(frames clean).2 k' found'] at lacks
        cases lacks
    · refine ⟨.refl good, fun clean isInternal => ?_⟩
      obtain ⟨c, slot⟩ := (frames clean).1
      have lacks := lacks_of_readAt found readSuper isInternal
      rw [Store.contains_eq, slot] at lacks
      cases lacks

/-! ## Properties -/

/-- A property is a field, or a method that is bound to the object. -/
theorem ends_readProperty {self : Value} {r : Receiver} {name : Token} (lawful : W.Lawful)
    (good : m.Good W) (sound : self.Sound W m) (receiver : self.receiver? = some r)
    (passed : ∀ c f, m.field? r.id name.lexeme = none → r.cls = some c →
      c.findMethod name.lexeme = some f → W.passes ⟨.bind f self, m⟩) :
    Ends (readProperty self r name) m (fun a m' => Kept W m m' ∧ a.Sound W m')
      (fun f m' => Kept W m m' ∧ ¬ f.IsInternal) := by
  rw [readProperty, ends_bind, ends_get]
  split
  · rename_i a field
    exact ⟨.refl good, good.fields _ _ a field⟩
  · rename_i field
    split
    · rename_i none
      refine ⟨.refl good, fun _ => ?_⟩
      cases self with
      | «class» c =>
        cases receiver
        obtain ⟨inner, cls, _⟩ := Class.Ready.statics sound
        rw [cls] at none
        cases none
      | «instance» o =>
        cases receiver
        cases none
      | _ => cases receiver
    · rename_i c cls
      split
      · rename_i f found
        have ready := readyMethod_of_receiver sound receiver cls found
        have bound := ends_bindMethod lawful good ready sound (passed c f field cls found)
        rw [ends_bind]
        exact bound.mono (fun g m' _ post => ⟨post.1, post.2.1⟩) fun _ _ no => no.elim
      · exact ⟨.refl good, fun no => no⟩

end LoxLang
