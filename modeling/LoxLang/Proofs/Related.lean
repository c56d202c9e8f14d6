/-
LoxLang.Proofs.Related: two computations that do the same.

Two computations on states that correspond to each other may differ in names, numbers and places and
still go the same way: from corresponding states they come to corresponding results and states.
Relations are put together along the computations, just as postconditions are.

* `Related`: two computations that cannot fail.
* `Abreast`: two computations that may give up; they do so together.
* `Related.bind`, `Abreast.bind`: one computation after another.
-/
import LoxLang.Proofs.Outcome

namespace LoxLang

/-! ## Computations that cannot fail -/

section Related

variable {σ σ' α α' β β' : Type} {R : σ → σ' → Prop} {A : α → α' → Prop} {B : β → β' → Prop}

/-- From related states the computations come to related results and states. -/
def Related (R : σ → σ' → Prop) (A : α → α' → Prop) (act : StateM σ α) (act' : StateM σ' α') :
    Prop :=
  ∀ s s', R s s' → A (act s).1 (act' s').1 ∧ R (act s).2 (act' s').2

namespace Related

variable {act : StateM σ α} {act' : StateM σ' α'}

theorem pure {a : α} {a' : α'} (h : A a a') : Related R A (Pure.pure a) (Pure.pure a') :=
  fun _ _ related => ⟨h, related⟩

theorem bind {next : α → StateM σ β} {next' : α' → StateM σ' β'} (first : Related R A act act')
    (second : ∀ a a', A a a' → Related R B (next a) (next' a')) :
    Related R B (act >>= next) (act' >>= next') := by
  intro s s' related
  obtain ⟨results, related⟩ := first s s' related
  exact second _ _ results _ _ related

theorem map {f : α → β} {f' : α' → β'} (h : Related R A act act')
    (implies : ∀ a a', A a a' → B (f a) (f' a')) : Related R B (f <$> act) (f' <$> act') := by
  intro s s' related
  obtain ⟨results, related⟩ := h s s' related
  exact ⟨implies _ _ results, related⟩

theorem gets : Related R R get get := fun _ _ related => ⟨related, related⟩

theorem modifies {f : σ → σ} {f' : σ' → σ'} (h : ∀ s s', R s s' → R (f s) (f' s')) :
    Related R Eq (modify f : StateM σ PUnit) (modify f' : StateM σ' PUnit) :=
  fun s s' related => ⟨rfl, h s s' related⟩

theorem sets {s : σ} {s' : σ'} (h : R s s') :
    Related R Eq (set s : StateM σ PUnit) (set s' : StateM σ' PUnit) := fun _ _ _ => ⟨rfl, h⟩

/-- Computations that are chosen by a condition that both sides share. -/
theorem ite {c c' : Prop} [Decidable c] [Decidable c'] {other : StateM σ α} {other' : StateM σ' α'}
    (same : c' ↔ c) (pos : c → Related R A act act') (neg : ¬ c → Related R A other other') :
    Related R A (if c then act else other) (if c' then act' else other') := by
  by_cases h : c
  · rw [if_pos h, if_pos (same.mpr h)]
    exact pos h
  · rw [if_neg h, if_neg fun h' => h (same.mp h')]
    exact neg h

end Related

end Related

/-! ## Computations that may give up -/

section Abreast

variable {ε ε' σ σ' α α' β β' : Type} {R : σ → σ' → Prop} {E : ε → ε' → Prop} {A : α → α' → Prop}
  {B : β → β' → Prop}

/-- Two ways to end that correspond to each other. -/
inductive EndsAlike (E : ε → ε' → Prop) (A : α → α' → Prop) : Except ε α → Except ε' α' → Prop
  | ok {a a'} (h : A a a') : EndsAlike E A (.ok a) (.ok a')
  | error {e e'} (h : E e e') : EndsAlike E A (.error e) (.error e')

/-- Two ways to end that correspond to the same one correspond to each other. -/
theorem EndsAlike.branch {ε'' α'' : Type} {E' : ε → ε'' → Prop} {A' : α → α'' → Prop}
    {E'' : ε' → ε'' → Prop} {A'' : α' → α'' → Prop} {r : Except ε α} {r' : Except ε' α'}
    {r'' : Except ε'' α''} (h : EndsAlike E A r r') (h' : EndsAlike E' A' r r'')
    (failures : ∀ e e' e'', E e e' → E' e e'' → E'' e' e'')
    (results : ∀ a a' a'', A a a' → A' a a'' → A'' a' a'') : EndsAlike E'' A'' r' r'' := by
  cases h with
  | ok same =>
    cases h' with
    | ok same' => exact .ok (results _ _ _ same same')
  | error same =>
    cases h' with
    | error same' => exact .error (failures _ _ _ same same')

/-- From related states the computations end alike and reach related states. -/
def Abreast (R : σ → σ' → Prop) (E : ε → ε' → Prop) (A : α → α' → Prop)
    (act : ExceptT ε (StateM σ) α) (act' : ExceptT ε' (StateM σ') α') : Prop :=
  Related R (EndsAlike E A) act act'

namespace Abreast

variable {act : ExceptT ε (StateM σ) α} {act' : ExceptT ε' (StateM σ') α'}

/-- What both computations come to. -/
theorem ends (h : Abreast R E A act act') {s : σ} {s' : σ'} (related : R s s') :
    ∃ result s₁ result' s₁', (act s : Except ε α × σ) = (result, s₁) ∧
      (act' s' : Except ε' α' × σ') = (result', s₁') ∧ EndsAlike E A result result' ∧ R s₁ s₁' :=
  ⟨_, _, _, _, rfl, rfl, (h s s' related).1, (h s s' related).2⟩

theorem pure {a : α} {a' : α'} (h : A a a') :
    Abreast R E A (Pure.pure a : ExceptT ε (StateM σ) α)
      (Pure.pure a' : ExceptT ε' (StateM σ') α') :=
  fun _ _ related => ⟨.ok h, related⟩

theorem fails {e : ε} {e' : ε'} (h : E e e') :
    Abreast R E A (throw e : ExceptT ε (StateM σ) α) (throw e' : ExceptT ε' (StateM σ') α') :=
  fun _ _ related => ⟨.error h, related⟩

theorem bind {next : α → ExceptT ε (StateM σ) β} {next' : α' → ExceptT ε' (StateM σ') β'}
    (first : Abreast R E A act act') (second : ∀ a a', A a a' → Abreast R E B (next a) (next' a')) :
    Abreast R E B (act >>= next) (act' >>= next') := by
  intro s s' related
  rw [run_bind, run_bind]
  obtain ⟨result, s₁, result', s₁', run, run', ends, related⟩ := first.ends related
  rw [run, run']
  cases ends with
  | ok h => exact second _ _ h _ _ related
  | error h => exact ⟨.error h, related⟩

theorem map {f : α → β} {f' : α' → β'} (h : Abreast R E A act act')
    (implies : ∀ a a', A a a' → B (f a) (f' a')) : Abreast R E B (f <$> act) (f' <$> act') := by
  rw [map_eq_pure_bind, map_eq_pure_bind]
  exact h.bind fun a a' same => .pure (implies a a' same)

theorem catches {handle : ε → ExceptT ε (StateM σ) α} {handle' : ε' → ExceptT ε' (StateM σ') α'}
    (h : Abreast R E A act act')
    (handles : ∀ e e', E e e' → Abreast R E A (handle e) (handle' e')) :
    Abreast R E A (tryCatch act handle) (tryCatch act' handle') := by
  intro s s' related
  rw [run_tryCatch, run_tryCatch]
  obtain ⟨result, s₁, result', s₁', run, run', ends, related⟩ := h.ends related
  rw [run, run']
  cases ends with
  | ok h => exact ⟨.ok h, related⟩
  | error h => exact handles _ _ h _ _ related

theorem gets : Abreast R E R (get : ExceptT ε (StateM σ) σ) (get : ExceptT ε' (StateM σ') σ') :=
  fun _ _ related => ⟨.ok related, related⟩

theorem modifies {f : σ → σ} {f' : σ' → σ'} (h : ∀ s s', R s s' → R (f s) (f' s')) :
    Abreast R E Eq (modify f : ExceptT ε (StateM σ) PUnit)
      (modify f' : ExceptT ε' (StateM σ') PUnit) :=
  fun s s' related => ⟨.ok rfl, h s s' related⟩

theorem modifyGets {f : σ → α × σ} {f' : σ' → α' × σ'}
    (h : ∀ s s', R s s' → A (f s).1 (f' s').1 ∧ R (f s).2 (f' s').2) :
    Abreast R E A (modifyGet f : ExceptT ε (StateM σ) α)
      (modifyGet f' : ExceptT ε' (StateM σ') α') :=
  fun s s' related => ⟨.ok (h s s' related).1, (h s s' related).2⟩

/-- Computations that are chosen by a condition that both sides share. -/
theorem ite {c c' : Prop} [Decidable c] [Decidable c'] {other : ExceptT ε (StateM σ) α}
    {other' : ExceptT ε' (StateM σ') α'} (same : c' ↔ c) (pos : c → Abreast R E A act act')
    (neg : ¬ c → Abreast R E A other other') :
    Abreast R E A (if c then act else other) (if c' then act' else other') := by
  by_cases h : c
  · rw [if_pos h, if_pos (same.mpr h)]
    exact pos h
  · rw [if_neg h, if_neg fun h' => h (same.mp h')]
    exact neg h

end Abreast

end Abreast

end LoxLang
