/-
LoxLang.Proofs.Outcome: how a computation on a state ends.

Readers of tokens and runs of programs are computations of one sort: they move a state, may give
up, and keep the state that was reached when they do.  What a whole computation ends with is put
together from what its steps end with.

* `Ends`: every way in which a computation ends from a state satisfies a postcondition, one for
  results and one for giving up.
* `Ends.bind`, `Ends.mono`: the two rules that all arguments about computations are built from.

The remaining statements say what the basic computations do, as equations on `Ends`.
-/

namespace LoxLang

variable {ε σ α β : Type}

/-- The computation ends from the state with a result as told, or gives up as told. -/
def Ends (act : ExceptT ε (StateM σ) α) (s : σ) (ok : α → σ → Prop) (err : ε → σ → Prop) : Prop :=
  match (act s : Except ε α × σ) with
  | (.ok a, s') => ok a s'
  | (.error e, s') => err e s'

/-! ## Reading a postcondition off -/

theorem Ends.ok {act : ExceptT ε (StateM σ) α} {s s' : σ} {a : α} {ok : α → σ → Prop}
    {err : ε → σ → Prop} (h : Ends act s ok err)
    (run : (act s : Except ε α × σ) = (.ok a, s')) : ok a s' := by
  simpa only [Ends, run] using h

theorem Ends.error {act : ExceptT ε (StateM σ) α} {s s' : σ} {e : ε} {ok : α → σ → Prop}
    {err : ε → σ → Prop} (h : Ends act s ok err)
    (run : (act s : Except ε α × σ) = (.error e, s')) : err e s' := by
  simpa only [Ends, run] using h

/-- A postcondition holds if it holds of what the computation really ends with. -/
theorem Ends.of_run {act : ExceptT ε (StateM σ) α} {s : σ} {ok : α → σ → Prop}
    {err : ε → σ → Prop}
    (result : ∀ a s', (act s : Except ε α × σ) = (.ok a, s') → ok a s')
    (failure : ∀ e s', (act s : Except ε α × σ) = (.error e, s') → err e s') :
    Ends act s ok err := by
  unfold Ends
  rcases run : (act s : Except ε α × σ) with ⟨_ | _, _⟩
  · exact failure _ _ run
  · exact result _ _ run

/-! ## The two rules -/

/-- A postcondition may be weakened, with the knowledge of what the computation ended with. -/
theorem Ends.mono {act : ExceptT ε (StateM σ) α} {s : σ} {ok ok' : α → σ → Prop}
    {err err' : ε → σ → Prop} (h : Ends act s ok err)
    (result : ∀ a s', (act s : Except ε α × σ) = (.ok a, s') → ok a s' → ok' a s')
    (failure : ∀ e s', err e s' → err' e s') : Ends act s ok' err' :=
  .of_run (fun _ _ run => result _ _ run (h.ok run)) (fun _ _ run => failure _ _ (h.error run))

theorem run_bind (act : ExceptT ε (StateM σ) α) (next : α → ExceptT ε (StateM σ) β) (s : σ) :
    ((act >>= next) s : Except ε β × σ) =
      match (act s : Except ε α × σ) with
      | (.ok a, s') => next a s'
      | (.error e, s') => (.error e, s') := by
  show (match (act s : Except ε α × σ) with
    | (r, s') => ExceptT.bindCont next r s' : Except ε β × σ) = _
  rcases (act s : Except ε α × σ) with ⟨_ | _, _⟩ <;> rfl

/-- A result of one computation after another is one that a result of the first led to. -/
theorem run_bind_ok_iff {act : ExceptT ε (StateM σ) α} {next : α → ExceptT ε (StateM σ) β}
    {s s₂ : σ} {b : β} :
    ((act >>= next) s : Except ε β × σ) = (.ok b, s₂) ↔
      ∃ a s₁, (act s : Except ε α × σ) = (.ok a, s₁) ∧ next a s₁ = (.ok b, s₂) := by
  rw [run_bind]
  rcases (act s : Except ε α × σ) with ⟨e | a, s₁⟩
  · constructor
    · intro run
      cases run
    · rintro ⟨_, _, run, _⟩
      cases run
  · refine ⟨fun run => ⟨a, s₁, rfl, run⟩, ?_⟩
    rintro ⟨_, _, run, run₁⟩
    cases run
    exact run₁

/-- One computation after another: each result of the first leads into the second, and the second
is not begun if the first gives up. -/
theorem Ends.bind {act : ExceptT ε (StateM σ) α} {next : α → ExceptT ε (StateM σ) β} {s : σ}
    {mid : α → σ → Prop} {stop : ε → σ → Prop} {ok : β → σ → Prop} {err : ε → σ → Prop}
    (first : Ends act s mid stop)
    (second : ∀ a s', (act s : Except ε α × σ) = (.ok a, s') → mid a s' → Ends (next a) s' ok err)
    (failure : ∀ e s', stop e s' → err e s') : Ends (act >>= next) s ok err := by
  unfold Ends
  rw [run_bind]
  rcases run : (act s : Except ε α × σ) with ⟨e | a, s'⟩
  · exact failure e s' (first.error run)
  · exact second a s' run (first.ok run)

/-! ## Basic computations -/

theorem ends_bind {act : ExceptT ε (StateM σ) α} {next : α → ExceptT ε (StateM σ) β} {s : σ}
    {ok : β → σ → Prop} {err : ε → σ → Prop} :
    Ends (act >>= next) s ok err ↔ Ends act s (fun a s' => Ends (next a) s' ok err) err := by
  unfold Ends
  rw [run_bind]
  rcases (act s : Except ε α × σ) with ⟨_ | _, _⟩ <;> rfl

theorem ends_map {act : ExceptT ε (StateM σ) α} {f : α → β} {s : σ} {ok : β → σ → Prop}
    {err : ε → σ → Prop} :
    Ends (f <$> act) s ok err ↔ Ends act s (fun a s' => ok (f a) s') err := by
  rw [map_eq_pure_bind, ends_bind]
  rfl

@[simp] theorem ends_pure {a : α} {s : σ} {ok : α → σ → Prop} {err : ε → σ → Prop} :
    Ends (pure a : ExceptT ε (StateM σ) α) s ok err ↔ ok a s := Iff.rfl

@[simp] theorem ends_throw {e : ε} {s : σ} {ok : α → σ → Prop} {err : ε → σ → Prop} :
    Ends (throw e : ExceptT ε (StateM σ) α) s ok err ↔ err e s := Iff.rfl

@[simp] theorem ends_get {s : σ} {ok : σ → σ → Prop} {err : ε → σ → Prop} :
    Ends (get : ExceptT ε (StateM σ) σ) s ok err ↔ ok s s := Iff.rfl

@[simp] theorem ends_set {s s' : σ} {ok : PUnit → σ → Prop} {err : ε → σ → Prop} :
    Ends (set s' : ExceptT ε (StateM σ) PUnit) s ok err ↔ ok ⟨⟩ s' := Iff.rfl

@[simp] theorem ends_modify {f : σ → σ} {s : σ} {ok : PUnit → σ → Prop} {err : ε → σ → Prop} :
    Ends (modify f : ExceptT ε (StateM σ) PUnit) s ok err ↔ ok ⟨⟩ (f s) := Iff.rfl

@[simp] theorem ends_modifyGet {f : σ → α × σ} {s : σ} {ok : α → σ → Prop} {err : ε → σ → Prop} :
    Ends (modifyGet f : ExceptT ε (StateM σ) α) s ok err ↔ ok (f s).1 (f s).2 := Iff.rfl

theorem run_tryCatch (act : ExceptT ε (StateM σ) α) (handle : ε → ExceptT ε (StateM σ) α) (s : σ) :
    (tryCatch act handle : ExceptT ε (StateM σ) α) s =
      (match (act s : Except ε α × σ) with
        | (.ok a, s') => (.ok a, s')
        | (.error e, s') => handle e s' : Except ε α × σ) := by
  show (match (act s : Except ε α × σ) with
    | (r, s') => (match r with
      | .ok a => pure (.ok a)
      | .error e => handle e : StateM σ (Except ε α)) s' : Except ε α × σ) = _
  rcases (act s : Except ε α × σ) with ⟨_ | _, _⟩ <;> rfl

theorem ends_tryCatch {act : ExceptT ε (StateM σ) α} {handle : ε → ExceptT ε (StateM σ) α} {s : σ}
    {ok : α → σ → Prop} {err : ε → σ → Prop} :
    Ends (tryCatch act handle) s ok err ↔
      Ends act s ok (fun e s' => Ends (handle e) s' ok err) := by
  unfold Ends
  rw [run_tryCatch]
  rcases (act s : Except ε α × σ) with ⟨_ | _, _⟩ <;> rfl

end LoxLang
