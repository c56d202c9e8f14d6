/-
LoxLang.Proofs.Binding.Logged: a scope is told by the steps that it has taken.

What a scope knows can be said without the scope.  A name is known if some step declared it.  It has
come as far as its latest declaration and the steps behind that one have brought it, and no step
but a declaration takes it back.  It is unused if its latest declaration has a token and no read
stands behind it; the unused names are listed by their first declarations.

A definition or a read of a name that no step has declared changes nothing.

* `ScopeStep`, `Scope.replay`: the steps, and the scope that has taken them.
* `latest?`: the latest declaration of a name, and the steps behind it.
* `declaredNames`: the names in the order of their first declarations.

Main statements: `names_replay` and `find?_replay`, what a scope holds; `scope_told_by_log`.
-/
import LoxLang.Proofs.Binding.Mentions
import Mathlib.Data.List.Basic
import Mathlib.Data.List.Induction

namespace LoxLang

/-! ## Steps -/

/-- A step that a scope takes. -/
inductive ScopeStep where
  | declare (name : String) (token : Token)
  /-- A declaration without a token; nobody has to read the name. -/
  | declareImplicit (name : String)
  | define (name : String)
  | use (name : String)

namespace ScopeStep

/-- What the step makes of a scope. -/
def apply (s : Scope) : ScopeStep → Scope
  | declare name token => s.declare ⟨name, .declared, some token⟩
  | declareImplicit name => s.declare ⟨name, .used, none⟩
  | define name => s.define name
  | use name => s.use name

/-- The name that the step declares. -/
def declared? : ScopeStep → Option String
  | declare name _ | declareImplicit name => some name
  | define _ | use _ => none

/-- The token with which the step declares a name, if it declares it. -/
def token? (name : String) : ScopeStep → Option (Option Token)
  | declare x token => if x = name then some (some token) else none
  | declareImplicit x => if x = name then some none else none
  | define _ | use _ => none

/-- The step declares the name. -/
def declares (name : String) (step : ScopeStep) : Bool := step.declared? = some name

/-- The step defines the name. -/
def defines (name : String) : ScopeStep → Bool
  | define x => x = name
  | _ => false

/-- The step reads the name. -/
def reads (name : String) : ScopeStep → Bool
  | use x => x = name
  | _ => false

/-- What the step makes of what is known about a name that it does not declare. -/
def raise (name : String) (b : Binding) : ScopeStep → Binding
  | define x => if x = name then Scope.Binding.defined b else b
  | use x => if x = name then Scope.Binding.used b else b
  | declare _ _ | declareImplicit _ => b

end ScopeStep

/-- The scope that has taken the steps, the oldest of which is the first. -/
def Scope.replay (log : List ScopeStep) : Scope := log.foldl ScopeStep.apply .empty

/-! ## What the steps tell -/

/-- The names that are declared, in the order of their first declarations. -/
def declaredNames (log : List ScopeStep) : List String :=
  (log.filterMap ScopeStep.declared?).eraseDups

/-- The latest declaration of a name, as the token that it has, and the steps behind it. -/
def latest? (name : String) : List ScopeStep → Option (Option Token × List ScopeStep)
  | [] => none
  | step :: rest =>
    (latest? name rest).or ((step.token? name).map fun token => (token, rest))

/-- How far a name has come that was declared, and then these steps were taken. -/
def statusAfter (name : String) (token : Option Token) (after : List ScopeStep) : Status :=
  if token.isNone || after.any (·.reads name) then .used
  else if after.any (·.defines name) then .defined
  else .declared

/-- The token that is blamed for a name that was declared and never read. -/
def unreadToken? (name : String) (log : List ScopeStep) : Option Token :=
  (latest? name log).bind fun (token, after) => if after.any (·.reads name) then none else token

section Steps

variable (log : List ScopeStep) (step : ScopeStep) (name : String)

theorem replay_append : Scope.replay (log ++ [step]) = step.apply (.replay log) := by
  rw [Scope.replay, List.foldl_append]
  rfl

/-- A declaration is the latest one, and every other step stands behind it. -/
theorem latest?_append : latest? name (log ++ [step]) =
    match step.token? name with
    | some token => some (token, [])
    | none => (latest? name log).map fun (token, after) => (token, after ++ [step]) := by
  induction log with
  | nil => cases h : step.token? name <;> simp [latest?, h]
  | cons first rest ih =>
    rw [List.cons_append, latest?, ih, latest?]
    cases step.token? name with
    | some token => rfl
    | none => cases latest? name rest <;> cases first.token? name <;> rfl

theorem declaredNames_append : declaredNames (log ++ [step]) =
    declaredNames log ++ step.declared?.toList.filter (· ∉ declaredNames log) := by
  have mem (x : String) : x ∈ log.filterMap ScopeStep.declared? ↔ x ∈ declaredNames log :=
    List.mem_eraseDups.symm
  rw [declaredNames, List.filterMap_append, List.eraseDups_append, ← declaredNames]
  cases h : step.declared? with
  | none => simp [h, List.removeAll]
  | some x => by_cases known : x ∈ declaredNames log <;>
      simp [h, List.removeAll, mem, known, List.eraseDups_cons]

end Steps

/-! ## What a scope holds -/

namespace Scope

/-- A name that is known already keeps its place. -/
theorem names_declare_of_known {s : Scope} {b : Binding} (known : s.contains b.name = true) :
    (s.declare b).names = s.names := by
  rw [contains_iff_mem] at known
  obtain ⟨bindings⟩ := s
  simp only [names, declare] at known ⊢
  induction bindings with
  | nil => cases known
  | cons first rest ih =>
    rw [place]
    split
    · rename_i same
      rw [List.map_cons, List.map_cons, same]
    · rename_i other
      rw [List.map_cons, List.map_cons, ih]
      exact (List.mem_cons.mp known).resolve_left (Ne.symm other)

theorem names_declare_eq (s : Scope) (b : Binding) :
    (s.declare b).names = s.names ++ [b.name].filter (· ∉ s.names) := by
  cases known : s.contains b.name with
  | true =>
    have mem := (s.contains_iff_mem b.name).mp known
    rw [names_declare_of_known known]
    simp [mem]
  | false =>
    have mem : b.name ∉ s.names := fun mem => by
      rw [(s.contains_iff_mem b.name).mpr mem] at known
      cases known
    rw [names_declare known]
    simp [mem]

theorem names_apply (s : Scope) (step : ScopeStep) :
    (step.apply s).names = s.names ++ step.declared?.toList.filter (· ∉ s.names) := by
  cases step with
  | declare name token => exact s.names_declare_eq _
  | declareImplicit name => exact s.names_declare_eq _
  | define name => simp [ScopeStep.apply, ScopeStep.declared?]
  | use name => simp [ScopeStep.apply, ScopeStep.declared?]

theorem nodup_names_declare {s : Scope} (distinct : s.names.Nodup) (b : Binding) :
    (s.declare b).names.Nodup := by
  cases known : s.contains b.name with
  | true => rwa [names_declare_of_known known]
  | false =>
    rw [names_declare known]
    exact nodup_append_of_fresh distinct known

/-- The names of a scope are those that were declared, in the order in which they first were. -/
theorem names_replay (log : List ScopeStep) : (replay log).names = declaredNames log := by
  induction log using List.reverseRecOn with
  | nil => rfl
  | append_singleton log step ih =>
    rw [replay_append, names_apply, ih, declaredNames_append]

theorem nodup_names_replay (log : List ScopeStep) : (replay log).names.Nodup := by
  induction log using List.reverseRecOn with
  | nil => exact List.nodup_nil
  | append_singleton log step ih =>
    rw [replay_append]
    cases step with
    | declare name token => exact nodup_names_declare ih _
    | declareImplicit name => exact nodup_names_declare ih _
    | define name => rwa [ScopeStep.apply, names_define]
    | use name => rwa [ScopeStep.apply, names_use]

theorem find?_declare_eq (s : Scope) (b : Binding) (name : String) :
    (s.declare b).find? name = if b.name = name then some b else s.find? name := by
  split
  · rename_i same
    rw [← same, find?_declare_self]
  · rename_i other
    exact s.find?_declare_of_ne (Ne.symm other)

theorem find?_define_eq (s : Scope) (x name : String) : (s.define x).find? name =
    (s.find? name).map fun b => if x = name then Binding.defined b else b := by
  split
  · rename_i same
    rw [← same, find?_define_self]
  · rename_i other
    rw [s.find?_define_of_ne (Ne.symm other), Option.map_id']

theorem find?_use_eq (s : Scope) (x name : String) : (s.use x).find? name =
    (s.find? name).map fun b => if x = name then Binding.used b else b := by
  split
  · rename_i same
    rw [← same, find?_use_self]
  · rename_i other
    rw [s.find?_use_of_ne (Ne.symm other), Option.map_id']

/-- A declaration begins anew what is known about its name; every other step goes on from it. -/
theorem find?_apply (s : Scope) (step : ScopeStep) (name : String) : (step.apply s).find? name =
    match step.token? name with
    | some token => some ⟨name, statusAfter name token [], token⟩
    | none => (s.find? name).map (step.raise name) := by
  have kept : s.find? name = (s.find? name).map id := by rw [Option.map_id, id]
  cases step with
  | declare x token =>
    simp only [ScopeStep.apply, ScopeStep.token?, find?_declare_eq]
    split
    · rename_i same
      rw [same]
      rfl
    · exact kept
  | declareImplicit x =>
    simp only [ScopeStep.apply, ScopeStep.token?, find?_declare_eq]
    split
    · rename_i same
      rw [same]
      rfl
    · exact kept
  | define x => exact s.find?_define_eq x name
  | use x => exact s.find?_use_eq x name

/-- One more step brings a name on from where the steps before it have brought it. -/
theorem raise_statusAfter (name : String) (token : Option Token) (after : List ScopeStep)
    (step : ScopeStep) : step.raise name ⟨name, statusAfter name token after, token⟩ =
      ⟨name, statusAfter name token (after ++ [step]), token⟩ := by
  unfold statusAfter
  simp only [List.any_append, List.any_cons, List.any_nil, Bool.or_false]
  cases step with
  | declare x t => simp [ScopeStep.raise, ScopeStep.reads, ScopeStep.defines]
  | declareImplicit x => simp [ScopeStep.raise, ScopeStep.reads, ScopeStep.defines]
  | define x =>
    by_cases same : x = name <;> cases token <;> cases after.any (·.reads name) <;>
      cases after.any (·.defines name) <;>
      simp [ScopeStep.raise, ScopeStep.reads, ScopeStep.defines, Binding.defined, same]
  | use x =>
    by_cases same : x = name <;>
      simp [ScopeStep.raise, ScopeStep.reads, ScopeStep.defines, Binding.used, same]

/-- What a scope knows about a name is told by the latest declaration and the steps behind it. -/
theorem find?_replay (log : List ScopeStep) (name : String) : (replay log).find? name =
    (latest? name log).map fun (token, after) => ⟨name, statusAfter name token after, token⟩ := by
  induction log using List.reverseRecOn with
  | nil => rfl
  | append_singleton log step ih =>
    rw [replay_append, latest?_append, find?_apply, ih]
    cases step.token? name with
    | some token => rfl
    | none =>
      rw [Option.map_map, Option.map_map]
      exact Option.map_congr fun (token, after) _ => raise_statusAfter name token after step

/-! ## Unused names -/

/-- A name of a scope that has it once stands for its binding. -/
theorem find?_of_mem {s : Scope} (distinct : s.names.Nodup) {b : Binding} (mem : b ∈ s.bindings) :
    s.find? b.name = some b := by
  obtain ⟨bindings⟩ := s
  simp only [names, find?] at distinct mem ⊢
  induction bindings with
  | nil => cases mem
  | cons first rest ih =>
    obtain ⟨apart, distinct⟩ := List.nodup_cons.mp distinct
    rcases List.mem_cons.mp mem with rfl | mem
    · simp
    · have other : first.name ≠ b.name := fun same => apart (same ▸ List.mem_map_of_mem mem)
      simpa [other] using ih distinct mem

/-- The unused names, one after another, as what the scope knows about them tells. -/
theorem unused_eq_filterMap {s : Scope} (distinct : s.names.Nodup) :
    s.unused = s.names.filterMap fun name => (s.find? name).bind fun b =>
      if b.status = .used then none else b.token.map (name, ·) := by
  rw [unused, names, List.filterMap_map]
  refine List.filterMap_congr fun b mem => ?_
  rw [Function.comp_apply, find?_of_mem distinct mem, Option.bind_some]

end Scope

theorem statusAfter_eq_used (name : String) (token : Option Token) (after : List ScopeStep) :
    statusAfter name token after = .used ↔ token = none ∨ after.any (·.reads name) = true := by
  unfold statusAfter
  cases token <;> cases after.any (·.reads name) <;> cases after.any (·.defines name) <;> simp

theorem unused_replay (log : List ScopeStep) : (Scope.replay log).unused =
    (declaredNames log).filterMap fun name => (unreadToken? name log).map (name, ·) := by
  rw [Scope.unused_eq_filterMap (Scope.nodup_names_replay log), Scope.names_replay]
  refine List.filterMap_congr fun name _ => ?_
  rw [Scope.find?_replay, unreadToken?]
  rcases latest? name log with _ | ⟨token, after⟩
  · rfl
  · simp only [Option.map_some, Option.bind_some, statusAfter_eq_used]
    cases token <;> cases after.any (·.reads name) <;> rfl

theorem latest?_eq_none_iff (name : String) (log : List ScopeStep) :
    latest? name log = none ↔ log.any (·.declares name) = false := by
  have none_iff (step : ScopeStep) : step.token? name = none ↔ step.declares name = false := by
    cases step <;> simp [ScopeStep.token?, ScopeStep.declares, ScopeStep.declared?]
  induction log with
  | nil => simp [latest?]
  | cons step rest ih =>
    rw [latest?, Option.or_eq_none_iff, Option.map_eq_none_iff, List.any_cons,
      Bool.or_eq_false_iff, and_comm]
    exact and_congr (none_iff step) ih

/-- A name is known if some step declared it. -/
theorem contains_replay (log : List ScopeStep) (name : String) :
    (Scope.replay log).contains name = log.any (·.declares name) := by
  rw [Scope.contains, Scope.find?_replay, Option.isSome_map, Bool.eq_iff_iff, ← not_iff_not,
    Bool.not_eq_true, Bool.not_eq_true, Option.isSome_eq_false_iff, Option.isNone_iff_eq_none,
    latest?_eq_none_iff]

/-- The walk takes the step of its innermost scope, and complains if the name is not new there. -/
theorem after_declareName_replay (log : List ScopeStep) (name : Token) (outer : List Scope)
    (w : Walk) : Walk.after { w with scopes := .replay log :: outer } (declareName name) =
      { w with
        scopes := .replay (log ++ [.declare name.lexeme name]) :: outer
        complaints := w.complaints ++
          if log.any (·.declares name.lexeme) then [(name, .redeclared)] else [] } := by
  rw [replay_append, ← contains_replay]
  let declared : Walk :=
    { w with scopes := ScopeStep.apply (.replay log) (.declare name.lexeme name) :: outer }
  show declared.after (if (Scope.replay log).contains name.lexeme then complain name .redeclared
    else pure ()) = _
  cases (Scope.replay log).contains name.lexeme with
  | true => rfl
  | false =>
    rw [if_neg Bool.false_ne_true, if_neg Bool.false_ne_true, List.append_nil]
    rfl

/-- **A scope is told by its log.**  A name is new to a declaration, which is then not complained
about, exactly if no step before has declared it.  A name has come as far as its latest declaration
and the definitions and reads behind it have raised it.  The unused names are, in the order of their
first declarations and each once, those whose latest declaration has a token and behind which there
is no read; the token is the one to blame. -/
theorem scope_told_by_log (log : List ScopeStep) :
    (∀ name, (Scope.replay log).contains name = log.any (·.declares name)) ∧
    (∀ (name : Token) (outer : List Scope) (w : Walk),
      Walk.after { w with scopes := .replay log :: outer } (declareName name) =
        { w with
          scopes := .replay (log ++ [.declare name.lexeme name]) :: outer
          complaints := w.complaints ++
            if log.any (·.declares name.lexeme) then [(name, .redeclared)] else [] }) ∧
    (∀ name, (Scope.replay log).status? name =
      (latest? name log).map fun (token, after) => statusAfter name token after) ∧
    (declaredNames log).Nodup ∧
    (Scope.replay log).unused =
      (declaredNames log).filterMap fun name => (unreadToken? name log).map (name, ·) := by
  refine ⟨contains_replay log, after_declareName_replay log, fun name => ?_, ?_, unused_replay log⟩
  · rw [Scope.status?, Scope.find?_replay, Option.map_map]
    rfl
  · rw [← Scope.names_replay]
    exact Scope.nodup_names_replay log

end LoxLang
