/-
LoxLang.Store.Assoc: lists of named entries.

A frame, the fields of an object and the methods of a class are all short lists of named entries
with one entry a name.

* `entryOf?`: the entry of a name.
* `putEntry`: replaces the entry of a name where it stands, or adds one at the end.
* `removeEntry`: leaves the entry of a name out.
* `namesOf`: the names that have entries.

Main statements: `entryOf?_putEntry_self` and `entryOf?_putEntry_of_ne`; `entryOf?_removeEntry_self`
and `entryOf?_removeEntry_of_ne`; `mem_namesOf_putEntry` and `mem_namesOf_removeEntry`.
-/

namespace LoxLang

/-- The entry of a name. -/
def entryOf? {α : Type} (entries : List (String × α)) (name : String) : Option α :=
  entries.lookup name

/-- Replaces the entry of a name where it stands, or adds one at the end. -/
def putEntry {α : Type} (name : String) (a : α) : List (String × α) → List (String × α)
  | [] => [(name, a)]
  | first :: rest =>
    if first.1 = name then (name, a) :: rest else first :: putEntry name a rest

/-- Leaves the entry of a name out, if there is one. -/
def removeEntry {α : Type} (name : String) (entries : List (String × α)) : List (String × α) :=
  entries.filter fun entry => entry.1 ≠ name

/-- The names that have entries. -/
def namesOf {α : Type} (entries : List (String × α)) : List String := entries.map Prod.fst

@[simp] theorem entryOf?_nil {α : Type} (name : String) :
    entryOf? ([] : List (String × α)) name = none := rfl

/-- The entry of a name is the first one under it. -/
theorem entryOf?_cons {α : Type} (first : String × α) (rest : List (String × α)) (name : String) :
    entryOf? (first :: rest) name =
      if name = first.1 then some first.2 else entryOf? rest name := by
  obtain ⟨key, a⟩ := first
  rw [entryOf?, entryOf?, List.lookup_cons]
  by_cases same : name = key
  · simp [same]
  · have apart : (name == key) = false := by simpa using same
    simp [same, apart]

/-- What was put for a name reads back. -/
@[simp] theorem entryOf?_putEntry_self {α : Type} (name : String) (a : α)
    (entries : List (String × α)) : entryOf? (putEntry name a entries) name = some a := by
  induction entries with
  | nil => simp [putEntry, entryOf?_cons]
  | cons first rest ih =>
    by_cases h : first.1 = name
    · simp [putEntry, entryOf?_cons, h]
    · simpa [putEntry, entryOf?_cons, h, Ne.symm h] using ih

/-- Putting an entry for one name leaves those of all others alone. -/
theorem entryOf?_putEntry_of_ne {α : Type} {name other : String} (h : other ≠ name) (a : α)
    (entries : List (String × α)) :
    entryOf? (putEntry name a entries) other = entryOf? entries other := by
  induction entries with
  | nil => simp [putEntry, entryOf?_cons, h]
  | cons first rest ih =>
    by_cases same : first.1 = name
    · simp [putEntry, entryOf?_cons, same, h]
    · simp [putEntry, entryOf?_cons, same, ih]

/-- What was removed is gone. -/
@[simp] theorem entryOf?_removeEntry_self {α : Type} (name : String) (entries : List (String × α)) :
    entryOf? (removeEntry name entries) name = none := by
  induction entries with
  | nil => rfl
  | cons first rest ih =>
    by_cases same : first.1 = name
    · simpa [removeEntry, same] using ih
    · simpa [removeEntry, entryOf?_cons, same, Ne.symm same] using ih

/-- Removing the entry of one name leaves those of all others alone. -/
theorem entryOf?_removeEntry_of_ne {α : Type} {name other : String} (h : other ≠ name)
    (entries : List (String × α)) :
    entryOf? (removeEntry name entries) other = entryOf? entries other := by
  induction entries with
  | nil => rfl
  | cons first rest ih =>
    by_cases same : first.1 = name
    · have apart : other ≠ first.1 := same ▸ h
      simpa [removeEntry, entryOf?_cons, same, apart, h] using ih
    · rw [removeEntry, List.filter_cons_of_pos (by simpa using same), entryOf?_cons,
        entryOf?_cons, ← removeEntry, ih]

/-! ## Names -/

/-- A name has an entry if it is among those that do. -/
theorem isSome_entryOf? {α : Type} (entries : List (String × α)) (name : String) :
    (entryOf? entries name).isSome = true ↔ name ∈ namesOf entries := by
  induction entries with
  | nil => simp [namesOf]
  | cons first rest ih =>
    by_cases same : name = first.1
    · simp [entryOf?_cons, namesOf, same]
    · simpa [entryOf?_cons, namesOf, same] using ih

theorem mem_namesOf_putEntry {α : Type} {name other : String} {a : α}
    {entries : List (String × α)} :
    other ∈ namesOf (putEntry name a entries) ↔ other = name ∨ other ∈ namesOf entries := by
  rw [← isSome_entryOf?, ← isSome_entryOf?]
  by_cases same : other = name
  · simp [same]
  · simp [entryOf?_putEntry_of_ne same, same]

theorem mem_namesOf_removeEntry {α : Type} {name other : String} {entries : List (String × α)} :
    other ∈ namesOf (removeEntry name entries) ↔ other ≠ name ∧ other ∈ namesOf entries := by
  rw [← isSome_entryOf?, ← isSome_entryOf?]
  by_cases same : other = name
  · simp [same]
  · simp [entryOf?_removeEntry_of_ne same, same]

end LoxLang
