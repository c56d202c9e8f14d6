/-
LoxLang.Binding.Distances: how far each reference stands from its declaration.

The table maps the site of a reference to the number of scopes between the reference and the scope
that declares its name.  A site without an entry belongs to a global name.

* `record`, `get?`: writing and reading.
* `Stmt.withDistances`: a tree whose references carry their distances.

Main statements: `get?_record_self` and `get?_record_of_ne`.
-/
import LoxLang.Tree.Marks

namespace LoxLang

/-- The number of scopes between a reference and its declaration; nothing for a global name. -/
abbrev Distance := Option Nat

/-- The distances of references, by site. -/
structure Distances where
  entries : Array Distance

namespace Distances

/-- The table without entries. -/
def empty : Distances := ⟨#[]⟩

/-- The distance recorded for a site. -/
def get? (t : Distances) (site : Site) : Distance := t.entries[site]?.getD none

/-- Records a distance for a site. -/
def record (t : Distances) (site : Site) (distance : Nat) : Distances :=
  ⟨(t.entries ++ Array.replicate (site + 1 - t.entries.size) none).setIfInBounds site
    (some distance)⟩

@[simp] theorem get?_empty (site : Site) : empty.get? site = none := by simp [empty, get?]

/-- A recorded distance reads back. -/
@[simp] theorem get?_record_self (t : Distances) (site : Site) (distance : Nat) :
    (t.record site distance).get? site = some distance := by
  simp only [record, get?]
  rw [Array.getElem?_setIfInBounds_self_of_lt]
  · rfl
  · simp only [Array.size_append, Array.size_replicate]
    omega

/-- Recording a distance changes no other entry. -/
theorem get?_record_of_ne (t : Distances) {site other : Site} (h : other ≠ site)
    (distance : Nat) : (t.record site distance).get? other = t.get? other := by
  simp only [record, get?]
  rw [Array.getElem?_setIfInBounds_ne (Ne.symm h), Array.getElem?_append]
  split
  · rfl
  · rename_i beyond
    rw [Array.getElem?_replicate, Array.getElem?_eq_none (Nat.le_of_not_lt beyond)]
    split <;> rfl

end Distances

/-- A statement whose references carry their distances. -/
def Stmt.withDistances (t : Distances) (s : Stmt Site) : Stmt Distance := s.map t.get?

end LoxLang
