/-
LoxLang.Machine.Listing: what can be seen of a machine from outside.

* `Store.listing`: the names of a frame, sorted, with their values.
* `Machine.globals`: the globals with the texts of their values.
* `Machine.globalValue?`: the value of a global.
* `Machine.atGlobals`: no block or call is in progress.
-/
import LoxLang.Machine.Basic

namespace LoxLang

/-- Sorted by name, in the order of code points. -/
def sortByName {α : Type} (entries : List (String × α)) : List (String × α) :=
  entries.mergeSort fun a b => !(b.1 < a.1)

/-- The names of a frame with their values, sorted; a name without a value has none. -/
def Store.listing {α : Type} (s : Store α) (id : FrameId) : List (String × Option α) :=
  let frame := s.frames[id]?.getD .empty
  sortByName (frame.values.map (fun (name, a) => (name, some a)) ++
    frame.uninitialized.map fun name => (name, none))

/-- The globals with the texts of their values. -/
def Machine.globals (m : Machine) : List (String × Option String) :=
  (m.store.listing 0).map fun (name, v) => (name, v.map Value.text)

/-- No block or call is in progress. -/
def Machine.atGlobals (m : Machine) : Bool := m.environment == Store.globalEnvironment

/-- The value of a global; nothing if it is absent or has none. -/
def Machine.globalValue? (m : Machine) (name : String) : Option Value := m.store.value? 0 name

end LoxLang
