/-
LoxLang.Proofs.Binding.Mentions: what a scope remembers of the reading of its names.

Of a name that was declared the scope keeps the token and whether it has been read.  A definition
changes neither, a read changes the one, and a declaration adds a name behind the others, unless the
name is there already.

* `Mention`, `Scope.mentions`: a name and what is remembered of it, in the order of declaration.
* `Mention.readIf`: what reading some names makes of it.

Main statements: `Scope.mentions_declare`, `Scope.mentions_use`, `Scope.unused_eq`.
-/
import LoxLang.Proofs.Binding.Effect

namespace LoxLang

/-! ## Names and what is remembered of them -/

/-- What a scope knows about a name, but for whether it is defined. -/
structure Mention where
  name : String
  token : Option Token
  read : Bool

namespace Mention

/-- A name that is declared by a token. -/
def ofToken (name : Token) (read : Bool) : Mention := ⟨name.lexeme, some name, read⟩

/-- A name is read if it was, or if it is one of some. -/
def readIf (hit : String → Bool) (e : Mention) : Mention := { e with read := e.read || hit e.name }

/-- The complaint about a name that has a token and was never read. -/
def complaint (e : Mention) : Option (Token × BindingFault) :=
  if e.read then none else e.token.map fun t => (t, .unused e.name)

@[simp] theorem name_readIf (hit : String → Bool) (e : Mention) :
    (e.readIf hit).name = e.name := rfl

theorem map_readIf_of_false {hit : String → Bool} {es : List Mention}
    (h : ∀ e ∈ es, hit e.name = false) : es.map (readIf hit) = es := by
  refine (List.map_congr_left fun e mem => ?_).trans (List.map_id es)
  simp [readIf, h e mem]

theorem readIf_readIf (hit hit' : String → Bool) (e : Mention) :
    (e.readIf hit).readIf hit' = e.readIf fun x => hit x || hit' x := by
  simp [readIf, Bool.or_assoc]

end Mention

/-- What is remembered of a name that has come so far. -/
def Binding.mention (b : Binding) : Mention := ⟨b.name, b.token, b.status = .used⟩

namespace Scope

/-- What the scope knows about its names, in the order of their declarations. -/
def mentions (s : Scope) : List Mention := s.bindings.map Binding.mention

/-- The names of the scope, in the order of their declarations. -/
def names (s : Scope) : List String := s.bindings.map Binding.name

theorem map_name_mentions (s : Scope) : s.mentions.map Mention.name = s.names := by
  rw [mentions, List.map_map]
  rfl

theorem contains_iff_mem (s : Scope) (x : String) : s.contains x = true ↔ x ∈ s.names := by
  rw [contains, find?, List.find?_isSome, names, List.mem_map]
  simp

theorem nodup_append_of_fresh {s : Scope} {x : String} (distinct : s.names.Nodup)
    (fresh : s.contains x = false) : (s.names ++ [x]).Nodup := by
  refine List.nodup_append.mpr ⟨distinct, by simp, fun y mem z mem' same => ?_⟩
  have known := (s.contains_iff_mem y).mpr mem
  rw [same, List.mem_singleton.mp mem', fresh] at known
  cases known

/-- A name that is new is put behind the others. -/
theorem mentions_declare {s : Scope} {b : Binding} (fresh : s.contains b.name = false) :
    (s.declare b).mentions = s.mentions ++ [b.mention] := by
  have absent : ∀ other ∈ s.bindings, other.name ≠ b.name := by
    intro other mem same
    have known := (s.contains_iff_mem b.name).mpr (List.mem_map.mpr ⟨other, mem, same⟩)
    rw [fresh] at known
    cases known
  obtain ⟨bindings⟩ := s
  have placed : ∀ bs : List Binding, (∀ other ∈ bs, other.name ≠ b.name) →
      place b bs = bs ++ [b] := by
    intro bs
    induction bs with
    | nil => exact fun _ => rfl
    | cons first rest ih =>
      intro apart
      rw [place, if_neg (apart first List.mem_cons_self), List.cons_append,
        ih fun other mem => apart other (List.mem_cons_of_mem first mem)]
  rw [mentions, declare, placed bindings absent, List.map_append]
  rfl

@[simp] theorem mention_defined (b : Binding) : (Binding.defined b).mention = b.mention := by
  unfold Binding.defined Binding.mention
  split
  · rename_i declared
    simp [declared]
  · rfl

@[simp] theorem mentions_define (s : Scope) (x : String) : (s.define x).mentions = s.mentions := by
  obtain ⟨bindings⟩ := s
  simp only [mentions, define]
  induction bindings with
  | nil => rfl
  | cons first rest ih =>
    rw [adjust]
    split
    · simp
    · rw [List.map_cons, ih, List.map_cons]

/-- A read is remembered for its name, since the name is there once. -/
theorem mentions_use {s : Scope} (distinct : s.names.Nodup) (x : String) :
    (s.use x).mentions = s.mentions.map (Mention.readIf (· = x)) := by
  obtain ⟨bindings⟩ := s
  simp only [mentions, use, names] at distinct ⊢
  induction bindings with
  | nil => rfl
  | cons first rest ih =>
    obtain ⟨apart, distinct⟩ := List.nodup_cons.mp distinct
    rw [adjust]
    split
    · rename_i same
      have others : (rest.map Binding.mention).map (Mention.readIf (· = x)) =
          rest.map Binding.mention := by
        rw [List.map_map]
        refine List.map_congr_left fun other mem => ?_
        have ne : other.name ≠ x := by
          rintro rfl
          exact apart (same ▸ List.mem_map_of_mem mem)
        simp [Mention.readIf, Binding.mention, ne]
      rw [List.map_cons, List.map_cons, List.map_cons, others]
      simp [Mention.readIf, Binding.mention, Binding.used, same]
    · rename_i other
      rw [List.map_cons, List.map_cons, List.map_cons, ih distinct]
      simp [Mention.readIf, Binding.mention, other]

/-- The complaints about the names that were never read. -/
theorem unused_eq (s : Scope) :
    s.unused.map (fun u => (u.2, BindingFault.unused u.1)) =
      s.mentions.filterMap Mention.complaint := by
  obtain ⟨bindings⟩ := s
  simp only [unused, mentions]
  induction bindings with
  | nil => rfl
  | cons b rest ih =>
    obtain ⟨name, status, token⟩ := b
    cases status <;> cases token <;>
      simp_all [Binding.mention, Mention.complaint]

/-- A name that is new is the last one. -/
theorem names_declare {s : Scope} {b : Binding} (fresh : s.contains b.name = false) :
    (s.declare b).names = s.names ++ [b.name] := by
  rw [← map_name_mentions, mentions_declare fresh, List.map_append, map_name_mentions]
  rfl

@[simp] theorem names_define (s : Scope) (x : String) : (s.define x).names = s.names := by
  rw [← map_name_mentions, mentions_define, map_name_mentions]

@[simp] theorem names_use (s : Scope) (x : String) : (s.use x).names = s.names := by
  obtain ⟨bindings⟩ := s
  simp only [names, use]
  induction bindings with
  | nil => rfl
  | cons first rest ih =>
    rw [adjust]
    split
    · simp
    · rw [List.map_cons, ih, List.map_cons]

/-- A name that is declared, defined and read at once is put behind the others as read. -/
theorem mentions_introduced {s : Scope} {name : Token} (distinct : s.names.Nodup)
    (fresh : s.contains name.lexeme = false) :
    (((s.declare ⟨name.lexeme, .declared, some name⟩).define name.lexeme).use
      name.lexeme).mentions = s.mentions ++ [.ofToken name true] := by
  have nodup :
      ((s.declare ⟨name.lexeme, .declared, some name⟩).define name.lexeme).names.Nodup := by
    rw [names_define, names_declare fresh]
    exact nodup_append_of_fresh distinct fresh
  have others : s.mentions.map (Mention.readIf (· = name.lexeme)) = s.mentions := by
    refine Mention.map_readIf_of_false fun e mem => decide_eq_false fun same => ?_
    have known := (s.contains_iff_mem name.lexeme).mpr
      (s.map_name_mentions ▸ same ▸ List.mem_map_of_mem mem)
    rw [fresh] at known
    cases known
  rw [mentions_use nodup, mentions_define, mentions_declare fresh, List.map_append, others]
  simp [Binding.mention, Mention.readIf, Mention.ofToken]

end Scope

end LoxLang
