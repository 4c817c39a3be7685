import FloorDivision.Proofs.Machine.Inheritance
import FloorDivision.Session.TypeTable

/-!
# Types of a session

The types that a session declares are built one after the other on top of the builtin ones, each by
its own calls.

* `TypeTable.Registered` — the types of a table are built by definitions with smaller numbers.
* `TypeTable.exists_registry` — so are those of any declarations.
-/

namespace FloorDivision

namespace TypeTable

/-- The types of a table come of these definitions and of the builtin ones of the level, with numbers
below the given one. -/
structure Registered (level : Level) (index : Nat) (user : List Definition) (table : TypeTable) :
    Prop where
  registry : Registry (user ++ Definition.builtins level)
  numbered : ∀ d ∈ user, ∃ i < index, d.id = .user i
  defined : ∀ entry ∈ table, ∃ d ∈ user ++ Definition.builtins level, d.type = entry.2

variable {level : Level} {index : Nat} {user : List Definition} {table : TypeTable}

theorem registered_builtin (level : Level) : Registered level 0 [] (builtin level) where
  registry := Registry.define_builtins level
  numbered := by simp
  defined := by
    intro entry hentry
    have hbuilt : entry.2 ∈ (Definition.builtins level).map (·.type) := by
      rw [Definition.types_builtins]
      cases level <;> revert entry <;> decide
    exact List.mem_map.mp hbuilt

theorem id_builtins_ne (level : Level) (index : Nat) :
    ∀ d ∈ Definition.builtins level, d.id ≠ .user index := by
  intro d hd
  rw [Definition.builtins, List.cons_append, List.mem_cons, List.mem_append, List.mem_map] at hd
  rcases hd with rfl | ⟨kind, -, rfl⟩ | hd
  · nofun
  · nofun
  · simp only [List.mem_cons, List.not_mem_nil, or_false] at hd
    rcases hd with rfl | rfl | rfl <;> nofun

/-- A type that is looked up is in the table. -/
theorem mem_of_lookup {key : String} {type : ObjectType} (h : List.lookup key table = some type) :
    (key, type) ∈ table := by
  obtain ⟨front, back, rfl, -⟩ := List.lookup_eq_some_iff.mp h
  simp

/-- **One declaration** is one definition more. -/
theorem Registered.declare (h : Registered level index user table) (spec : TypeSpec) :
    ∃ d, Registered level (index + 1) (d :: user) (table.declare index spec) := by
  let entry : TypeEntry :=
    { id := .user index, name := spec.name, isClassic := spec.isClassic,
      slots := ownSlots table index spec }
  let base := spec.base.bind fun key => List.lookup key table
  let d : Definition := ⟨entry.id, entry.name, Definition.callsOf entry base⟩
  have hfresh : ∀ e ∈ user ++ Definition.builtins level, e.id ≠ d.id := by
    intro e he
    rcases List.mem_append.mp he with huser | hbuiltin
    · obtain ⟨i, hi, hid⟩ := h.numbered e huser
      rw [hid]
      simp only [d, entry, ne_eq, TypeId.user.injEq]
      omega
    · exact id_builtins_ne level index e hbuiltin
  have hbuilt : ∀ type, .base type ∈ d.calls →
      ∃ e ∈ user ++ Definition.builtins level, e.type = type := by
    intro type hcall
    obtain ⟨key, -, hlookup⟩ := Option.bind_eq_some_iff.mp (Definition.base_mem_callsOf.mp hcall)
    exact h.defined _ (mem_of_lookup hlookup)
  refine ⟨d, h.registry.define hfresh hbuilt, ?_, ?_⟩
  · intro e he
    rcases List.mem_cons.mp he with rfl | hold
    · exact ⟨index, Nat.lt_succ_self index, rfl⟩
    · obtain ⟨i, hi, hid⟩ := h.numbered e hold
      exact ⟨i, Nat.lt_succ_of_lt hi, hid⟩
  · intro e he
    rcases List.mem_cons.mp he with rfl | hold
    · exact ⟨d, List.mem_cons_self, Definition.type_callsOf entry base⟩
    · obtain ⟨b, hb, htype⟩ := h.defined e hold
      exact ⟨b, List.mem_cons_of_mem _ hb, htype⟩

theorem Registered.foldl (h : Registered level index user table) (specs : List TypeSpec) :
    ∃ last all, Registered level last all
      ((specs.zipIdx index).foldl (fun table x => table.declare x.2 x.1) table) := by
  induction specs generalizing index user table with
  | nil => exact ⟨index, user, h⟩
  | cons spec specs ih =>
    obtain ⟨d, hd⟩ := h.declare spec
    exact ih hd

/-- **The types of a session are built one after the other.** -/
theorem exists_registry (level : Level) (specs : List TypeSpec) :
    ∃ user, Registry (user ++ Definition.builtins level) ∧
      ∀ entry ∈ ofSpecs level specs,
        ∃ d ∈ user ++ Definition.builtins level, d.type = entry.2 := by
  obtain ⟨_, user, h⟩ := (registered_builtin level).foldl specs
  exact ⟨user, h.registry, h.defined⟩

end TypeTable

end FloorDivision
