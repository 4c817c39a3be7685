import FloorDivision.Proofs.Machine.Declared
import FloorDivision.Proofs.Machine.TypeBuilder

/-!
# Slots that are inherited at once

A type takes over the slots that it does not set when it is built.  This comes to the same as looking
each slot up along the bases whenever it is needed.

* `Registry` — types that are built one after the other, on top of earlier ones.
* `lineage` — the definitions of a type and of its bases, by looking up one base after the other.
* `Registry.along`, `Registry.along_each` — what holds of a type without a base, and of a type if it
  holds of its base, holds of all; the same between a type and each of its lineage.
* `Registry.slot_type`, `ancestors_type`, `isSubtypeOf_iff` — slots, ancestors and subtypes from the
  lineage.
* `eager_inheritance_is_lookup` — all of it, for the types on top of the builtin ones of a level.
-/

namespace FloorDivision

/-- Definitions of types, the latest first.  Each type has an identity of its own, and its builder is
told of such bases only that have been built. -/
inductive Registry : List Definition → Prop where
  | empty : Registry []
  | define {definition : Definition} {earlier : List Definition} (registry : Registry earlier)
      (fresh : ∀ e ∈ earlier, e.id ≠ definition.id)
      (built : ∀ type, .base type ∈ definition.calls → ∃ e ∈ earlier, e.type = type) :
      Registry (definition :: earlier)

/-- The definitions of a type and of its bases, nearest first. -/
def lineage : List Definition → TypeId → List Definition
  | [], _ => []
  | definition :: earlier, id =>
    if definition.id = id then
      definition :: definition.base?.elim [] fun base => lineage earlier base.id
    else lineage earlier id

/-- The nearest definition along the bases that sets the slot for division. -/
def definer (all : List Definition) (definition : Definition) : Option Definition :=
  (lineage all definition.id).find? (·.slots.divide.isSome)

namespace Definition

variable {definition : Definition} {base : ObjectType}

theorem base_mem_calls (h : definition.base? = some base) : .base base ∈ definition.calls := by
  obtain ⟨call, hcall, htold⟩ := List.mem_filterMap.mp (List.mem_of_getLast? h)
  cases call with
  | base type =>
    cases htold
    exact hcall
  | classic | divide | coerce | truth => cases htold

theorem bases_type (h : definition.base? = some base) :
    definition.type.bases = base.ancestors := by
  rw [type_eq, h]
  rfl

theorem bases_type_of_none (h : definition.base? = none) : definition.type.bases = [] := by
  rw [type_eq, h]
  rfl

end Definition

namespace Registry

open Definition

variable {all : List Definition} {d e f : Definition}

/-! ## Along the bases -/

theorem lineage_self (definition : Definition) (earlier : List Definition) :
    lineage (definition :: earlier) definition.id =
      definition :: definition.base?.elim [] fun base => lineage earlier base.id :=
  if_pos rfl

theorem lineage_of_ne {definition : Definition} {earlier : List Definition} {id : TypeId}
    (h : definition.id ≠ id) : lineage (definition :: earlier) id = lineage earlier id := by
  rw [lineage, if_neg h]

/-- **Induction along the bases.** -/
theorem along (h : Registry all) {P : Definition → List Definition → Prop}
    (root : ∀ d : Definition, d ∈ all → d.base? = none → P d [d])
    (derived : ∀ d b : Definition, d ∈ all → b ∈ all → ∀ line, d.base? = some b.type → P b line →
      P d (d :: line)) :
    ∀ d ∈ all, P d (lineage all d.id) := by
  induction h with
  | empty => simp
  | @define definition earlier _ fresh built ih =>
    have hearlier : ∀ d ∈ earlier, P d (lineage earlier d.id) :=
      ih (fun d hd => root d (List.mem_cons_of_mem _ hd))
        (fun d b hd hb => derived d b (List.mem_cons_of_mem _ hd) (List.mem_cons_of_mem _ hb))
    intro d hd
    rcases List.mem_cons.mp hd with rfl | hold
    · rw [lineage_self]
      cases hbase : d.base? with
      | none => exact root d hd hbase
      | some type =>
        obtain ⟨b, hb, rfl⟩ := built type (base_mem_calls hbase)
        rw [Option.elim_some, id_type]
        exact derived d b hd (List.mem_cons_of_mem _ hb) _ hbase (hearlier b hb)
    · rw [lineage_of_ne (fresh d hold).symm]
      exact hearlier d hold

/-- The base of a type is one of the types. -/
theorem exists_base (h : Registry all) {base : ObjectType} :
    ∀ d ∈ all, d.base? = some base → ∃ e ∈ all, e.type = base := by
  induction h with
  | empty => simp
  | @define definition earlier _ _ built ih =>
    intro d hd hbase
    have hexists : ∃ e ∈ earlier, e.type = base := by
      rcases List.mem_cons.mp hd with rfl | hold
      · exact built base (base_mem_calls hbase)
      · exact ih d hold hbase
    obtain ⟨e, he, htype⟩ := hexists
    exact ⟨e, List.mem_cons_of_mem _ he, htype⟩

/-- **A type comes first in its lineage**, then its base with all that this one derives from. -/
theorem lineage_eq (h : Registry all) : ∀ d ∈ all,
    lineage all d.id = d :: d.base?.elim [] fun base => lineage all base.id := by
  induction h with
  | empty => simp
  | @define definition earlier registry fresh built ih =>
    -- a base has been built before, so it is looked up among the earlier types
    have hbase : ∀ d : Definition, (∀ type, d.base? = some type → ∃ e ∈ earlier, e.type = type) →
        (d.base?.elim [] fun base => lineage (definition :: earlier) base.id) =
          d.base?.elim [] fun base => lineage earlier base.id := by
      intro d hearlier
      cases htype : d.base? with
      | none => rfl
      | some type =>
        obtain ⟨e, he, rfl⟩ := hearlier type htype
        rw [Option.elim_some, Option.elim_some, lineage_of_ne (id_type e ▸ (fresh e he).symm)]
    intro d hd
    rcases List.mem_cons.mp hd with rfl | hold
    · rw [hbase d fun type htype => built type (base_mem_calls htype), lineage_self]
    · rw [hbase d fun type => registry.exists_base d hold, lineage_of_ne (fresh d hold).symm]
      exact ih d hold

/-- Types are told apart by their identities. -/
theorem eq_of_id (h : Registry all) (hd : d ∈ all) (he : e ∈ all) (hid : d.id = e.id) : d = e := by
  induction h with
  | empty => cases hd
  | define _ fresh _ ih =>
    rcases List.mem_cons.mp hd with rfl | hd' <;> rcases List.mem_cons.mp he with rfl | he'
    · rfl
    · exact absurd hid.symm (fresh e he')
    · exact absurd hid (fresh d hd')
    · exact ih hd' he'

/-- **A relation along the bases.**  What holds of a type with itself, and of a type with everything
of which it holds with its base, holds of a type with all of its lineage. -/
theorem along_each (h : Registry all) {R : Definition → Definition → Prop}
    (self : ∀ d ∈ all, R d d)
    (derived : ∀ d b e : Definition, d.base? = some b.type → R b e → R d e) :
    ∀ d ∈ all, ∀ e ∈ lineage all d.id, R d e := by
  refine h.along (P := fun d line => ∀ e ∈ line, R d e) ?_ ?_
  · intro d hd _ e he
    rw [List.mem_singleton.mp he]
    exact self d hd
  · intro d b hd _ line hbase ih e he
    rcases List.mem_cons.mp he with rfl | hline
    · exact self e hd
    · exact derived d b e hbase (ih e hline)

theorem mem_of_mem_lineage (h : Registry all) (hd : d ∈ all) (he : e ∈ lineage all d.id) : e ∈ all :=
  h.along_each (R := fun _ e => e ∈ all) (fun _ hd => hd) (fun _ _ _ _ he => he) d hd e he

/-! ## Slots and ancestors -/

/-- A type is the one that its lineage declares, link by link. -/
theorem type_eq_build (h : Registry all) (hd : d ∈ all) :
    ∃ bases, lineage all d.id = d :: bases ∧ d.type = Declared.build d.own (bases.map own) := by
  refine h.along (P := fun d line => ∃ bases, line = d :: bases ∧
    d.type = Declared.build d.own (bases.map own)) ?_ ?_ d hd
  · intro d _ hbase
    exact ⟨[], rfl, by rw [type_eq, hbase]; rfl⟩
  · rintro d b _ _ line hbase ⟨bases, rfl, htype⟩
    refine ⟨b :: bases, rfl, ?_⟩
    rw [type_eq, hbase, htype]
    rfl

/-- **A slot is that of the nearest type which sets it.** -/
theorem slot_type (h : Registry all) (hd : d ∈ all) {α : Type} (slot : Slots → Option α)
    (inherited : ∀ own others, slot (own.orElse others) = (slot own <|> slot others)) :
    slot d.type.slots = (lineage all d.id).findSome? (slot ·.slots) := by
  obtain ⟨bases, hline, htype⟩ := h.type_eq_build hd
  rw [hline, htype, Declared.slot_build slot inherited, ← List.map_cons, List.findSome?_map]
  rfl

/-- **The ancestors of a type are the types of its lineage.** -/
theorem ancestors_type (h : Registry all) (hd : d ∈ all) :
    d.type.ancestors = (lineage all d.id).map (·.type.toTypeEntry) := by
  refine h.along (P := fun d line => d.type.ancestors = line.map (·.type.toTypeEntry)) ?_ ?_ d hd
  · intro d _ hbase
    unfold ObjectType.ancestors
    rw [bases_type_of_none hbase]
    rfl
  · intro d b _ _ line hbase ih
    rw [List.map_cons, ← ih, ← bases_type hbase]
    rfl

theorem divide_type (h : Registry all) (hd : d ∈ all) :
    d.type.slots.divide = (definer all d).bind (·.slots.divide) := by
  have hfind : ∀ line : List Definition, line.findSome? (·.slots.divide) =
      (line.find? (·.slots.divide.isSome)).bind (·.slots.divide) := by
    intro line
    induction line with
    | nil => rfl
    | cons e line ih => cases hslot : e.slots.divide <;> simp [hslot, ih]
  rw [h.slot_type hd (·.divide) fun _ _ => rfl, hfind]
  rfl

/-! ## Subtypes -/

/-- **Subtypes are found along the bases and nowhere else.** -/
theorem isSubtypeOf_iff (h : Registry all) (hd : d ∈ all) (he : e ∈ all) :
    d.type.isSubtypeOf e.type = true ↔ e ∈ lineage all d.id := by
  unfold ObjectType.isSubtypeOf
  rw [h.ancestors_type hd, List.any_map, List.any_eq_true]
  constructor
  · rintro ⟨b, hb, hid⟩
    have hsame : b.id = e.id := by simpa [id_type] using hid
    exact h.eq_of_id (h.mem_of_mem_lineage hd hb) he hsame ▸ hb
  · intro hmem
    exact ⟨e, hmem, by simp⟩

theorem isSubtypeOf_refl (d : Definition) : d.type.isSubtypeOf d.type = true := by
  simp [ObjectType.isSubtypeOf, ObjectType.ancestors]

/-- What a base derives from its subtypes derive from too. -/
theorem ancestors_subset (h : Registry all) (hd : d ∈ all) :
    ∀ e ∈ lineage all d.id, e.type.ancestors ⊆ d.type.ancestors := by
  refine h.along_each (R := fun d e => e.type.ancestors ⊆ d.type.ancestors) ?_ ?_ d hd
  · intro d _
    exact List.Subset.refl _
  · intro d b e hbase ih
    have hstep : b.type.ancestors ⊆ d.type.ancestors := by
      rw [← bases_type hbase]
      exact List.subset_cons_self _ _
    exact List.Subset.trans ih hstep

theorem isSubtypeOf_trans (h : Registry all) (hd : d ∈ all) (he : e ∈ all)
    (hde : d.type.isSubtypeOf e.type = true) (hef : e.type.isSubtypeOf f.type = true) :
    d.type.isSubtypeOf f.type = true := by
  obtain ⟨entry, hmem, hid⟩ := List.any_eq_true.mp hef
  have hsubset := h.ancestors_subset hd e ((h.isSubtypeOf_iff hd he).mp hde)
  exact List.any_eq_true.mpr ⟨entry, hsubset hmem, hid⟩

/-- A type that another one derives from has fewer bases. -/
theorem eq_or_length_lt (h : Registry all) (hd : d ∈ all) :
    ∀ e ∈ lineage all d.id, e = d ∨ e.type.bases.length < d.type.bases.length := by
  refine h.along_each (R := fun d e => e = d ∨ e.type.bases.length < d.type.bases.length) ?_ ?_ d hd
  · intro d _
    exact Or.inl rfl
  · intro d b e hbase ih
    have hlength : d.type.bases.length = b.type.bases.length + 1 := by
      rw [bases_type hbase]
      rfl
    rcases ih with rfl | hlt
    · exact Or.inr (by omega)
    · exact Or.inr (by omega)

theorem isSubtypeOf_antisymm (h : Registry all) (hd : d ∈ all) (he : e ∈ all)
    (hde : d.type.isSubtypeOf e.type = true) (hed : e.type.isSubtypeOf d.type = true) : d = e := by
  rcases h.eq_or_length_lt hd e ((h.isSubtypeOf_iff hd he).mp hde) with rfl | hlt
  · rfl
  · rcases h.eq_or_length_lt he d ((h.isSubtypeOf_iff he hd).mp hed) with rfl | hgt
    · rfl
    · exact absurd hlt (Nat.lt_asymm hgt)

end Registry

/-! ## Builtin types first -/

namespace Registry

open Definition

theorem define_number {all : List Definition} {level : Level} {kind : NumberKind} (h : Registry all)
    (hobject : object ∈ all) (fresh : ∀ e ∈ all, e.id ≠ .number kind) :
    Registry (number level kind :: all) := by
  refine h.define fresh fun type hcall => ⟨object, hobject, ?_⟩
  rw [type_object]
  cases level <;> simpa [Definition.number, Level.hasCoercion, eq_comm] using hcall

theorem define_bool {all : List Definition} {level : Level} (h : Registry all)
    (hint : number level (ObjectType.smallIntKind level) ∈ all)
    (fresh : ∀ e ∈ all, e.id ≠ .bool) : Registry (bool level :: all) := by
  refine h.define fresh fun type hcall => ⟨_, hint, ?_⟩
  rw [type_number]
  simpa [Definition.bool, ObjectType.smallInt, eq_comm] using hcall

/-- **The builtin types of a level are built in this way.** -/
theorem define_builtins (level : Level) : Registry (builtins level) := by
  have hobject : Registry [object] := empty.define (by simp) (by simp [object])
  have hnone : Registry [noneType, object] :=
    hobject.define (by decide) (by simp [noneType, type_object])
  have hnot : Registry [notImplementedType, noneType, object] :=
    hnone.define (by decide) (by simp [notImplementedType, type_object])
  have hfloat : Registry [number level .float, notImplementedType, noneType, object] :=
    hnot.define_number (by simp) (by decide)
  have hlong :
      Registry [number level .long, number level .float, notImplementedType, noneType, object] :=
    hfloat.define_number (by simp) (by cases level <;> decide)
  cases level with
  | legacy =>
    have hint : Registry (number .legacy .int :: _) := hlong.define_number (by simp) (by decide)
    exact hint.define_bool (by decide) (by decide)
  | modern => exact hlong.define_bool (by decide) (by decide)

end Registry

/--
**Inheriting slots at once is looking them up along the bases.**

Take any types that are built one after the other on top of the builtin types of a level, which are
built in the same way, each by any calls of its builder.  The lineage of a type is the type itself
and then the lineage of its base, and its ancestors are the types of its lineage.  Each slot of a type
is the one that was set explicitly by the first type of its lineage that set it, and is absent if none
did; whether the type is classic is decided by its own builder.  Types with the same definer share the
slot for division, and so does a type that was given the slot of another one.  A type is a subtype of
exactly those in its lineage, which is a partial order.
-/
theorem eager_inheritance_is_lookup (level : Level) {user : List Definition}
    (h : Registry (user ++ Definition.builtins level)) :
    let all := user ++ Definition.builtins level
    ((Definition.builtins level).map (·.type) =
      ObjectType.bool level :: NumberKind.all.filterMap (ObjectType.number? level) ++
        [.notImplementedType, .noneType, .object]) ∧
    (∀ d ∈ all,
      (lineage all d.id = d :: d.base?.elim [] fun base => lineage all base.id) ∧
      d.type.ancestors = (lineage all d.id).map (·.type.toTypeEntry) ∧
      d.type.slots.divide = (lineage all d.id).findSome? (·.slots.divide) ∧
      d.type.slots.coerce = (lineage all d.id).findSome? (·.slots.coerce) ∧
      d.type.slots.truth = (lineage all d.id).findSome? (·.slots.truth) ∧
      d.type.isClassic = decide (.classic ∈ d.calls)) ∧
    (∀ d ∈ all, ∀ e ∈ all,
      (definer all d = definer all e → d.type.slots.divide = e.type.slots.divide) ∧
      (∀ slot, e.type.slots.divide = some slot → d.slots.divide = some slot →
        d.type.slots.divide = e.type.slots.divide) ∧
      (d.type.isSubtypeOf e.type = true ↔ e ∈ lineage all d.id)) ∧
    (∀ d ∈ all, d.type.isSubtypeOf d.type = true) ∧
    (∀ d ∈ all, ∀ e ∈ all, ∀ f ∈ all, d.type.isSubtypeOf e.type = true →
      e.type.isSubtypeOf f.type = true → d.type.isSubtypeOf f.type = true) ∧
    ∀ d ∈ all, ∀ e ∈ all, d.type.isSubtypeOf e.type = true → e.type.isSubtypeOf d.type = true →
      d = e := by
  intro all
  refine ⟨Definition.types_builtins level, fun d hd => ?_,
    fun d hd e he => ⟨?_, ?_, h.isSubtypeOf_iff hd he⟩, fun d _ => Registry.isSubtypeOf_refl d,
    fun d hd e he f _ => h.isSubtypeOf_trans hd he, fun d hd e he => h.isSubtypeOf_antisymm hd he⟩
  · exact ⟨h.lineage_eq d hd, h.ancestors_type hd, h.slot_type hd (·.divide) fun _ _ => rfl,
      h.slot_type hd (·.coerce) fun _ _ => rfl, h.slot_type hd (·.truth) fun _ _ => rfl,
      d.isClassic_type⟩
  · intro hsame
    rw [h.divide_type hd, h.divide_type he, hsame]
  · intro slot hslot hset
    rw [h.slot_type hd (·.divide) fun _ _ => rfl, h.lineage_eq d hd, hslot,
      List.findSome?_cons_of_isSome (by rw [hset]; rfl), hset]

/-- A type inherits a slot over a classic type, and another one is given it by identity. -/
theorem eager_inheritance_is_lookup_chain :
    let a : Definition := ⟨.user 0, "A", [.base .object, .classic, .divide (.user 0)]⟩
    let b : Definition := ⟨.user 1, "B", [.coerce (.user 1), .base a.type]⟩
    let c : Definition := ⟨.user 2, "C", [.divide (.user 2), .base b.type, .divide (.user 0)]⟩
    Registry ([c, b, a] ++ Definition.builtins .legacy) ∧
      b.type.slots.divide = some (.user 0) ∧ b.type.isClassic = false ∧
      c.type.slots.divide = b.type.slots.divide ∧ c.type.slots.coerce = some (.user 1) ∧
      c.type.isSubtypeOf a.type = true := by
  intro a b c
  have hbuiltins := Registry.define_builtins .legacy
  have ha : Registry (a :: Definition.builtins .legacy) :=
    hbuiltins.define (by decide) fun type hcall =>
      ⟨.object, by decide, by simpa [a, Definition.type_object, eq_comm] using hcall⟩
  have hb : Registry (b :: a :: Definition.builtins .legacy) :=
    ha.define (by decide) fun type hcall => ⟨a, by simp, by simpa [b, eq_comm] using hcall⟩
  have hc : Registry ([c, b, a] ++ Definition.builtins .legacy) :=
    hb.define (by decide) fun type hcall => ⟨b, by simp, by simpa [c, eq_comm] using hcall⟩
  obtain ⟨-, hslots, hpairs, -⟩ := eager_inheritance_is_lookup .legacy hc
  obtain ⟨-, -, hdivide, -, -, hclassic⟩ := hslots b (by simp)
  obtain ⟨-, -, -, hcoerce, -⟩ := hslots c (by simp)
  refine ⟨hc, hdivide.trans (by decide), hclassic.trans (by decide), ?_,
    hcoerce.trans (by decide), ?_⟩
  · exact (hpairs c (by simp) b (by simp)).2.1 (.user 0) (hdivide.trans (by decide)) (by decide)
  · exact (hpairs c (by simp) a (by simp)).2.2.mpr (by decide)

end FloorDivision
