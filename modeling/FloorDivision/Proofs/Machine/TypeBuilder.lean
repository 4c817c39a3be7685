import FloorDivision.Machine.ObjectType
import Mathlib.Data.List.Induction

/-!
# Types by the calls of their builders

A type is built by a sequence of calls, in any order and any number of each, after which it does not
change any more.

* `BuilderCall`, `TypeBuilder` — what a builder may be told and what it then knows.
* `Definition` — the identity and the name of a type with the calls of its builder;
  `Definition.slots` and `Definition.base?` are what the last calls of each sort set.
* `Definition.type_eq` — a built type is declared with just that; `Definition.type_callsOf`: every
  declaration comes of a builder.
* `Definition.builtins` — the builtin types of a level as they are built.
-/

namespace FloorDivision

/-- What the builder of a type may be told. -/
inductive BuilderCall where
  /-- The type derives from this one. -/
  | base (type : ObjectType)
  | classic
  /-- The type divides by this operation, a new one or one that other types have. -/
  | divide (slot : DivideSlot)
  | coerce (slot : CoerceSlot)
  | truth (slot : TruthSlot)
deriving DecidableEq

namespace BuilderCall

def base? : BuilderCall → Option ObjectType
  | .base type => some type
  | _ => none

def divide? : BuilderCall → Option DivideSlot
  | .divide slot => some slot
  | _ => none

def coerce? : BuilderCall → Option CoerceSlot
  | .coerce slot => some slot
  | _ => none

def truth? : BuilderCall → Option TruthSlot
  | .truth slot => some slot
  | _ => none

end BuilderCall

/-- A type that is being built. -/
structure TypeBuilder where
  entry : TypeEntry
  base : Option ObjectType := none

namespace TypeBuilder

def tell (builder : TypeBuilder) : BuilderCall → TypeBuilder
  | .base type => { builder with base := some type }
  | .classic => { builder with entry.isClassic := true }
  | .divide slot => { builder with entry.slots.divide := some slot }
  | .coerce slot => { builder with entry.slots.coerce := some slot }
  | .truth slot => { builder with entry.slots.truth := some slot }

def build (builder : TypeBuilder) : ObjectType := .declare builder.entry builder.base

end TypeBuilder

/-- A type as it is defined: its identity, its name and the calls of its builder. -/
structure Definition where
  id : TypeId
  name : String
  calls : List BuilderCall := []
deriving DecidableEq

namespace Definition

/-- The builder after all calls. -/
def builder (definition : Definition) : TypeBuilder :=
  definition.calls.foldl TypeBuilder.tell
    { entry := { id := definition.id, name := definition.name } }

/-- The type that is built. -/
def type (definition : Definition) : ObjectType := definition.builder.build

/-- What the last call of a sort says. -/
def last {α : Type} (told : BuilderCall → Option α) (definition : Definition) : Option α :=
  (definition.calls.filterMap told).getLast?

/-- The base of the type. -/
def base? (definition : Definition) : Option ObjectType := definition.last BuilderCall.base?

/-- The slots that are set explicitly. -/
def slots (definition : Definition) : Slots where
  divide := definition.last BuilderCall.divide?
  coerce := definition.last BuilderCall.coerce?
  truth := definition.last BuilderCall.truth?

/-- The type on its own, without anything that it inherits. -/
def own (definition : Definition) : TypeEntry where
  id := definition.id
  name := definition.name
  isClassic := decide (.classic ∈ definition.calls)
  slots := definition.slots

variable {id : TypeId} {name : String}

theorem last_concat {α : Type} (told : BuilderCall → Option α) (calls : List BuilderCall)
    (call : BuilderCall) :
    last told ⟨id, name, calls ++ [call]⟩ = (told call <|> last told ⟨id, name, calls⟩) := by
  unfold last
  rw [List.filterMap_append]
  cases htold : told call <;> simp [htold]

/-- A builder knows what the last call of each sort has told it. -/
theorem builder_eq (definition : Definition) :
    definition.builder = ⟨definition.own, definition.base?⟩ := by
  obtain ⟨id, name, calls⟩ := definition
  induction calls using List.reverseRecOn with
  | nil => rfl
  | append_singleton calls call ih =>
    have htell : builder ⟨id, name, calls ++ [call]⟩ = (builder ⟨id, name, calls⟩).tell call := by
      unfold builder
      rw [List.foldl_append]
      rfl
    rw [htell, ih]
    cases call <;>
      simp [TypeBuilder.tell, own, slots, base?, last_concat, BuilderCall.base?,
        BuilderCall.divide?, BuilderCall.coerce?, BuilderCall.truth?]

/-- **What a type is built from**: the last call of each sort. -/
theorem type_eq (definition : Definition) :
    definition.type = .declare definition.own definition.base? := by
  unfold type
  rw [builder_eq]
  rfl

theorem id_type (definition : Definition) : definition.type.id = definition.id := by
  rw [type_eq]
  cases definition.base? <;> rfl

/-- A type is classic if its own builder is told so. -/
theorem isClassic_type (definition : Definition) :
    definition.type.isClassic = decide (.classic ∈ definition.calls) := by
  rw [type_eq]
  cases definition.base? <;> rfl

/-! ## Builtin types -/

def object : Definition := ⟨.object, "object", [.classic]⟩

def noneType : Definition := ⟨.noneType, "NoneType", [.base .object, .classic, .truth .never]⟩

def notImplementedType : Definition :=
  ⟨.notImplementedType, "NotImplementedType", [.base .object, .classic]⟩

/-- A kind of number; it coerces only where operands are coerced at all. -/
def number (level : Level) (kind : NumberKind) : Definition where
  id := .number kind
  name := kind.typeName level
  calls := (if level.hasCoercion then [.coerce (.builtin kind)] else []) ++
    [.base .object, .divide (.builtin kind), .truth (.builtin kind)]

def bool (level : Level) : Definition := ⟨.bool, "bool", [.base (.smallInt level)]⟩

/-- The builtin types of a level, the latest first. -/
def builtins (level : Level) : List Definition :=
  bool level :: (NumberKind.all.filter (·.existsAt level)).map (number level) ++
    [notImplementedType, noneType, object]

theorem type_object : object.type = ObjectType.object := rfl

theorem type_number (level : Level) (kind : NumberKind) :
    (number level kind).type = ObjectType.number level kind := by
  cases level <;> rfl

/-- What is built are the types that values have. -/
theorem types_builtins (level : Level) :
    (builtins level).map type =
      ObjectType.bool level :: NumberKind.all.filterMap (ObjectType.number? level) ++
        [.notImplementedType, .noneType, .object] := by
  cases level <;> rfl

/-! ## Declarations -/

/-- Calls that tell a builder what a declaration says. -/
def callsOf (entry : TypeEntry) (base : Option ObjectType) : List BuilderCall :=
  (base.map .base).toList ++ (if entry.isClassic then [.classic] else []) ++
    (entry.slots.divide.map .divide).toList ++ (entry.slots.coerce.map .coerce).toList ++
    (entry.slots.truth.map .truth).toList

/-- **Whatever can be declared can be built.** -/
theorem type_callsOf (entry : TypeEntry) (base : Option ObjectType) :
    type ⟨entry.id, entry.name, callsOf entry base⟩ = .declare entry base := by
  obtain ⟨id, name, isClassic, divide, coerce, truth⟩ := entry
  rw [type_eq]
  cases base <;> cases isClassic <;> cases divide <;> cases coerce <;> cases truth <;> rfl

theorem base_mem_callsOf {entry : TypeEntry} {base : Option ObjectType} {type : ObjectType} :
    .base type ∈ callsOf entry base ↔ base = some type := by
  unfold callsOf
  cases base <;> cases entry.isClassic <;> simp [eq_comm]

end Definition

end FloorDivision
