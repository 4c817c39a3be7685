import FloorDivision.Config
import FloorDivision.Json.Decoder
import FloorDivision.Json.Document

/-!
# Configurations as documents

Every field of a configuration may be left out, and then has its default.

* `Config.toJson` — the document of a configuration.
* `Config.ofJson` — reads one, a text that is none being a value error.
-/

namespace FloorDivision

open Json

def Level.toDocument (level : Level) : Document := .text level.name

def Level.reader : Reader Level := .choice (Level.all.map fun level => (level.name, .bare level))

def NumberKind.toDocument (kind : NumberKind) : Document := .text kind.name

/-- A bound, null standing for none. -/
def boundDocument : Option UInt64 → Document
  | some bound => .integer bound.toNat
  | none => .null

namespace Limits

def toDocument (limits : Limits) : Document :=
  .object [("max_allocations", boundDocument limits.maxAllocations),
    ("max_memory", boundDocument limits.maxMemory),
    ("max_recursion_depth", boundDocument limits.maxDepth)]

def form : RecordForm Limits where
  title := "struct ResourceLimits"
  fields := [
    ⟨"max_allocations",
      fun limits => ({ limits with maxAllocations := · }) <$> Reader.optional .uint64, false⟩,
    ⟨"max_memory",
      fun limits => ({ limits with maxMemory := · }) <$> Reader.optional .uint64, false⟩,
    ⟨"max_recursion_depth",
      fun limits => ({ limits with maxDepth := · }) <$> Reader.optional .uint64, false⟩]
  mayEndEarly := true

end Limits

namespace Config

def toDocument (config : Config) : Document :=
  .object [("level", config.level.toDocument), ("limits", config.limits.toDocument),
    ("heap_capacity", .integer config.heapCapacity.toNat)]

def form : RecordForm Config where
  title := "struct RuntimeConfig"
  fields := [
    ⟨"level", fun config => ({ config with level := · }) <$> Level.reader, false⟩,
    ⟨"limits", fun config => ({ config with limits := · }) <$> Reader.record Limits.form {}, false⟩,
    ⟨"heap_capacity", fun config => ({ config with heapCapacity := · }) <$> Reader.uint64, false⟩]
  mayEndEarly := true

def toJson (config : Config) : String := config.toDocument.pretty

def ofJson (text : String) : Except Failure Config :=
  match decode (Reader.record form {}) text with
  | .ok config => .ok config
  | .error error =>
    .error (.raised ⟨.valueError, some ("invalid runtime config: " ++ error.message)⟩)

end Config

end FloorDivision
