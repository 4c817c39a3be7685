import FloorDivision.Budget

/-!
# Configuration of a machine

A `Config` chooses the level, the limits and the room reserved for objects.
-/

namespace FloorDivision

structure Config where
  level : Level := .modern
  limits : Limits := {}
  /-- Objects for which room is reserved. -/
  heapCapacity : UInt64 := 64
deriving DecidableEq, Repr

end FloorDivision
