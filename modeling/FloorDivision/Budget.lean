import FloorDivision.Failure

/-!
# Limits and their accounting

* `Limits` — bounds on allocations, on live bytes and on the nesting of divisions.
* `Refusal` — the bound that a request would break.
* `Meter` — the account of one machine.  A meter without a bound on the heap counts nothing.

Counts are machine words.  A heap bound that refuses cannot be caught, a nesting bound can.
-/

namespace FloorDivision

/-- Bounds on one machine; an absent one leaves that resource free. -/
structure Limits where
  /-- Objects that may be created over the machine's life. -/
  maxAllocations : Option UInt64 := none
  /-- Bytes of live objects. -/
  maxMemory : Option UInt64 := none
  /-- Nesting of divisions. -/
  maxDepth : Option UInt64 := none
deriving DecidableEq, Repr

namespace Limits

/-- The nesting that is allowed where no bound is given. -/
def defaultDepth : UInt64 := 1000

/-- The nesting bound in force. -/
def depth (limits : Limits) : UInt64 := limits.maxDepth.getD defaultDepth

/-- Whether the heap has to be accounted for. -/
def boundHeap (limits : Limits) : Bool :=
  limits.maxAllocations.isSome || limits.maxMemory.isSome

end Limits

/-- A request that a bound turned down. -/
inductive Refusal where
  /-- The allocation of this number passes the limit. -/
  | allocations (limit count : UInt64)
  /-- The live bytes would pass the limit. -/
  | memory (limit used : UInt64)
  | depth
deriving DecidableEq, Repr

namespace Refusal

def message : Refusal → String
  | .allocations limit count => s!"allocation limit exceeded: {count.toNat} > {limit.toNat}"
  | .memory limit used => s!"memory limit exceeded: {used.toNat} bytes > {limit.toNat} bytes"
  | .depth => "maximum recursion depth exceeded"

def exception (refusal : Refusal) : Raised :=
  match refusal with
  | .allocations .. | .memory .. => ⟨.memoryError, some refusal.message⟩
  | .depth => ⟨.recursionError, some refusal.message⟩

/-- Only the nesting bound may be handled. -/
def failure (refusal : Refusal) : Failure :=
  match refusal with
  | .allocations .. | .memory .. => .uncatchable refusal.exception
  | .depth => .raised refusal.exception

end Refusal

/-- The account of one machine. -/
inductive Meter where
  /-- Bounds the nesting and counts nothing. -/
  | depthOnly (maxDepth : UInt64)
  /-- Counts allocations and live bytes against the limits. -/
  | counting (limits : Limits) (allocations liveBytes : UInt64)
deriving DecidableEq, Repr

namespace Meter

/-- A fresh account that counts only if the limits bound the heap. -/
def ofLimits (limits : Limits) : Meter :=
  if limits.boundHeap then .counting limits 0 0 else .depthOnly limits.depth

/-- Enters one allocation of `size` bytes; the bound on their number is looked at first. -/
def charge (size : UInt64) : Meter → Except Refusal Meter
  | .depthOnly maxDepth => .ok (.depthOnly maxDepth)
  | .counting limits allocations liveBytes =>
    let count := allocations + 1
    let used := liveBytes + size
    match limits.maxAllocations.filter (· < count), limits.maxMemory.filter (· < used) with
    | some limit, _ => .error (.allocations limit count)
    | none, some limit => .error (.memory limit used)
    | none, none => .ok (.counting limits count used)

/-- Takes `size` bytes off the live ones, down to zero at most. -/
def refund (size : UInt64) : Meter → Meter
  | .depthOnly maxDepth => .depthOnly maxDepth
  | .counting limits allocations liveBytes =>
    .counting limits allocations (if size ≤ liveBytes then liveBytes - size else 0)

/-- The nesting bound in force. -/
def maxDepth : Meter → UInt64
  | .depthOnly maxDepth => maxDepth
  | .counting limits _ _ => limits.depth

/-- Whether a division may be entered on top of `depth` others. -/
def checkDepth (depth : Nat) (meter : Meter) : Except Refusal Unit :=
  if depth < meter.maxDepth.toNat then .ok () else .error .depth

def allocations? : Meter → Option UInt64
  | .depthOnly _ => none
  | .counting _ allocations _ => some allocations

def liveBytes? : Meter → Option UInt64
  | .depthOnly _ => none
  | .counting _ _ liveBytes => some liveBytes

end Meter

end FloorDivision
