import FloorDivision.Decimal.Layout
import FloorDivision.Trace.Event

/-!
# Counted events

A `Profile` counts the events of each sort.

* `Profile.ranking` — the native computations, the most frequent first.
* `Profile.text` — the report.
-/

namespace FloorDivision

/-- How often each sort of event happened. -/
structure Profile where
  dispatches : Nat := 0
  /-- The deepest nesting seen. -/
  maxDepth : Nat := 0
  /-- Native computations by kind, in the order in which the kinds first occurred. -/
  fastPaths : List (NumberKind × Nat) := []
  escalations : Nat := 0
  slotCalls : Nat := 0
  slotDeclines : Nat := 0
  coercionsTried : Nat := 0
  coercionsAccepted : Nat := 0
  unsupported : Nat := 0
deriving DecidableEq

namespace Profile

/-- One more occurrence of a kind. -/
def countKind (kind : NumberKind) : List (NumberKind × Nat) → List (NumberKind × Nat)
  | [] => [(kind, 1)]
  | (k, n) :: rest => if k = kind then (k, n + 1) :: rest else (k, n) :: countKind kind rest

def observe (profile : Profile) : Event → Profile
  | .dispatch _ _ depth =>
    { profile with
      dispatches := profile.dispatches + 1, maxDepth := max profile.maxDepth depth }
  | .fastPath kind => { profile with fastPaths := countKind kind profile.fastPaths }
  | .escalate => { profile with escalations := profile.escalations + 1 }
  | .slotCall _ => { profile with slotCalls := profile.slotCalls + 1 }
  | .slotDeclined _ => { profile with slotDeclines := profile.slotDeclines + 1 }
  | .coerce _ accepted =>
    { profile with
      coercionsTried := profile.coercionsTried + 1
      coercionsAccepted := profile.coercionsAccepted + (if accepted then 1 else 0) }
  | .unsupported .. => { profile with unsupported := profile.unsupported + 1 }

/-- More frequent kinds come first, equally frequent ones in the order of the kinds. -/
def precedes (x y : NumberKind × Nat) : Bool :=
  y.2 < x.2 || (x.2 == y.2 && x.1.rank ≤ y.1.rank)

/-- Native computations by kind, the most frequent first. -/
def ranking (profile : Profile) : List (NumberKind × Nat) := profile.fastPaths.mergeSort precedes

/-- The share of a count in the divisions, in hundredths. -/
def percentage (profile : Profile) (count : Nat) : Double :=
  Double.ofInt count / Double.ofInt (max profile.dispatches 1) * Double.ofInt 100

/-- A text with blanks in front up to the given width. -/
def padLeft (width : Nat) (text : String) : String :=
  .ofList (List.replicate (width - text.length) ' ') ++ text

/-- A text with blanks after it up to the given width. -/
def padRight (width : Nat) (text : String) : String :=
  text ++ .ofList (List.replicate (width - text.length) ' ')

def fastPathLine (profile : Profile) (kind : NumberKind) (count : Nat) : String :=
  let share := padLeft 5 ((profile.percentage count).fixed 1)
  s!"  {padRight 8 kind.name} {padLeft 10 (toString count)}  ({share}%)\n"

/-- The report: the counts, then the native computations with their share in the divisions. -/
def text (profile : Profile) : String :=
  "=== Floor Division Profile ===\n" ++
  s!"Dispatches:         {profile.dispatches}\n" ++
  s!"Max depth:          {profile.maxDepth}\n" ++
  s!"Slot calls:         {profile.slotCalls}\n" ++
  s!"Slot declines:      {profile.slotDeclines}\n" ++
  s!"Coercions:          {profile.coercionsTried} ({profile.coercionsAccepted} accepted)\n" ++
  s!"Int escalations:    {profile.escalations}\n" ++
  s!"Unsupported:        {profile.unsupported}\n" ++
  "\n--- Fast Paths ---\n" ++
  String.join (profile.ranking.map fun (kind, count) => profile.fastPathLine kind count)

end Profile

end FloorDivision
