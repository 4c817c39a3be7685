import FloorDivision.Trace.Event

/-!
# Recorded events

A `Recording` keeps the events it is told, in order, as many as it may hold.
-/

namespace FloorDivision

/-- Events in the order in which they happened. -/
structure Recording where
  /-- The most events that are kept; absent for all. -/
  limit : Option Nat := none
  events : Array Event := #[]

namespace Recording

def observe (recording : Recording) (event : Event) : Recording :=
  match recording.limit with
  | some limit =>
    if limit ≤ recording.events.size then recording
    else { recording with events := recording.events.push event }
  | none => { recording with events := recording.events.push event }

/-- Forgets the events and counts from zero again. -/
def clear (recording : Recording) : Recording := { recording with events := #[] }

end Recording

end FloorDivision
