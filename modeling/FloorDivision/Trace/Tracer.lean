import FloorDivision.Trace.Log
import FloorDivision.Trace.Profile
import FloorDivision.Trace.Recording

/-!
# Tracers

A tracer is told every event and records it, prints it, counts it, or does nothing.
-/

namespace FloorDivision

inductive Tracer where
  | silent
  | recording (kept : Recording)
  | log (printed : Log)
  | profile (counts : Profile)

namespace Tracer

/-- Tells the tracer an event. -/
def observe (event : Event) : Tracer → Tracer
  | .silent => .silent
  | .recording kept => .recording (kept.observe event)
  | .log printed => .log (printed.observe event)
  | .profile counts => .profile (counts.observe event)

/-- The recorded events, if this tracer records. -/
def events? : Tracer → Option (Array Event)
  | .recording kept => some kept.events
  | _ => none

/-- The counts, if this tracer counts. -/
def profile? : Tracer → Option Profile
  | .profile counts => some counts
  | _ => none

/-- The text printed since the last time it was taken, and the tracer without it. -/
def takeText : Tracer → String × Tracer
  | .log printed => (printed.text, .log printed.drained)
  | tracer => ("", tracer)

end Tracer

end FloorDivision
