import FloorDivision.Trace.Event

/-!
# Printed events

A `Log` prints a line for each event it is told.  Under a limit it prints a notice after the last
line that it may print, and nothing after that.
-/

namespace FloorDivision

/-- Lines that have been printed. -/
structure Log where
  /-- The number of lines after which printing stops; absent for never. -/
  limit : Option Nat := none
  /-- Events printed so far. -/
  count : Nat := 0
  stopped : Bool := false
  lines : Array String := #[]

namespace Log

/-- The last line that is printed when the limit has been reached. -/
def notice (limit : Nat) : String := s!"--- trace limit reached ({limit} lines) ---"

def observe (log : Log) (event : Event) : Log :=
  if log.stopped then log
  else
    let printed := { log with count := log.count + 1, lines := log.lines.push event.line }
    match log.limit with
    | some limit =>
      if limit ≤ printed.count then
        { printed with stopped := true, lines := printed.lines.push (notice limit) }
      else printed
    | none => printed

/-- The printed lines as one text. -/
def text (log : Log) : String := log.lines.foldl (fun text line => text ++ line ++ "\n") ""

/-- The log with its lines taken away, the counts going on. -/
def drained (log : Log) : Log := { log with lines := #[] }

end Log

end FloorDivision
