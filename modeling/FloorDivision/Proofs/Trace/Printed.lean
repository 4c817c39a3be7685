import FloorDivision.Trace.Log
import Mathlib.Data.List.Induction

/-!
# What a log prints

A log looks at its limit after it has printed a line, so it prints one at least.

* `Log.printable` — how many lines a limit lets through.
* `Log.Printed` — the state of a limited log after some events; `Printed.observe`, `printed_foldl`:
  after every step and so after every run.
* `log_keeps_limit` — a limited log prints what an unlimited one prints first, then its notice, then
  nothing.
-/

namespace FloorDivision

namespace Log

/-- The number of lines that a limit lets through: the limit, but one at least. -/
def printable (limit : Nat) : Nat := max limit 1

/-- What a log prints that is told these events under a limit. -/
def limitedLines (limit : Nat) (events : List Event) : List String :=
  (events.map Event.line).take (printable limit) ++
    if printable limit ≤ events.length then [notice limit] else []

/-- The state of a log that has been told these events under a limit. -/
structure Printed (limit : Nat) (events : List Event) (log : Log) : Prop where
  limited : log.limit = some limit
  count : log.count = min (printable limit) events.length
  stopped : log.stopped = decide (printable limit ≤ events.length)
  lines : log.lines.toList = limitedLines limit events

variable {limit : Nat} {events : List Event} {log : Log}

theorem printed_start (limit : Nat) : Printed limit [] { limit := some limit } := by
  have hpos : ¬printable limit ≤ 0 := by unfold printable; omega
  refine ⟨rfl, by simp, by simpa using hpos, ?_⟩
  unfold limitedLines
  rw [if_neg (by simpa using hpos)]
  simp

/-- Once the limit is reached the lines stay as they are. -/
theorem limitedLines_concat_of_le (event : Event) (h : printable limit ≤ events.length) :
    limitedLines limit (events ++ [event]) = limitedLines limit events := by
  unfold limitedLines
  rw [List.map_append, List.take_append_of_le_length (by simpa using h), if_pos h,
    if_pos (by rw [List.length_append]; omega)]

/-- Below the limit there is one line more, and the notice with the last one. -/
theorem limitedLines_concat_of_lt (event : Event) (h : events.length < printable limit) :
    limitedLines limit (events ++ [event]) = limitedLines limit events ++ event.line ::
      if printable limit ≤ events.length + 1 then [notice limit] else [] := by
  unfold limitedLines
  rw [if_neg (Nat.not_le_of_lt h), List.take_of_length_le (by simp; omega),
    List.take_of_length_le (by simp; omega)]
  simp

/-- **One event**: a line, unless the limit has been reached. -/
theorem Printed.observe (h : Printed limit events log) (event : Event) :
    Printed limit (events ++ [event]) (log.observe event) := by
  have hlength : (events ++ [event]).length = events.length + 1 := by simp
  unfold Log.observe
  rw [h.limited, h.stopped]
  by_cases hfull : printable limit ≤ events.length
  · rw [if_pos (by simpa using hfull)]
    refine ⟨h.limited, ?_, ?_, ?_⟩
    · rw [h.count, hlength]
      omega
    · rw [h.stopped, hlength]
      simp only [decide_eq_decide]
      omega
    · rw [limitedLines_concat_of_le event hfull]
      exact h.lines
  · have hlines := limitedLines_concat_of_lt event (Nat.lt_of_not_le hfull)
    have hcount : log.count + 1 = events.length + 1 := by
      rw [h.count]
      omega
    -- the limit is compared with the lines printed, this one included
    have hlast : limit ≤ log.count + 1 ↔ printable limit ≤ events.length + 1 := by
      rw [hcount]
      unfold printable
      omega
    rw [if_neg (by simpa using hfull)]
    dsimp only
    split
    · rename_i hreached
      have hprintable := hlast.mp hreached
      refine ⟨rfl, ?_, ?_, ?_⟩
      · rw [hlength]
        dsimp only
        omega
      · rw [hlength]
        simpa using hprintable
      · rw [hlines, if_pos hprintable, ← h.lines]
        simp
    · rename_i hreached
      have hprintable : ¬printable limit ≤ events.length + 1 := fun hle => hreached (hlast.mpr hle)
      refine ⟨rfl, ?_, ?_, ?_⟩
      · rw [hlength]
        dsimp only
        omega
      · rw [hlength]
        simp only [decide_eq_decide]
        omega
      · rw [hlines, if_neg hprintable, ← h.lines]
        simp

theorem printed_foldl (limit : Nat) (events : List Event) :
    Printed limit events (events.foldl Log.observe { limit := some limit }) := by
  induction events using List.reverseRecOn with
  | nil => exact printed_start limit
  | append_singleton events event ih =>
    rw [List.foldl_append]
    exact ih.observe event

/-- Without a limit every event is a line. -/
theorem lines_foldl_observe (events : List Event) (hlimit : log.limit = none)
    (hstopped : log.stopped = false) :
    (events.foldl Log.observe log).lines.toList = log.lines.toList ++ events.map Event.line := by
  induction events generalizing log with
  | nil => simp
  | cons event events ih =>
    have hobserve : log.observe event =
        { log with count := log.count + 1, lines := log.lines.push event.line } := by
      unfold Log.observe
      rw [hlimit, hstopped]
      rfl
    rw [List.foldl_cons, hobserve, ih (by exact hlimit) (by exact hstopped)]
    simp

end Log

/--
**A limited log prints the first lines of an unlimited one**, as many as its limit lets through.
Its notice comes once, right after the last of them, and nothing comes after it; a log that has
printed fewer lines has given no notice.  A limit of zero lets one line through, as a limit of one
does.
-/
theorem log_keeps_limit (limit : Nat) (events : List Event) :
    let all := (events.foldl Log.observe {}).lines.toList
    let limited := (events.foldl Log.observe { limit := some limit }).lines.toList
    all = events.map Event.line ∧
      limited = all.take (max limit 1) ++
        if max limit 1 ≤ all.length then [Log.notice limit] else [] := by
  intro all limited
  have hall : all = events.map Event.line := Log.lines_foldl_observe events rfl rfl
  refine ⟨hall, ?_⟩
  rw [hall, List.length_map]
  exact (Log.printed_foldl limit events).lines

/-- Under a limit of zero a line is printed, and the notice that says otherwise. -/
theorem log_keeps_limit_zero :
    ([Event.escalate].foldl Log.observe { limit := some 0 }).lines.toList =
      ["  +++ int overflow, escalating to long", "--- trace limit reached (0 lines) ---"] := by
  obtain ⟨hall, hlimited⟩ := log_keeps_limit 0 [.escalate]
  rw [hlimited, hall]
  decide

end FloorDivision
