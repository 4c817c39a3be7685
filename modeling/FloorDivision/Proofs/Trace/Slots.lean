import FloorDivision.Proofs.Division.CoercionProtocol
import FloorDivision.Proofs.Division.Lasting
import FloorDivision.Proofs.Division.Program
import FloorDivision.Proofs.Trace.Words

/-!
# What the slots of a division tell the tracer

* `Machine.course` — tracer, nesting and configuration, which nothing but divisions and the tests of
  values have to do with.
* `Machine.Told` — from one machine to another the tracer has been told own events, with the words
  of whole calls between them.
* `told_attemptAll`, `told_convertEither`, `told_consult` — the slots of a division tell a word of
  slots.
-/

namespace FloorDivision

open MachineM

variable {α β : Type} {m m' m'' : Machine} {own own' : List Event}

/-- What a machine has to do with calls: its tracer, how deep they are nested and under which
configuration they are made. -/
def Machine.course (m : Machine) : Tracer × Nat × Config := (m.tracer, m.depth, m.config)

/-- From the first machine to the second the tracer has been told the events `own`, with the words
of whole calls on top of the divisions under way between them, and that is all that has changed of
its course. -/
def Machine.Told (m : Machine) (own : List Event) (m' : Machine) : Prop :=
  ∃ word, Woven m.depth own word ∧ m'.course = (m.tracer.told word, m.depth, m.config)

namespace Machine

theorem Told.depth (h : m.Told own m') : m'.depth = m.depth := by
  obtain ⟨_, _, hcourse⟩ := h
  exact congrArg (·.2.1) hcourse

theorem Told.config (h : m.Told own m') : m'.config = m.config := by
  obtain ⟨_, _, hcourse⟩ := h
  exact congrArg (·.2.2) hcourse

theorem told_of_course (h : m'.course = m.course) : m.Told [] m' := ⟨[], .nil _, h⟩

theorem told_observe (m : Machine) (event : Event) : m.Told [event] (m.observe event) :=
  ⟨[event], .single _ event, rfl⟩

theorem Told.trans (h : m.Told own m') (h' : m'.Told own' m'') : m.Told (own ++ own') m'' := by
  obtain ⟨word, hwoven, hcourse⟩ := h
  obtain ⟨word', hwoven', hcourse'⟩ := h'
  obtain ⟨htracer, hdepth, hconfig⟩ : m'.tracer = m.tracer.told word ∧ m'.depth = m.depth ∧
      m'.config = m.config := by simpa [Machine.course] using hcourse
  rw [hdepth] at hwoven'
  refine ⟨word ++ word', hwoven.append hwoven', ?_⟩
  rw [hcourse', htracer, hdepth, hconfig, Tracer.told_append]

/-- Before an own event other calls may have been made. -/
theorem Told.observe (h : m.Told own m') (event : Event) :
    m.Told (own ++ [event]) (m'.observe event) := h.trans (told_observe m' event)

end Machine

/-- A computation tells the tracer whole calls only. -/
def MachineM.TellsCalls (a : MachineM α) : Prop := ∀ m : Machine, m.Told [] (a m).2

namespace MachineM

theorem TellsCalls.of_keeps {a : MachineM α} (h : a.Keeps Machine.course) : a.TellsCalls :=
  fun m => Machine.told_of_course (h m)

theorem TellsCalls.bind {a : MachineM α} {f : α → MachineM β} (ha : a.TellsCalls)
    (hf : ∀ x, (f x).TellsCalls) : (a >>= f).TellsCalls := by
  intro m
  have first := ha m
  rw [run_bind]
  rcases hrun : a m with ⟨e | x, m'⟩
  · rwa [hrun] at first
  · rw [hrun] at first
    exact first.trans (hf x m')

theorem TellsCalls.tryCatch {a : MachineM α} {handler : Failure → MachineM α} (ha : a.TellsCalls)
    (hh : ∀ e, (handler e).TellsCalls) : (tryCatch a handler).TellsCalls := by
  intro m
  have first := ha m
  rw [run_tryCatch]
  rcases hrun : a m with ⟨e | x, m'⟩
  · rw [hrun] at first
    exact first.trans (hh e m')
  · rwa [hrun] at first

theorem TellsCalls.look {f : Machine → MachineM α} (hf : ∀ m, (f m).TellsCalls) :
    (get >>= f).TellsCalls := fun m => hf m m

theorem TellsCalls.releasing {a : MachineM α} (ha : a.TellsCalls) (value : Value) :
    (releasing value a).TellsCalls := by
  intro m
  rw [run_releasing]
  exact (ha m).trans (Machine.told_of_course rfl)

end MachineM

/-! ## Builtin slots -/

theorem keeps_course_newLong (n : Int) : (newLong n).Keeps Machine.course :=
  keeps_newLong (fun _ _ => rfl) n

theorem SlotAnswer.course {run : Except Failure Value × Machine} (h : SlotAnswer m run) :
    run.2.course = m.course := by
  cases h with
  | declined | failed | int | float => rfl
  | long n => exact keeps_course_newLong n m

theorem keeps_course_retain (value : Value) : (retain value).Keeps Machine.course := fun _ => rfl

theorem keeps_course_toDouble? (value : Value) :
    (BuiltinSlot.toDouble? value).Keeps Machine.course := by
  intro m
  rcases run_toDouble? value m with ⟨x?, hrun⟩ | ⟨e, hrun⟩
  · rw [hrun]
  · rw [hrun]

theorem keeps_course_builtinCoerce (kind : NumberKind) (own other : Value) :
    (BuiltinSlot.coerce kind own other).Keeps Machine.course := by
  have both : ∀ first second : Value, Keeps Machine.course (do
      let first ← retain first
      let second ← retain second
      return some (first, second)) := fun first second =>
    .bind (keeps_course_retain first) fun _ => .bind (keeps_course_retain second) fun _ =>
      keeps_pure _
  cases kind with
  | int =>
    refine Keeps.look fun m => ?_
    split
    · exact both own other
    · exact keeps_pure _
  | long =>
    refine Keeps.look fun m => ?_
    split
    · exact .bind (keeps_course_newLong _) fun _ => .bind (keeps_course_retain own) fun _ =>
        keeps_pure _
    · exact .bind (keeps_course_retain other) fun _ => .bind (keeps_course_retain own) fun _ =>
        keeps_pure _
    · exact keeps_pure _
  | float =>
    refine Keeps.look fun m => ?_
    split
    · exact .bind (keeps_course_retain other) fun _ => .bind (keeps_course_retain own) fun _ =>
        keeps_pure _
    · refine .bind (keeps_course_toDouble? other) fun x? => ?_
      split
      · exact .bind (keeps_course_retain own) fun _ => keeps_pure _
      · exact keeps_pure _
    · exact keeps_pure _

theorem keeps_course_builtinTruth (value : Value) :
    (BuiltinSlot.truth value).Keeps Machine.course := by
  refine Keeps.look fun m => ?_
  split <;> exact keeps_pure _

/-! ## Calling slots -/

section Slots

variable {user : UserSlots}
  (hu : ∀ {α : Type} {slot : MachineM α}, user.Offers slot → slot.TellsCalls)
include hu

theorem told_callDivide (slot : DivideSlot) (lhs rhs : Value) :
    (callDivide user slot lhs rhs).TellsCalls := by
  cases slot with
  | builtin kind =>
    exact .of_keeps fun m => (slotAnswer_divide kind lhs rhs m).course
  | user definer =>
    exact .bind (.of_keeps fun _ => rfl) fun _ => hu (.divide definer lhs rhs)

theorem told_callCoerce (slot : CoerceSlot) (own other : Value) :
    (callCoerce user slot own other).TellsCalls := by
  cases slot with
  | builtin kind => exact .of_keeps (keeps_course_builtinCoerce kind own other)
  | user definer =>
    exact .bind (.of_keeps fun _ => rfl) fun _ => hu (.coerce definer own other)

theorem told_isTrue (value : Value) : (isTrue user value).TellsCalls := by
  refine .look fun m => ?_
  split
  · rename_i slot _
    cases slot with
    | never => exact .of_keeps (keeps_pure _)
    | builtin => exact .of_keeps (keeps_course_builtinTruth value)
    | user definer =>
      exact .bind (.of_keeps fun _ => rfl) fun _ => hu (.truth definer value)
  · exact .of_keeps (keeps_pure _)

theorem told_truthOfOwned (value : Value) : (truthOfOwned user value).TellsCalls :=
  (told_isTrue hu value).releasing value

/-! ## The slots for division -/

/-- A slot that is called tells so, and if it declines that too. -/
theorem told_attempt (lhs rhs : Value) {phase : SlotPhase}
    (h : phase.answer = .ok .notImplemented) (side : Side) (slot : DivideSlot) :
    let next := phase.attempt user lhs rhs side slot
    (next.answer = .ok .notImplemented ∧ phase.machine.Told (declines [side]) next.machine) ∨
    (next.answer ≠ .ok .notImplemented ∧ phase.machine.Told [.slotCall side] next.machine) := by
  have called := (Machine.told_observe phase.machine (.slotCall side)).trans
    (told_callDivide hu slot lhs rhs (phase.machine.observe (.slotCall side)))
  unfold SlotPhase.attempt
  rw [h]
  dsimp only
  rcases hrun : callDivide user slot lhs rhs (phase.machine.observe (.slotCall side))
    with ⟨e | value, after⟩
  · rw [hrun] at called
    exact Or.inr ⟨by simp, called⟩
  · rw [hrun] at called
    cases value with
    | notImplemented => exact Or.inl ⟨rfl, called.observe (.slotDeclined side)⟩
    | none | bool | int | float | ref => exact Or.inr ⟨by simp, called⟩

/-- **Slots are called one after the other until one answers or fails.** -/
theorem told_attemptAll (lhs rhs : Value) (slots : List (Side × DivideSlot)) {phase : SlotPhase}
    (h : phase.answer = .ok .notImplemented) :
    let after := phase.attemptAll user lhs rhs slots
    (after.answer = .ok .notImplemented ∧
      phase.machine.Told (declines (slots.map (·.1))) after.machine) ∨
    (after.answer ≠ .ok .notImplemented ∧ ∃ sides side, sides ++ [side] <+: slots.map (·.1) ∧
      phase.machine.Told (declines sides ++ [.slotCall side]) after.machine) := by
  induction slots generalizing phase with
  | nil => exact Or.inl ⟨h, Machine.told_of_course rfl⟩
  | cons candidate rest ih =>
    obtain ⟨side, slot⟩ := candidate
    have hall : phase.attemptAll user lhs rhs ((side, slot) :: rest) =
        (phase.attempt user lhs rhs side slot).attemptAll user lhs rhs rest := rfl
    rw [hall]
    rcases told_attempt hu lhs rhs h side slot with ⟨hanswer, htold⟩ | ⟨hanswer, htold⟩
    · rcases ih hanswer with ⟨hlast, hrest⟩ | ⟨hlast, sides, other, hprefix, hrest⟩
      · exact Or.inl ⟨hlast, htold.trans hrest⟩
      · exact Or.inr ⟨hlast, side :: sides, other, by simpa using hprefix, htold.trans hrest⟩
    · rw [SlotPhase.attemptAll_of_over hanswer]
      exact Or.inr ⟨hanswer, [], side, by simp, htold⟩

/-! ## Conversions -/

theorem told_dividePair (lhs rhs : Value) (m : Machine) :
    m.Told [] (dividePair user lhs rhs m).machine := by
  unfold dividePair
  dsimp only
  split
  · exact Machine.told_of_course rfl
  · rename_i slot _
    have called := told_callDivide hu slot lhs rhs m
    split
    · rename_i hrun
      rw [hrun] at called
      exact called.trans (Machine.told_of_course rfl)
    · rename_i hrun
      rw [hrun] at called
      exact called.trans (Machine.told_of_course rfl)
    · rename_i hrun
      rw [hrun] at called
      exact called.trans (Machine.told_of_course rfl)

/-- A conversion that is asked for and does not fail tells whether it converted. -/
theorem told_convert (side : Side) (slot? : Option CoerceSlot) (lhs rhs : Value) (m : Machine) :
    ∃ accepted? : Option Bool, m.Told (accepted?.toList.map (.coerce side))
      (convert user side slot? lhs rhs m).machine := by
  cases slot? with
  | none => exact ⟨none, Machine.told_of_course rfl⟩
  | some slot =>
    unfold convert
    dsimp only
    have called := told_callCoerce hu slot (side.inOrder (lhs, rhs)).1 (side.inOrder (lhs, rhs)).2 m
    split
    · rename_i hrun
      rw [hrun] at called
      exact ⟨none, called⟩
    · rename_i hrun
      rw [hrun] at called
      exact ⟨some false, called.observe _⟩
    · rename_i hrun
      rw [hrun] at called
      exact ⟨some true, (called.observe _).trans (told_dividePair hu _ _ _)⟩

/-- **The left side's conversion comes before the right side's.** -/
theorem told_convertEither (left? right? : Option CoerceSlot) (lhs rhs : Value) (m : Machine) :
    ∃ leftTold? rightTold?, m.Told (coercions leftTold? rightTold?)
      (convertEither user left? right? lhs rhs m).machine := by
  obtain ⟨leftTold?, hleft⟩ := told_convert hu .left left? lhs rhs m
  unfold convertEither
  dsimp only
  split
  · obtain ⟨rightTold?, hright⟩ := told_convert hu .right right? lhs rhs
      (convert user .left left? lhs rhs m).machine
    exact ⟨leftTold?, rightTold?, hleft.trans hright⟩
  · exact ⟨leftTold?, none, by simpa [coercions] using hleft⟩

/-! ## All slots -/

omit hu in
/-- Each side has one slot at most among those to try. -/
theorem nodup_sides (entry : EntryPoint) (leftType rightType : ObjectType) :
    ((candidates entry leftType rightType).map (·.1)).Nodup := by
  unfold candidates
  dsimp only
  generalize offeredSlot? entry.level entry.left leftType = left?
  generalize (if leftType.id = rightType.id then none else
    (offeredSlot? entry.level entry.right rightType).filter fun slot => left? ≠ some slot) = right?
  split
  · cases left? <;> cases right? <;> simp
  · cases left? <;> cases right? <;> simp

/-- **The slots of a division tell a word of slots**, in which all have declined if nothing comes of
them. -/
theorem told_consult (entry : EntryPoint) (lhs rhs : Value) (m : Machine) :
    let consulted := consult user entry lhs rhs m
    (∃ own, SlotWord own ∧ m.Told own consulted.machine) ∧
    (consulted.answer = .ok none → ∃ sides left? right?, sides.Nodup ∧
      m.Told (declines sides ++ coercions left? right?) consulted.machine) := by
  have hnodup := nodup_sides entry (entry.left.typeAt entry.level m lhs)
    (entry.right.typeAt entry.level m rhs)
  have htried := told_attemptAll hu lhs rhs
    (candidates entry (entry.left.typeAt entry.level m lhs) (entry.right.typeAt entry.level m rhs))
    (rfl : (SlotPhase.start m).answer = .ok .notImplemented)
  have refuse : ∀ {sides left? right?} {after : Machine}, sides.Nodup →
      m.Told (declines sides ++ coercions left? right?) after →
      (∃ own, SlotWord own ∧ m.Told own after) ∧ ∃ sides left? right?, sides.Nodup ∧
        m.Told (declines sides ++ coercions left? right?) after := by
    intro sides left? right? after hsides htold
    exact ⟨⟨_, .declined left? right? hsides, htold⟩, sides, left?, right?, hsides, htold⟩
  unfold consult
  dsimp only
  generalize SlotPhase.attemptAll user lhs rhs (.start m) (candidates entry
    (entry.left.typeAt entry.level m lhs) (entry.right.typeAt entry.level m rhs)) = tried
    at htried ⊢
  obtain ⟨calls, answer, after⟩ := tried
  rcases htried with ⟨hanswer, htold⟩ | ⟨hanswer, sides, side, hprefix, htold⟩
  · subst hanswer
    dsimp only
    split
    · obtain ⟨left?, right?, hconverted⟩ := told_convertEither hu
        (entry.left.typeAt entry.level m lhs).slots.coerce
        (entry.right.typeAt entry.level m rhs).slots.coerce lhs rhs after
      obtain ⟨hslots, hdeclined⟩ := refuse hnodup (htold.trans hconverted)
      exact ⟨hslots, fun _ => hdeclined⟩
    · have hnone : declines ((candidates entry (entry.left.typeAt entry.level m lhs)
          (entry.right.typeAt entry.level m rhs)).map (·.1)) ++ coercions none none =
          declines ((candidates entry (entry.left.typeAt entry.level m lhs)
            (entry.right.typeAt entry.level m rhs)).map (·.1)) := List.append_nil _
      rw [← hnone] at htold
      obtain ⟨hslots, hdeclined⟩ := refuse hnodup htold
      exact ⟨hslots, fun _ => hdeclined⟩
  · have hcalled : SlotWord (declines sides ++ [.slotCall side]) :=
      .called (hnodup.sublist hprefix.sublist)
    cases answer with
    | error e => exact ⟨⟨_, hcalled, htold⟩, by simp⟩
    | ok value =>
      cases value with
      | notImplemented => exact absurd rfl hanswer
      | none | bool | int | float | ref => exact ⟨⟨_, hcalled, htold⟩, by simp⟩

end Slots

end FloorDivision
