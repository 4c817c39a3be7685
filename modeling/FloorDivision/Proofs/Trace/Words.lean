import FloorDivision.Trace.Tracer

/-!
# Words of events

The events of a call are a word: its own events, with the whole words of the calls inside it between
them.

* `Tracer.told` — a tracer once it has been told a word.
* `declines`, `coercions`, `SlotWord` — what a call tells of the slots that it tries.
* `CallWord`, `Woven` — the word of a whole call, and own events with the words of calls between
  them.
* `CallWord.lt_of_dispatch` — a call inside another one is nested deeper.
-/

namespace FloorDivision

namespace Tracer

/-- The tracer once it has been told events, one after the other. -/
def told (tracer : Tracer) (events : List Event) : Tracer :=
  events.foldl (fun tracer event => tracer.observe event) tracer

@[simp] theorem told_nil (tracer : Tracer) : tracer.told [] = tracer := rfl

@[simp] theorem told_cons (tracer : Tracer) (event : Event) (rest : List Event) :
    tracer.told (event :: rest) = (tracer.observe event).told rest := rfl

@[simp] theorem told_append (tracer : Tracer) (first rest : List Event) :
    tracer.told (first ++ rest) = (tracer.told first).told rest := List.foldl_append

/-- A silent tracer stays silent. -/
@[simp] theorem told_silent (events : List Event) : Tracer.silent.told events = .silent := by
  induction events with
  | nil => rfl
  | cons event rest ih => exact ih

/-- A recording without a limit keeps every event. -/
theorem told_recording (kept : Array Event) (events : List Event) :
    (Tracer.recording { events := kept }).told events =
      .recording { events := kept ++ events.toArray } := by
  induction events generalizing kept with
  | nil => simp
  | cons event rest ih =>
    have hkept : (Tracer.recording { events := kept }).observe event =
        .recording { events := kept.push event } := rfl
    simp [hkept, ih]

end Tracer

/-! ## What a call tells of slots -/

/-- Slots are called, one after the other, and each declines before the next one is called. -/
def declines (sides : List Side) : List Event :=
  sides.flatMap fun side => [.slotCall side, .slotDeclined side]

/-- A conversion by the left side, then one by the right side, each at most once. -/
def coercions (left? right? : Option Bool) : List Event :=
  left?.toList.map (.coerce .left) ++ right?.toList.map (.coerce .right)

/-- What a call tells of the slots that it tries, each side's at most once. -/
inductive SlotWord : List Event → Prop where
  /-- The slots that were called have declined, and conversions come after that. -/
  | declined {sides : List Side} (left? right? : Option Bool) :
      sides.Nodup → SlotWord (declines sides ++ coercions left? right?)
  /-- The last slot that was called has answered or failed. -/
  | called {sides : List Side} {side : Side} :
      (sides ++ [side]).Nodup → SlotWord (declines sides ++ [.slotCall side])

/-! ## Whole calls -/

mutual

/-- The word of a whole call that is made while `depth` others are under way. -/
inductive CallWord : Nat → List Event → Prop where
  /-- The call was refused. -/
  | refused (depth : Nat) : CallWord depth []
  | native (depth : Nat) (left right : Shape) (kind : NumberKind) (escalated : Bool) :
      CallWord depth (.dispatch left right (depth + 1) :: .fastPath kind ::
        if escalated then [.escalate] else [])
  | slots {depth : Nat} {own word : List Event} (left right : Shape) :
      SlotWord own → Woven (depth + 1) own word →
        CallWord depth (.dispatch left right (depth + 1) :: word)
  /-- Nothing came of the slots, which is the last that is told. -/
  | unsupported {depth : Nat} {sides : List Side} {left? right? : Option Bool} {word : List Event}
      (left right : Shape) (leftName rightName : String) :
      sides.Nodup → Woven (depth + 1) (declines sides ++ coercions left? right?) word →
        CallWord depth
          (.dispatch left right (depth + 1) :: (word ++ [.unsupported leftName rightName]))

/-- Own events in order, with the words of whole calls before, between and after them. -/
inductive Woven : Nat → List Event → List Event → Prop where
  | nil (depth : Nat) : Woven depth [] []
  | own {depth : Nat} {own word : List Event} (event : Event) :
      Woven depth own word → Woven depth (event :: own) (event :: word)
  | call {depth : Nat} {call own word : List Event} :
      CallWord depth call → Woven depth own word → Woven depth own (call ++ word)

end

namespace Woven

theorem append : ∀ {depth : Nat} {own own' word word' : List Event}, Woven depth own word →
    Woven depth own' word' → Woven depth (own ++ own') (word ++ word')
  | _, _, _, _, _, .nil _, h' => h'
  | _, _, _, _, _, .own event h, h' => .own event (h.append h')
  | _, _, _, _, _, .call hcall h, h' => by
    rw [List.append_assoc]
    exact .call hcall (h.append h')

/-- One event of the call's own. -/
theorem single (depth : Nat) (event : Event) : Woven depth [event] [event] :=
  .own event (.nil depth)

/-- One whole call. -/
theorem ofCall {depth : Nat} {call : List Event} (h : CallWord depth call) :
    Woven depth [] call := by
  have hwoven := Woven.call h (.nil depth)
  rwa [List.append_nil] at hwoven

end Woven

/-! ## Nesting -/

/-- An event that is not the start of a division. -/
def Event.IsInner : Event → Prop
  | .dispatch .. => False
  | _ => True

theorem isInner_of_mem_coercions {left? right? : Option Bool} {event : Event}
    (h : event ∈ coercions left? right?) : event.IsInner := by
  simp only [coercions, List.mem_append, List.mem_map] at h
  rcases h with ⟨_, _, rfl⟩ | ⟨_, _, rfl⟩ <;> trivial

theorem isInner_of_mem_declines {sides : List Side} {event : Event} (h : event ∈ declines sides) :
    event.IsInner := by
  simp only [declines, List.mem_flatMap, List.mem_cons, List.not_mem_nil, or_false] at h
  rcases h with ⟨_, _, rfl | rfl⟩ <;> trivial

theorem SlotWord.isInner {own : List Event} (h : SlotWord own) : ∀ event ∈ own, event.IsInner := by
  intro event hmem
  cases h with
  | declined left? right? _ =>
    rcases List.mem_append.mp hmem with hmem | hmem
    · exact isInner_of_mem_declines hmem
    · exact isInner_of_mem_coercions hmem
  | called _ =>
    rcases List.mem_append.mp hmem with hmem | hmem
    · exact isInner_of_mem_declines hmem
    · rw [List.mem_singleton.mp hmem]
      trivial

/-- A call starts one deeper than it is made. -/
theorem CallWord.depth_eq_of_head {depth k : Nat} {left right : TracedShape} {rest : List Event}
    (h : CallWord depth (.dispatch left right k :: rest)) : k = depth + 1 := by
  cases h <;> rfl

/-- So whatever it starts is deeper, if whatever it starts inside is. -/
theorem CallWord.lt_of_mem {depth k : Nat} {left right : TracedShape} {word : List Event}
    (h : CallWord depth word)
    (htail : ∀ {left right k}, Event.dispatch left right k ∈ word.tail → depth + 1 < k)
    (hmem : .dispatch left right k ∈ word) : depth < k := by
  cases word with
  | nil => cases hmem
  | cons event rest =>
    rcases List.mem_cons.mp hmem with rfl | hrest
    · rw [h.depth_eq_of_head]
      exact Nat.lt_succ_self depth
    · exact Nat.lt_of_succ_lt (htail hrest)

mutual

/-- **Every division inside a call is nested deeper** than the call itself, -/
theorem CallWord.lt_of_dispatch : ∀ {depth : Nat} {word : List Event}, CallWord depth word →
    ∀ {left right : TracedShape} {k : Nat}, .dispatch left right k ∈ word.tail → depth + 1 < k
  | _, _, .refused _, _, _, _, h => by simp at h
  | _, _, .native depth left right kind escalated, _, _, _, h => by
    cases escalated <;> simp at h
  | _, _, .slots left right hown hwoven, _, _, _, h => hwoven.lt_of_dispatch hown.isInner h
  | _, _, .unsupported left right leftName rightName hsides hwoven, _, _, _, h => by
    rcases List.mem_append.mp h with h | h
    · exact hwoven.lt_of_dispatch (SlotWord.declined _ _ hsides).isInner h
    · simp at h

/-- and so is every one that is woven between events which start none. -/
theorem Woven.lt_of_dispatch : ∀ {depth : Nat} {own word : List Event}, Woven depth own word →
    (∀ event ∈ own, event.IsInner) →
    ∀ {left right : TracedShape} {k : Nat}, .dispatch left right k ∈ word → depth < k
  | _, _, _, .nil _, _, _, _, _, h => by simp at h
  | _, _, _, .own event hrest, hown, _, _, _, h => by
    rcases List.mem_cons.mp h with rfl | h
    · exact False.elim (hown _ List.mem_cons_self)
    · exact hrest.lt_of_dispatch (fun event hmem => hown event (by simp [hmem])) h
  | _, _, _, .call hcall hrest, hown, _, _, _, h => by
    rcases List.mem_append.mp h with h | h
    · exact hcall.lt_of_mem hcall.lt_of_dispatch h
    · exact hrest.lt_of_dispatch hown h

end

end FloorDivision
