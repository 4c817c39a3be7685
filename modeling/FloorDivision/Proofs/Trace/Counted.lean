import FloorDivision.Trace.Profile
import FloorDivision.Trace.Recording
import Mathlib.Data.List.Induction
import Mathlib.Data.List.Nodup

/-!
# What a profile counts and a recording keeps

* `Recording.events_foldl` — an emptied recording keeps the first events that it is told, as many as
  its limit allows.
* `Profile.Counts` — the counts that are those of a list of events; `Counts.observe`,
  `counts_foldl`: a profile has those of all events it was told.
* `Tallies.ranking`, `Tallies.pairwise_ranking`, `mergeSort_eq_ranking` — the ranking names each kind
  that occurred with its count, in an order that does not depend on where the counts were kept.
* `profile_summarises_recording` — a profile is the summary of what a recording keeps.
-/

namespace FloorDivision

/-! ## Recordings -/

namespace Recording

/-- The part of the events that a recording with this limit keeps. -/
def kept : Option Nat → List Event → List Event
  | none, events => events
  | some limit, events => events.take limit

/-- What may be done with a recording. -/
inductive Use where
  | observe (event : Event)
  | clear

def use (recording : Recording) : Use → Recording
  | .observe event => recording.observe event
  | .clear => recording.clear

variable {recording : Recording} {events : List Event}

theorem limit_observe (recording : Recording) (event : Event) :
    (recording.observe event).limit = recording.limit := by
  unfold observe
  split
  · split <;> rfl
  · rfl

theorem limit_use (recording : Recording) (u : Use) :
    (recording.use u).limit = recording.limit := by
  cases u with
  | observe event => exact limit_observe recording event
  | clear => rfl

theorem limit_foldl_use (recording : Recording) (uses : List Use) :
    (uses.foldl use recording).limit = recording.limit := by
  induction uses generalizing recording with
  | nil => rfl
  | cons u uses ih => rw [List.foldl_cons, ih, limit_use]

theorem limit_foldl_observe (recording : Recording) (events : List Event) :
    (events.foldl observe recording).limit = recording.limit := by
  induction events generalizing recording with
  | nil => rfl
  | cons event events ih => rw [List.foldl_cons, ih, limit_observe]

theorem events_observe (h : recording.events.toList = kept recording.limit events)
    (event : Event) :
    (recording.observe event).events.toList = kept recording.limit (events ++ [event]) := by
  unfold observe
  cases hlimit : recording.limit with
  | none =>
    rw [hlimit] at h
    simp [h, kept]
  | some limit =>
    rw [hlimit] at h
    have hsize : recording.events.size = min limit events.length := by
      rw [← Array.length_toList, h, kept, List.length_take]
    dsimp only
    split
    · rename_i hfull
      rw [h, kept, kept, List.take_append_of_le_length (by omega)]
    · rename_i hroom
      rw [kept, List.take_of_length_le (by omega)] at h
      rw [Array.toList_push, h, kept, List.take_of_length_le (by simp; omega)]

/-- **An empty recording keeps the first events.** -/
theorem events_foldl (h : recording.events = #[]) (events : List Event) :
    (events.foldl observe recording).events.toList = kept recording.limit events := by
  induction events using List.reverseRecOn with
  | nil => cases hlimit : recording.limit <;> simp [h, kept]
  | append_singleton events event ih =>
    rw [List.foldl_append]
    have hlimit := limit_foldl_observe recording events
    rw [← hlimit] at ih ⊢
    exact events_observe ih event

end Recording

/-! ## Events by their sorts -/

namespace Event

/-- How deep the division is nested that starts. -/
def depth? : Event → Option Nat
  | .dispatch _ _ depth => some depth
  | _ => none

def isSlotCall : Event → Bool
  | .slotCall _ => true
  | _ => false

def isSlotDeclined : Event → Bool
  | .slotDeclined _ => true
  | _ => false

def isCoerce : Event → Bool
  | .coerce .. => true
  | _ => false

def isAccepted : Event → Bool
  | .coerce _ accepted => accepted
  | _ => false

def isUnsupported : Event → Bool
  | .unsupported .. => true
  | _ => false

end Event

/-! ## Counts -/

namespace Profile

/-- Counts that name each kind once which occurred at all, with how often it did. -/
structure Tallies (times : NumberKind → Nat) (counts : List (NumberKind × Nat)) : Prop where
  nodup : (counts.map Prod.fst).Nodup
  mem_iff : ∀ kind n, (kind, n) ∈ counts ↔ n = times kind ∧ 0 < n

section Kinds

variable {kind : NumberKind} {n : Nat} {times : NumberKind → Nat}
  {counts front back : List (NumberKind × Nat)}

theorem countKind_of_new (h : kind ∉ counts.map Prod.fst) :
    countKind kind counts = counts ++ [(kind, 1)] := by
  induction counts with
  | nil => rfl
  | cons entry rest ih =>
    rw [List.map_cons, List.mem_cons, not_or] at h
    obtain ⟨hne, hrest⟩ := h
    unfold countKind
    rw [if_neg (Ne.symm hne), ih hrest]
    rfl

theorem countKind_of_known (h : kind ∉ front.map Prod.fst) :
    countKind kind (front ++ (kind, n) :: back) = front ++ (kind, n + 1) :: back := by
  induction front with
  | nil => exact if_pos rfl
  | cons entry rest ih =>
    rw [List.map_cons, List.mem_cons, not_or] at h
    obtain ⟨hne, hrest⟩ := h
    rw [List.cons_append]
    unfold countKind
    rw [if_neg (Ne.symm hne), ih hrest]
    rfl

/-- The kinds that are named are those that occurred. -/
theorem Tallies.mem_map_iff (h : Tallies times counts) :
    kind ∈ counts.map Prod.fst ↔ 0 < times kind := by
  constructor
  · intro hmem
    obtain ⟨⟨_, n⟩, hentry, rfl⟩ := List.mem_map.mp hmem
    obtain ⟨rfl, hpos⟩ := (h.mem_iff _ n).mp hentry
    exact hpos
  · intro hpos
    exact List.mem_map.mpr ⟨(kind, times kind), (h.mem_iff kind _).mpr ⟨rfl, hpos⟩, rfl⟩

/-- **One occurrence** counts for its own kind and no other. -/
theorem Tallies.counted (h : Tallies times counts) (kind : NumberKind) :
    Tallies (fun k => times k + if k = kind then 1 else 0) (countKind kind counts) := by
  by_cases hknown : kind ∈ counts.map Prod.fst
  · obtain ⟨⟨name, n⟩, hentry, hname⟩ := List.mem_map.mp hknown
    obtain rfl : kind = name := hname.symm
    obtain ⟨front, back, rfl⟩ := List.append_of_mem hentry
    have hsplit := h.nodup
    rw [List.map_append, List.map_cons, List.nodup_middle, List.nodup_cons, List.mem_append,
      not_or] at hsplit
    obtain ⟨⟨hfront, hback⟩, -⟩ := hsplit
    rw [countKind_of_known hfront]
    refine ⟨by simpa using h.nodup, fun k m => ?_⟩
    have hold := h.mem_iff k
    by_cases hk : k = kind
    · subst hk
      obtain ⟨hn, -⟩ := (hold n).mp hentry
      have hnot : ∀ l : List (NumberKind × Nat), k ∉ l.map Prod.fst → (k, m) ∉ l :=
        fun l hl hmem => hl (List.mem_map.mpr ⟨_, hmem, rfl⟩)
      simp only [List.mem_append, List.mem_cons, hnot _ hfront, hnot _ hback, false_or, or_false,
        Prod.mk.injEq, true_and, if_true]
      omega
    · simpa [hk] using hold m
  · have hzero : times kind = 0 :=
      Nat.eq_zero_of_not_pos fun hpos => hknown (h.mem_map_iff.mpr hpos)
    rw [countKind_of_new hknown]
    refine ⟨?_, fun k m => ?_⟩
    · rw [List.map_append]
      exact h.nodup.append (List.nodup_singleton kind) (by simpa using hknown)
    · rw [List.mem_append, h.mem_iff, List.mem_singleton, Prod.mk.injEq]
      by_cases hk : k = kind
      · subst hk
        simp only [true_and, if_true]
        omega
      · simp [hk]

end Kinds

/-- The counts of a profile are those of these events. -/
structure Counts (events : List Event) (profile : Profile) : Prop where
  dispatches : profile.dispatches = (events.filterMap Event.depth?).length
  maxDepth : profile.maxDepth = (events.filterMap Event.depth?).max?.getD 0
  fastPaths : Tallies (fun kind => events.count (.fastPath kind)) profile.fastPaths
  escalations : profile.escalations = events.count .escalate
  slotCalls : profile.slotCalls = events.countP Event.isSlotCall
  slotDeclines : profile.slotDeclines = events.countP Event.isSlotDeclined
  coercionsTried : profile.coercionsTried = events.countP Event.isCoerce
  coercionsAccepted : profile.coercionsAccepted = events.countP Event.isAccepted
  unsupported : profile.unsupported = events.countP Event.isUnsupported

theorem counts_start : Counts [] {} where
  dispatches := rfl
  maxDepth := rfl
  fastPaths := ⟨List.nodup_nil, fun _ n => by simp⟩
  escalations := rfl
  slotCalls := rfl
  slotDeclines := rfl
  coercionsTried := rfl
  coercionsAccepted := rfl
  unsupported := rfl

/-- The greatest depth with one depth more. -/
theorem max?_concat (depths : List Nat) (depth : Nat) :
    (depths ++ [depth]).max?.getD 0 = max (depths.max?.getD 0) depth := by
  have hfold : ∀ l : List Nat, l.max?.getD 0 = l.foldl max 0 := fun l => by
    rw [List.foldl_max, Nat.zero_max]
  rw [hfold, hfold, List.foldl_append]
  rfl

theorem count_fastPath_concat (events : List Event) (kind k : NumberKind) :
    (events ++ [Event.fastPath kind]).count (.fastPath k) =
      events.count (.fastPath k) + if k = kind then 1 else 0 := by
  rw [List.count_append]
  by_cases hk : k = kind
  · simp [hk]
  · simp [hk, Ne.symm hk]

/-- **One event** counts for its own sort and no other. -/
theorem Counts.observe {events : List Event} {profile : Profile} (h : Counts events profile)
    (event : Event) : Counts (events ++ [event]) (profile.observe event) where
  dispatches := by
    cases event <;> simp [Profile.observe, Event.depth?, h.dispatches]
  maxDepth := by
    rw [List.filterMap_append]
    cases event with
    | dispatch left right depth =>
      show max profile.maxDepth depth = _
      rw [h.maxDepth]
      exact (max?_concat _ depth).symm
    | _ => simpa [Profile.observe, List.filterMap_cons, Event.depth?] using h.maxDepth
  fastPaths := by
    cases event with
    | fastPath kind =>
      simp only [count_fastPath_concat]
      exact h.fastPaths.counted kind
    | _ => simpa [Profile.observe, List.count_append, List.count_singleton] using h.fastPaths
  escalations := by
    cases event <;> simp [Profile.observe, List.count_append, h.escalations]
  slotCalls := by
    cases event <;> simp [Profile.observe, Event.isSlotCall, h.slotCalls]
  slotDeclines := by
    cases event <;> simp [Profile.observe, Event.isSlotDeclined, h.slotDeclines]
  coercionsTried := by
    cases event <;> simp [Profile.observe, Event.isCoerce, h.coercionsTried]
  coercionsAccepted := by
    cases event with
    | coerce side accepted =>
      cases accepted <;> simp [Profile.observe, Event.isAccepted, h.coercionsAccepted]
    | _ => simp [Profile.observe, Event.isAccepted, h.coercionsAccepted]
  unsupported := by
    cases event <;> simp [Profile.observe, Event.isUnsupported, h.unsupported]

theorem counts_foldl (events : List Event) : Counts events (events.foldl observe {}) := by
  induction events using List.reverseRecOn with
  | nil => exact counts_start
  | append_singleton events event ih =>
    rw [List.foldl_append]
    exact ih.observe event

/-! ## The ranking -/

theorem rank_injective {k l : NumberKind} (h : k.rank = l.rank) : k = l := by
  cases k <;> cases l <;> first | rfl | cases h

theorem precedes_iff {x y : NumberKind × Nat} :
    precedes x y = true ↔ y.2 < x.2 ∨ x.2 = y.2 ∧ x.1.rank ≤ y.1.rank := by
  simp [precedes]

theorem precedes_trans (x y z : NumberKind × Nat) (hxy : precedes x y = true)
    (hyz : precedes y z = true) : precedes x z = true := by
  rw [precedes_iff] at *
  omega

theorem precedes_total (x y : NumberKind × Nat) : (precedes x y || precedes y x) = true := by
  rw [Bool.or_eq_true, precedes_iff, precedes_iff]
  omega

theorem precedes_antisymm {x y : NumberKind × Nat} (hxy : precedes x y = true)
    (hyx : precedes y x = true) : x = y := by
  rw [precedes_iff] at *
  exact Prod.ext (rank_injective (by omega)) (by omega)

theorem pairwise_ranking (profile : Profile) :
    profile.ranking.Pairwise fun x y => precedes x y = true :=
  List.pairwise_mergeSort precedes_trans precedes_total profile.fastPaths

/-- **The ranking does not depend on where the counts were kept.** -/
theorem mergeSort_eq_ranking {profile : Profile} {entries : List (NumberKind × Nat)}
    (h : entries.Perm profile.fastPaths) : entries.mergeSort precedes = profile.ranking := by
  have hperm : (entries.mergeSort precedes).Perm profile.ranking :=
    ((List.mergeSort_perm entries precedes).trans h).trans
      (List.mergeSort_perm profile.fastPaths precedes).symm
  exact hperm.eq_of_pairwise (fun x y _ _ => precedes_antisymm)
    (List.pairwise_mergeSort precedes_trans precedes_total entries) (pairwise_ranking profile)

/-- The ranking names the kinds that the profile has counted. -/
theorem Tallies.ranking {times : NumberKind → Nat} {profile : Profile}
    (h : Tallies times profile.fastPaths) : Tallies times profile.ranking := by
  have hperm : profile.ranking.Perm profile.fastPaths := List.mergeSort_perm _ _
  exact ⟨(hperm.map Prod.fst).nodup_iff.mpr h.nodup,
    fun kind n => hperm.mem_iff.trans (h.mem_iff kind n)⟩

/-- More frequent kinds stand first, equally frequent ones in the order of the kinds. -/
theorem Tallies.pairwise_ranking {times : NumberKind → Nat} {profile : Profile}
    (h : Tallies times profile.ranking) :
    profile.ranking.Pairwise fun x y => y.2 < x.2 ∨ x.2 = y.2 ∧ x.1.rank < y.1.rank := by
  have hkinds : profile.ranking.Pairwise fun x y => x.1 ≠ y.1 := List.pairwise_map.mp h.nodup
  refine ((Profile.pairwise_ranking profile).and hkinds).imp ?_
  rintro x y ⟨hprecedes, hne⟩
  have hrank : x.1.rank ≠ y.1.rank := fun heq => hne (rank_injective heq)
  rw [precedes_iff] at hprecedes
  omega

end Profile

/--
**A profile is the summary of what an unlimited recording keeps** of the same events.

Its counts are those of the recorded events.  Its ranking names exactly the kinds that occurred
natively, once each with how often they did, the more frequent ones first and equally frequent ones
in the order of the kinds; it is the same in whatever order the counts are kept.  A recording with a
limit holds the first events up to its limit, also after it has been cleared, whatever was done with
it before.
-/
theorem profile_summarises_recording (events : List Event) :
    let profile := events.foldl Profile.observe {}
    let recorded := (events.foldl Recording.observe {}).events.toList
    recorded = events ∧
    profile.Counts recorded ∧
    (profile.ranking.map Prod.fst).Nodup ∧
    (∀ kind n, (kind, n) ∈ profile.ranking ↔ n = recorded.count (.fastPath kind) ∧ 0 < n) ∧
    profile.ranking.Pairwise (fun x y => y.2 < x.2 ∨ x.2 = y.2 ∧ x.1.rank < y.1.rank) ∧
    (∀ entries : List (NumberKind × Nat), entries.Perm profile.fastPaths →
      entries.mergeSort Profile.precedes = profile.ranking) ∧
    ∀ limit, (events.foldl Recording.observe { limit := some limit }).events.toList =
        recorded.take limit ∧
      ∀ earlier : List Recording.Use,
        let cleared := (earlier.foldl Recording.use { limit := some limit }).clear
        (events.foldl Recording.observe cleared).events.toList = recorded.take limit := by
  intro profile recorded
  have hrecorded : recorded = events := Recording.events_foldl rfl events
  have hcounts : profile.Counts events := Profile.counts_foldl events
  have hranking := hcounts.fastPaths.ranking
  rw [hrecorded]
  refine ⟨rfl, hcounts, hranking.nodup, hranking.mem_iff, hranking.pairwise_ranking,
    fun entries => Profile.mergeSort_eq_ranking, fun limit => ⟨Recording.events_foldl rfl events, ?_⟩⟩
  intro earlier cleared
  have hlimit : cleared.limit = some limit := Recording.limit_foldl_use _ earlier
  rw [Recording.events_foldl rfl events, hlimit]
  rfl

/-- Kinds that are equally frequent stand in their own order, not in that of their first events. -/
theorem profile_summarises_recording_tie :
    let profile := [Event.fastPath .float, .fastPath .int].foldl Profile.observe {}
    profile.fastPaths = [(.float, 1), (.int, 1)] ∧
      profile.ranking = [(.int, 1), (.float, 1)] := by
  intro profile
  obtain ⟨-, -, -, -, -, hperm, -⟩ :=
    profile_summarises_recording [Event.fastPath .float, .fastPath .int]
  refine ⟨rfl, ?_⟩
  rw [← hperm [(.int, 1), (.float, 1)] (List.Perm.swap _ _ [])]
  exact List.mergeSort_of_pairwise (by decide)

end FloorDivision
