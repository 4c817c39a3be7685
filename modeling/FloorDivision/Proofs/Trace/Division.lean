import FloorDivision.Proofs.Division.Specialised
import FloorDivision.Proofs.Script.Termination
import FloorDivision.Proofs.Trace.Slots

/-!
# What divisions tell the tracer

* `Machine.nativeWord` — what a native division tells: its kind, and whether machine integers are
  left.
* `Reentrant` — computations that have the tracer told something only by the divisions and tests
  that they make, with slots that do the same.
* `Machine.Reports` — the word that a call of an entry point tells, case by case.
* `reports_divideWith` — every call tells such a word if what slots tell are whole calls.
* `Reentrant.tellsCalls` — what re-entrant computations tell are whole calls, by one induction.
* `calls_tell_words` — every variant of division tells a well-nested word.
-/

namespace FloorDivision

open MachineM

variable {α β : Type} {m m' : Machine} {own : List Event} {lhs rhs : Value}

/-! ## Native divisions -/

/-- The machine integers that a native computation of a kind divides, if it divides any. -/
def Machine.nativeWords? (m : Machine) : NumberKind → Value → Value → Option (Int64 × Int64)
  | .int, .int a, .int b => some (a, b)
  | .long, .int a, .int b => if m.level = .modern then some (a, b) else none
  | _, _, _ => none

/-- What a native division tells; the quotient of one pair of machine integers is none. -/
def Machine.nativeWord (m : Machine) (kind : NumberKind) (lhs rhs : Value) : List Event :=
  .fastPath kind ::
    if m.nativeWords? kind lhs rhs = some (Int64.minValue, -1) then [.escalate] else []

theorem intFloorDivide_eq_none {a b : Int64} :
    intFloorDivide a b = .ok none ↔ a = Int64.minValue ∧ b = -1 := by
  unfold intFloorDivide
  constructor
  · intro h
    split at h
    · cases h
    · split at h
      · rename_i hx
        exact ⟨hx.2, hx.1⟩
      · dsimp only at h
        split at h <;> cases h
  · rintro ⟨rfl, rfl⟩
    rfl

/-- On this machine the computation tells the tracer exactly this. -/
def MachineM.TellsOn (a : MachineM α) (m : Machine) (word : List Event) : Prop :=
  (a m).2.course = (m.tracer.told word, m.depth, m.config)

theorem tellsOn_divideInts (a b : Int64) (m : Machine) :
    (divideInts a b).TellsOn m
      (if some (a, b) = some (Int64.minValue, -1) then [.escalate] else []) := by
  by_cases h : some (a, b) = some (Int64.minValue, -1)
  · rw [if_pos h]
    cases h
    rfl
  · have hne : intFloorDivide a b ≠ .ok none := fun hnone => by
      obtain ⟨rfl, rfl⟩ := intFloorDivide_eq_none.mp hnone
      exact h rfl
    rw [if_neg h]
    unfold divideInts
    split
    · rfl
    · rename_i hnone
      exact absurd hnone hne
    · rfl

theorem nativeWords?_long_eq_none
    (h : ∀ a b, m.level = .modern → lhs = .int a → rhs = .int b → False) :
    m.nativeWords? .long lhs rhs = none := by
  unfold Machine.nativeWords?
  split
  · rename_i hkind
    cases hkind
  · rename_i a b _
    exact if_neg fun hlevel => h a b hlevel rfl rfl
  · rfl

/-- Machine integers are divided as such at the modern level only. -/
theorem tellsOn_divideLongs (lhs rhs : Value) (m : Machine) :
    (divideLongs lhs rhs).TellsOn m
      (if m.nativeWords? .long lhs rhs = some (Int64.minValue, -1) then [.escalate] else []) := by
  unfold divideLongs MachineM.TellsOn
  rw [run_get_bind]
  change MachineM.TellsOn _ m _
  split
  · rename_i a b hlevel
    have hwords : m.nativeWords? .long (.int a) (.int b) = some (a, b) := if_pos hlevel
    rw [hwords]
    exact tellsOn_divideInts a b m
  · rename_i hother
    rw [nativeWords?_long_eq_none hother]
    split
    · split <;> rfl
    · rfl

theorem tellsOn_divideNatively (kind : NumberKind) (lhs rhs : Value) (m : Machine) :
    (divideNatively kind lhs rhs).TellsOn m (m.nativeWord kind lhs rhs) := by
  unfold divideNatively MachineM.TellsOn
  rw [run_bind_ok (run_observe _ _)]
  change MachineM.TellsOn _ (m.observe (.fastPath kind))
    (if m.nativeWords? kind lhs rhs = some (Int64.minValue, -1) then [.escalate] else [])
  split
  · exact tellsOn_divideInts _ _ _
  · exact tellsOn_divideLongs lhs rhs _
  · split <;> rfl
  · rename_i hlong hint _
    have hnone : m.nativeWords? kind lhs rhs = none := by
      unfold Machine.nativeWords?
      split
      · exact (hint _ _ rfl rfl rfl).elim
      · exact (hlong rfl).elim
      · rfl
    rw [hnone]
    rfl

/-- The operands of an entry point that fit it are machine integers as soon as they are held
directly. -/
theorem nativeWords?_of_fits {entry : EntryPoint} {kind : NumberKind}
    (hf : entry.Fits m lhs rhs) (hk : fastKind? entry m lhs rhs = some kind) {a b : Int64} :
    m.nativeWords? kind lhs rhs = some (a, b) ↔ lhs = .int a ∧ rhs = .int b := by
  obtain ⟨hleft, hright⟩ := isExact_of_fastKind? hf hk
  constructor
  · intro h
    unfold Machine.nativeWords? at h
    split at h
    · cases h
      exact ⟨rfl, rfl⟩
    · split at h
      · cases h
        exact ⟨rfl, rfl⟩
      · cases h
    · cases h
  · rintro ⟨rfl, rfl⟩
    cases kind with
    | int => rfl
    | long =>
      have hmodern : m.level = .modern := by
        cases hlevel : m.level with
        | modern => rfl
        | legacy => simp [Machine.isExact, hlevel, Level.hasNativeInt] at hleft
      exact if_pos hmodern
    | float => simp [Machine.isExact] at hleft

/-! ## The truth of a native quotient -/

/-- A new integer is no instance, so that its truth has nothing to do with user types. -/
theorem not_isInstance_newLong {n : Int} {value : Value} (h : newLong n m = (.ok value, m')) :
    ¬m'.IsInstance value := by
  rintro ⟨id, type, payload, rfl, hcontent⟩
  rw [run_newLong] at h
  split at h
  · cases h
  · unfold allocate at h
    cases ha : m.heap.allocate (.long n) with
    | error refusal => rw [ha] at h; cases h
    | ok filled =>
      obtain ⟨id', heap⟩ := filled
      rw [ha] at h
      cases h
      have hcell : heap.cell? id = some ⟨1, .long n⟩ := by
        have hsize := Heap.lt_size_of_content? hcontent
        obtain ⟨budget, _, ⟨free, _, rfl⟩ | ⟨_, rfl, rfl⟩⟩ := Heap.allocate_cases ha
        · rw [Heap.size_put] at hsize
          exact (Heap.cell?_put hsize _).trans (if_pos rfl)
        · exact (Heap.cell?_push _).trans (if_pos rfl)
      rw [Heap.content?_eq hcell] at hcontent
      cases hcontent

theorem keeps_course_toValue (quotient : Quotient) : quotient.toValue.Keeps Machine.course := by
  cases quotient with
  | int | float => exact keeps_pure _
  | long n => exact keeps_course_newLong n

/-- The truth of a native quotient is found without a call. -/
theorem keeps_course_truthOfQuotient (user : UserSlots) (quotient : Quotient) :
    (truthOfQuotient user quotient).Keeps Machine.course := by
  cases quotient with
  | int | float => exact keeps_pure _
  | long n =>
    intro m
    have hnew := keeps_course_newLong n m
    show ((newLong n >>= truthOfOwned user) m).2.course = m.course
    rw [run_bind]
    rcases hrun : newLong n m with ⟨e | value, m'⟩
    · rwa [hrun] at hnew
    · rw [hrun] at hnew
      obtain ⟨truth, htruth⟩ := run_isTrue_builtin (not_isInstance_newLong hrun)
      unfold truthOfOwned
      dsimp only
      rw [run_releasing, htruth user]
      exact hnew

/-! ## Re-entrant computations -/

/-- Computations that have the tracer told something only by the divisions and tests of values that
they make, with slots that do the same.  Whatever leaves tracer, nesting and configuration alone may
be done beside that. -/
inductive Reentrant : {α : Type} → MachineM α → Prop where
  | beside {α : Type} {a : MachineM α} : a.Keeps Machine.course → Reentrant a
  | bind {α β : Type} {a : MachineM α} {f : α → MachineM β} :
      Reentrant a → (∀ x, Reentrant (f x)) → Reentrant (a >>= f)
  | handle {α : Type} {a : MachineM α} {handler : Failure → MachineM α} :
      Reentrant a → (∀ e, Reentrant (handler e)) → Reentrant (tryCatch a handler)
  | look {α : Type} {f : Machine → MachineM α} : (∀ m, Reentrant (f m)) → Reentrant (get >>= f)
  | divide {user : UserSlots} (entry : EntryPoint) (lhs rhs : Value) :
      (∀ {α : Type} {slot : MachineM α}, user.Offers slot → Reentrant slot) →
        Reentrant (divide user entry lhs rhs)
  | divideToTruth {user : UserSlots} (entry : EntryPoint) (lhs rhs : Value) :
      (∀ {α : Type} {slot : MachineM α}, user.Offers slot → Reentrant slot) →
        Reentrant (divideToTruth user entry lhs rhs)
  | isTrue {user : UserSlots} (value : Value) :
      (∀ {α : Type} {slot : MachineM α}, user.Offers slot → Reentrant slot) →
        Reentrant (isTrue user value)

/-- The slots of user types are re-entrant computations. -/
def UserSlots.Reentrant (user : UserSlots) : Prop :=
  ∀ {α : Type} {slot : MachineM α}, user.Offers slot → FloorDivision.Reentrant slot

/-! ## The word of a call -/

/-- The failure that a computation ends with. -/
def failure? : Except Failure α → Option Failure
  | .ok _ => none
  | .error e => some e

/-- A call of the entry point is not refused. -/
def Machine.Enters (m : Machine) (entry : EntryPoint) : Prop :=
  m.level = entry.level ∧ m.heap.budget.checkDepth m.depth = .ok ()

/-- The start of a division on top of those under way. -/
def Machine.dispatched (m : Machine) (entry : EntryPoint) : Event :=
  .dispatch entry.left entry.right (m.depth + 1)

/--
What a call of an entry point tells the tracer, `failed?` being the failure that it ends with.  A
call that is refused tells nothing.  Every other one tells that it starts, and then what the native
computation tells if there is one.  Else it tells of the slots, with the words of whole calls
between, and at last that nothing came of them if that is so and its failure says so.
-/
structure Machine.Reports (m : Machine) (user : UserSlots) (entry : EntryPoint) (lhs rhs : Value)
    (failed? : Option Failure) (word : List Event) : Prop where
  refused : ¬m.Enters entry → word = []
  native : ∀ kind, m.Enters entry → fastKind? entry m lhs rhs = some kind →
    word = m.dispatched entry :: m.nativeWord kind lhs rhs
  escalated : ∀ kind, m.Enters entry → fastKind? entry m lhs rhs = some kind →
    entry.Fits m lhs rhs →
    (.escalate ∈ word ↔ lhs = .int Int64.minValue ∧ rhs = .int (-1))
  answered : m.ReachesSlots entry lhs rhs →
    (consult user entry lhs rhs (m.entered entry)).answer ≠ .ok none →
    (∀ e, (consult user entry lhs rhs (m.entered entry)).answer = .error e → failed? = some e) ∧
    ∃ own inner, SlotWord own ∧ Woven (m.depth + 1) own inner ∧ word = m.dispatched entry :: inner
  unsupported : m.ReachesSlots entry lhs rhs →
    (consult user entry lhs rhs (m.entered entry)).answer = .ok none →
    let left := (entry.left.typeAt entry.level m lhs).name
    let right := (entry.right.typeAt entry.level m rhs).name
    failed? = some (.raised (.unsupportedOperands "//" left right)) ∧
    ∃ sides left? right? inner, sides.Nodup ∧
      Woven (m.depth + 1) (declines sides ++ coercions left? right?) inner ∧
      word = m.dispatched entry :: (inner ++ [.unsupported left right])

theorem Machine.Told.left {entry : EntryPoint} (h : (m.entered entry).Told own m') :
    ∃ inner, Woven (m.depth + 1) own inner ∧
      m'.left.course = (m.tracer.told (m.dispatched entry :: inner), m.depth, m.config) := by
  obtain ⟨inner, hwoven, hcourse⟩ := h
  obtain ⟨htracer, hdepth, hconfig⟩ : m'.tracer = (m.entered entry).tracer.told inner ∧
      m'.depth = (m.entered entry).depth ∧ m'.config = (m.entered entry).config := by
    simpa [Machine.course] using hcourse
  refine ⟨inner, hwoven, ?_⟩
  simp only [Machine.course, Machine.left, htracer, hdepth, hconfig]
  rfl

theorem course_observe {tracer : Tracer} {depth : Nat} {config : Config}
    (h : m'.course = (tracer, depth, config)) (event : Event) :
    (m'.observe event).course = (tracer.observe event, depth, config) := by
  obtain ⟨rfl, rfl, rfl⟩ : m'.tracer = tracer ∧ m'.depth = depth ∧ m'.config = config := by
    simpa [Machine.course] using h
  rfl

section Calls

variable {user : UserSlots} {native : Quotient → MachineM α} {generic : Value → MachineM α}

theorem MachineM.TellsOn.bind {a : MachineM α} {f : α → MachineM β} {word : List Event}
    (ha : a.TellsOn m word) (hf : ∀ x, (f x).Keeps Machine.course) : (a >>= f).TellsOn m word := by
  unfold MachineM.TellsOn at ha ⊢
  rw [run_bind]
  rcases hrun : a m with ⟨e | x, m'⟩
  · rwa [hrun] at ha
  · rw [hrun] at ha
    exact (hf x m').trans ha

theorem callWord_native (m : Machine) (entry : EntryPoint) (kind : NumberKind) (lhs rhs : Value) :
    CallWord m.depth (m.dispatched entry :: m.nativeWord kind lhs rhs) := by
  unfold Machine.dispatched Machine.nativeWord
  split
  · exact .native m.depth entry.left entry.right kind true
  · exact .native m.depth entry.left entry.right kind false

/-- A call that is refused tells nothing. -/
theorem reports_refused {entry : EntryPoint} (h : ¬m.Enters entry) (native : Quotient → MachineM α)
    (generic : Value → MachineM α) (lhs rhs : Value) (failed? : Option Failure) :
    (divideWith user entry native generic lhs rhs).TellsOn m [] ∧
      m.Reports user entry lhs rhs failed? [] := by
  constructor
  · unfold MachineM.TellsOn
    rw [run_divideWith]
    split
    · rfl
    · rename_i hlevel
      cases hdepth : m.heap.budget.checkDepth m.depth with
      | error => rfl
      | ok => exact absurd ⟨not_not.mp hlevel, hdepth⟩ h
  · exact
      { refused := fun _ => rfl
        native := fun _ henters => absurd henters h
        escalated := fun _ henters => absurd henters h
        answered := fun hslots => absurd ⟨hslots.1, hslots.2.1⟩ h
        unsupported := fun hslots => absurd ⟨hslots.1, hslots.2.1⟩ h }

/-- A native division tells what its computation does. -/
theorem reports_native {entry : EntryPoint} (h : m.Enters entry) {kind : NumberKind}
    (hkind : fastKind? entry m lhs rhs = some kind)
    (hn : ∀ quotient, (native quotient).Keeps Machine.course) (generic : Value → MachineM α)
    (failed? : Option Failure) :
    (divideWith user entry native generic lhs rhs).TellsOn m
        (m.dispatched entry :: m.nativeWord kind lhs rhs) ∧
      m.Reports user entry lhs rhs failed? (m.dispatched entry :: m.nativeWord kind lhs rhs) := by
  constructor
  · have inside := (tellsOn_divideNatively kind lhs rhs (m.entered entry)).bind hn
    have hinside : fastKind? entry (m.entered entry) lhs rhs = some kind := hkind
    unfold MachineM.TellsOn at inside ⊢
    rw [run_divideWith, if_neg (not_not_intro h.1), h.2]
    dsimp only
    rw [run_divideInside_native user hinside]
    obtain ⟨htracer, hdepth, hconfig⟩ : _ ∧ _ ∧ _ := by
      simpa only [Machine.course, Prod.mk.injEq] using inside
    simp only [Machine.course, Machine.left, htracer, hdepth, hconfig]
    rfl
  · exact
      { refused := fun hrefused => absurd h hrefused
        native := fun other _ hother => by rw [Option.some.inj (hkind.symm.trans hother)]
        escalated := fun _ _ _ hf => by
          rw [← nativeWords?_of_fits hf hkind]
          simp [Machine.dispatched, Machine.nativeWord]
        answered := fun hslots => by
          rw [hslots.2.2] at hkind
          cases hkind
        unsupported := fun hslots => by
          rw [hslots.2.2] at hkind
          cases hkind }

/-- A division by slots tells of them, and at last that nothing came of them if that is so. -/
theorem reports_slots {entry : EntryPoint} (h : m.ReachesSlots entry lhs rhs)
    (hu : ∀ {α : Type} {slot : MachineM α}, user.Offers slot → slot.TellsCalls)
    (native : Quotient → MachineM α) (hg : ∀ value, (generic value).TellsCalls) :
    ∃ word, (divideWith user entry native generic lhs rhs).TellsOn m word ∧
      CallWord m.depth word ∧ m.Reports user entry lhs rhs
        (failure? (divideWith user entry native generic lhs rhs m).1) word := by
  obtain ⟨⟨own, hown, htold⟩, hdeclined⟩ := told_consult hu entry lhs rhs (m.entered entry)
  have hrefused : ¬¬m.Enters entry := not_not_intro ⟨h.1, h.2.1⟩
  have hnative : ∀ kind, fastKind? entry m lhs rhs ≠ some kind := by simp [h.2.2]
  unfold MachineM.TellsOn
  rw [run_divideWith_consult user native generic h]
  dsimp only
  cases hanswer : (consult user entry lhs rhs (m.entered entry)).answer with
  | error e =>
    obtain ⟨inner, hwoven, hcourse⟩ := htold.left
    refine ⟨_, hcourse, .slots _ _ hown hwoven, ?_⟩
    exact
      { refused := fun hr => absurd hr hrefused
        native := fun kind _ hkind => absurd hkind (hnative kind)
        escalated := fun kind _ hkind => absurd hkind (hnative kind)
        answered := fun _ _ =>
          ⟨fun e' he => (by rw [hanswer] at he; cases he; rfl), own, inner, hown, hwoven, rfl⟩
        unsupported := fun _ hnone => by rw [hanswer] at hnone; cases hnone }
  | ok value? =>
    cases value? with
    | some value =>
      have htold' := htold.trans (hg value _)
      rw [List.append_nil] at htold'
      obtain ⟨inner, hwoven, hcourse⟩ := htold'.left
      refine ⟨_, hcourse, .slots _ _ hown hwoven, ?_⟩
      exact
        { refused := fun hr => absurd hr hrefused
          native := fun kind _ hkind => absurd hkind (hnative kind)
          escalated := fun kind _ hkind => absurd hkind (hnative kind)
          answered := fun _ _ =>
            ⟨fun e' he => (by rw [hanswer] at he; cases he), own, inner, hown, hwoven, rfl⟩
          unsupported := fun _ hnone => by rw [hanswer] at hnone; cases hnone }
    | none =>
      obtain ⟨sides, left?, right?, hsides, htold'⟩ := hdeclined hanswer
      obtain ⟨inner, hwoven, hcourse⟩ := htold'.left
      refine ⟨m.dispatched entry :: (inner ++ [Event.unsupported
        (entry.left.typeAt entry.level m lhs).name (entry.right.typeAt entry.level m rhs).name]),
        ?_, .unsupported entry.left entry.right _ _ hsides hwoven, ?_⟩
      · rw [← List.cons_append, Tracer.told_append]
        exact course_observe hcourse _
      · exact
          { refused := fun hr => absurd hr hrefused
            native := fun kind _ hkind => absurd hkind (hnative kind)
            escalated := fun kind _ hkind => absurd hkind (hnative kind)
            answered := fun _ hne => absurd hanswer hne
            unsupported := fun _ _ =>
              ⟨rfl, sides, left?, right?, inner, hsides, hwoven, rfl⟩ }

/-- **Every call tells a word** if what slots of user types tell are whole calls. -/
theorem reports_divideWith
    (hu : ∀ {α : Type} {slot : MachineM α}, user.Offers slot → slot.TellsCalls)
    (hn : ∀ quotient, (native quotient).Keeps Machine.course)
    (hg : ∀ value, (generic value).TellsCalls) (entry : EntryPoint) (lhs rhs : Value)
    (m : Machine) :
    ∃ word, (divideWith user entry native generic lhs rhs).TellsOn m word ∧
      CallWord m.depth word ∧ m.Reports user entry lhs rhs
        (failure? (divideWith user entry native generic lhs rhs m).1) word := by
  by_cases henters : m.Enters entry
  · cases hkind : fastKind? entry m lhs rhs with
    | some kind =>
      obtain ⟨htells, hreports⟩ := reports_native henters hkind hn generic _
      exact ⟨_, htells, callWord_native m entry kind lhs rhs, hreports⟩
    | none => exact reports_slots ⟨henters.1, henters.2, hkind⟩ hu native hg
  · obtain ⟨htells, hreports⟩ := reports_refused henters native generic lhs rhs _
    exact ⟨[], htells, .refused _, hreports⟩

/-- So a call is a whole call. -/
theorem tellsCalls_divideWith
    (hu : ∀ {α : Type} {slot : MachineM α}, user.Offers slot → slot.TellsCalls)
    (hn : ∀ quotient, (native quotient).Keeps Machine.course)
    (hg : ∀ value, (generic value).TellsCalls) (entry : EntryPoint) (lhs rhs : Value) :
    (divideWith user entry native generic lhs rhs).TellsCalls := by
  intro m
  obtain ⟨word, htells, hcall, _⟩ := reports_divideWith hu hn hg entry lhs rhs m
  exact ⟨word, .ofCall hcall, htells⟩

end Calls

/-- **What a re-entrant computation tells the tracer are whole calls**, one after the other. -/
theorem Reentrant.tellsCalls {a : MachineM α} (h : Reentrant a) : a.TellsCalls := by
  induction h with
  | beside h => exact .of_keeps h
  | bind _ _ iha ihf => exact iha.bind ihf
  | handle _ _ iha ihh => exact iha.tryCatch ihh
  | look _ ih => exact .look ih
  | divide entry lhs rhs _ ih =>
    exact tellsCalls_divideWith ih keeps_course_toValue (fun value => .of_keeps (keeps_pure value))
      entry lhs rhs
  | divideToTruth entry lhs rhs _ ih =>
    exact tellsCalls_divideWith ih (keeps_course_truthOfQuotient _)
      (fun value => told_truthOfOwned ih value) entry lhs rhs
  | isTrue value _ ih => exact told_isTrue ih value

/-- After a run of it nesting and configuration are as before. -/
theorem Reentrant.told {a : MachineM α} {result : Except Failure α} {m' : Machine}
    (h : Reentrant a) (hrun : a m = (result, m')) : m.Told [] m' := by
  have htold := h.tellsCalls m
  rwa [hrun] at htold

/-! ## Scripts -/

namespace Reentrant

variable {user : UserSlots}

theorem answer (x : α) : Reentrant (pure x) := beside (keeps_pure x)

theorem fail (e : Failure) : Reentrant (throw e : MachineM α) := beside (keeps_throw e)

theorem release (value : Value) : Reentrant (release value) := beside fun _ => rfl

theorem newInstance (type : ObjectType) (payload : Value) :
    Reentrant (newInstance type payload) := by
  refine beside fun m => ?_
  unfold MachineM.newInstance allocate
  split <;> rfl

theorem ofObject (object : Object) : Reentrant (ofObject object) := by
  cases object with
  | long n => exact beside (keeps_course_newLong n)
  | instanceOf => exact fail _
  | none | notImplemented | bool | int | float => exact answer _

/-- A failure that is kept and then raised after all is one that is raised. -/
theorem divideTakingPending (hu : user.Reentrant) (entry : EntryPoint) (lhs rhs : Value) :
    Reentrant (divideTakingPending user entry lhs rhs) := by
  have raised : FloorDivision.divideTakingPending user entry lhs rhs =
      tryCatch (FloorDivision.divideToTruth user entry lhs rhs)
        fun e => setPending none >>= fun _ => throw e := by
    funext m
    rw [run_divideTakingPending, run_tryCatch]
    rcases FloorDivision.divideToTruth user entry lhs rhs m with ⟨_ | _, _⟩ <;> rfl
  rw [raised]
  exact (divideToTruth entry lhs rhs hu).handle fun e =>
    (beside fun _ => rfl).bind fun _ => fail e

theorem releasing {a : MachineM α} (ha : Reentrant a) (value : Value) :
    Reentrant (releasing value a) := by
  rw [releasing_eq]
  refine (ha.handle fun e => ?_).bind fun result => ?_
  · exact (release value).bind fun _ => fail e
  · exact (release value).bind fun _ => answer result

theorem truthOfOwned (hu : user.Reentrant) (value : Value) :
    Reentrant (truthOfOwned user value) :=
  (isTrue value hu).releasing value

theorem both {first second : MachineM Value} (hfirst : Reentrant first)
    (hsecond : Reentrant second) : Reentrant (both first second) := by
  refine hfirst.bind fun a => Reentrant.bind ?_ fun b => answer (a, b)
  rw [releasingOnFailure_eq]
  exact hsecond.handle fun e => (release a).bind fun _ => fail e

theorem withOperands {left right : MachineM Value} {operate : Value → Value → MachineM α}
    (hleft : Reentrant left) (hright : Reentrant right)
    (hoperate : ∀ lhs rhs, Reentrant (operate lhs rhs)) :
    Reentrant (withOperands left right operate) :=
  (hleft.both hright).bind fun (lhs, rhs) => ((hoperate lhs rhs).releasing lhs).releasing rhs

theorem inspect (value : Value) (look : Machine → Value → α) : Reentrant (inspect value look) :=
  .look fun _ => (release value).bind fun _ => answer _

end Reentrant

theorem Script.compatible_reentrant {user : UserSlots} (hu : user.Reentrant) :
    Script.Compatible user user fun _ a _ => Reentrant a where
  answer := .answer
  fail := .fail
  bind := .bind
  handle := .handle
  look := fun hf _ => .look hf
  retain := fun value => .beside (keeps_course_retain value)
  release := .release
  ofObject := .ofObject
  newInstance := .newInstance
  divide := fun entry lhs rhs => .divide entry lhs rhs hu
  divideTakingPending := fun entry lhs rhs => .divideTakingPending hu entry lhs rhs

/-- **Slots that run scripts are re-entrant computations**, however deep they nest. -/
theorem UserSlots.ofScripts_reentrant (scripts : List SlotScripts)
    (bindings : List (String × Value)) (nesting : Nat) :
    (UserSlots.ofScripts scripts bindings nesting).Reentrant := by
  intro _ _ offered
  exact offered_ofScripts .fail (fun hu => Script.compatible_reentrant hu)
    (fun hu value => .truthOfOwned hu value) scripts bindings nesting offered

/-! ## What is recorded -/

/-- To a recording without a limit a word has been added that is reported by a call.  It starts one
division at the call's own depth, and every other one that it starts is nested deeper. -/
def Machine.Records (m : Machine) (user : UserSlots) (entry : EntryPoint) (lhs rhs : Value)
    (kept : Array Event) (failed? : Option Failure) (m' : Machine) : Prop :=
  ∃ word : List Event, m'.tracer = .recording { events := kept ++ word.toArray } ∧
    CallWord m.depth word ∧
    (∀ left right depth, .dispatch left right depth ∈ word.tail → m.depth + 1 < depth) ∧
    m.Reports user entry lhs rhs failed? word

theorem MachineM.TellsOn.tracer {a : MachineM α} {word : List Event} {kept : Array Event}
    (h : a.TellsOn m word) (hm : m.tracer = .recording { events := kept }) :
    (a m).2.tracer = .recording { events := kept ++ word.toArray } := by
  rw [← Tracer.told_recording, ← hm]
  exact congrArg Prod.fst h

/--
**Every call of an entry point adds a well-nested word to a recording.**

The slots of user types may divide again and test values, so that whole calls are told between the
call's own events; those calls are nested one deeper.  A call that is refused adds nothing, every
other one the start of a division and then either the word of a native computation or a word of
slots.  That nothing came of the slots is told last, exactly where nothing did, and then the call
fails with an error that names the same types.
-/
theorem calls_tell_words {user : UserSlots} (hu : user.Reentrant) (entry : EntryPoint)
    (lhs rhs : Value) {kept : Array Event} (hm : m.tracer = .recording { events := kept }) :
    m.Records user entry lhs rhs kept (failure? (divide user entry lhs rhs m).1)
      (divide user entry lhs rhs m).2 ∧
    m.Records user entry lhs rhs kept (failure? (divideToTruth user entry lhs rhs m).1)
      (divideToTruth user entry lhs rhs m).2 ∧
    m.Records user entry lhs rhs kept
      ((divideToPending user entry lhs rhs m).1.elim
        (divideToPending user entry lhs rhs m).2.pending fun _ => none)
      (divideToPending user entry lhs rhs m).2 := by
  have slots : ∀ {α : Type} {slot : MachineM α}, user.Offers slot → slot.TellsCalls :=
    fun offered => (hu offered).tellsCalls
  have quotient : m.Records user entry lhs rhs kept (failure? (divide user entry lhs rhs m).1)
      (divide user entry lhs rhs m).2 := by
    obtain ⟨word, htells, hcall, hreports⟩ := reports_divideWith slots keeps_course_toValue
      (fun value => .of_keeps (keeps_pure value)) entry lhs rhs m
    exact ⟨word, htells.tracer hm, hcall, fun _ _ _ h => hcall.lt_of_dispatch h, hreports⟩
  have truth : m.Records user entry lhs rhs kept
      (failure? (divideToTruth user entry lhs rhs m).1) (divideToTruth user entry lhs rhs m).2 := by
    obtain ⟨word, htells, hcall, hreports⟩ := reports_divideWith slots
      (keeps_course_truthOfQuotient user) (fun value => told_truthOfOwned slots value)
      entry lhs rhs m
    exact ⟨word, htells.tracer hm, hcall, fun _ _ _ h => hcall.lt_of_dispatch h, hreports⟩
  refine ⟨quotient, truth, ?_⟩
  rw [run_divideToPending]
  rcases hrun : divideToTruth user entry lhs rhs m with ⟨e | x, m'⟩
  · rw [hrun] at truth
    exact truth
  · rw [hrun] at truth
    exact truth

/-- A slot that divides before it declines, so that a whole native call stands between its own
events; nothing comes of the slots then. -/
theorem calls_tell_words_nested :
    let type := ObjectType.declare
      { id := .user 0, name := "Money", slots := { divide := some (.user 0) } } (some .object)
    let heap : Heap := { cells := #[some ⟨1, .instanceOf type .none⟩], budget := .depthOnly 1000 }
    let m : Machine :=
      { config := { level := .legacy }, heap, tracer := .recording { events := #[] } }
    let entry : EntryPoint := .generic .legacy
    let scripts : List SlotScripts := [{ divide := some (.select
      (.divide entry (.object (.int 7)) (.object (.int 2)))
      (.otherwise (.object .notImplemented))) }]
    let user := UserSlots.ofScripts scripts [] 2
    user.Reentrant ∧
      (divide user entry (.ref 0) (.int 1) m).2.tracer = .recording { events := #[
        .dispatch Shape.unknown Shape.unknown 1, .slotCall .left,
        .dispatch Shape.unknown Shape.unknown 2, .fastPath .int, .slotDeclined .left,
        .slotCall .right, .slotDeclined .right, .unsupported "Money" "int"] } ∧
      m.Records user entry (.ref 0) (.int 1) #[]
        (some (.raised (.unsupportedOperands "//" "Money" "int")))
        (divide user entry (.ref 0) (.int 1) m).2 := by
  intro type heap m entry scripts user
  have hu : user.Reentrant := UserSlots.ofScripts_reentrant scripts [] 2
  have hm : m.tracer = .recording { events := #[] } := rfl
  have hfailed : failure? (divide user entry (.ref 0) (.int 1) m).1 =
      some (.raised (.unsupportedOperands "//" "Money" "int")) := rfl
  have hrecords := (calls_tell_words hu entry (.ref 0) (.int 1) hm).1
  rw [hfailed] at hrecords
  exact ⟨hu, rfl, hrecords⟩

end FloorDivision
