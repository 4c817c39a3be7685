import FloorDivision.Proofs.Division.Integers
import FloorDivision.Proofs.Division.Program
import FloorDivision.Proofs.Heap.Runs

/-!
# Integers have one representation

Under the modern level an integer that fits a machine word is held directly and any other one is a
long of the heap; under the legacy level every long is one of the heap, whatever its size.

* `Heap.Canonical` — the longs of a modern heap do not fit; every operation of a heap keeps this.
* `Operation.Lawful` — operations that store no long where it is to be held directly.
* `Composed.lawful`, `Program.lawful` — divisions and programs do such operations only.
* `Machine.Canonical` — what this means for values that are read out and for objects brought in.
* `integers_canonical` — so it is throughout every program.
-/

namespace FloorDivision

open MachineM

variable {α β : Type}

/-! ## The longs of a heap -/

namespace Heap

/-- The free cells are among the cells, and a modern heap has no long that fits a machine word. -/
structure Canonical (heap : Heap) (level : Level) : Prop where
  free : ∀ id ∈ heap.free, id < heap.cells.size
  long : level = .modern → ∀ id n, heap.content? id = some (.long n) → ¬FitsWord n

variable {heap heap' : Heap} {level : Level} {id k : Nat} {cell : Cell} {content : Content}

theorem canonical_empty (budget : Meter) (level : Level) : Canonical { budget } level :=
  ⟨nofun, fun _ _ _ h => by cases lt_size_of_content? h⟩

/-- Contents may stay or go as long as the free cells are among the cells. -/
theorem Canonical.of_contents (h : heap.Canonical level)
    (hfree : ∀ id ∈ heap'.free, id < heap'.cells.size)
    (hcontents : ∀ k, heap'.content? k = heap.content? k ∨ heap'.content? k = none) :
    heap'.Canonical level := by
  refine ⟨hfree, fun hlevel k n hk => ?_⟩
  rcases hcontents k with hsame | hnone
  · exact h.long hlevel k n (hsame ▸ hk)
  · rw [hnone] at hk
    cases hk

theorem Canonical.retain (h : heap.Canonical level) (id : Nat) :
    (heap.retain id).Canonical level := by
  refine h.of_contents ?_ fun k => Or.inl (content?_retain heap id k)
  unfold Heap.retain
  split
  · intro k hk
    rw [size_put]
    exact h.free k hk
  · exact h.free

theorem Canonical.recount (h : heap.Canonical level) (hcell : heap.cell? id = some cell) (n : Nat) :
    (heap.put id (some { cell with references := n })).Canonical level := by
  refine h.of_contents (fun k hk => ?_) fun k => Or.inl (content?_recount hcell n)
  rw [size_put]
  exact h.free k hk

theorem Canonical.discard (h : heap.Canonical level) (hcell : heap.cell? id = some cell) :
    (heap.discard id cell.content).Canonical level := by
  refine h.of_contents (fun k hk => ?_) fun k => ?_
  · show k < (heap.put id none).cells.size
    rw [size_put]
    rcases List.mem_cons.mp hk with rfl | hk
    · exact lt_size_of_cell? hcell
    · exact h.free k hk
  · rw [content?_discard hcell]
    split
    · exact Or.inr rfl
    · exact Or.inl rfl

/-- However many cells a release frees. -/
theorem Canonical.releaseLoop (fuel : Nat) (h : heap.Canonical level) (id : Nat) :
    (heap.releaseLoop fuel id).Canonical level := by
  induction fuel generalizing heap id with
  | zero => exact h
  | succ fuel ih =>
    unfold Heap.releaseLoop
    split
    · exact h
    · rename_i cell hcell
      split
      · exact h.recount hcell _
      · split
        · exact ih (h.discard hcell) _
        · exact h.discard hcell

/-- An allocation fills one cell, which is the cell of the reference that it answers. -/
theorem Canonical.content?_allocate (h : heap.Canonical level)
    (ha : heap.allocate content = .ok (id, heap')) :
    heap'.content? k = if k = id then some content else heap.content? k := by
  have filled {cells : Heap} (hcell : cells.cell? k = if k = id then some ⟨1, content⟩ else
      heap.cell? k) : cells.content? k = if k = id then some content else heap.content? k := by
    unfold content?
    rw [hcell]
    split
    · rfl
    · rfl
  obtain ⟨budget, _, ⟨free, hfree, rfl⟩ | ⟨_, rfl, rfl⟩⟩ := allocate_cases ha
  · have hid : id < heap.cells.size := h.free id (by rw [hfree]; exact List.mem_cons_self)
    exact filled (cell?_put hid _)
  · exact filled (cell?_push _)

theorem Canonical.allocate (h : heap.Canonical level)
    (hcontent : ∀ n, content = .long n → level = .modern → ¬FitsWord n)
    (ha : heap.allocate content = .ok (id, heap')) : heap'.Canonical level := by
  refine ⟨?_, fun hlevel k n hk => ?_⟩
  · obtain ⟨budget, _, ⟨free, hfree, rfl⟩ | ⟨hfree, _, rfl⟩⟩ := allocate_cases ha
    · intro k hk
      show k < (heap.put id _).cells.size
      rw [size_put]
      exact h.free k (by rw [hfree]; exact List.mem_cons_of_mem _ hk)
    · intro k hk
      have hnone : k ∈ heap.free := hk
      rw [hfree] at hnone
      cases hnone
  · rw [h.content?_allocate ha] at hk
    split at hk
    · exact hcontent n (Option.some.inj hk) hlevel
    · exact h.long hlevel k n hk

end Heap

/-! ## Operations -/

/-- The operation stores no long that the level holds directly. -/
def Operation.Lawful (level : Level) : Operation → Prop
  | .allocate (.long n) => level = .modern → ¬FitsWord n
  | _ => True

namespace Machine

variable {m : Machine} {operation : Operation} {operations : List Operation} {level : Level}

theorem level_perform (m : Machine) (operation : Operation) :
    (operation.perform m).level = m.level := by
  cases operation with
  | allocate content =>
    show (MachineM.allocate content m).2.level = _
    unfold MachineM.allocate
    split
    · rfl
    · rfl
  | retain | release | observe | note | setPending | setTracer | enter | leave => rfl

theorem level_after (m : Machine) (operations : List Operation) :
    (m.after operations).level = m.level := by
  induction operations generalizing m with
  | nil => rfl
  | cons operation rest ih => exact (ih _).trans (m.level_perform operation)

/-- **One lawful operation keeps the longs of the heap as the level wants them.** -/
theorem canonical_perform (h : m.heap.Canonical level) (hop : operation.Lawful level) :
    (operation.perform m).heap.Canonical level := by
  cases operation with
  | allocate content =>
    show (MachineM.allocate content m).2.heap.Canonical level
    cases ha : m.heap.allocate content with
    | error refusal =>
      rw [run_allocate_error ha]
      exact h
    | ok stored =>
      obtain ⟨id, heap⟩ := stored
      rw [run_allocate_ok ha]
      refine h.allocate ?_ ha
      rintro n rfl
      exact hop
  | retain value =>
    cases value with
    | ref id => exact h.retain id
    | none | notImplemented | bool | int | float => exact h
  | release value =>
    cases value with
    | ref id => exact h.releaseLoop _ id
    | none | notImplemented | bool | int | float => exact h
  | observe | note | setPending | setTracer | enter | leave => exact h

/-- **So do any number of them**, at every point between two operations. -/
theorem canonical_throughout (h : m.heap.Canonical level)
    (hops : ∀ operation ∈ operations, operation.Lawful level) :
    Throughout (fun m => m.heap.Canonical level) m operations := by
  induction operations generalizing m with
  | nil => exact throughout_nil.mpr h
  | cons operation rest ih =>
    refine throughout_cons.mpr ⟨h, ih ?_ fun next hnext => hops next (.tail operation hnext)⟩
    exact canonical_perform h (hops operation (.head rest))

end Machine

/-! ## Computations that do lawful operations only -/

namespace MachineM

/-- On machines of the level the computation comes to an end after lawful operations. -/
def Lawful (level : Level) (a : MachineM α) : Prop :=
  ∀ m : Machine, m.level = level →
    ∃ operations, Runs a m operations ∧ ∀ operation ∈ operations, operation.Lawful level

variable {level : Level}

theorem lawful_pure (x : α) : Lawful level (pure x) := fun m _ =>
  ⟨[], .answer x m, List.forall_mem_nil _⟩

theorem lawful_throw (e : Failure) : Lawful level (throw e : MachineM α) := fun m _ =>
  ⟨[], .fail e m, List.forall_mem_nil _⟩

theorem Performs.lawful {a : MachineM α} {operation : Operation} (ha : Performs a operation)
    (hop : operation.Lawful level) : Lawful level a := fun m _ =>
  ⟨[operation], .single m ha, fun _ h => List.mem_singleton.mp h ▸ hop⟩

theorem Lawful.look {f : Machine → MachineM α} (hf : ∀ m, m.level = level → Lawful level (f m)) :
    Lawful level (get >>= f) := by
  intro m hm
  obtain ⟨operations, hrun, hops⟩ := hf m hm m hm
  exact ⟨operations, .look hrun, hops⟩

theorem Lawful.resume {a : MachineM α} {next : Except Failure α → MachineM β}
    (ha : Lawful level a) (hn : ∀ r, Lawful level (next r)) : Lawful level (a.resume next) := by
  intro m hm
  obtain ⟨first, hrun, hfirst⟩ := ha m hm
  have hafter : (a m).2.level = level := by
    rw [hrun.after, m.level_after, hm]
  obtain ⟨rest, hrest, hlater⟩ := hn (a m).1 (a m).2 hafter
  refine ⟨first ++ rest, .resume hrun hrest, fun operation hop => ?_⟩
  rcases List.mem_append.mp hop with hop | hop
  · exact hfirst operation hop
  · exact hlater operation hop

theorem Lawful.nested {a : Nat → MachineM α} (ha : ∀ depth, Lawful level (a depth)) :
    Lawful level (do let depth ← enter; leaving (a depth)) := by
  intro m hm
  cases hdepth : m.heap.budget.checkDepth m.depth with
  | error refusal => exact ⟨[], .tooDeep hdepth, List.forall_mem_nil _⟩
  | ok =>
    obtain ⟨inner, hrun, hinner⟩ := ha (m.depth + 1) (Operation.enter.perform m) hm
    refine ⟨.enter :: inner ++ [.leave], .nested hdepth hrun, fun operation hop => ?_⟩
    rcases List.mem_append.mp hop with hop | hop
    · rcases List.mem_cons.mp hop with rfl | hop
      · trivial
      · exact hinner operation hop
    · rw [List.mem_singleton.mp hop]
      trivial

theorem Lawful.bind {a : MachineM α} {f : α → MachineM β} (ha : Lawful level a)
    (hf : ∀ x, Lawful level (f x)) : Lawful level (a >>= f) := by
  rw [bind_eq_resume]
  refine ha.resume fun r => ?_
  cases r with
  | ok x => exact hf x
  | error e => exact lawful_throw e

theorem Lawful.tryCatch {a : MachineM α} {handler : Failure → MachineM α} (ha : Lawful level a)
    (hh : ∀ e, Lawful level (handler e)) : Lawful level (tryCatch a handler) := by
  rw [tryCatch_eq_resume]
  refine ha.resume fun r => ?_
  cases r with
  | ok x => exact lawful_pure x
  | error e => exact hh e

theorem Lawful.releasing (value : Value) {a : MachineM α} (ha : Lawful level a) :
    Lawful level (releasing value a) := by
  rw [releasing_eq]
  refine (ha.tryCatch fun e => ?_).bind fun x => ?_
  · exact (Performs.lawful (.release value) trivial).bind fun _ => lawful_throw e
  · exact (Performs.lawful (.release value) trivial).bind fun _ => lawful_pure x

/-- **Where longs are made**: one that fits a machine word is stored under the legacy level only. -/
theorem lawful_newLong (n : Int) : Lawful level (newLong n) := by
  refine .look fun m hm => ?_
  split
  · exact lawful_pure _
  · rename_i hstored
    refine Performs.lawful (.allocate _) ?_
    intro hlevel hfits
    exact hstored ⟨hm.trans hlevel, toInt_ofInt_iff.mpr hfits⟩

theorem lawful_ofObject (object : Object) : Lawful level (ofObject object) := by
  cases object with
  | long n => exact lawful_newLong n
  | instanceOf typeName => exact lawful_throw _
  | none | notImplemented | bool | int | float => exact lawful_pure _

end MachineM

variable {level : Level}

/-- **Divisions do lawful operations only** if the slots of user types do. -/
theorem Composed.lawful {raises : Failure → Prop} {user : UserSlots}
    (hu : ∀ {α : Type} {slot : MachineM α}, user.Offers slot → Lawful level slot) {a : MachineM α}
    (h : Composed raises user a) : Lawful level a := by
  induction h with
  | answer x => exact lawful_pure x
  | fail => exact lawful_throw _
  | bind _ _ iha ihf => exact iha.bind ihf
  | look _ _ ih => exact .look fun m _ => ih m
  | observe event => exact Performs.lawful (.observe event) trivial
  | note call => exact Performs.lawful (.note call) trivial
  | retain value => exact Performs.lawful (.retain value) trivial
  | release value => exact Performs.lawful (.release value) trivial
  | newLong n => exact lawful_newLong n
  | releasing value _ ih => exact ih.releasing value
  | releasingBoth first second _ ih => exact (ih.releasing first).releasing second
  | nested _ ih => exact .nested ih
  | slotDivide definer lhs rhs => exact hu (.divide definer lhs rhs)
  | slotCoerce definer own other => exact hu (.coerce definer own other)
  | slotTruth definer value => exact hu (.truth definer value)

/-- **Programs do lawful operations only**, whatever their level. -/
theorem Program.lawful {Same : Machine → Machine → Prop} {a : MachineM α} (h : Program Same a) :
    Lawful level a := by
  induction h with
  | answer x => exact lawful_pure x
  | fail e => exact lawful_throw e
  | bind _ _ iha ihf => exact iha.bind ihf
  | handle _ _ iha ihh => exact iha.tryCatch ihh
  | look _ _ ih => exact .look fun m _ => ih m
  | ofObject object => exact lawful_ofObject object
  | newInstance type payload => exact Performs.lawful (.allocate _) trivial
  | retain value => exact Performs.lawful (.retain value) trivial
  | release value => exact Performs.lawful (.release value) trivial
  | setPending failure? => exact Performs.lawful (.setPending failure?) trivial
  | setTracer tracer => exact Performs.lawful (.setTracer tracer) trivial
  | divide entry lhs rhs _ ih => exact (Composed.divide entry lhs rhs).lawful ih
  | divideToTruth entry lhs rhs _ ih => exact (Composed.divideToTruth entry lhs rhs).lawful ih
  | isTrue value _ ih => exact (Composed.isTrue value).lawful ih

/-! ## What is read out -/

/-- Integers have one representation each and objects are read back. -/
structure Machine.Canonical (m : Machine) : Prop where
  /-- The longs of a modern heap do not fit a machine word. -/
  long : m.level = .modern → ∀ id n, m.heap.content? id = some (.long n) → ¬FitsWord n
  /-- A modern integer other than a truth value is held directly if it fits, and else in a cell. -/
  form : m.level = .modern → ∀ value n, m.integer? value = some n → (∃ b, value = .bool b) ∨
    if FitsWord n then value = .int (.ofInt n)
    else ∃ id, value = .ref id ∧ m.heap.content? id = some (.long n)
  /-- What is read out as a long is a long of the heap, and every such long is read out as one. -/
  kind : ∀ value n, m.toObject value = .long n ↔
    ∃ id, value = .ref id ∧ m.heap.content? id = some (.long n)
  /-- An object that is brought in is read back, -/
  readBack : ∀ object value m', ofObject object m = (.ok value, m') →
    (∀ n, object = .long n → ¬(m.level = .modern ∧ FitsWord n)) →
    m'.toObject value = object ∧ (object ≠ .float .nan → object.isEqual (m'.toObject value) = true)
  /-- except that a modern long that fits comes back as the equal `int`. -/
  narrowed : ∀ n value m', ofObject (.long n) m = (.ok value, m') → m.level = .modern →
    FitsWord n → ∃ i : Int64, m'.toObject value = .int i ∧ i.toInt = n

/-- An object is equal to itself unless it is a NaN. -/
theorem Object.isEqual_self {object : Object} (h : object ≠ .float .nan) :
    object.isEqual object = true := by
  cases object with
  | float x =>
    cases x with
    | nan => exact absurd rfl h
    | infinite | finite => simp [Object.isEqual, Double.isEqual, Double.order?]
  | none | notImplemented | bool | int | long | instanceOf => exact beq_self_eq_true _

namespace Heap.Canonical

variable {m : Machine}

theorem longObject_eq (h : m.heap.Canonical m.level) {id : Nat} {n : Int}
    (hid : m.heap.content? id = some (.long n)) : Machine.longObject m.level n = .long n := by
  refine if_neg fun hboth => h.long hboth.1 id n hid (toInt_ofInt_iff.mp hboth.2)

theorem toObject_long_iff (h : m.heap.Canonical m.level) (value : Value) (n : Int) :
    m.toObject value = .long n ↔ ∃ id, value = .ref id ∧ m.heap.content? id = some (.long n) := by
  constructor
  · intro hread
    cases value with
    | none | notImplemented | bool | int | float => cases hread
    | ref id =>
      unfold Machine.toObject at hread
      dsimp only at hread
      split at hread
      · rename_i stored hid
        rw [h.longObject_eq hid] at hread
        cases hread
        exact ⟨id, rfl, hid⟩
      · cases hread
      · cases hread
  · rintro ⟨id, rfl, hid⟩
    unfold Machine.toObject
    simp only [hid]
    exact h.longObject_eq hid

theorem form_of_integer? (h : m.heap.Canonical m.level) (hlevel : m.level = .modern)
    {value : Value} {n : Int} (hvalue : m.integer? value = some n) : (∃ b, value = .bool b) ∨
      if FitsWord n then value = .int (.ofInt n)
      else ∃ id, value = .ref id ∧ m.heap.content? id = some (.long n) := by
  cases value with
  | none | notImplemented | float => cases hvalue
  | bool b => exact Or.inl ⟨b, rfl⟩
  | int i =>
    cases hvalue
    refine Or.inr ?_
    rw [if_pos (fitsWord_toInt i), Int64.ofInt_toInt]
  | ref id =>
    unfold Machine.integer? at hvalue
    dsimp only at hvalue
    split at hvalue
    · rename_i stored hid
      cases hvalue
      exact Or.inr (by rw [if_neg (h.long hlevel id _ hid)]; exact ⟨id, rfl, hid⟩)
    · cases hvalue

/-- A new long that is not held directly is read out of the cell that it was given. -/
theorem toObject_newLong (h : m.heap.Canonical m.level) {n : Int} {value : Value} {m' : Machine}
    (hstored : ¬(m.level = .modern ∧ FitsWord n)) (hnew : newLong n m = (.ok value, m')) :
    m'.toObject value = .long n := by
  rw [run_newLong, if_neg fun hboth => hstored ⟨hboth.1, toInt_ofInt_iff.mp hboth.2⟩] at hnew
  cases ha : m.heap.allocate (.long n) with
  | error refusal =>
    rw [run_allocate_error ha] at hnew
    cases hnew
  | ok stored =>
    obtain ⟨id, heap⟩ := stored
    rw [run_allocate_ok ha] at hnew
    cases hnew
    have hheap : heap.Canonical m.level := h.allocate
      (fun k hk hlevel hfits => hstored ⟨hlevel, by cases hk; exact hfits⟩) ha
    have hid : heap.content? id = some (.long n) := by
      rw [h.content?_allocate ha, if_pos rfl]
    exact (toObject_long_iff (m := { m with heap }) hheap _ n).mpr ⟨id, rfl, hid⟩

theorem toObject_ofObject (h : m.heap.Canonical m.level) {object : Object} {value : Value}
    {m' : Machine} (hin : ofObject object m = (.ok value, m'))
    (hstored : ∀ n, object = .long n → ¬(m.level = .modern ∧ FitsWord n)) :
    m'.toObject value = object := by
  cases object with
  | long n => exact h.toObject_newLong (hstored n rfl) hin
  | instanceOf typeName => cases hin
  | none | notImplemented | bool | int | float =>
    cases hin
    rfl

/-- **What a canonical heap means for a machine.** -/
theorem machine (h : m.heap.Canonical m.level) : m.Canonical where
  long := h.long
  form hlevel _ _ := h.form_of_integer? hlevel
  kind := h.toObject_long_iff
  readBack object value m' hin hstored := by
    have hread := h.toObject_ofObject hin hstored
    refine ⟨hread, fun hnan => ?_⟩
    rw [hread]
    exact Object.isEqual_self hnan
  narrowed n value m' hin hlevel hfits := by
    have hword : (Int64.ofInt n).toInt = n := toInt_ofInt_iff.mpr hfits
    have direct : newLong n m = (.ok value, m') := hin
    rw [run_newLong, if_pos ⟨hlevel, hword⟩] at direct
    cases direct
    exact ⟨.ofInt n, rfl, hword⟩

end Heap.Canonical

/-! ## Programs -/

/--
**Integers have one representation throughout every program.**  A program on a new machine comes to
an end after operations that can be listed, and at every point between two of them the machine is
canonical, in divisions and in slots of user types as well.
-/
theorem integers_canonical {a : MachineM α} (ha : Program (· = ·) a) (config : Config)
    (tracer : Tracer) :
    ∃ operations, Runs a (.start config tracer) operations ∧
      (a (.start config tracer)).2 = (Machine.start config tracer).after operations ∧
      (Machine.start config tracer).Throughout
        (fun m => m.level = config.level ∧ m.Canonical) operations := by
  have hlawful : Lawful config.level a := ha.lawful
  obtain ⟨operations, hrun, hops⟩ := hlawful (.start config tracer) rfl
  refine ⟨operations, hrun, hrun.after, fun before hbefore => ?_⟩
  have hlevel : ((Machine.start config tracer).after before).level = config.level :=
    Machine.level_after _ before
  have hcanonical := Machine.canonical_throughout (m := .start config tracer)
    (Heap.canonical_empty _ config.level) hops before hbefore
  refine ⟨hlevel, Heap.Canonical.machine ?_⟩
  rw [hlevel]
  exact hcanonical

/-- The least machine integer divided by minus one is a long of the modern heap. -/
theorem integers_canonical_least :
    let user : UserSlots :=
      { divide := fun _ _ _ => return .notImplemented
        coerce := fun _ _ _ => return none
        truth := fun _ _ => return true }
    let a := divide user (.generic .modern) (.int Int64.minValue) (.int (-1))
    let m := Machine.start { level := .modern }
    (a m).1 = .ok (.ref 0) ∧ (a m).2.Canonical ∧ (a m).2.toObject (.ref 0) = .long (1 <<< 63) := by
  intro user a m
  have offered : ∀ {α : Type} {slot : MachineM α}, user.Offers slot → Program (· = ·) slot := by
    intro α slot h
    cases h with
    | divide | coerce | truth => exact .answer _
  obtain ⟨operations, -, hafter, hthroughout⟩ :=
    integers_canonical (.divide (.generic .modern) _ _ offered) { level := .modern } .silent
  have hcanonical : (a m).2.Canonical := by
    rw [hafter]
    exact (hthroughout operations (List.prefix_refl _)).2
  exact ⟨rfl, hcanonical, rfl⟩

end FloorDivision
