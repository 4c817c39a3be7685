import FloorDivision.Proofs.Division.CoercionProtocol
import FloorDivision.Proofs.Division.Numbers
import FloorDivision.Proofs.Division.References

/-!
# Conversion of numbers by builtin slots

* `ObjectType.Derives`, `Machine.Presents` — types that divide and convert as a type of numbers
  does, and values of such types that are a certain number to division.
* `Numeric.widen?` — what a conversion makes of the other number; `quotient?_widen` tells that the
  quotient stays the same.
* `readOut`, `readOut_finish` — what the end of a run is read out as.
* `converts_widen?` — a conversion makes of the other operand what it makes of its number.
* `readsOut_convertEither` — operands that have to be converted have the quotient of their numbers.
-/

namespace FloorDivision

open MachineM

/-! ## Derived types -/

/-- The type of a kind of number, or one declared on top of it that sets neither slot for division
nor conversion. -/
inductive ObjectType.Derives (level : Level) (kind : NumberKind) : ObjectType → Prop where
  | number : Derives level kind (.number level kind)
  | declare {own : TypeEntry} {base : ObjectType} : Derives level kind base →
      own.slots.divide = none → own.slots.coerce = none →
        Derives level kind (.declare own (some base))

theorem ObjectType.Derives.divide {level : Level} {kind : NumberKind} {type : ObjectType}
    (h : type.Derives level kind) : type.slots.divide = some (.builtin kind) := by
  induction h with
  | number => rfl
  | @declare own base _ hdivide _ ih =>
    show (own.slots.divide <|> base.slots.divide) = _
    rw [hdivide, ih]
    rfl

theorem ObjectType.Derives.coerce {kind : NumberKind} {type : ObjectType}
    (h : type.Derives .legacy kind) : type.slots.coerce = some (.builtin kind) := by
  induction h with
  | number => rfl
  | @declare own base _ _ hcoerce ih =>
    show (own.slots.coerce <|> base.slots.coerce) = _
    rw [hcoerce, ih]
    rfl

/-- A value is to division a certain number of its own kind. -/
structure Machine.Presents (m : Machine) (value : Value) (x : Numeric) : Prop where
  reads : m.heap.Reads value (some x)
  derives : (m.typeOf value).Derives m.level (x.kindAt m.level)

variable {m m' : Machine} {value lhs rhs own other : Value} {x y z : Numeric}
  {held kept : Multiset Nat} {level : Level} {kind : NumberKind} {user : UserSlots}

/-! ## Conversion of numbers -/

namespace Numeric

/-- What the conversion of a kind makes of the other number; none if it declines it. -/
def widen? (level : Level) (kind : NumberKind) (other : Numeric) :
    Option (Except Failure Numeric) :=
  match kind with
  | .int =>
    match other with
    | .int n => some (.ok (.int n))
    | .long _ | .float _ => none
  | .long =>
    match other with
    | .int n => some (.ok (.long n.toInt))
    | .long n => some (.ok (.long n))
    | .float _ => none
  | .float => some ((other.toDouble level).map .float)

/-- A number is converted unless it is of a wider kind. -/
theorem widen?_isSome :
    (y.widen? .legacy kind).isSome = !decide (kind.rank < (y.kindAt .legacy).rank) := by
  cases kind <;> cases y <;> rfl

theorem widen?_eq_none (h : kind.rank < (y.kindAt .legacy).rank) :
    y.widen? .legacy kind = none :=
  Option.not_isSome_iff_eq_none.mp (by simp [widen?_isSome, h])

theorem exists_widen? (h : ¬kind.rank < (y.kindAt .legacy).rank) :
    ∃ other, y.widen? .legacy kind = some other :=
  Option.isSome_iff_exists.mp (by simpa [widen?_isSome] using h)

/-- What a number is widened to is of the kind of the conversion. -/
theorem kindAt_widen? {other : Numeric} (h : y.widen? .legacy kind = some (.ok other)) :
    other.kindAt .legacy = kind := by
  cases kind with
  | int =>
    cases y <;> cases h
    rfl
  | long => cases y <;> cases h <;> rfl
  | float =>
    unfold widen? at h
    generalize y.toDouble .legacy = d? at h
    cases d? <;> cases h
    rfl

/-- What comes of the other number divides in its place, and a failure to convert it is that of the
division. -/
theorem quotient?_widen (side : Side) {other : Except Failure Numeric}
    {quotient : Except Failure Quotient} (hx : x.kindAt .legacy = kind)
    (hy : y.widen? .legacy kind = some other)
    (hq : quotient? .legacy kind (side.inOrder (x, y)).1 (side.inOrder (x, y)).2 = some quotient) :
    (∃ e, other = .error e ∧ quotient = .error e) ∨ ∃ z, other = .ok z ∧
      quotient? .legacy kind (side.inOrder (x, z)).1 (side.inOrder (x, z)).2 = some quotient := by
  cases kind with
  | int =>
    cases y <;> cases hy
    exact Or.inr ⟨_, rfl, hq⟩
  | long => cases side <;> cases y <;> cases hy <;> exact Or.inr ⟨_, rfl, hq⟩
  | float =>
    cases x with
    | int | long => cases hx
    | float a =>
      cases hy
      obtain rfl := Option.some.inj hq
      cases side with
      | left | right =>
        dsimp only [Side.inOrder, Prod.swap]
        cases y.toDouble .legacy with
        | error e => exact Or.inl ⟨e, rfl, rfl⟩
        | ok d => exact Or.inr ⟨.float d, rfl, rfl⟩

end Numeric

/-! ## Reading results out -/

/-- A quotient as it is read out of a machine. -/
def Quotient.toObject (level : Level) : Quotient → Object
  | .int n => .int n
  | .long n => Machine.longObject level n
  | .float x => .float x

/-- What the end of a run is read out as. -/
def readOut (run : Except Failure Value × Machine) : Except Failure Object :=
  run.1.map run.2.toObject

/-- **A quotient becomes a value that is read out as it**, and that stays so as long as the
reference to it is held. -/
theorem run_toValue (hlimits : m.heap.budget.limits? = none) (hb : m.heap.Balanced held)
    (quotient : Quotient) :
    ∃ value after, quotient.toValue m = (.ok value, after) ∧ value ≠ .notImplemented ∧
      after.level = m.level ∧ after.heap.Balanced (held + value.refs) ∧
      after.toObject value = quotient.toObject m.level := by
  have unchanged : ∀ value : Value, value.ref? = none → m.heap.Balanced (held + value.refs) := by
    intro value h
    rwa [Value.refs_eq_zero h, Multiset.add_zero]
  cases quotient with
  | int n => exact ⟨_, m, rfl, by simp, rfl, unchanged _ rfl, rfl⟩
  | float x => exact ⟨_, m, rfl, by simp, rfl, unchanged _ rfl, rfl⟩
  | long n =>
    show ∃ value after, newLong n m = (.ok value, after) ∧ _
    rw [run_newLong]
    by_cases hfits : m.level = .modern ∧ (Int64.ofInt n).toInt = n
    · rw [if_pos hfits]
      exact ⟨_, m, rfl, by simp, rfl, unchanged _ rfl, (if_pos hfits).symm⟩
    · rw [if_neg hfits]
      obtain ⟨id, heap, ha⟩ := Heap.exists_allocate hlimits (.long n)
      obtain ⟨hbalanced, hcontent, _⟩ := hb.allocate_long ha
      refine ⟨.ref id, { m with heap }, ?_, by simp, rfl, hbalanced, ?_⟩
      · unfold allocate
        rw [ha]
      · simp only [Machine.toObject, hcontent]
        rfl

theorem readOut_finish (hlimits : m.heap.budget.limits? = none) (hb : m.heap.Balanced held)
    (quotient : Except Failure Quotient) :
    readOut (finish (some quotient) m) = quotient.map (·.toObject m.level) := by
  cases quotient with
  | error e => rfl
  | ok quotient =>
    obtain ⟨value, after, hrun, _, _, _, hobject⟩ := run_toValue hlimits hb quotient
    show readOut (quotient.toValue m) = _
    rw [hrun]
    exact congrArg Except.ok hobject

/-! ## What held references lead to -/

section Keeps

variable (hk : m.heap.Keeps kept m'.heap) (hv : value.refs ⊆ kept) (hlevel : m'.level = m.level)
include hk hv hlevel

theorem typeOf_keeps : m'.typeOf value = m.typeOf value := by
  unfold Machine.typeOf
  rw [hlevel]
  cases value with
  | ref id =>
    dsimp only
    rw [hk id (.held (hv (Multiset.mem_singleton_self id)))]
  | none | notImplemented | bool | int | float => rfl

theorem toObject_keeps : m'.toObject value = m.toObject value := by
  unfold Machine.toObject
  rw [hlevel]
  cases value with
  | ref id =>
    dsimp only
    rw [hk id (.held (hv (Multiset.mem_singleton_self id)))]
  | none | notImplemented | bool | int | float => rfl

theorem Machine.Presents.keeps (h : m.Presents value x) : m'.Presents value x := by
  refine ⟨h.reads.keeps hk hv, ?_⟩
  rw [typeOf_keeps hk hv hlevel, hlevel]
  exact h.derives

end Keeps

/-! ## Conversion by builtin slots -/

/-- The conversion of a kind declines the other operand, fails, or answers with a new reference to
it as another number, its own operand first. -/
def Machine.Converts (m : Machine) (held : Multiset Nat) (kind : NumberKind) (own other : Value) :
    Option (Except Failure Numeric) → Prop
  | none => BuiltinSlot.coerce kind own other m = (.ok none, m)
  | some (.error e) => BuiltinSlot.coerce kind own other m = (.error e, m)
  | some (.ok z) => ∃ widened after,
      BuiltinSlot.coerce kind own other m = (.ok (some (own, widened)), after) ∧
        after.level = m.level ∧ after.Presents widened z ∧
        m.heap.Settles held (own.refs + widened.refs) after.heap

/-- A number that is no double yet is converted to one, which may fail. -/
theorem converts_toDouble (hlevel : m.level = .legacy) (hnumeric : m.heap.numeric? other = some y)
    (settles : m.heap.Settles held
      (resultRefs (optionRefs pairRefs) (BuiltinSlot.coerce .float own other m).1)
      (BuiltinSlot.coerce .float own other m).2.heap)
    (run : BuiltinSlot.coerce .float own other m = (do
      let some x ← BuiltinSlot.toDouble? other | return none
      let own ← retain own
      return some (own, .float x) : MachineM (Option (Value × Value))) m) :
    m.Converts held .float own other (some ((y.toDouble .legacy).map .float)) := by
  have double := run_toDouble?_numeric hnumeric
  rw [hlevel] at double
  cases hd : y.toDouble .legacy with
  | error e =>
    rw [hd] at double
    exact run.trans (run_bind_error double)
  | ok d =>
    rw [hd] at double
    have hrun : BuiltinSlot.coerce .float own other m = _ := run.trans (run_bind_ok double)
    rw [hrun] at settles
    exact ⟨.float d, _, hrun, rfl, ⟨.float d, .number⟩, settles⟩

/-- **A conversion makes of the other operand what it makes of its number.** -/
theorem converts_widen? (kind : NumberKind) (hlevel : m.level = .legacy)
    (hlimits : m.heap.budget.limits? = none) (hb : m.heap.Balanced held)
    (ho : own.refs ⊆ held) (hr : other.refs ⊆ held) (hy : m.Presents other y) :
    m.Converts held kind own other (y.widen? .legacy kind) := by
  have hb0 : m.heap.Balanced (held + 0) := by rwa [Multiset.add_zero]
  have settles : m.heap.Settles held _ (BuiltinSlot.coerce kind own other m).2.heap :=
    settles_builtinCoerce kind ho hr m hlimits hb0
  have retained : ∀ after, BuiltinSlot.coerce kind own other m = (.ok (some (own, other)), after) →
      after.level = m.level → m.Converts held kind own other (some (.ok y)) := by
    intro after hrun hafter
    rw [hrun] at settles
    exact ⟨other, after, hrun, hafter, hy.keeps settles.keeps hr hafter, settles⟩
  have hnumeric := hy.reads.numeric?
  cases kind with
  | int =>
    have run : BuiltinSlot.coerce .int own other m = _ := run_get_bind _ m
    rw [hnumeric] at run
    cases y with
    | int n => exact retained _ run rfl
    | long | float => exact run
  | long =>
    have run : BuiltinSlot.coerce .long own other m = _ := run_get_bind _ m
    rw [hnumeric] at run
    cases y with
    | int n =>
      obtain ⟨id, heap, ha⟩ := Heap.exists_allocate hlimits (.long n.toInt)
      have filled : newLong n.toInt m = (.ok (.ref id), { m with heap }) := by
        rw [run_newLong, if_neg fun h => by rw [hlevel] at h; cases h.1]
        unfold allocate
        rw [ha]
      have hrun : BuiltinSlot.coerce .long own other m = _ := run.trans (run_bind_ok filled)
      have hcontent := (Heap.content?_retainValue heap own id).trans (hb.allocate_long ha).2.1
      rw [hrun] at settles
      refine ⟨.ref id, _, hrun, rfl, ⟨.long hcontent, ?_⟩, settles⟩
      simp only [Machine.typeOf, Machine.retainValue, hcontent]
      exact .number
    | long n => exact retained _ run rfl
    | float x => exact run
  | float =>
    have run : BuiltinSlot.coerce .float own other m = _ := run_get_bind _ m
    rw [hnumeric] at run
    cases y with
    | int n => exact converts_toDouble hlevel hnumeric settles run
    | long n => exact converts_toDouble hlevel hnumeric settles run
    | float x => exact retained _ run rfl

/-! ## Division of converted operands -/

/-- A conversion came to a quotient that is read out so, or to its failure. -/
def Consulted.ReadsOut (consulted : Consulted CoercionOutcome) : Except Failure Object → Prop
  | .error e => consulted.answer = .error e
  | .ok object => ∃ value, consulted.answer = .ok (.computed value) ∧
      consulted.machine.toObject value = object

/-- **A pair of numbers has their quotient**, which outlasts the pair. -/
theorem readsOut_dividePair (user : UserSlots) {first second : Value}
    (hlimits : m.heap.budget.limits? = none)
    (hb : m.heap.Balanced (held + (first.refs + second.refs))) (hx : m.Presents first x)
    (hy : m.Presents second y) {quotient : Except Failure Quotient}
    (hq : Numeric.quotient? m.level (x.kindAt m.level) x y = some quotient) :
    (dividePair user first second m).ReadsOut (quotient.map (·.toObject m.level)) := by
  have slot : callDivide user (.builtin (x.kindAt m.level)) first second m =
      finish (some quotient) m := by
    rw [← hq]
    exact run_builtinDivide _ hx.reads.numeric? hy.reads.numeric?
  unfold dividePair
  rw [hx.derives.divide]
  dsimp only
  rw [slot]
  cases quotient with
  | error e => rfl
  | ok quotient =>
    obtain ⟨value, after, hrun, hvalue, hlevel, hbalanced, hobject⟩ :=
      run_toValue hlimits hb quotient
    have held_value : after.heap.Balanced (value.refs + (held + second.refs + first.refs)) := by
      convert hbalanced using 1
      abel
    have released := Heap.settles_releaseValue held_value
    have given : ((after.heap.releaseValue first)).Balanced
        (value.refs + (held + second.refs)) := released.balanced
    have released' := Heap.settles_releaseValue given
    have last : ((after.releaseValue first).releaseValue second).toObject value =
        after.toObject value :=
      toObject_keeps (released.keeps.trans released'.keeps) (Multiset.Subset.refl _) rfl
    rw [show finish (some (.ok quotient)) m = _ from hrun]
    cases value with
    | notImplemented => exact absurd rfl hvalue
    | none | bool | int | float | ref => exact ⟨_, rfl, last.trans hobject⟩

/-- A side whose kind is narrower than the other operand's declines. -/
theorem convert_declined (user : UserSlots) (side : Side)
    (h : m.Converts held kind (side.inOrder (lhs, rhs)).1 (side.inOrder (lhs, rhs)).2 none) :
    (convert user side (some (.builtin kind)) lhs rhs m).answer = .ok .undecided ∧
      (convert user side (some (.builtin kind)) lhs rhs m).machine =
        m.observe (.coerce side false) := by
  unfold convert
  dsimp only
  rw [show callCoerce user (.builtin kind) _ _ m = _ from h]
  exact ⟨rfl, rfl⟩

section Convert

variable {quotient : Except Failure Quotient} (hlevel : m.level = .legacy)
  (hlimits : m.heap.budget.limits? = none) (hb : m.heap.Balanced held)
include hlevel hlimits hb

/-- The conversion of a side that is no narrower than the other one leads to the quotient. -/
theorem readsOut_convert (user : UserSlots) (side : Side) (ho : own.refs ⊆ held)
    (hr : other.refs ⊆ held) (hx : m.Presents own x) (hy : m.Presents other y)
    (hwide : ¬(x.kindAt .legacy).rank < (y.kindAt .legacy).rank)
    (hq : Numeric.quotient? .legacy (x.kindAt .legacy) (side.inOrder (x, y)).1
      (side.inOrder (x, y)).2 = some quotient) :
    (convert user side (some (.builtin (x.kindAt .legacy))) (side.inOrder (own, other)).1
      (side.inOrder (own, other)).2 m).ReadsOut (quotient.map (·.toObject .legacy)) := by
  obtain ⟨other?, hother⟩ := Numeric.exists_widen? hwide
  have conversion := converts_widen? (x.kindAt .legacy) hlevel hlimits hb ho hr hy
  rw [hother] at conversion
  have asked : side.inOrder (side.inOrder (own, other)) = (own, other) := by cases side <;> rfl
  unfold convert
  dsimp only
  rw [Prod.mk.eta, asked]
  rcases Numeric.quotient?_widen side rfl hother hq with ⟨e, rfl, rfl⟩ | ⟨z, rfl, hz⟩
  · rw [show callCoerce user (.builtin _) own other m = _ from conversion]
    rfl
  · obtain ⟨widened, after, hrun, hafter, hwidened, hsettles⟩ := conversion
    rw [show callCoerce user (.builtin _) own other m = _ from hrun]
    have kept := hx.keeps hsettles.keeps ho hafter
    have hown : (after.observe (.coerce side true)).Presents own x := ⟨kept.reads, kept.derives⟩
    have hother' : (after.observe (.coerce side true)).Presents widened z :=
      ⟨hwidened.reads, hwidened.derives⟩
    have limits := hsettles.limits.trans hlimits
    have balanced := hsettles.balanced
    have legacy : (after.observe (.coerce side true)).level = .legacy := hafter.trans hlevel
    rw [← legacy]
    cases side with
    | left =>
      rw [← legacy] at hz
      exact readsOut_dividePair (m := after.observe _) user limits balanced hown hother' hz
    | right =>
      rw [Multiset.add_comm own.refs] at balanced
      rw [← Numeric.kindAt_widen? hother, ← legacy] at hz
      exact readsOut_dividePair (m := after.observe _) user limits balanced hother' hown hz

/-- **Operands that have to be converted have the quotient of their numbers**: the wider one's side
converts the other one. -/
theorem readsOut_convertEither (user : UserSlots) (hl : lhs.refs ⊆ held) (hr : rhs.refs ⊆ held)
    (hx : m.Presents lhs x) (hy : m.Presents rhs y)
    (hq : Numeric.quotient? .legacy ((x.kindAt .legacy).wider (y.kindAt .legacy)) x y =
      some quotient) :
    (convertEither user (some (.builtin (x.kindAt .legacy))) (some (.builtin (y.kindAt .legacy)))
      lhs rhs m).ReadsOut (quotient.map (·.toObject .legacy)) := by
  unfold NumberKind.wider at hq
  unfold convertEither
  dsimp only
  split at hq
  · rename_i hnarrow
    have conversion := converts_widen? (x.kindAt .legacy) hlevel hlimits hb hl hr hy
    rw [Numeric.widen?_eq_none hnarrow] at conversion
    obtain ⟨hundecided, hmachine⟩ := convert_declined user .left conversion
    rw [hundecided, hmachine]
    exact readsOut_convert (m := m.observe (.coerce .left false)) hlevel hlimits hb user .right hr
      hl ⟨hy.reads, hy.derives⟩ ⟨hx.reads, hx.derives⟩ (by omega) hq
  · rename_i hwide
    have first : (convert user .left (some (.builtin (x.kindAt .legacy))) lhs rhs m).ReadsOut
        (quotient.map (·.toObject .legacy)) :=
      readsOut_convert hlevel hlimits hb user .left hl hr hx hy hwide hq
    split
    · rename_i hundecided
      cases quotient with
      | error e => rw [show _ = _ from first] at hundecided; cases hundecided
      | ok quotient =>
        obtain ⟨value, hvalue, _⟩ := first
        rw [hvalue] at hundecided
        cases hundecided
    · exact first

end Convert

end FloorDivision
