import FloorDivision.CommandLine.Run
import FloorDivision.Proofs.CommandLine.Arguments
import FloorDivision.Proofs.Division.Unlimited
import FloorDivision.Proofs.Trace.Division

/-!
# The command line divides integers exactly

Arguments, literals, operands in the heap, quotient, text and release fit together for integers of
any size.

* `IntegerLiteral.IsWide` — the operand is held in a cell.
* `gains_ofObject`, `run_answer`, `run_perform` — operands are brought in, divided, shown and given
  back.
* `run_integers` — what a command line prints that divides two integers.
-/

namespace FloorDivision.CommandLine

open MachineM

variable {m : Machine} {held : Multiset Nat} {lhs rhs : Value} {a b : Int}

/-! ## Operands -/

namespace IntegerLiteral

/-- As an operand the integer is held in a cell. -/
def IsWide (literal : IntegerLiteral) : Prop :=
  literal.mark?.isSome = true ∨ ¬FitsWord literal.value

instance (literal : IntegerLiteral) : Decidable literal.IsWide :=
  inferInstanceAs (Decidable (_ ∨ _))

/-- The object that a written integer is read as. -/
def object (literal : IntegerLiteral) : Object :=
  if literal.mark?.isSome then .long literal.value else integerObject literal.value

/-- **A written integer is brought in without a refusal.** -/
theorem gains_ofObject (literal : IntegerLiteral) (h : m.heap.Unlimited held)
    (hmark : literal.mark? = none ∨ m.level = .legacy) :
    ∃ value m', ofObject literal.object m = (.ok value, m') ∧
      m.Gains m' held value literal.value literal.IsWide := by
  have direct : ¬literal.IsWide → FitsWord literal.value := fun h => by
    by_contra hfits
    exact h (Or.inr hfits)
  have same : ofObject literal.object m = (if ¬literal.IsWide
      then pure (.int (.ofInt literal.value)) else allocate (.long literal.value)) m := by
    unfold object IsWide
    rw [integerObject_eq]
    by_cases hmarked : literal.mark?.isSome = true
    · have hlegacy : m.level = .legacy := hmark.resolve_left (Option.isSome_iff_ne_none.mp hmarked)
      simp [hmarked, ofObject, run_newLong, hlegacy]
    · by_cases hfits : FitsWord literal.value
      · simp [hmarked, ofObject, hfits]
      · simp only [hmarked, Bool.false_eq_true, hfits, if_false, ofObject, run_newLong,
          toInt_ofInt_iff]
        simp
  rw [same]
  simpa only [not_not] using gains_held h direct

end IntegerLiteral

/-! ## What is shown -/

namespace Division

/-- What is made of two operands. -/
def answer (division : Division) (lhs rhs : Value) : MachineM String := do
  let entry := EntryPoint.generic division.config.level
  if division.options.asTruth then
    return truthText division.options (← divideTakingPending noUserSlots entry lhs rhs)
  else inspect (← divide noUserSlots entry lhs rhs) (quotientText division.options)

/-- There are no slots of user types that could do anything. -/
theorem reentrant_noUserSlots : noUserSlots.Reentrant := UserSlots.ofScripts_reentrant [] [] 0

theorem perform_eq (division : Division) :
    division.perform =
      withOperands (ofObject division.left) (ofObject division.right) division.answer := rfl

/-- The text of a quotient or of its truth. -/
def integerText (asTruth : Bool) (level : Level) (quotient : Int) (wide : Prop) [Decidable wide] :
    String :=
  if asTruth then if quotient ≠ 0 then "True" else "False"
  else toString quotient ++ if level = .legacy ∧ wide then "L" else ""

variable {division : Division} {left right : Prop} [Decidable left] [Decidable right]

/-- A quotient at hand is shown as the integer that it is. -/
theorem quotientText_holds {options : Options} {value : Value} {quotient : Int}
    (hjson : options.asJson = false)
    (h : m.Holds value quotient ¬(FitsWord quotient ∧ (m.level = .modern ∨ ¬(left ∨ right)))) :
    quotientText options m value =
      integerText false m.level quotient (left ∨ right ∨ ¬FitsWord quotient) := by
  have hwide : (m.level = .legacy ∧
      ¬(FitsWord quotient ∧ (m.level = .modern ∨ ¬(left ∨ right)))) ↔
        m.level = .legacy ∧ (left ∨ right ∨ ¬FitsWord quotient) := by
    refine and_congr_right fun hlegacy => ?_
    rw [hlegacy]
    tauto
  rw [quotientText, hjson, if_neg Bool.false_ne_true, h.repr]
  simp only [integerText, hwide, Bool.false_eq_true, if_false]

theorem truthText_decide {options : Options} (hjson : options.asJson = false) (level : Level)
    (quotient : Int) (wide : Prop) [Decidable wide] :
    truthText options (decide (quotient ≠ 0)) = integerText true level quotient wide := by
  rw [truthText, hjson]
  by_cases hquotient : quotient = 0
  · simp [hquotient, integerText, Object.repr]
  · simp [hquotient, integerText, Object.repr]

/-- **What is made of two integers**, after which nothing more is held than before. -/
theorem run_answer (h : m.heap.Unlimited held) (hlevel : m.level = division.config.level)
    (hdepth : m.depth = 0) (hjson : division.options.asJson = false) (hlhs : m.Holds lhs a left)
    (hrhs : m.Holds rhs b right) :
    ∃ m', division.answer lhs rhs m =
        (if b = 0 then .error (.raised (zeroDivision division.config.level (left ∨ right)))
          else .ok (integerText division.options.asTruth division.config.level (a.fdiv b)
            (left ∨ right ∨ ¬FitsWord (a.fdiv b))), m') ∧
      m'.heap.Unlimited held := by
  obtain ⟨zero, nonzero⟩ := run_divisions noUserSlots h hlevel hdepth hlhs hrhs
  unfold answer
  by_cases hzero : b = 0
  · obtain ⟨m', hdivide, htruth, hheap⟩ := zero hzero
    rw [if_pos hzero]
    cases division.options.asTruth with
    | true =>
      refine ⟨{ m' with pending := none }, run_bind_error ?_, hheap ▸ h⟩
      rw [run_divideTakingPending, htruth]
    | false => exact ⟨m', run_bind_error hdivide, hheap ▸ h⟩
  · obtain ⟨value, m', hdivide, hgains, m'', htruth, hunlimited⟩ := nonzero hzero
    rw [if_neg hzero]
    cases division.options.asTruth with
    | true =>
      have htaking : divideTakingPending noUserSlots (.generic division.config.level) lhs rhs m =
          (.ok (decide (a.fdiv b ≠ 0)), m'') := by
        rw [run_divideTakingPending, htruth]
      refine ⟨m'', (run_bind_ok htaking).trans ?_, hunlimited⟩
      rw [← truthText_decide hjson]
      rfl
    | false =>
      have htold := (Reentrant.divide _ lhs rhs reentrant_noUserSlots).told hdivide
      have hsame : m'.level = division.config.level :=
        (congrArg Config.level htold.config).trans hlevel
      refine ⟨m'.releaseValue value, (run_bind_ok hdivide).trans ?_,
        hgains.unlimited.releaseValue⟩
      rw [← hsame] at hgains ⊢
      rw [← quotientText_holds hjson hgains.holds]
      rfl

/-- A whole division is a re-entrant computation, so that no tracer learns of it but by calls. -/
theorem reentrant_perform (division : Division) : Reentrant division.perform := by
  rw [perform_eq]
  refine .withOperands (.ofObject _) (.ofObject _) fun lhs rhs => ?_
  unfold answer
  dsimp only
  split
  · exact (Reentrant.divideTakingPending reentrant_noUserSlots _ lhs rhs).bind fun _ => .answer _
  · exact (Reentrant.divide _ lhs rhs reentrant_noUserSlots).bind fun value => .inspect value _

variable {last : Machine}

/-- What is printed of a division that no tracer looks at. -/
theorem outcome_ok {text : String} (hsilent : tracer division.options = .silent)
    (h : division.perform (.start division.config .silent) = (.ok text, last))
    (hlast : last.tracer = .silent) :
    division.outcome = { exitCode := 0, output := text ++ "\n" } := by
  simp [outcome, hsilent, h, hlast, traceText]

theorem outcome_error {failure : Failure} (hsilent : tracer division.options = .silent)
    (h : division.perform (.start division.config .silent) = (.error failure, last))
    (hlast : last.tracer = .silent) :
    division.outcome = { exitCode := 1, errors := failure.text ++ "\n" } := by
  simp [outcome, hsilent, h, hlast, traceText]

end Division

theorem text_zeroDivision (level : Level) (wide : Prop) [Decidable wide] :
    (Failure.raised (zeroDivision level wide)).text ++ "\n" =
      "ZeroDivisionError: " ++ (if level = .legacy ∧ wide then "long" else "integer") ++
        " division or modulo by zero\n" := by
  by_cases hwide : wide
  · cases level <;> simp [zeroDivision, hwide] <;> decide
  · simp [zeroDivision, hwide]
    decide

/-- Both operands are brought in, and nothing but them is held then. -/
theorem run_operands {config : Config} (left right : IntegerLiteral) (hlimits : config.limits = {})
    (hleft : left.mark? = none ∨ config.level = .legacy)
    (hright : right.mark? = none ∨ config.level = .legacy) :
    ∃ lhs rhs m, both (ofObject left.object) (ofObject right.object) (.start config .silent) =
        (.ok (lhs, rhs), m) ∧
      m.heap.Unlimited (0 + lhs.refs + rhs.refs) ∧ m.Holds lhs left.value left.IsWide ∧
        m.Holds rhs right.value right.IsWide := by
  obtain ⟨lhs, first, hlhs, hfirst⟩ := left.gains_ofObject (.start hlimits .silent) hleft
  have hlevel : first.level = config.level :=
    congrArg Config.level ((Reentrant.ofObject left.object).told hlhs).config
  obtain ⟨rhs, second, hrhs, hsecond⟩ :=
    right.gains_ofObject hfirst.unlimited (hright.imp_right hlevel.trans)
  have hkept : releasingOnFailure lhs (ofObject right.object) first = (.ok rhs, second) := by
    unfold releasingOnFailure
    rw [hrhs]
  exact ⟨lhs, rhs, second, (run_bind_ok hlhs).trans (run_bind_ok hkept), hsecond.unlimited,
    hsecond.keeps hfirst.holds, hsecond.holds⟩

/-- The written integers are divided, shown and given back, and nothing is live then. -/
theorem run_perform {config : Config} (options : Options) (left right : IntegerLiteral)
    (hlimits : config.limits = {}) (hjson : options.asJson = false)
    (hleft : left.mark? = none ∨ config.level = .legacy)
    (hright : right.mark? = none ∨ config.level = .legacy) :
    ∃ after, (Division.mk config options left.object right.object).perform
        (.start config .silent) =
        (if right.value = 0 then
            .error (.raised (zeroDivision config.level (left.IsWide ∨ right.IsWide)))
          else .ok (Division.integerText options.asTruth config.level (left.value.fdiv right.value)
            (left.IsWide ∨ right.IsWide ∨ ¬FitsWord (left.value.fdiv right.value))), after) ∧
      after.heap.live = [] ∧ after.tracer = .silent := by
  let division : Division := ⟨config, options, left.object, right.object⟩
  obtain ⟨lhs, rhs, inside, hboth, hunlimited, hlhs, hrhs⟩ :=
    run_operands left right hlimits hleft hright
  have htold := (Reentrant.both (.ofObject left.object) (.ofObject right.object)).told hboth
  have hlevel : inside.level = division.config.level := congrArg Config.level htold.config
  obtain ⟨last, hanswer, hlast⟩ :=
    Division.run_answer hunlimited hlevel htold.depth hjson hlhs hrhs
  have hperform : division.perform (.start config .silent) =
      ((division.answer lhs rhs inside).1, (last.releaseValue lhs).releaseValue rhs) := by
    rw [Division.perform_eq]
    refine (run_bind_ok hboth).trans ?_
    show releasingBoth lhs rhs (division.answer lhs rhs) inside = _
    unfold releasingBoth
    rw [run_andThen, hanswer]
  rw [hanswer] at hperform
  refine ⟨_, hperform, ?_, ?_⟩
  · rw [Multiset.add_assoc, Multiset.add_comm lhs.refs, ← Multiset.add_assoc] at hlast
    exact hlast.releaseValue.releaseValue.sound.live_eq_nil
  · obtain ⟨word, -, hcourse⟩ := division.reentrant_perform.told hperform
    exact (congrArg (·.1) hcourse).trans (Tracer.told_silent word)

/-! ## The command line -/

/-- The arguments in which switches stand before, between and after two written integers. -/
def arguments (before between after : List Switch) (left right : IntegerLiteral) : List String :=
  before.flatMap Switch.arguments ++ left.text ::
    (between.flatMap Switch.arguments ++ right.text :: after.flatMap Switch.arguments)

/-- What the arguments come to: two integers to be divided at the level that was chosen last. -/
theorem ofArguments_integers {files : Files} {config : Config} {before between after : List Switch}
    {left right : IntegerLiteral} {level : Level}
    (hconfig : loadConfig files ((before ++ between ++ after).filterMap Switch.path?).getLast? =
      .ok config)
    (hlevel : (((before ++ between ++ after).filterMap Switch.level?).getLast?).getD config.level =
      level)
    (hleft : left.mark? = none ∨ level = .legacy) (hright : right.mark? = none ∨ level = .legacy) :
    Division.ofArguments files (arguments before between after left right) =
      .ok ⟨{ config with level },
        Switch.requests (before ++ between ++ after) [left.text, right.text],
        left.object, right.object⟩ := by
  unfold Division.ofArguments arguments
  rw [Options.ofArguments_switches before between after left.not_dashes right.not_dashes]
  simp only [Switch.requests, hconfig, hlevel, left.readLiteral_text hleft,
    right.readLiteral_text hright, bind, Except.bind, pure, Except.pure]
  rfl

end FloorDivision.CommandLine
