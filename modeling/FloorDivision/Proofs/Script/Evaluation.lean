import FloorDivision.Proofs.Machine.Alike
import FloorDivision.Proofs.Machine.Run
import FloorDivision.Script.Eval

/-!
# What evaluations of scripts have in common

* `Script.Compatible` — a relation between computations that is kept by everything evaluation does,
  where two families of slots are related by their divisions.
* `Expr.eval_related`, `CoerceExpr.eval_related` — then the evaluations of a script are related, by
  recursion over the script.
* `UserSlots.overScripts` — slots that evaluate scripts, over the slots that run inside them;
  `related_overScripts` relates them, and `related_ofScripts` those of any number of layers.
-/

namespace FloorDivision

open MachineM

variable {α β : Type}

/-- The relation is kept by the ways in which evaluation puts computations together, and holds of
the divisions with two families of slots. -/
structure Script.Compatible (user user' : UserSlots)
    (E : (α : Type) → MachineM α → MachineM α → Prop) : Prop where
  answer : ∀ {α : Type} (x : α), E α (pure x) (pure x)
  fail : ∀ {α : Type} (e : Failure), E α (throw e) (throw e)
  bind : ∀ {α β : Type} {a a' : MachineM α} {f f' : α → MachineM β},
    E α a a' → (∀ x, E β (f x) (f' x)) → E β (a >>= f) (a' >>= f')
  handle : ∀ {α : Type} {a a' : MachineM α} {handler handler' : Failure → MachineM α},
    E α a a' → (∀ e, E α (handler e) (handler' e)) →
      E α (tryCatch a handler) (tryCatch a' handler')
  look : ∀ {α : Type} {f : Machine → MachineM α},
    (∀ m, E α (f m) (f m)) → (∀ m m', m.Alike m' → f m = f m') → E α (get >>= f) (get >>= f)
  retain : ∀ value, E Value (retain value) (retain value)
  release : ∀ value, E Unit (release value) (release value)
  ofObject : ∀ object, E Value (ofObject object) (ofObject object)
  newInstance : ∀ type payload, E Value (newInstance type payload) (newInstance type payload)
  divide : ∀ entry lhs rhs, E Value (divide user entry lhs rhs) (divide user' entry lhs rhs)
  divideTakingPending : ∀ entry lhs rhs,
    E Bool (divideTakingPending user entry lhs rhs) (divideTakingPending user' entry lhs rhs)

namespace Script.Compatible

variable {user user' : UserSlots} {E : (α : Type) → MachineM α → MachineM α → Prop}
  (h : Script.Compatible user user' E)

include h

theorem map {a a' : MachineM α} (ha : E α a a') (f : α → β) : E β (f <$> a) (f <$> a') := by
  rw [map_eq_pure_bind, map_eq_pure_bind]
  exact h.bind ha fun x => h.answer (f x)

theorem releasing (value : Value) {a a' : MachineM α} (ha : E α a a') :
    E α (releasing value a) (releasing value a') := by
  rw [releasing_eq, releasing_eq]
  refine h.bind (h.handle ha fun e => ?_) fun x => ?_
  · exact h.bind (h.release value) fun _ => h.fail e
  · exact h.bind (h.release value) fun _ => h.answer x

theorem both {first first' second second' : MachineM Value} (hf : E Value first first')
    (hs : E Value second second') : E _ (both first second) (both first' second') := by
  refine h.bind hf fun a => h.bind ?_ fun b => h.answer (a, b)
  rw [releasingOnFailure_eq, releasingOnFailure_eq]
  exact h.handle hs fun e => h.bind (h.release a) fun _ => h.fail e

theorem withOperands {left left' right right' : MachineM Value}
    {operate operate' : Value → Value → MachineM α} (hl : E Value left left')
    (hr : E Value right right') (ho : ∀ lhs rhs, E α (operate lhs rhs) (operate' lhs rhs)) :
    E α (withOperands left right operate) (withOperands left' right' operate') :=
  h.bind (h.both hl hr) fun pair => h.releasing pair.2 (h.releasing pair.1 (ho pair.1 pair.2))

/-- Looking at a value that is then given back, for what machines that are alike agree in. -/
theorem inspect (value : Value) (view : Machine → Value → α)
    (hv : ∀ {m m' : Machine}, m.Alike m' → view m = view m') :
    E α (inspect value view) (inspect value view) := by
  refine h.look (fun m => h.bind (h.release value) fun _ => h.answer _) fun m m' hm => ?_
  dsimp only
  rw [hv hm]

end Script.Compatible

/-! ## Evaluation -/

section Evaluation

variable {user user' : UserSlots} {E : (α : Type) → MachineM α → MachineM α → Prop}

mutual

/-- **Evaluations of an expression are related.** -/
theorem Expr.eval_related (h : Script.Compatible user user' E) (scope : Scope) :
    ∀ e : Expr, E Value (e.eval user scope) (e.eval user' scope)
  | .object object => by
    unfold Expr.eval
    exact h.ofObject object
  | .operand isSecond => by
    unfold Expr.eval Scope.fetchOperand
    split
    · exact h.retain _
    · exact h.fail _
  | .variable name => by
    unfold Expr.eval Scope.fetchVariable
    split
    · exact h.retain _
    · exact h.fail _
  | .new type payload => by
    unfold Expr.eval
    exact h.bind (Expr.eval_related h scope payload) fun value => h.newInstance type value
  | .divide entry left right => by
    unfold Expr.eval
    exact h.withOperands (Expr.eval_related h scope left) (Expr.eval_related h scope right)
      fun lhs rhs => h.divide entry lhs rhs
  | .divideToTruth entry left right => by
    unfold Expr.eval
    exact h.map (h.withOperands (Expr.eval_related h scope left) (Expr.eval_related h scope right)
      fun lhs rhs => h.divideTakingPending entry lhs rhs) Value.bool
  | .raise failure => by
    unfold Expr.eval
    exact h.fail failure
  | .select subject branches => by
    unfold Expr.eval
    refine h.bind (Expr.eval_related h scope subject) fun value => ?_
    refine h.bind (h.inspect value Machine.toObject Machine.Alike.toObject) fun object => ?_
    exact Branches.eval_related h scope object branches
  | .ifInstance subject type yes no => by
    unfold Expr.eval
    refine h.bind (Expr.eval_related h scope subject) fun value => ?_
    refine h.bind (h.inspect value Machine.typeOf Machine.Alike.typeOf) fun found => ?_
    split
    · exact Expr.eval_related h scope yes
    · exact Expr.eval_related h scope no
  | .attempt body kind handler => by
    unfold Expr.eval
    refine h.handle (Expr.eval_related h scope body) fun e => ?_
    split
    · exact Expr.eval_related h scope handler
    · exact h.fail e

theorem Branches.eval_related (h : Script.Compatible user user' E) (scope : Scope)
    (object : Object) :
    ∀ b : Branches, E Value (b.eval user scope object) (b.eval user' scope object)
  | .otherwise value => by
    unfold Branches.eval
    exact Expr.eval_related h scope value
  | .case number value rest => by
    unfold Branches.eval
    split
    · exact Expr.eval_related h scope value
    · exact Branches.eval_related h scope object rest

end

mutual

/-- **Evaluations of a conversion are related.** -/
theorem CoerceExpr.eval_related (h : Script.Compatible user user' E) (scope : Scope) :
    ∀ e : CoerceExpr, E _ (e.eval user scope) (e.eval user' scope)
  | .decline => by
    unfold CoerceExpr.eval
    exact h.answer none
  | .pair own other => by
    unfold CoerceExpr.eval
    exact h.map (h.both (Expr.eval_related h scope own) (Expr.eval_related h scope other)) some
  | .select subject branches => by
    unfold CoerceExpr.eval
    refine h.bind (Expr.eval_related h scope subject) fun value => ?_
    refine h.bind (h.inspect value Machine.toObject Machine.Alike.toObject) fun object => ?_
    exact CoerceBranches.eval_related h scope object branches
  | .ifInstance subject type yes no => by
    unfold CoerceExpr.eval
    refine h.bind (Expr.eval_related h scope subject) fun value => ?_
    refine h.bind (h.inspect value Machine.typeOf Machine.Alike.typeOf) fun found => ?_
    split
    · exact CoerceExpr.eval_related h scope yes
    · exact CoerceExpr.eval_related h scope no
  | .fail failing => by
    unfold CoerceExpr.eval
    refine h.bind (Expr.eval_related h scope failing) fun value => ?_
    exact h.bind (h.release value) fun _ => h.answer none

theorem CoerceBranches.eval_related (h : Script.Compatible user user' E) (scope : Scope)
    (object : Object) :
    ∀ b : CoerceBranches, E _ (b.eval user scope object) (b.eval user' scope object)
  | .otherwise value => by
    unfold CoerceBranches.eval
    exact CoerceExpr.eval_related h scope value
  | .case number value rest => by
    unfold CoerceBranches.eval
    split
    · exact CoerceExpr.eval_related h scope value
    · exact CoerceBranches.eval_related h scope object rest

end

end Evaluation

/-! ## Slots that evaluate scripts -/

/-- The slots of scripts, where `inner` are the slots that run inside them. -/
def UserSlots.overScripts (scripts : List SlotScripts) (bindings : List (String × Value))
    (inner : UserSlots) : UserSlots where
  divide definer lhs rhs :=
    match scriptOf scripts (·.divide) definer with
    | some script => script.eval inner ⟨some (lhs, rhs), bindings⟩
    | none => throw slotUnavailable
  coerce definer own other :=
    match scriptOf scripts (·.coerce) definer with
    | some script => script.eval inner ⟨some (own, other), bindings⟩
    | none => throw slotUnavailable
  truth definer value :=
    match scriptOf scripts (·.truth) definer with
    | some script => do
      let answer ← script.eval inner ⟨some (value, value), bindings⟩
      truthOfOwned inner answer
    | none => throw slotUnavailable

/-- One more nested slot call is one more layer of scripts. -/
theorem UserSlots.ofScripts_succ (scripts : List SlotScripts) (bindings : List (String × Value))
    (nesting : Nat) :
    ofScripts scripts bindings (nesting + 1) =
      overScripts scripts bindings (ofScripts scripts bindings nesting) := rfl

/-- Slots of two families are related. -/
structure UserSlots.Related (E : (α : Type) → MachineM α → MachineM α → Prop)
    (user user' : UserSlots) : Prop where
  divide : ∀ definer lhs rhs, E _ (user.divide definer lhs rhs) (user'.divide definer lhs rhs)
  coerce : ∀ definer own other, E _ (user.coerce definer own other) (user'.coerce definer own other)
  truth : ∀ definer value, E _ (user.truth definer value) (user'.truth definer value)

/-- **Slots that evaluate scripts are related** if evaluations are, and truths of what truth scripts
answer. -/
theorem Script.Compatible.related_overScripts {inner inner' : UserSlots}
    {E : (α : Type) → MachineM α → MachineM α → Prop} (h : Script.Compatible inner inner' E)
    (scripts : List SlotScripts) (bindings : List (String × Value))
    (htruth : ∀ definer script value, scriptOf scripts (·.truth) definer = some script →
      E Bool (script.eval inner ⟨some (value, value), bindings⟩ >>= truthOfOwned inner)
        (script.eval inner' ⟨some (value, value), bindings⟩ >>= truthOfOwned inner')) :
    (UserSlots.overScripts scripts bindings inner).Related E
      (UserSlots.overScripts scripts bindings inner') := by
  refine ⟨fun definer lhs rhs => ?_, fun definer own other => ?_, fun definer value => ?_⟩
  · unfold UserSlots.overScripts
    dsimp only
    split
    · exact Expr.eval_related h _ _
    · exact h.fail _
  · unfold UserSlots.overScripts
    dsimp only
    split
    · exact CoerceExpr.eval_related h _ _
    · exact h.fail _
  · unfold UserSlots.overScripts
    dsimp only
    split
    · rename_i script hscript
      exact htruth definer script value hscript
    · exact h.fail _

/-- **What evaluations of scripts keep is kept by slots that run scripts**, however deep they
nest. -/
theorem UserSlots.related_ofScripts {E : (α : Type) → MachineM α → MachineM α → Prop}
    (fail : ∀ {α : Type} (e : Failure), E α (throw e) (throw e))
    (compatible : ∀ {user : UserSlots}, user.Related E user → Script.Compatible user user E)
    (tested : ∀ {user : UserSlots}, user.Related E user →
      ∀ value, E Bool (truthOfOwned user value) (truthOfOwned user value))
    (scripts : List SlotScripts) (bindings : List (String × Value)) (nesting : Nat) :
    (ofScripts scripts bindings nesting).Related E (ofScripts scripts bindings nesting) := by
  induction nesting with
  | zero => exact ⟨fun _ _ _ => fail _, fun _ _ _ => fail _, fun _ _ => fail _⟩
  | succ nesting ih =>
    rw [ofScripts_succ]
    have evaluated := compatible ih
    exact evaluated.related_overScripts scripts bindings fun _ script value _ =>
      evaluated.bind (Expr.eval_related evaluated ⟨some (value, value), bindings⟩ script)
        (tested ih)

end FloorDivision
