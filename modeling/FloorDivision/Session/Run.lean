import FloorDivision.Json.Config
import FloorDivision.Script.Eval
import FloorDivision.Session.Step
import FloorDivision.Text.Quoted

/-!
# Sessions

A session runs steps one after the other on one machine, with values that stay named from step to
step.

* `Session.perform` — one step.
* `Session.run` — all steps, with their answers.
-/

namespace FloorDivision

structure Session where
  machine : Machine
  /-- Values by their names. -/
  bindings : List (String × Value) := []
  /-- What the slots of user types do. -/
  scripts : List SlotScripts := []

namespace Machine

/-- A value as it is shown. -/
def view (machine : Machine) (value : Value) : ValueView where
  object := machine.toObject value
  repr := machine.repr value
  typeName := (machine.typeOf value).name
  references := machine.references? value

end Machine

namespace ObjectType

/-- A text that names what a type consists of. -/
def description (type : ObjectType) : String :=
  let base := match type.base? with
    | some base => "Some(" ++ Text.quote base.name ++ ")"
    | none => "None"
  "TypeObject \x7b name: " ++ Text.quote type.name ++ ", base: " ++ base ++
    s!", new_style_number: {!type.isClassic}" ++
    s!", floor_divide: {type.slots.divide.isSome}" ++
    s!", coerce: {type.slots.coerce.isSome}, truth: {type.slots.truth.isSome} \x7d"

def view (machine : Machine) (type : ObjectType) : TypeView where
  name := type.name
  baseName := type.base?.map (·.name)
  ancestorNames := type.ancestors.map (·.name)
  isNewStyle := !type.isClassic
  isNewStyleHere := type.isNewStyle machine.level
  hasSlots := [type.slots.divide.isSome, type.slots.coerce.isSome, type.slots.truth.isSome]
  description := type.description

/-- Whether both have a slot and it is the same one. -/
def shares [DecidableEq α] (x y : Option α) : Bool := x.isSome && x == y

def compare (left right : ObjectType) : TypeComparison where
  leftIsSubtype := left.isSubtypeOf right
  rightIsSubtype := right.isSubtypeOf left
  sameDivide := shares left.slots.divide right.slots.divide
  sameCoerce := shares left.slots.coerce right.slots.coerce
  sameTruth := shares left.slots.truth right.slots.truth

end ObjectType

namespace Session

open MachineM

/--
How many slot calls a session lets nest.  Divisions nest to the limit at most; beyond them only the
truth of instances whose truth is an instance again nests slot calls.
-/
def nesting (session : Session) : Nat := session.machine.heap.budget.maxDepth.toNat + 65536

/-- What the slots of user types do while a step runs. -/
def slots (session : Session) : UserSlots :=
  .ofScripts session.scripts session.bindings session.nesting

def eval (session : Session) (expr : Expr) : MachineM Value :=
  expr.eval session.slots { bindings := session.bindings }

/-- Gives a name to a value; what had the name before is given back after. -/
def bind (session : Session) (name : String) (value : Value) : Session :=
  let machine := match session.bindings.lookup name with
    | some old => session.machine.releaseValue old
    | none => session.machine
  let others := session.bindings.filter (·.1 != name)
  { session with machine, bindings := (name, value) :: others }

/-- Takes a name away and gives its value back. -/
def unbind (session : Session) (name : String) : Session :=
  let machine := match session.bindings.lookup name with
    | some old => session.machine.releaseValue old
    | none => session.machine
  { session with machine, bindings := session.bindings.filter (·.1 != name) }

/-- Runs an action on the machine. -/
def act (session : Session) (action : MachineM α) : Except Failure α × Session :=
  let (result, machine) := action session.machine
  (result, { session with machine })

/-- Runs an action that answers. -/
def reply (session : Session) (action : MachineM Reply) : Reply × Session :=
  match session.act action with
  | (.ok reply, session) => (reply, session)
  | (.error failure, session) => (.failure failure, session)

/-- Runs an action that answers and yields a value to be named. -/
def replyInto (session : Session) (name : String) (action : MachineM (Reply × Value)) :
    Reply × Session :=
  match session.act action with
  | (.ok (reply, value), session) => (reply, session.bind name value)
  | (.error failure, session) => (.failure failure, session)

/-- Answers about a value that is then given back. -/
def replyAbout (session : Session) (expr : Expr) (look : Machine → Value → Reply) :
    Reply × Session :=
  session.reply do inspect (← session.eval expr) look

/-- A value as it is shown. -/
def viewed (machine : Machine) (value : Value) : Reply := .value (machine.view value)

/-- Does something with two operands that are evaluated for it and given back after. -/
def onOperands (session : Session) (left right : Expr) (operate : Value → Value → MachineM α) :
    MachineM α :=
  withOperands (session.eval left) (session.eval right) operate

/-- Divides two operands; a quotient without a name is given back before them. -/
def divide (session : Session) (entry : EntryPoint) (form : DivisionForm) (left right : Expr) :
    Reply × Session :=
  match form with
  | .quotient none =>
    session.reply <| session.onOperands left right fun lhs rhs => do
      inspect (← FloorDivision.divide session.slots entry lhs rhs) viewed
  | .quotient (some name) =>
    session.replyInto name <| session.onOperands left right fun lhs rhs => do
      let value ← FloorDivision.divide session.slots entry lhs rhs
      return (viewed (← get) value, value)
  | .truth =>
    session.reply <| session.onOperands left right fun lhs rhs => do
      return .bool (← divideToTruth session.slots entry lhs rhs)
  | .pendingTruth =>
    session.reply <| session.onOperands left right fun lhs rhs => do
      return .pendingTruth (← divideToPending session.slots entry lhs rhs)

/-- The failure that the machine keeps. -/
def pendingReply : Option Failure → Reply
  | some failure => .failure failure
  | none => .nothing

/-- Evaluates an expression for its failure, which the machine then keeps. -/
def setPending (session : Session) (expr : Expr) : Reply × Session :=
  match session.act (do release (← session.eval expr)) with
  | (.ok (), session) => (.nothing, session)
  | (.error failure, session) =>
    (.failure failure, { session with machine.pending := some failure })

/-- Forgets the recorded events, and tells whether any could be recorded. -/
def clearEvents (session : Session) : Reply × Session :=
  match session.machine.tracer with
  | .recording kept => (.bool true, { session with machine.tracer := .recording kept.clear })
  | _ => (.bool false, session)

def perform (session : Session) : Step → Reply × Session
  | .set name expr =>
    session.replyInto name do
      let value ← session.eval expr
      return (viewed (← get) value, value)
  | .drop name => (.nothing, session.unbind name)
  | .divide entry form left right => session.divide entry form left right
  | .view expr => session.replyAbout expr viewed
  | .isTrue expr =>
    session.reply do return .bool (← truthOfOwned session.slots (← session.eval expr))
  | .isExact expr =>
    session.replyAbout expr fun machine value => .bools (NumberKind.all.map (machine.isExact value))
  | .heapId expr =>
    session.replyAbout expr fun _ value => (value.ref?.map Reply.number).getD .nothing
  | .isNotImplemented expr => session.replyAbout expr fun _ value => .bool value.isNotImplemented
  | .pending => (pendingReply session.machine.pending, session)
  | .takePending =>
    let (pending, machine) := FloorDivision.takePending session.machine
    (pendingReply pending, { session with machine })
  | .setPending expr => session.setPending expr
  | .level => (.text session.machine.level.name, session)
  | .config => (.text session.machine.config.toJson, session)
  | .kindType kind =>
    let name := (ObjectType.number? session.machine.level kind).map (·.name)
    ((name.map Reply.text).getD .nothing, session)
  | .describeType type => (.type (type.view session.machine), session)
  | .compareTypes left right => (.comparison (left.compare right), session)
  | .setTracer tracer =>
    (.previousEvents session.machine.tracer.events?, { session with machine.tracer := tracer })
  | .events => ((session.machine.tracer.events?.map Reply.events).getD .nothing, session)
  | .clearEvents => session.clearEvents
  | .report => ((session.machine.tracer.profile?.map Reply.report).getD .nothing, session)

/-- One step, with what it showed and what it left. -/
def answer (session : Session) (step : Step) : Answer × Session :=
  let (reply, session) := session.perform step
  let (printed, tracer) := session.machine.tracer.takeText
  let calls := session.machine.journal.toList
  ({ reply, calls, heap := session.machine.heap.view, printed },
    { session with machine.tracer := tracer, machine.journal := #[] })

/-- All steps in turn. -/
def run (session : Session) : List Step → List Answer
  | [] => []
  | step :: rest =>
    let (answer, session) := session.answer step
    answer :: session.run rest

end Session

end FloorDivision
