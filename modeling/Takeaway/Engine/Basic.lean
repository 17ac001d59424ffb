import Takeaway.Command.Router
import Takeaway.Coverage
import Takeaway.Desk
import Takeaway.Settings

/-!
The engine: what can be asked of it from outside, and how it handles the messages that tell of
what happened.
-/

namespace Takeaway

/-- An engine, by its menu and its settings. -/
structure Engine where
  menu : Menu := Menu.standard
  settings : EngineSettings := {}

namespace Engine

/-- How the engine sends. -/
def policy (e : Engine) : RetryPolicy := e.settings.retry

/-- How the engine covers orders. -/
def coverage (e : Engine) : Coverage := ⟨e.menu, e.policy⟩

/-- A system with the given engine in which nothing has happened yet. -/
def start (e : Engine) : World :=
  { notices := { limit := e.settings.noticeLimit, policy := e.policy } }

/-! ### Requests from outside -/

/-- Places an order and tells of it. An order that nobody was told of stays, for the sweep. -/
def place (e : Engine) (customer : CustomerId) (items : List Item) : Work Order := do
  let o ← Work.ofDesk (Desk.place e.menu customer items)
  Work.publish e.policy (.orderPlaced o.number (← Flow.ask .clock))
  return o

/-- Tells that a customer has come for an order, which has to be ready. -/
def collect (e : Engine) (n : OrderNumber) : Work Order := do
  let o ← Work.ofDesk (Desk.require n)
  if o.status.isOpen then throw (.refused (.wrongStatus o.status "collect"))
  Work.publish e.policy (.orderCollected n (← Flow.ask .clock))
  return o

/-- Puts units of an item in stock; the answer is what is there then. -/
def addInventory (e : Engine) (item : String) (q : Quantity) : Work Quantity := do
  if ← Work.ofRefusal (e.menu.isInstant item) then throw (.unknownItem item)
  if q.units = 0 then throw (.refused (.invalidQuantity item q))
  addUnits item q
  Flow.ask (.onHand item)

/-- Asks for a look at all open orders. -/
def requestSweep (e : Engine) : Work Unit := do
  Work.publish e.policy (.sweepRequested (← Flow.ask .clock))

/-! ### Messages -/

/-- The kinds of commands, by what they are for. -/
def coverKind : String := "fulfill-new-order"
def restockKind : String := "restock-orders"
def sweepKind : String := "sweep-missing-items"
def collectKind : String := "collect-order"
def recordKind : String := "record-status-update"
def prepareKind : String := "prepare-items"

/-- Offers arrived items to open orders, each item once; items off the menu are passed over. -/
def restockAll (c : Coverage) (d : Deadline) : List String → Work Unit
  | [] => return ()
  | item :: r => do
    match ← ExceptT.lift (c.restock d item).run with
    | .ok _ => restockAll c d r
    | .error (.unknownItem _) => restockAll c d r
    | .error f => throw f

/-- Hands an order over and tells of its new status. -/
def handOver (n : OrderNumber) (d : Deadline) : Work Unit := do
  let o ← Coverage.load d n
  let new ← Work.ofRefusal o.collect
  if new.status != o.status then
    Work.within d (Work.ofStore (saveOrder new))
    notify (.statusUpdated n new.status (← Flow.ask .clock))

/-- Covers the order that was placed. -/
def onOrderPlaced (e : Engine) : Handler where
  id := 0
  kind := coverKind
  build m := do
    let n ← m.orderNumber.mapError .ofMessage
    return .of fun d => e.coverage.coverNew d n

/-- Hands arrived items to open orders. -/
def onItemAdded (e : Engine) : Handler where
  id := 1
  kind := restockKind
  build m := do
    let lines ← (m.decode Item.linesReader).mapError .ofMessage
    return .of fun d => restockAll e.coverage d (Item.names lines)

/-- Looks at all open orders. -/
def onSweepRequested (e : Engine) : Handler where
  id := 2
  kind := sweepKind
  build _ := return .of fun d => e.coverage.sweep d

/-- Hands the order over. -/
def onOrderCollected : Handler where
  id := 3
  kind := collectKind
  build m := do
    let n ← m.orderNumber.mapError .ofMessage
    return .of fun d => handOver n d

/-- Records the new status. -/
def onStatusUpdated : Handler where
  id := 4
  kind := recordKind
  build m := do
    let s ← (m.decode Status.updateReader).mapError .ofMessage
    let _ ← m.orderNumber.mapError .ofMessage
    return .of fun _ => (Flow.count (.statusUpdates s) : Work Unit)

/-- Prepares the items that were asked for. -/
def onItemRequested (e : Engine) : Handler where
  id := 5
  kind := prepareKind
  build m := do
    let _ ← m.orderNumber.mapError .ofMessage
    let lines ← (m.decode Item.linesReader).mapError .ofMessage
    return .of fun _ => Kitchen.prepare e.menu e.settings.timeScale lines

/-- The handlers of the engine. -/
def router (e : Engine) : Router :=
  let r : Router := { timeout := e.settings.timeout }
  let r := r.register [.orderPlaced] e.onOrderPlaced
  let r := r.register [.itemAdded] e.onItemAdded
  let r := r.register [.sweepRequested] e.onSweepRequested
  let r := r.register [.orderCollected] onOrderCollected
  let r := r.register [.statusUpdated] onStatusUpdated
  if e.settings.kitchen then r.register [.itemRequested] e.onItemRequested else r

/-- Handles one message to its end. -/
def handle (e : Engine) (m : Envelope) (w : World) : List CommandResult × World :=
  e.router.route m w

end Engine

end Takeaway
