import Takeaway.Kitchen

/-!
Covering orders: what an order misses is handed out when the item is instant, taken from stock as
far as that goes, and asked of the kitchen for the rest. New orders, arrivals of an item and the
sweep over all open orders are three uses of the same pass over one order.
-/

namespace Takeaway

/-- How a need is met: by units that were taken, and by units to be asked of the kitchen. -/
structure Allocation where
  taken : Quantity
  shortfall : Quantity
deriving DecidableEq

/-- What a pass did for one order. -/
structure Outcome where
  order : OrderNumber
  packed : List Item
  requests : List Item
  status : Status
  changed : Bool
deriving DecidableEq

/-- What covering orders takes: a menu and a way to send. -/
structure Coverage where
  menu : Menu
  policy : RetryPolicy
deriving DecidableEq

namespace Coverage

/-! ### One item -/

/-- Takes as many units of an item as there are and are needed. When somebody else was faster,
the count is read again, `tries` times at most. -/
def allocate (item : String) (needed : Quantity) : (tries : Nat) → Work Allocation
  | 0 => return ⟨Quantity.zero, needed⟩
  | tries + 1 => do
    let q := (← Flow.ask (.onHand item)).least needed
    if q.units = 0 then return ⟨Quantity.zero, needed⟩
    else
      match ← ExceptT.lift (Flow.ask (.take item q)) with
      | .ok () => return ⟨q, needed.less q⟩
      | .error (.insufficient _ _ _) => allocate item needed tries
      | .error f => throw f

/-- How often a count is read before the kitchen is asked for everything. -/
def tries : Nat := 8

/-- How the need for an item is met. -/
def supply (c : Coverage) (item : String) (needed : Quantity) : Work Allocation := do
  if ← Work.ofRefusal (c.menu.isInstant item) then return ⟨needed, Quantity.zero⟩
  else allocate item needed tries

/-! ### One order -/

/-- A line, unless it is for no units. -/
def line (item : String) (q : Quantity) : List Item := if q.units = 0 then [] else [⟨item, q⟩]

/-- Packs what an order misses of the given items; what was packed and what is to be asked of the
kitchen is in the order of the items. -/
def fill (c : Coverage) : List String → Order → Work (Order × List Item × List Item)
  | [], o => return (o, [], [])
  | item :: r, o => do
    let missing ← Work.ofRefusal (o.missing? item)
    if missing ≤ 0 then c.fill r o
    else
      let a ← c.supply item (Quantity.capped missing.toNat)
      let o := if a.taken.units = 0 then o else o.pack item a.taken
      let (o, packed, requests) ← c.fill r o
      return (o, line item a.taken ++ packed, line item a.shortfall ++ requests)

/-- Sends requests to the kitchen, until one fails. -/
def requestAll (c : Coverage) (d : Deadline) (n : OrderNumber) : List Item → Work Unit
  | [] => return ()
  | i :: r => do
    let _ ← Work.within d (Kitchen.request c.policy n i)
    c.requestAll d n r

/-- One pass over an order for the given items: it is packed, written back if that changed it,
the new status is announced, and the kitchen is asked for the rest. -/
def cover (c : Coverage) (d : Deadline) (o : Order) (items : List String) : Work Outcome := do
  let (new, packed, requests) ← c.fill items o
  if !packed.isEmpty then Work.within d (Work.ofStore (saveOrder new))
  let changed := new.status != o.status
  if changed then notify (.statusUpdated o.number new.status (← Flow.ask .clock))
  c.requestAll d o.number requests
  return ⟨o.number, packed, requests, new.status, changed⟩

/-- The order with the given number. -/
def load (d : Deadline) (n : OrderNumber) : Work Order := do
  match ← Work.within d (Work.ofStore (fetchOrder n)) with
  | some o => return o
  | none => throw (.refused (.unknownOrder n))

/-! ### The three uses -/

/-- Covers a new order. -/
def coverNew (c : Coverage) (d : Deadline) (n : OrderNumber) : Work Outcome := do
  let o ← load d n
  if o.status.isOpen then c.cover d o o.names
  else return ⟨o.number, [], [], o.status, false⟩

/-- Hands units of an item to the given orders, one after the other, until there are none. -/
def handOut (c : Coverage) (d : Deadline) (item : String) : List Order → Work (List Outcome)
  | [] => return []
  | candidate :: r => do
    if (← Flow.ask (.onHand item)).units = 0 then return []
    else
      let o ← load d candidate.number
      let missing ← if o.status.isOpen then Work.ofRefusal (o.missing? item) else pure 0
      if missing ≤ 0 then c.handOut d item r
      else
        let outcome ← c.cover d o [item]
        return outcome :: (← c.handOut d item r)

/-- Hands units of an item that arrived to the open orders, the lowest number first. -/
def restock (c : Coverage) (d : Deadline) (item : String) : Work (List Outcome) := do
  if ← Work.ofRefusal (c.menu.isInstant item) then return []
  else
    let candidates ← Work.within d
      (Work.ofStore (searchOrders (OrderFilter.waiting.requesting item)))
    c.handOut d item candidates

/-- Covers each of the given orders, also after failures; with the outcomes comes the last
failure. -/
def coverEach (c : Coverage) (d : Deadline) : List Order → Flow (List Outcome × Option Fault)
  | [] => return ([], none)
  | o :: r => do
    let items := o.missingItems.map (·.name)
    if items.isEmpty then c.coverEach d r
    else
      match ← (c.cover d o items).run with
      | .ok outcome =>
        let (outcomes, fault) ← c.coverEach d r
        return (outcome :: outcomes, fault)
      | .error f =>
        let (outcomes, fault) ← c.coverEach d r
        return (outcomes, fault.or (some f))

/-- Covers all open orders again. -/
def sweep (c : Coverage) (d : Deadline) : Work (List Outcome) := do
  let orders ← Work.within d (Work.ofStore (searchOrders .waiting))
  match ← c.coverEach d orders with
  | (outcomes, none) => return outcomes
  | (_, some f) => throw f

end Coverage

end Takeaway
