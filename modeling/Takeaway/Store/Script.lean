import Takeaway.Store.Basic

/-!
A store with a script of disturbances: calls that are slow or fail, and a search that looks at an
old state. It tells how the parts around the store behave when the store does not.
-/

namespace Takeaway

/-- The calls of a store. -/
inductive Store.Call where
  | next
  | get
  | find
  | upsert
deriving DecidableEq

/-- The name of a call. -/
def Store.Call.name : Call → String
  | .next => "next"
  | .get => "get"
  | .find => "find"
  | .upsert => "upsert"

/-- What is done to one call. -/
structure Disturbance where
  lag : Span := Span.zero
  /-- The call fails for every order. -/
  failsAlways : Bool := false
  /-- The orders for which the call fails. -/
  failsFor : List OrderNumber := []
deriving DecidableEq

/-- A store and what is done to its calls. -/
structure ScriptedStore where
  store : Store := {}
  script : List (Store.Call × Disturbance) := []
  /-- The orders that a search looks at, when it does not look at those stored. -/
  frozen : Option (List Order) := none
deriving DecidableEq

namespace ScriptedStore

/-- What is done to a call. -/
def disturbance (s : ScriptedStore) (c : Store.Call) : Disturbance := (s.script.lookup c).getD {}

/-- How long a call waits before it does anything. -/
def lag (s : ScriptedStore) (c : Store.Call) : Span := (s.disturbance c).lag

/-- Whether the script lets a call fail. -/
def check (s : ScriptedStore) (c : Store.Call) (about : Option OrderNumber) :
    Except Outage Unit :=
  let d := s.disturbance c
  if d.failsAlways || about.any d.failsFor.contains then .error ⟨c.name ++ " failed"⟩ else .ok ()

/-- Hands out the next order number. -/
def nextNumber (s : ScriptedStore) : Except Outage (OrderNumber × ScriptedStore) := do
  s.check .next none
  let (n, store) ← s.store.nextNumber
  return (n, { s with store := store })

/-- The order with the given number. -/
def get? (s : ScriptedStore) (n : OrderNumber) : Except Outage (Option Order) := do
  s.check .get (some n)
  s.store.get? n

/-- The orders that pass. -/
def find (s : ScriptedStore) (f : OrderFilter) : Except Outage (List Order) := do
  s.check .find none
  let found ← s.store.find f
  match s.frozen with
  | some orders => return orders.filter f.accepts
  | none => return found

/-- Writes an order. -/
def upsert (s : ScriptedStore) (o : Order) (time : Timestamp) :
    Except Outage ScriptedStore := do
  s.check .upsert (some o.number)
  return { s with store := ← s.store.upsert o time }

/-- Lets searches look at the orders as they are now, until further notice, or at those stored. -/
def freeze (s : ScriptedStore) (frozen : Bool) : ScriptedStore :=
  { s with frozen := if frozen then some s.store.orders.values else none }

end ScriptedStore

end Takeaway
