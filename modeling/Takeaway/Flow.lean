import Takeaway.Message.Envelope
import Takeaway.Metrics
import Takeaway.RequestKey
import Takeaway.Stock
import Takeaway.Store.Script

/-!
Activities as data. A flow acts on the world one action at a time, gets an answer to each, and
between its actions it may wait; what it does next depends on the answers alone. Since a flow does
not say who runs it, the same flow can be run by itself or in between the steps of others.
-/

namespace Takeaway

/-- The moment by which the calls of a command have to be over. -/
structure Deadline where
  /-- The tick of the clock. -/
  tick : Nat
  /-- The time that the command was given. -/
  timeout : Span
deriving DecidableEq

/-- What a flow can ask of the world; every action is over at once. -/
inductive Action where
  /-- The time of day. -/
  | clock
  /-- The deadline of a command that begins now. -/
  | deadline (timeout : Span)
  /-- How long a call of the store has to wait. -/
  | lag (call : Store.Call)
  | nextNumber
  | fetch (n : OrderNumber)
  | search (f : OrderFilter)
  | save (o : Order)
  | onHand (item : String)
  | take (item : String) (q : Quantity)
  /-- Adds units to the stock; the answer is whether the addition is to be announced. -/
  | add (item : String) (q : Quantity)
  /-- All counts of the stock. -/
  | inventory
  /-- One attempt to send. -/
  | send (e : Envelope)
  /-- Hands a notice to those under way. -/
  | note (e : Envelope)
  | freshKey
  | count (s : Series) (n : Nat)
  /-- All counts of what happened. -/
  | metrics

/-- The answers to an action. -/
abbrev Action.Answer : Action → Type
  | clock => Timestamp
  | deadline _ => Deadline
  | lag _ => Span
  | nextNumber => Except Outage OrderNumber
  | fetch _ => Except Outage (Option Order)
  | search _ => Except Outage (List Order)
  | save _ => Except Outage Unit
  | onHand _ => Quantity
  | take _ _ => Except Fault Unit
  | add _ _ => Bool
  | inventory => Index String Quantity
  | send _ => Except MessageFailure Unit
  | note _ => Unit
  | freshKey => RequestKey
  | count _ _ => Unit
  | metrics => Metrics

/-- What a flow waits for. -/
inductive Wait where
  /-- That a span of time passes. -/
  | pause (s : Span)
  /-- Nothing that ever comes. -/
  | forever
  /-- Room for one more notice under way. -/
  | slot
deriving DecidableEq

/-- How a wait turns out. -/
inductive Wait.Outcome where
  /-- It is over at once. -/
  | now (reached : Bool)
  /-- It is over at a tick that is to come. -/
  | later (tick : Nat) (reached : Bool)
  /-- It is over when there is room. -/
  | room
  /-- It is never over. -/
  | never
deriving DecidableEq

/-- How a wait turns out that begins at the tick `now`. It ends at the limit if what it waits for
comes later; what takes no time comes in spite of a limit that has passed. -/
def Wait.outcome (now : Nat) : Wait → (limit : Option Nat) → Wait.Outcome
  | .slot, _ => .room
  | .pause s, none => if s.ticks = 0 then .now true else .later (now + s.ticks) true
  | .pause s, some limit =>
    if s.ticks = 0 then .now true
    else if now + s.ticks ≤ limit then .later (now + s.ticks) true
    else if limit ≤ now then .now false
    else .later limit false
  | .forever, none => .never
  | .forever, some limit => if limit ≤ now then .now false else .later limit false

/-- An activity that ends with a value. A wait goes on with `true` when what it waits for has
come, and with `false` when the tick it was limited to has come first. -/
inductive Flow (α : Type) where
  | done (a : α)
  | act (a : Action) (next : a.Answer → Flow α)
  | wait (w : Wait) (limit : Option Nat) (next : Bool → Flow α)

namespace Flow

variable {α β γ : Type}

/-! ### One flow after another -/

/-- A flow that goes on with another. -/
def bind (f : α → Flow β) : Flow α → Flow β
  | done a => f a
  | act a next => act a fun x => (next x).bind f
  | wait w limit next => wait w limit fun b => (next b).bind f

instance : Monad Flow where
  pure := done
  bind x f := x.bind f

@[simp] theorem pure_eq (a : α) : (pure a : Flow α) = done a := rfl

@[simp] theorem bind_eq (x : Flow α) (f : α → Flow β) : x >>= f = x.bind f := rfl

theorem bind_done (x : Flow α) : x.bind done = x := by
  induction x with
  | done a => rfl
  | act a next ih => simp [bind, ih]
  | wait w limit next ih => simp [bind, ih]

theorem bind_assoc (x : Flow α) (f : α → Flow β) (g : β → Flow γ) :
    (x.bind f).bind g = x.bind fun a => (f a).bind g := by
  induction x with
  | done a => rfl
  | act a next ih => simp [bind, ih]
  | wait w limit next ih => simp [bind, ih]

instance : LawfulMonad Flow :=
  LawfulMonad.mk' Flow (fun x => bind_done x) (fun _ _ => rfl) bind_assoc

/-! ### Single steps -/

/-- One action. -/
def ask (a : Action) : Flow a.Answer := act a done

/-- A pause. -/
def pause (s : Span) : Flow Unit := wait (.pause s) none fun _ => done ()

/-- Counts a series once. -/
def count (s : Series) : Flow Unit := ask (.count s 1)

/-! ### Flows with a limit -/

/-- The flow as far as it gets until a tick: when a wait would go on beyond it, the flow is given
up at that tick. A flow that does not wait is not given up, however late it is. -/
def before (tick : Nat) : Flow α → Flow (Option α)
  | done a => done (some a)
  | act a next => act a fun x => (next x).before tick
  | wait w none next =>
    wait w (some tick) fun reached => if reached then (next true).before tick else done none
  | wait w (some limit) next =>
    wait w (some (min limit tick)) fun reached =>
      if reached then (next true).before tick
      else if limit ≤ tick then (next false).before tick
      else done none

end Flow

end Takeaway
