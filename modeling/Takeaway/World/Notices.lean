import Takeaway.World.Basic

/-!
Notices under way. A notice takes a turn when it is handed over and after each of its pauses: it
is tried, and then it is done, given up, or goes to sleep until the next try. Turns are taken
while everything else waits, in the order in which they fall due.
-/

namespace Takeaway

namespace World

/-- One turn of a notice. If it goes to sleep, the answer says until when. -/
def turn (w : World) (e : Envelope) : (left : Nat) → World × Option (Nat × Notice)
  | 0 =>
    match w.send e with
    | (.ok (), w) => (w, none)
    | (.error _, w) => (w.count .notificationsFailed 1, none)
  | left + 1 =>
    match w.send e with
    | (.ok (), w) => (w, none)
    | (.error f, w) =>
      if f.isTransient then
        let w := w.count .sendRetries 1
        let pause := w.notices.policy.delay.ticks
        if pause = 0 then w.turn e left else (w, some (w.now + pause, ⟨e, left⟩))
      else (w.count .notificationsFailed 1, none)

/-- The turns of some notices, one after the other. -/
def turns (w : World) : List Notice → World
  | [] => w
  | n :: r =>
    match w.turn n.envelope n.left with
    | (w, none) => w.turns r
    | (w, some s) =>
      World.turns { w with notices := { w.notices with
        asleep := bedded s w.notices.asleep } } r

/-- The turns of all notices that are ready. -/
def turnReady (w : World) : World :=
  World.turns { w with notices := { w.notices with ready := [] } } w.notices.ready

/-- The turns of the first sleepers, all at the present tick. -/
def wake (w : World) (n : Nat) : World :=
  World.turns { w with notices := { w.notices with asleep := w.notices.asleep.drop n } }
    ((w.notices.asleep.take n).map (·.2))

/-- The world at a tick, if that is still to come. -/
def reach (w : World) (tick : Nat) : World := { w with now := max w.now tick }

/-- The number of sleepers that go on by a tick. -/
def dueBy (w : World) (tick : Nat) : Nat :=
  (w.notices.asleep.takeWhile fun s => decide (s.1 ≤ tick)).length

/-- Moves the clock on to the tick at which sleepers go on first, and lets these take their
turns. -/
def advance (w : World) : World :=
  match w.notices.asleep.head? with
  | none => w
  | some s => (w.reach s.1).wake (w.dueBy s.1)

/-- Moves the clock on from sleepers to sleepers for as long as there are any and the test
holds. -/
def advanceWhile (test : World → Bool) : (turns : Nat) → World → World
  | 0, w => w
  | turns + 1, w =>
    if !w.notices.asleep.isEmpty && test w then advanceWhile test turns w.advance else w

/-- Lets time pass, for as long as there are sleepers and the test holds. -/
def passWhile (w : World) (test : World → Bool) : World :=
  let w := w.turnReady
  advanceWhile test w.notices.turnsLeft w

/-- Who goes on first when a wait and sleeping notices end at the same tick. -/
inductive Rank where
  /-- The one who waits. -/
  | first
  /-- Those who have been asleep for longer. -/
  | inTurn
deriving DecidableEq

/-- The sleepers that go on at the present tick, made ready. -/
def rouse (w : World) : World :=
  let n := w.dueBy w.now
  { w with notices := { w.notices with
    ready := w.notices.ready ++ (w.notices.asleep.take n).map (·.2)
    asleep := w.notices.asleep.drop n } }

/-- Lets time pass until a tick that is to come. -/
def passUntil (w : World) (rank : Rank) (tick : Nat) : World :=
  let elder := match rank with
    | .first => 0
    | .inTurn => (w.notices.asleep.filter fun s => s.1 == tick).length
  let w := w.passWhile fun w => w.notices.asleep.head?.any fun s => decide (s.1 < tick)
  ((w.reach tick).wake elder).rouse

/-- Lets time pass until there is room for one more notice. -/
def passForRoom (w : World) : World :=
  if w.notices.hasRoom then w else w.passWhile fun w => !w.notices.hasRoom

/-- Lets time pass until no notice is under way. -/
def settle (w : World) : World := w.passWhile fun _ => true

/-- Waits, and tells whether what was waited for came before the limit. Of a wait without end nothing
is known afterwards: it is passed over as if it were given up, and what a run says holds of flows
without such waits. -/
def await (w : World) (rank : Rank) (wait : Wait) (limit : Option Nat) : Bool × World :=
  match wait.outcome w.now limit with
  | .now reached => (reached, w)
  | .later tick reached => (reached, w.passUntil rank tick)
  | .room => (true, w.passForRoom)
  | .never => (false, w)

end World

namespace Flow

variable {α : Type}

/-- Runs a flow by itself: nothing but notices goes on while it waits. It is the account of a flow that
does not wait without end; step by step such a wait is never over. -/
def run (rank : World.Rank) : Flow α → World → α × World
  | done a, w => (a, w)
  | act a next, w => (next (w.perform a).1).run rank (w.perform a).2
  | wait wt limit next, w => (next (w.await rank wt limit).1).run rank (w.await rank wt limit).2

/-- Runs flows from the same moment on, each to its end before the next; the clock is then at the end of
the longest. How the steps of several flows come in between each other it does not tell. -/
def runEach : List (Flow α) → World → List α × World
  | [], w => ([], w)
  | x :: xs, w =>
    let (a, after) := x.run .inTurn w
    let (as, last) := runEach xs { after with now := w.now }
    (a :: as, last.reach after.now)

end Flow

end Takeaway
