import Takeaway.Engine.Basic

/-!
A session with an engine whose messages do not come back by themselves: what is sent is queued,
and handled when it is delivered, one message at a time. Since a message may also be dropped, come
late or come twice, a session shows what the engine makes of an unreliable transport.
-/

namespace Takeaway

/-- A session. -/
structure Session where
  world : World
  /-- The messages in flight. -/
  queue : List Envelope := []
  /-- All messages that were ever in flight. -/
  history : List Envelope := []
deriving DecidableEq

/-- What became of a message that was taken off the queue. -/
structure Handled where
  message : Envelope
  results : List CommandResult
deriving DecidableEq

namespace Session

/-- A session in which nothing has happened yet. -/
def start (e : Engine) : Session := ⟨e.start, [], []⟩

/-- Runs a flow by itself. -/
def run {α : Type} (s : Session) (x : Flow α) : α × Session :=
  let (a, w) := x.run .first s.world
  (a, { s with world := w })

/-- Handles a message. -/
def handle (e : Engine) (s : Session) (m : Envelope) : List CommandResult × Session :=
  let (rs, w) := e.handle m s.world
  (rs, { s with world := w })

/-- The text by which messages that were sent together are put in order. -/
def tagOf (m : Envelope) : String := (m.header? Envelope.eventHeader).getD ""

/-- Waits for the notices under way and puts what was sent since the last time in flight, ordered
by tag; messages of one tag stay in the order of sending. -/
def collect (s : Session) : List Envelope × Session :=
  let w := s.world.settle
  let new := (w.broker.history.drop s.history.length).map (·.envelope)
  let new := new.mergeSort fun a b => decide (¬ tagOf b < tagOf a)
  (new, ⟨w, s.queue ++ new, s.history ++ new⟩)

/-- Delivers one of the messages in flight. -/
def deliver (e : Engine) (s : Session) (i : Nat) : Option (List CommandResult) × Session :=
  match s.queue[i]? with
  | none => (none, s)
  | some m =>
    let (rs, s) := { s with queue := s.queue.eraseIdx i }.handle e m
    (some rs, s)

/-- Delivers a message that was in flight once more. -/
def redeliver (e : Engine) (s : Session) (i : Nat) : Option (List CommandResult) × Session :=
  match s.history[i]? with
  | none => (none, s)
  | some m =>
    let (rs, s) := s.handle e m
    (some rs, s)

/-- Loses all messages in flight. -/
def drop (s : Session) : Nat × Session := (s.queue.length, { s with queue := [] })

/-- Delivers the messages in flight, the first one first, with those that are sent meanwhile,
`most` of them at most. -/
def pump (e : Engine) : (most : Nat) → Session → List Handled × Session
  | 0, s => ([], s)
  | most + 1, s =>
    match s.queue with
    | [] => ([], s)
    | m :: queue =>
      let (rs, s) := { s with queue := queue }.handle e m
      let (_, s) := s.collect
      let (hs, s) := pump e most s
      (⟨m, rs⟩ :: hs, s)

end Session

end Takeaway
