/-!
A pool of a limited number of places for jobs that each take some time. Who brings a job waits
until there is a place for it.
-/

namespace Takeaway

/-- A job that was begun. -/
structure Pool.Job where
  start : Nat
  finish : Nat
deriving DecidableEq

/-- A pool: the clock, and the jobs that hold a place. -/
structure Pool where
  /-- The number of places; none counts as one. -/
  limit : Nat
  now : Nat := 0
  running : List Pool.Job := []
deriving DecidableEq

namespace Pool

/-- The tick at which a place becomes free. -/
def firstFree (p : Pool) : Nat :=
  match p.running with
  | [] => p.now
  | j :: r => max p.now (r.foldl (fun n k => min n k.finish) j.finish)

/-- The pool at a tick: the jobs that are over by then have left their places. -/
def advanced (p : Pool) (tick : Nat) : Pool :=
  { p with now := tick, running := p.running.filter fun j => decide (tick < j.finish) }

/-- Brings a job that takes some time. -/
def bring (p : Pool) (duration : Nat) : Job × Pool :=
  let p := if p.running.length < max p.limit 1 then p else p.advanced p.firstFree
  let j : Job := ⟨p.now, p.now + duration⟩
  (j, { p with running := p.running ++ [j] })

/-- The tick at which all jobs are over. -/
def allFree (p : Pool) : Nat := p.running.foldl (fun n j => max n j.finish) p.now

end Pool

end Takeaway
