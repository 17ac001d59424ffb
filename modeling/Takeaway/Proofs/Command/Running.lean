import Takeaway.Proofs.Command.Foresight
import Takeaway.Proofs.Command.Returning

/-!
A run of a handler by itself, as one of the ways that a message can take. Main statement: where the
handler of a message does not wait without end, all that one run of it does is a row of single steps of
its task and of the notices under way, at the end of which its result is collected.
-/

namespace Takeaway

open Fanout (sole)
open Relation (ReflTransGen)
open World (Elapses InOrder)

variable {w w' : World} {d : Dispatch} {h : Handler} {st : Stage} {x : Flow Ending}
  {f f' : Fanout}

/-! ### Sleepers in order -/

namespace World

/-- No action puts a notice to sleep. -/
theorem perform_asleep (w : World) (a : Action) :
    (w.perform a).2.notices.asleep = w.notices.asleep := by
  cases hnote : a.isNote with
  | false => rw [perform_notices hnote]
  | true =>
    cases a with
    | note e => rfl
    | _ => cases hnote

theorem InOrder.perform (horder : w.InOrder) (a : Action) : (w.perform a).2.InOrder := by
  unfold InOrder
  rwa [perform_asleep]

theorem InOrder.await (horder : w.InOrder) (rank : Rank) (wt : Wait) (limit : Option Nat) :
    (w.await rank wt limit).2.InOrder := by
  unfold World.await
  split
  · exact horder
  · exact (elapses_passUntil horder rank _).2
  · exact (elapses_passForRoom horder).2
  · exact horder

theorem InOrder.run {α : Type} (horder : w.InOrder) (rank : Rank) (x : Flow α) :
    (x.run rank w).2.InOrder := by
  induction x generalizing w with
  | done a => exact horder
  | act a next ih => exact ih _ (horder.perform a)
  | wait wt limit next ih => exact ih _ (horder.await rank wt limit)

end World

/-! ### Single steps -/

namespace Dispatch

/-- The clock does not go back. -/
theorem now_le_of_reaches (hreaches : d.Reaches f f') : f.world.now ≤ f'.world.now := by
  induction hreaches with
  | refl => exact Nat.le_refl _
  | tail _ hstep ih =>
    refine Nat.le_trans ih ?_
    cases hstep with
    | goes htasks hstep => exact (step_now hstep).ge
    | hands htasks hroom => exact Nat.le_refl _
    | takes hchannel => exact Nat.le_refl _
    | stirs hstirs => exact hstirs.now.ge
    | passes hquiet hlater htimers => exact Nat.le_max_left _ _

/-- What happens while the only task waits. -/
theorem reaches_of_elapses {P : World → Prop} {timer : Option Nat}
    (h' : ReflTransGen (Elapses P timer) w w') (hover : st.isOver = false)
    (hanswering : st.isAnswering = false) (htimer : st.timer? = timer)
    (hwaits : ∀ v tick, P v → v.now < tick → (∀ t ∈ timer, tick ≤ t) → d.step h v st = none) :
    d.Reaches (sole h st w) (sole h st w') := by
  refine h'.lift (sole h st) fun v v' hv => ?_
  cases hv with
  | stirs hstirs => exact .stirs hstirs
  | ticks hP hready hlater hasleep hlimit =>
    exact sole_passes hover hanswering (hwaits v _ hP hlater hlimit) hready hlater
      (htimer ▸ hlimit) hasleep

/-- Who sleeps until a tick goes on at that tick. -/
theorem reaches_passUntil (d : Dispatch) (h : Handler) (x : Flow Ending) {tick : Nat}
    (horder : w.InOrder) (hlater : w.now ≤ tick) (rank : World.Rank) :
    d.Reaches (sole h (.asleep tick x) w) (sole h (.running x) (w.passUntil rank tick)) := by
  refine (reaches_of_elapses (World.elapses_passUntil horder rank tick).1 rfl rfl rfl
    fun v t _ hv ht => ?_).tail (sole_goes ?_)
  · exact if_neg (Nat.not_le_of_lt (hv.trans_le (ht tick rfl)))
  · exact if_pos (World.passUntil_now rank hlater).ge

/-- Who waits for room goes on when there is some. -/
theorem reaches_passForRoom (d : Dispatch) (h : Handler) (limit : Option Nat)
    (next : Bool → Flow Ending) (horder : w.InOrder) :
    d.Reaches (sole h (.running (.wait .slot limit next)) w)
      (sole h (.running (next true)) w.passForRoom) := by
  refine (reaches_of_elapses (World.elapses_passForRoom horder).1 rfl rfl rfl
    fun v t hv _ _ => ?_).tail (sole_goes ?_)
  · exact if_neg (Bool.eq_false_iff.1 hv)
  · exact if_pos w.hasRoom_passForRoom

/-- **A command comes to its end step by step**, as in one run of it. -/
theorem reaches_run (d : Dispatch) (h : Handler) (hx : x.Ceases) (horder : w.InOrder) :
    d.Reaches (sole h (.running x) w)
      (sole h (.ended (x.run .inTurn w).1) (x.run .inTurn w).2) := by
  induction x generalizing w with
  | done e => exact .single (sole_goes rfl)
  | act a next ih => exact (ih (w.perform a).1 (hx _) (horder.perform a)).head (sole_goes rfl)
  | wait wt limit next ih =>
    obtain ⟨hends, hnext⟩ := hx
    rw [Flow.run_wait]
    cases ho : wt.outcome w.now limit with
    | now reached =>
      rw [World.await_of_now .inTurn ho]
      refine (ih reached (hnext _) horder).head (sole_goes ?_)
      simp only [step, Stage.goOn, ho]
    | later tick reached =>
      rw [World.await_of_later .inTurn ho]
      have hsleeps : d.Steps (sole h (.running (.wait wt limit next)) w)
          (sole h (.asleep tick (next reached)) w) :=
        sole_goes (by simp only [step, Stage.goOn, ho])
      have horder' := (World.elapses_passUntil horder .inTurn tick).2
      exact ((d.reaches_passUntil h (next reached) horder (World.lt_of_later ho).le .inTurn).trans
        (ih reached (hnext _) horder')).head hsleeps
    | room =>
      obtain rfl := World.eq_slot_of_room ho
      have hawait : w.await .inTurn .slot limit = (true, w.passForRoom) := rfl
      rw [hawait]
      exact (d.reaches_passForRoom h limit next horder).trans
        (ih true (hnext _) (World.elapses_passForRoom horder).2)
    | never => exact absurd (hends.symm.trans (Wait.outcome_eq_never.1 ho)) Bool.false_ne_true

end Dispatch

/-- **A handler that is the only one comes to its result step by step**, as in one run of it, and leaves
the same world behind. -/
theorem Router.reaches_handle {r : Router} {m : Envelope} {horizon : Nat} {a : CommandResult}
    (hrun : (r.handle h m).run .inTurn w = (a, w')) (hceases : h.Ceases m) (horder : w.InOrder)
    (hdeadline : (w.deadline r.timeout).tick ≤ horizon) :
    Dispatch.Reaches ⟨m, r.timeout, horizon⟩ (sole h .fresh w) (sole h (.gone (some a)) w') := by
  let d : Dispatch := ⟨m, r.timeout, horizon⟩
  cases hb : h.build m with
  | error f =>
    rw [run_handle_of_error r hb] at hrun
    cases hrun
    refine (d.sole_hands h _ _).head (Dispatch.sole_goes ?_)
    simp only [Dispatch.step, hb]
  | ok c =>
    rw [run_handle_of_ok r hb rfl] at hrun
    cases hrun
    have hbegins : d.Steps (sole h .fresh w) (sole h (.running (c.run (w.deadline r.timeout))) w) :=
      Dispatch.sole_goes (by simp only [d, Dispatch.step, hb, if_pos hdeadline])
    have hends := d.reaches_run h (hceases c hb (w.deadline r.timeout)) horder
    exact ((hends.tail (Dispatch.sole_goes rfl)).trans (d.sole_hands h _ _)).head hbegins

end Takeaway
