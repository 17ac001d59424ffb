import Mathlib.Logic.Hydra
import Takeaway.Proofs.Command.Fanout
import Takeaway.Proofs.World.Room

/-!
All results are collected in the end. Main statement: where no command waits without end, whatever
the tasks, the notices under way and the one who collects do first, they come to where nobody is left
to hand over another result.
-/

namespace Takeaway

open Relation (CutExpand)

variable {w w' : World} {d : Dispatch} {h : Handler} {st st' : Stage} {f f' : Fanout}

/-! ### Commands that do not wait without end -/

/-- Whatever command a handler makes of a message does not wait without end. -/
def Handler.Ceases (h : Handler) (m : Envelope) : Prop :=
  ∀ c, h.build m = .ok c → ∀ d, (c.run d).Ceases

/-- What is left to do of a task does not wait without end. -/
def Stage.Ceases : Stage → Prop
  | running x | asleep _ x => x.Ceases
  | _ => True

namespace Dispatch

theorem ceases_of_step (hh : h.Ceases d.message) (hst : st.Ceases)
    (hstep : d.step h w st = some (st', w')) : st'.Ceases := by
  rcases step_cases hstep with ⟨f, rfl, -, rfl, -⟩ | ⟨c, rfl, hc, -, rfl⟩ | ⟨x, rfl, hx⟩ |
    ⟨tick, x, rfl, -, rfl, -⟩ | ⟨e, rfl, rfl, -⟩
  · trivial
  · split
    · exact hh c hc _
    · trivial
  · rcases Stage.goOn_cases hx with ⟨e, rfl, rfl, -⟩ | ⟨a, next, rfl, rfl, -⟩ |
      ⟨wt, limit, next, rfl, -, ⟨reached, -, rfl⟩ | ⟨tick, reached, -, rfl⟩ | ⟨-, -, rfl⟩⟩
    · trivial
    · exact hst _
    · exact hst.2 _
    · exact hst.2 _
    · exact hst.2 _
  · exact hst
  · trivial

theorem lt_of_asleep {tick : Nat} {x : Flow Ending} (hwaits : d.step h w (.asleep tick x) = none) :
    w.now < tick := by
  simp only [step] at hwaits
  split at hwaits
  · cases hwaits
  · next htick => exact Nat.lt_of_not_le htick

/-- Who waits and is not over waits for room, or sleeps. -/
theorem waits_cases (hst : st.Ceases) (hwaits : d.step h w st = none)
    (hanswering : st.isAnswering = false) (hover : st.isOver = false) :
    w.notices.hasRoom = false ∨ ∃ tick x, st = .asleep tick x := by
  cases st with
  | fresh =>
    simp only [step] at hwaits
    split at hwaits <;> cases hwaits
  | running x =>
    cases x with
    | done e => cases hwaits
    | act a next => cases hwaits
    | wait wt limit next =>
      cases ho : wt.outcome w.now limit <;> simp only [step, Stage.goOn, ho] at hwaits
      case now => cases hwaits
      case later => cases hwaits
      case room =>
        split at hwaits
        · cases hwaits
        · next hroom => exact .inl (Bool.eq_false_iff.2 hroom)
      case never => exact absurd (hst.1.symm.trans (Wait.outcome_eq_never.1 ho)) Bool.false_ne_true
  | asleep tick x => exact .inr ⟨tick, x, rfl⟩
  | ended e => cases hwaits
  | answering r => cases hanswering
  | gone r => cases hover

/-! ### Nearer to the end -/

/-- The task of a handler gets from the one stage to the other in one step. -/
inductive Later (d : Dispatch) : Handler × Stage → Handler × Stage → Prop where
  | goes {h : Handler} {st st' : Stage} {w w' : World} (hstep : d.step h w st = some (st', w')) :
      d.Later (h, st') (h, st)
  | hands {h : Handler} {r : CommandResult} : d.Later (h, .gone (some r)) (h, .answering r)

/-- A task gets to its end if it does so after every step. -/
theorem acc_of_step (hanswering : st.isAnswering = false)
    (hall : ∀ w st' w', d.step h w st = some (st', w') → Acc d.Later (h, st')) :
    Acc d.Later (h, st) := by
  refine ⟨_, fun _ hlater => ?_⟩
  cases hlater with
  | goes hstep => exact hall _ _ _ hstep
  | hands => cases hanswering

theorem acc_gone (d : Dispatch) (h : Handler) (r : Option CommandResult) :
    Acc d.Later (h, .gone r) := acc_of_step rfl fun _ _ _ hstep => nomatch hstep

theorem acc_answering (d : Dispatch) (h : Handler) (r : CommandResult) :
    Acc d.Later (h, .answering r) := by
  refine ⟨_, fun _ hlater => ?_⟩
  cases hlater with
  | goes hstep => cases hstep
  | hands => exact d.acc_gone h _

theorem acc_ended (d : Dispatch) (h : Handler) (e : Ending) : Acc d.Later (h, .ended e) := by
  refine acc_of_step rfl fun w st' w' hstep => ?_
  cases hstep
  exact d.acc_answering h _

theorem acc_asleep {x : Flow Ending} (hx : Acc d.Later (h, .running x)) (tick : Nat) :
    Acc d.Later (h, .asleep tick x) := by
  refine acc_of_step rfl fun w st' w' hstep => ?_
  simp only [step] at hstep
  split at hstep
  · cases hstep
    exact hx
  · cases hstep

/-- A command gets to its end, by induction on what is left to do of it. -/
theorem acc_running (d : Dispatch) (h : Handler) (x : Flow Ending) :
    Acc d.Later (h, .running x) := by
  induction x with
  | done e =>
    refine acc_of_step rfl fun w st' w' hstep => ?_
    cases hstep
    exact d.acc_ended h e
  | act a next ih =>
    refine acc_of_step rfl fun w st' w' hstep => ?_
    cases hstep
    exact ih _
  | wait wt limit next ih =>
    refine acc_of_step rfl fun w st' w' hstep => ?_
    change Stage.goOn w (.wait wt limit next) = _ at hstep
    rcases Stage.goOn_cases hstep with ⟨e, heq, -⟩ | ⟨a, next, heq, -⟩ |
      ⟨_, _, _, heq, -, ⟨reached, -, rfl⟩ | ⟨tick, reached, -, rfl⟩ | ⟨-, -, rfl⟩⟩ <;> cases heq
    · exact ih reached
    · exact acc_asleep (ih reached) tick
    · exact ih true

/-- **Every task gets to its end after some steps.** -/
theorem wellFounded_later (d : Dispatch) : WellFounded d.Later := by
  refine ⟨fun ⟨h, st⟩ => ?_⟩
  cases st with
  | fresh =>
    refine acc_of_step rfl fun w st' w' hstep => ?_
    simp only [step] at hstep
    split at hstep <;> cases hstep
    · exact d.acc_answering h _
    · split
      · exact d.acc_running h _
      · exact d.acc_gone h none
  | running x => exact d.acc_running h x
  | asleep tick x => exact acc_asleep (d.acc_running h x) tick
  | ended e => exact d.acc_ended h e
  | answering r => exact d.acc_answering h r
  | gone r => exact d.acc_gone h r

end Dispatch

/-! ### Turns and ticks that are left -/

/-- How often the notices under way can still go on. -/
def Notices.load (n : Notices) : Nat :=
  2 * turnsOf n.asleep + (n.ready.map fun n => 2 * n.left + 1).sum

/-- A notice that goes on can do so less often. -/
theorem World.Stirs.load_lt (h : w.Stirs w') : w'.notices.load < w.notices.load := by
  unfold Notices.load
  cases h with
  | @turn front behind n h =>
    obtain ⟨hready, -, hturns⟩ := World.turns_left [n]
      { w with notices := { w.notices with ready := front ++ behind } }
    rw [hready, h]
    simp only [List.map_append, List.map_cons, List.sum_append, List.sum_cons, List.map_nil,
      List.sum_nil] at hturns ⊢
    omega
  | @wakes front behind s h hdue =>
    dsimp only
    rw [h]
    simp only [turnsOf_append, turnsOf_cons, List.map_append, List.map_cons, List.map_nil,
      List.sum_append, List.sum_cons, List.sum_nil]
    omega

namespace Fanout

/-- How far the results in the channel and the timers still have to go. -/
def ahead (f : Fanout) : Nat := f.channel.length + (f.timers.sum - f.world.now)

/-- No task waits without end, and the channel has room. -/
structure Lively (d : Dispatch) (f : Fanout) : Prop where
  handlers : ∀ t ∈ f.tasks, t.1.Ceases d.message
  tasks : ∀ t ∈ f.tasks, t.2.Ceases
  room : 0 < f.room

end Fanout

namespace Dispatch

theorem lively_of_steps (hf : f.Lively d) (hstep : d.Steps f f') : f'.Lively d := by
  obtain ⟨hhandlers, htasks', hroom⟩ := hf
  cases hstep with
  | @goes front behind h st st' w htasks hstep =>
    rw [htasks, List.forall_mem_append, List.forall_mem_cons] at hhandlers htasks'
    refine ⟨?_, ?_, hroom⟩ <;> dsimp only <;> rw [List.forall_mem_append, List.forall_mem_cons]
    · exact hhandlers
    · exact ⟨htasks'.1, ceases_of_step hhandlers.2.1 htasks'.2.1 hstep, htasks'.2.2⟩
  | @hands front behind h r htasks _ =>
    rw [htasks, List.forall_mem_append, List.forall_mem_cons] at hhandlers htasks'
    refine ⟨?_, ?_, hroom⟩ <;> dsimp only <;> rw [List.forall_mem_append, List.forall_mem_cons]
    · exact hhandlers
    · exact ⟨htasks'.1, trivial, htasks'.2.2⟩
  | takes hchannel => exact ⟨hhandlers, htasks', hroom⟩
  | stirs hstirs => exact ⟨hhandlers, htasks', hroom⟩
  | passes hquiet hlater htimers => exact ⟨hhandlers, htasks', hroom⟩

/-- While all wait and somebody is not over, somebody sleeps. -/
theorem exists_timer (hf : f.Lively d) (hquiet : d.Quiet f) : ∃ t, t ∈ f.timers := by
  obtain ⟨⟨h, st⟩, ht, hover⟩ := hquiet.pending
  obtain ⟨hwaits, hanswering⟩ := hquiet.waiting _ ht
  rcases waits_cases (hf.tasks _ ht) hwaits hanswering hover with hroom | ⟨tick, x, rfl⟩
  · -- the notices that have the room are asleep
    have hasleep : f.world.notices.asleep ≠ [] := by
      rintro hnone
      have hempty : f.world.Alone := ⟨hquiet.ready, hnone⟩
      exact nomatch hroom.symm.trans hempty.hasRoom
    obtain ⟨s, hs⟩ := List.exists_mem_of_ne_nil _ hasleep
    exact ⟨s.1, List.mem_append_right _ (List.mem_map_of_mem hs)⟩
  · exact ⟨tick, List.mem_append_left _ (List.mem_filterMap.2 ⟨_, ht, rfl⟩)⟩

/-- The one state is nearer to the end than the other: a task has gone on; or else a notice has; or
else a result was collected, or time has passed. -/
def Nearer (d : Dispatch) : Fanout → Fanout → Prop :=
  InvImage (Prod.Lex (CutExpand d.Later) (Prod.Lex (· < ·) (· < ·)))
    fun f => ((f.tasks : Multiset (Handler × Stage)), f.world.notices.load, f.ahead)

theorem wellFounded_nearer (d : Dispatch) : WellFounded d.Nearer :=
  InvImage.wf _ (d.wellFounded_later.cutExpand.prod_lex (wellFounded_lt.prod_lex wellFounded_lt))

theorem nearer_of_later {front behind : List (Handler × Stage)} {t t' : Handler × Stage}
    (htasks : f.tasks = front ++ t :: behind) (htasks' : f'.tasks = front ++ t' :: behind)
    (hlater : d.Later t' t) : d.Nearer f' f := by
  have hmiddle : ∀ u : Handler × Stage, ((front ++ u :: behind : List (Handler × Stage)) :
      Multiset (Handler × Stage)) = {u} + ((front ++ behind : List (Handler × Stage)) :
        Multiset (Handler × Stage)) := fun u => Multiset.coe_eq_coe.2 List.perm_middle
  refine .left _ _ ?_
  rw [htasks, htasks', hmiddle, hmiddle, Relation.cutExpand_add_right]
  exact Relation.cutExpand_singleton_singleton hlater

/-- **Whatever happens, it gets nearer to the end.** -/
theorem nearer_of_steps (hf : f.Lively d) (hstep : d.Steps f f') : d.Nearer f' f := by
  cases hstep with
  | goes htasks hstep => exact nearer_of_later htasks rfl (.goes hstep)
  | hands htasks hroom => exact nearer_of_later htasks rfl .hands
  | takes hchannel =>
    refine .right _ (.right _ ?_)
    simp only [Fanout.ahead, Fanout.timers, hchannel, List.length_cons]
    omega
  | stirs hstirs => exact .right _ (.left _ _ hstirs.load_lt)
  | @passes tick hquiet hlater htimers =>
    obtain ⟨t, ht⟩ := exists_timer hf hquiet
    have hless : f.world.now < f.timers.sum :=
      (hlater.trans_le (htimers t ht)).trans_le (List.le_sum_of_mem ht)
    refine .right _ (.right _ ?_)
    show f.channel.length + (f.timers.sum - max f.world.now tick) <
      f.channel.length + (f.timers.sum - f.world.now)
    omega

/-- Where nothing can happen but that time passes, all wait, and nobody only until now. -/
theorem quiet_of_stuck (hroom : 0 < f.room) (hchannel : f.channel = [])
    (hpending : ∃ t ∈ f.tasks, t.2.isOver = false) (hstuck : ∀ f', ¬ d.Steps f f') :
    d.Quiet f ∧ ∀ n ∈ f.timers, f.world.now < n := by
  have hquiet : d.Quiet f := by
    refine ⟨hchannel, fun ⟨h, st⟩ ht => ⟨?_, ?_⟩, hpending, ?_⟩
    · by_contra hgoes
      obtain ⟨front, behind, htasks⟩ := List.append_of_mem ht
      obtain ⟨⟨st', w⟩, hstep⟩ := Option.ne_none_iff_exists'.1 hgoes
      exact hstuck _ (.goes htasks hstep)
    · obtain ⟨front, behind, htasks⟩ := List.append_of_mem ht
      cases st with
      | answering r => exact absurd (.hands htasks (by rwa [hchannel])) (hstuck _)
      | _ => rfl
    · by_contra hne
      obtain ⟨n, hn⟩ := List.exists_mem_of_ne_nil _ hne
      obtain ⟨front, behind, hnotices⟩ := List.append_of_mem hn
      exact hstuck _ (.stirs (.turn hnotices))
  refine ⟨hquiet, fun n hn => ?_⟩
  rcases List.mem_append.1 hn with hn | hn
  · obtain ⟨⟨h, st⟩, ht, htimer⟩ := List.mem_filterMap.1 hn
    cases st with
    | asleep tick x =>
      obtain rfl : tick = n := Option.some.inj htimer
      exact lt_of_asleep (hquiet.waiting _ ht).1
    | _ => cases htimer
  · obtain ⟨s, hs, rfl⟩ := List.mem_map.1 hn
    obtain ⟨front, behind, hnotices⟩ := List.append_of_mem hs
    exact Nat.lt_of_not_le fun hdue => hstuck _ (.stirs (.wakes hnotices hdue))

/-- Until all results are collected, something can happen. -/
theorem exists_steps (hf : f.Lively d) (hopen : ¬ f.Returned) : ∃ f', d.Steps f f' := by
  cases hchannel : f.channel with
  | cons r rest => exact ⟨_, .takes hchannel⟩
  | nil =>
    have hpending : ∃ t ∈ f.tasks, t.2.isOver = false := by
      by_contra hnone
      refine hopen ⟨hchannel, fun t ht => ?_⟩
      by_contra hover
      exact hnone ⟨t, ht, Bool.eq_false_iff.2 hover⟩
    by_contra hstuck
    obtain ⟨hquiet, hlater⟩ := quiet_of_stuck hf.room hchannel hpending fun f' hstep =>
      hstuck ⟨f', hstep⟩
    exact hstuck ⟨_, .passes hquiet (Nat.lt_succ_self _) hlater⟩

/-- Whatever happens, it comes to something. -/
inductive Comes (d : Dispatch) (P : Fanout → Prop) : Fanout → Prop where
  | here {f : Fanout} (h : P f) : d.Comes P f
  | onward {f : Fanout} (hgoes : ∃ f', d.Steps f f') (hall : ∀ f', d.Steps f f' → d.Comes P f') :
      d.Comes P f

/-- **In the end all results are collected**, in whichever order things happen. -/
theorem comes_returned (hf : f.Lively d) : d.Comes Fanout.Returned f := by
  induction f using d.wellFounded_nearer.induction with
  | _ f ih =>
  by_cases hreturned : f.Returned
  · exact .here hreturned
  · exact .onward (exists_steps hf hreturned) fun f' hstep =>
      ih f' (nearer_of_steps hf hstep) (lively_of_steps hf hstep)

end Dispatch

/-- Whatever happens, all results of a message are collected in the end. -/
def Router.SurelyReturns (r : Router) (horizon : Nat) (m : Envelope) (w : World) : Prop :=
  Dispatch.Comes ⟨m, r.timeout, horizon⟩ Fanout.Returned (r.fanout m w)

end Takeaway
