import Takeaway.Proofs.Command.Siblings
import Takeaway.Proofs.Flow.Delivered

/-!
What the task of a handler will come to. Main statement: where a handler hands over no notices, what
it answers as the only one does not depend on the order in which things happen, and it is what one
run of the handler by itself answers.
-/

namespace Takeaway

open World (Alike)

variable {w w' v : World} {P : Part → Prop} {d : Dispatch} {h : Handler} {st st' : Stage}

/-! ### Handlers that hand over no notices -/

namespace Flow

variable {α : Type}

/-- A flow that hands over no notice, whatever it is answered. -/
def Silent : Flow α → Prop
  | done _ => True
  | act a next => a.isNote = false ∧ ∀ r, (next r).Silent
  | wait _ _ next => ∀ b, (next b).Silent

end Flow

/-- Whatever command a handler makes of a message hands over no notice. -/
def Handler.Silent (h : Handler) (m : Envelope) : Prop :=
  ∀ c, h.build m = .ok c → ∀ d, (c.run d).Silent

/-- What is left to do of a task hands over no notice. -/
def Stage.Silent : Stage → Prop
  | running x | asleep _ x => x.Silent
  | _ => True

/-- Only the handing over of a notice changes what is under way. -/
theorem World.perform_notices {a : Action} (ha : a.isNote = false) (w : World) :
    (w.perform a).2.notices = w.notices := by
  cases hsend : a.isSend with
  | false => exact (World.perform_apart hsend ha w).2.1
  | true =>
    cases a with
    | send e => rfl
    | _ => cases hsend

namespace Dispatch

theorem silent_of_step (hh : h.Silent d.message) (hst : st.Silent)
    (hstep : d.step h w st = some (st', w')) : st'.Silent ∧ w'.notices = w.notices := by
  rcases step_cases hstep with ⟨f, rfl, -, rfl, rfl⟩ | ⟨c, rfl, hc, rfl, rfl⟩ | ⟨x, rfl, hx⟩ |
    ⟨tick, x, rfl, -, rfl, rfl⟩ | ⟨e, rfl, rfl, rfl⟩
  · exact ⟨trivial, rfl⟩
  · refine ⟨?_, rfl⟩
    split
    · exact hh c hc _
    · trivial
  · rcases Stage.goOn_cases hx with ⟨e, rfl, rfl, rfl⟩ | ⟨a, next, rfl, rfl, rfl⟩ |
      ⟨wt, limit, next, rfl, rfl, ⟨reached, -, rfl⟩ | ⟨tick, reached, -, rfl⟩ | ⟨-, -, rfl⟩⟩
    · exact ⟨trivial, rfl⟩
    · exact ⟨hst.2 _, World.perform_notices hst.1 w⟩
    · exact ⟨hst _, rfl⟩
    · exact ⟨hst _, rfl⟩
    · exact ⟨hst _, rfl⟩
  · exact ⟨hst, rfl⟩
  · exact ⟨trivial, rfl⟩

/-! ### What a task will come to -/

/-- The result that a task will come to if all goes on as in a run by itself. -/
def outlook (d : Dispatch) (h : Handler) (w : World) : Stage → Option CommandResult
  | .fresh => some ((({ timeout := d.timeout } : Router).handle h d.message).run .inTurn w).1
  | .running x => some ⟨h.kind, (x.run .inTurn w).1.fault?⟩
  | .asleep tick x => some ⟨h.kind, (x.run .inTurn (w.reach tick)).1.fault?⟩
  | .ended e => some ⟨h.kind, e.fault?⟩
  | .answering r => some r
  | .gone r => r

/-- What a task will come to depends on the parts that it keeps to, and on the clock. -/
theorem outlook_alike (hh : h.KeepsTo d.message P) (hst : st.KeepsTo h d.message P)
    (hcounts : ¬ P .counts) (halike : Alike P w v) (hnow : v.now = w.now) :
    d.outlook h v st = d.outlook h w st := by
  cases st with
  | fresh => exact congrArg some (Router.handle_alike _ hh hcounts halike hnow)
  | running x =>
    have hrun : (x.run .inTurn v).1 = (x.run .inTurn w).1 :=
      (hst.2.run_alike hcounts halike hnow).1
    rw [outlook, outlook, hrun]
  | asleep tick x =>
    have hreach : Alike P (w.reach tick) (v.reach tick) :=
      ⟨halike.store, halike.announces, halike.item, halike.mail, halike.keys⟩
    have hrun : (x.run .inTurn (v.reach tick)).1 = (x.run .inTurn (w.reach tick)).1 :=
      (hst.2.run_alike hcounts hreach (congrArg (max · tick) hnow)).1
    rw [outlook, outlook, hrun]
  | _ => rfl

/-- A step of a command does not change what it will come to. -/
theorem outlook_goOn {x : Flow Ending} (hx : x.KeepsTo P) (hcounts : ¬ P .counts)
    (hmail : P .mail → w.Alone) (hstep : Stage.goOn w x = some (st', w')) :
    d.outlook h w' st' = some ⟨h.kind, (x.run .inTurn w).1.fault?⟩ := by
  rcases Stage.goOn_cases hstep with ⟨e, rfl, rfl, rfl⟩ | ⟨a, next, rfl, rfl, rfl⟩ |
    ⟨wt, limit, next, rfl, rfl, hwait⟩
  · rfl
  · rfl
  · rw [Flow.run_wait]
    rcases hwait with ⟨reached, ho, rfl⟩ | ⟨tick, reached, ho, rfl⟩ | ⟨ho, hroom, rfl⟩
    · rw [World.await_of_now .inTurn ho]
      rfl
    · rw [World.await_of_later .inTurn ho]
      have halike : Alike P (w'.reach tick) (w'.passUntil .inTurn tick) := by
        by_cases hP : P .mail
        · rw [(hmail hP).passUntil]
          exact .refl P _
        · have hreach : Alike P (w'.reach tick) w' := .of_same rfl rfl rfl rfl rfl rfl
          have hawait := World.alike_await_of_mail hP w' .inTurn wt limit
          rw [World.await_of_later .inTurn ho] at hawait
          exact hreach.trans hawait
      have hle : w'.now ≤ tick := (World.lt_of_later ho).le
      have hnow : (w'.passUntil .inTurn tick).now = (w'.reach tick).now :=
        (World.passUntil_now .inTurn hle).trans (max_eq_right hle).symm
      rw [((hx.2 reached).run_alike hcounts halike hnow).1]
      rfl
    · have hawait : w'.await .inTurn wt limit = (true, w') := by
        unfold World.await World.passForRoom
        rw [ho, if_pos hroom]
      rw [hawait]
      rfl

/-- **A step of a task does not change what it will come to.** -/
theorem outlook_step (hst : st.KeepsTo h d.message P) (hcounts : ¬ P .counts)
    (hmail : P .mail → w.Alone)
    (hdeadline : st = .fresh → (w.deadline d.timeout).tick ≤ d.horizon)
    (hstep : d.step h w st = some (st', w')) : d.outlook h w' st' = d.outlook h w st := by
  rcases step_cases hstep with ⟨f, rfl, hf, rfl, rfl⟩ | ⟨c, rfl, hc, rfl, rfl⟩ | ⟨x, rfl, hx⟩ |
    ⟨tick, x, rfl, htick, rfl, rfl⟩ | ⟨e, rfl, rfl, rfl⟩
  · rw [outlook, outlook, Router.run_handle_of_error _ hf]
  · rw [if_pos (hdeadline rfl), outlook, outlook, Router.run_handle_of_ok _ hc rfl]
  · exact outlook_goOn hst.2 hcounts hmail hx
  · have hreach : w'.reach tick = w' := by
      unfold World.reach
      rw [max_eq_left htick]
    rw [outlook, outlook, hreach]
  · rfl

end Dispatch

/-- The command of a task waits without end. -/
def Stage.Hangs (st : Stage) : Prop :=
  ∃ wt limit next, st = running (.wait wt limit next) ∧ wt.isEndless limit = true

namespace Dispatch

theorem step_of_hangs (hst : st.Hangs) (d : Dispatch) (h : Handler) (w : World) :
    d.step h w st = none := by
  obtain ⟨wt, limit, next, rfl, hendless⟩ := hst
  simp only [step, Stage.goOn, Wait.outcome_eq_never.2 hendless]

/-- Nor does the passing of time, unless a task waits without end. -/
theorem outlook_reach {tick : Nat} (hst : st.KeepsTo h d.message P) (hmail : P .mail → w.Alone)
    (hwaits : d.step h w st = none) (htimer : ∀ t ∈ st.timer?, tick ≤ t) :
    st.Hangs ∨ d.outlook h (w.reach tick) st = d.outlook h w st := by
  cases st with
  | fresh =>
    simp only [step] at hwaits
    split at hwaits <;> cases hwaits
  | running x =>
    cases x with
    | done e => cases hwaits
    | act a next => cases hwaits
    | wait wt limit next =>
      cases ho : wt.outcome w.now limit <;> simp only [step, Stage.goOn, ho] at hwaits
      case now => cases hwaits
      case later => cases hwaits
      case room =>
        -- there is room where no notice is under way
        have hslot : wt = .slot := World.eq_slot_of_room ho
        have halone := hmail (hst.2.1 _ (hslot ▸ rfl))
        rw [if_pos halone.hasRoom] at hwaits
        cases hwaits
      case never => exact .inl ⟨wt, limit, next, rfl, Wait.outcome_eq_never.1 ho⟩
  | asleep t x =>
    refine .inr ?_
    have hreach : (w.reach tick).reach t = w.reach t := by
      unfold World.reach
      rw [max_assoc, max_eq_right (htimer t rfl)]
    rw [outlook, outlook, hreach]
  | ended e => cases hwaits
  | answering r => exact .inr rfl
  | gone r => exact .inr rfl

/-! ### The only handler -/

/-- What holds at any time of the only handler, if it hands over no notice: what it will come to was
settled from the beginning, unless it hangs. -/
structure Foreseen (d : Dispatch) (P : Part → Prop) (h : Handler) (a : CommandResult) (f : Fanout)
    (st : Stage) : Prop where
  tasks : f.tasks = [(h, st)]
  silent : st.Silent
  mail : P .mail → f.world.Alone
  settled : st.Hangs ∨ d.outlook h f.world st = some a

section Only

variable {parts : Nat → Part → Prop} {w₀ : World} {f f' : Fanout} {a : CommandResult}
  (hapart : Router.Apart d.message parts w₀ [h])
  (hdeadline : (w₀.deadline d.timeout).tick ≤ d.horizon) (hsilent : h.Silent d.message)
include hapart hdeadline hsilent

/-- Whatever happens next, it does not change what the only handler will come to. -/
theorem Foreseen.step (htracked : d.Tracked parts [h] w₀ f) (hf : d.Foreseen (parts h.id) h a f st)
    (hstep : d.Steps f f') : ∃ st', d.Foreseen (parts h.id) h a f' st' := by
  have hh : h ∈ [h] := List.mem_singleton_self h
  have htask : (h, st) ∈ f.tasks := hf.tasks ▸ List.mem_singleton_self _
  have hst := htracked.keeps _ htask
  have hcounts := hapart.uncounted h hh
  have honly : ∀ {front behind : List (Handler × Stage)} {t : Handler × Stage},
      f.tasks = front ++ t :: behind → front = [] ∧ t = (h, st) ∧ behind = [] := by
    intro front behind t htasks
    rw [hf.tasks] at htasks
    cases front <;> simp_all
  cases hstep with
  | goes htasks hgoes =>
    obtain ⟨rfl, ht, rfl⟩ := honly htasks
    cases ht
    obtain ⟨hsilent', hnotices⟩ := silent_of_step hsilent hf.silent hgoes
    refine ⟨_, rfl, hsilent', fun hP => ?_, .inr ?_⟩
    · obtain ⟨hready, hasleep⟩ := hf.mail hP
      exact ⟨hnotices ▸ hready, hnotices ▸ hasleep⟩
    · have hsettled : d.outlook h f.world st = some a := hf.settled.resolve_left fun hhangs =>
        nomatch hgoes.symm.trans (step_of_hangs hhangs d h f.world)
      refine (outlook_step hst hcounts hf.mail (fun hfresh => ?_) hgoes).trans hsettled
      have hbegins := htracked.onTime _ htask hfresh
      unfold World.deadline at hdeadline ⊢
      rwa [hbegins]
  | hands htasks hroom =>
    obtain ⟨rfl, ht, rfl⟩ := honly htasks
    cases ht
    refine ⟨_, rfl, trivial, hf.mail, .inr (hf.settled.resolve_left ?_)⟩
    rintro ⟨_, _, _, ⟨⟩, -⟩
  | takes hchannel => exact ⟨st, hf.tasks, hf.silent, hf.mail, hf.settled⟩
  | stirs hstirs =>
    by_cases hP : parts h.id .mail
    · obtain ⟨hready, hasleep⟩ := hf.mail hP
      cases hstirs with
      | turn hnotice => exact absurd (hready.symm.trans hnotice) (by simp)
      | wakes hnotice hdue => exact absurd (hasleep.symm.trans hnotice) (by simp)
    · have halike := hstirs.lasts (World.lasts_alike hP f.world) (.refl _ _)
      refine ⟨st, hf.tasks, hf.silent, fun h => absurd h hP, hf.settled.imp_right fun hout => ?_⟩
      exact (outlook_alike (hapart.keeps h hh) hst hcounts halike hstirs.now).trans hout
  | @passes tick hquiet hlater htimers =>
    refine ⟨st, hf.tasks, hf.silent, fun hP => (hf.mail hP).reach tick, ?_⟩
    have htimer : ∀ t ∈ st.timer?, tick ≤ t := fun t ht =>
      htimers t (List.mem_append_left _ (List.mem_filterMap.2 ⟨_, htask, ht⟩))
    rcases outlook_reach hst hf.mail (hquiet.waiting _ htask).1 htimer with hhangs | hsame
    · exact .inl hhangs
    · exact hf.settled.imp_right hsame.trans

/-- **A handler that hands over no notice and is the only one has one answer**, that of a run by
itself. -/
theorem answer_of_reaches (hreaches : d.Reaches (Fanout.sole h .fresh w₀) f)
    (htasks : f.tasks = [(h, .gone (some a))]) :
    a = ((({ timeout := d.timeout } : Router).handle h d.message).run .inTurn w₀).1 := by
  have hforeseen : ∀ f, d.Reaches (Fanout.sole h .fresh w₀) f → ∃ st, d.Foreseen (parts h.id) h
      ((({ timeout := d.timeout } : Router).handle h d.message).run .inTurn w₀).1 f st := by
    intro f hreaches
    induction hreaches with
    | refl => exact ⟨.fresh, rfl, trivial, hapart.mail h (.head _), .inr rfl⟩
    | tail hbefore hstep ih =>
      obtain ⟨st, hf⟩ := ih
      exact hf.step hapart hdeadline hsilent
        (tracked_of_reaches hapart (List.nodup_singleton _) hdeadline hbefore) hstep
  obtain ⟨st, hf⟩ := hforeseen f hreaches
  cases hf.tasks.symm.trans htasks
  rcases hf.settled with ⟨_, _, _, ⟨⟩, -⟩ | hout
  exact Option.some.inj hout

end Only

end Dispatch

end Takeaway
