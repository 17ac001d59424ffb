import Takeaway.Proofs.Command.Fanout

/-!
A handler among others. Main statement: whatever happens to a message on its way through handlers
that have no part of the world in common, each task does what it might do if its handler were the
only one, and what was counted and handed over are the results of the tasks.
-/

namespace Takeaway

open World (Alike SameMail)

variable {w w' v v' : World} {P Q : Part → Prop}

namespace World

/-! ### Worlds that look the same to a task -/

/-- The one world is the other at the same moment, as far as some parts go; and where the messages
are none of these, no notice is under way in the second. -/
structure Agrees (P : Part → Prop) (w v : World) : Prop where
  alike : Alike P w v
  now : v.now = w.now
  alone : ¬ P .mail → v.Alone

namespace Agrees

/-- Something happens that leaves these parts alone. -/
theorem aside (h : Agrees P w v) (hw : Alike P w w') (hnow : w'.now = w.now) : Agrees P w' v :=
  ⟨hw.symm.trans h.alike, h.now.trans hnow.symm, h.alone⟩

theorem sameMail (h : Agrees P w v) (hP : P .mail) : SameMail w v := by
  obtain ⟨htopic, hbroker, hnotices⟩ := h.alike.mail hP
  exact ⟨h.now, htopic, hbroker, hnotices⟩

/-- Time passes in both. -/
theorem reach (h : Agrees P w v) (tick : Nat) : Agrees P (w.reach tick) (v.reach tick) :=
  ⟨⟨h.alike.store, h.alike.announces, h.alike.item, h.alike.mail, h.alike.keys⟩,
    congrArg (max · tick) h.now, fun hP => (h.alone hP).reach tick⟩

end Agrees

end World

variable {d : Dispatch} {h : Handler} {st st' : Stage} {m : Envelope}

/-! ### A handler by itself -/

/-- The task of a handler that is the only one; its result is collected at once. -/
def Fanout.sole (h : Handler) (st : Stage) (w : World) : Fanout where
  world := w
  tasks := [(h, st)]
  room := 1
  results := st.handed?.toList

namespace Dispatch

open Fanout (sole)

theorem handed_of_step (hstep : d.step h w st = some (st', w')) :
    st.handed? = none ∧ st'.handed? = none := by
  refine ⟨?_, ?_⟩
  · cases st with
    | gone r => cases hstep
    | _ => rfl
  · rcases stage_of_step hstep with hunderWay | hanswering | ⟨-, -, rfl⟩
    · cases st' <;> first | rfl | cases hunderWay
    · cases st' <;> first | rfl | cases hanswering
    · rfl

/-- The only task goes on. -/
theorem sole_goes (hstep : d.step h w st = some (st', w')) :
    d.Steps (sole h st w) (sole h st' w') := by
  obtain ⟨hbefore, hafter⟩ := handed_of_step hstep
  have hgoes := @Steps.goes d (sole h st w) [] [] h st st' w' rfl hstep
  unfold sole at hgoes ⊢
  rw [hbefore] at hgoes ⊢
  rw [hafter]
  exact hgoes

/-- The result of the only task is handed over and collected. -/
theorem sole_hands (d : Dispatch) (h : Handler) (r : CommandResult) (w : World) :
    d.Reaches (sole h (.answering r) w) (sole h (.gone (some r)) w) := by
  have hhands : d.Steps (sole h (.answering r) w)
      { sole h (.gone (some r)) w with channel := [r], results := [] } :=
    @Steps.hands d (sole h (.answering r) w) [] [] h r rfl Nat.one_pos
  exact (Relation.ReflTransGen.single hhands).tail (.takes rfl)

/-- Time passes for the only task, which waits for that. -/
theorem sole_passes {tick : Nat} (hover : st.isOver = false) (hanswering : st.isAnswering = false)
    (hwaits : d.step h w st = none) (hready : w.notices.ready = []) (hlater : w.now < tick)
    (htimer : ∀ t ∈ st.timer?, tick ≤ t) (hasleep : ∀ s ∈ w.notices.asleep, tick ≤ s.1) :
    d.Steps (sole h st w) (sole h st (w.reach tick)) := by
  have htask : (h, st) ∈ (sole h st w).tasks := List.mem_singleton_self _
  refine .passes ⟨rfl, fun t ht => ?_, ⟨_, htask, hover⟩, hready⟩ hlater fun t ht => ?_
  · obtain rfl := List.mem_singleton.1 ht
    exact ⟨hwaits, hanswering⟩
  · rcases List.mem_append.1 ht with ht | ht
    · obtain ⟨s, hs, hst⟩ := List.mem_filterMap.1 ht
      obtain rfl := List.mem_singleton.1 hs
      exact htimer t hst
    · obtain ⟨s, hs, rfl⟩ := List.mem_map.1 ht
      exact hasleep s hs

/-! ### A task among others and by itself -/

/-- In a world that began as `w₀` and is now `w`, a task has come as far as it might have come by
itself; and while it is not over, the worlds look the same to it. -/
def Follows (d : Dispatch) (P : Part → Prop) (w₀ w : World) (h : Handler) (st : Stage) : Prop :=
  ∃ v, d.Reaches (sole h .fresh w₀) (sole h st v) ∧ (st.isOver = false → World.Agrees P w v)

namespace Follows

variable {w₀ : World}

/-- Something happens that leaves alone what the task can see. -/
theorem aside (hf : d.Follows P w₀ w h st) (hw : Alike P w w') (hnow : w'.now = w.now) :
    d.Follows P w₀ w' h st := by
  obtain ⟨v, hreaches, hagrees⟩ := hf
  exact ⟨v, hreaches, fun hover => (hagrees hover).aside hw hnow⟩

/-- The task goes on. -/
theorem goes (hf : d.Follows P w₀ w h st) (hst : st.KeepsTo h d.message P) (hcounts : ¬ P .counts)
    (hstep : d.step h w st = some (st', w')) : d.Follows P w₀ w' h st' := by
  obtain ⟨v, hreaches, hagrees⟩ := hf
  have hv := hagrees (booked_of_step hstep).1
  obtain ⟨v', hstep', halike⟩ := step_alike hst hcounts hv.alike hv.now hstep
  refine ⟨v', hreaches.tail (sole_goes hstep'), fun _ => ⟨halike, ?_, fun hmail => ?_⟩⟩
  · rw [step_now hstep', hv.now, step_now hstep]
  · have hown : Alike (· = .mail) v v' :=
      step_apart hst (fun p hp heq => hmail (heq ▸ hp)) hstep'
    exact hown.alone rfl (hv.alone hmail)

/-- The task hands over its result. -/
theorem hands {r : CommandResult} (hf : d.Follows P w₀ w h (.answering r)) :
    d.Follows P w₀ w h (.gone (some r)) := by
  obtain ⟨v, hreaches, -⟩ := hf
  exact ⟨v, hreaches.trans (sole_hands d h r v), fun hover => nomatch hover⟩

/-- A notice goes on. -/
theorem stirs (hf : d.Follows P w₀ w h st) (hstirs : w.Stirs w') : d.Follows P w₀ w' h st := by
  by_cases hP : P .mail
  · obtain ⟨v, hreaches, hagrees⟩ := hf
    cases hover : st.isOver with
    | true => exact ⟨v, hreaches, fun h => nomatch hover.symm.trans h⟩
    | false =>
      have hv := hagrees hover
      obtain ⟨v', hstirs', hsame⟩ := hstirs.exists_same (hv.sameMail hP)
      refine ⟨v', hreaches.tail (.stirs hstirs'), fun _ => ⟨?_, ?_, fun h => absurd hP h⟩⟩
      · -- the parts other than the messages are left alone in both
        have hrest : ∀ {u u' : World}, u.Stirs u' → Alike (fun p => P p ∧ p ≠ .mail) u u' :=
          fun h => h.lasts (World.lasts_alike (by simp) _) (.refl _ _)
        exact ((hrest hstirs).symm.trans ((hv.alike.mono fun p hp => hp.1).trans
          (hrest hstirs'))).of_sameMail hsame
      · rw [hstirs'.now, hv.now, hstirs.now]
  · exact hf.aside (hstirs.lasts (World.lasts_alike hP w) (.refl P w)) hstirs.now

/-- Time passes, for which the task waits. -/
theorem passes {tick : Nat} (hf : d.Follows P w₀ w h st) (hst : st.KeepsTo h d.message P)
    (hcounts : ¬ P .counts) (hwaits : d.step h w st = none) (hanswering : st.isAnswering = false)
    (hready : w.notices.ready = []) (hlater : w.now < tick) (htimer : ∀ t ∈ st.timer?, tick ≤ t)
    (hasleep : ∀ s ∈ w.notices.asleep, tick ≤ s.1) : d.Follows P w₀ (w.reach tick) h st := by
  obtain ⟨v, hreaches, hagrees⟩ := hf
  cases hover : st.isOver with
  | true => exact ⟨v, hreaches, fun h => nomatch hover.symm.trans h⟩
  | false =>
    have hv := hagrees hover
    have hwaits' : d.step h v st = none := by
      by_contra hgoes
      obtain ⟨⟨st', v'⟩, hstep⟩ := Option.ne_none_iff_exists'.1 hgoes
      obtain ⟨w', hstep', -⟩ := step_alike hst hcounts hv.alike.symm hv.now.symm hstep
      exact nomatch hwaits.symm.trans hstep'
    have hnotices : v.notices.ready = [] ∧ ∀ s ∈ v.notices.asleep, tick ≤ s.1 := by
      by_cases hP : P .mail
      · rw [(hv.sameMail hP).notices]
        exact ⟨hready, hasleep⟩
      · obtain ⟨hnone, hnobody⟩ := hv.alone hP
        exact ⟨hnone, by rw [hnobody]; exact fun s hs => nomatch hs⟩
    exact ⟨_, hreaches.tail (sole_passes hover hanswering hwaits' hnotices.1 (hv.now ▸ hlater)
      htimer hnotices.2), fun _ => hv.reach tick⟩

end Follows

/-! ### All tasks -/

/-- What the task of a handler can see of the world: the parts that the handler keeps to, and the
messages if none of the others uses them. -/
def scope (parts : Nat → Part → Prop) (hs : List Handler) (h : Handler) (p : Part) : Prop :=
  parts h.id p ∨ p = .mail ∧ ∀ g ∈ hs, g.id ≠ h.id → ¬ parts g.id .mail

/-- What holds of the tasks of some handlers at any time. -/
structure Tracked (d : Dispatch) (parts : Nat → Part → Prop) (hs : List Handler) (w₀ : World)
    (f : Fanout) : Prop where
  handlers : f.tasks.map (·.1) = hs
  keeps : ∀ t ∈ f.tasks, t.2.KeepsTo t.1 d.message (parts t.1.id)
  follows : ∀ t ∈ f.tasks, d.Follows (scope parts hs t.1) w₀ f.world t.1 t.2
  onTime : ∀ t ∈ f.tasks, t.2 = .fresh → f.world.now = w₀.now
  whole : ∀ t ∈ f.tasks, t.2 ≠ .gone none
  handed : (f.results ++ f.channel).Perm (f.tasks.filterMap (·.2.handed?))
  counted : ∀ s : Series, s.isRouters = true → f.world.metrics.value s =
    w₀.metrics.value s + (f.tasks.flatMap fun t => t.2.booked t.1 d.message).count s

variable {parts : Nat → Part → Prop} {hs : List Handler} {w₀ : World} {f f' : Fanout}

section Scope

variable (hapart : Router.Apart d.message parts w₀ hs)
include hapart

theorem agrees_self (h : Handler) : World.Agrees (scope parts hs h) w₀ w₀ := by
  refine ⟨.refl _ w₀, rfl, fun hmail => ?_⟩
  -- somebody else uses the messages
  obtain ⟨g, hg, hp⟩ : ∃ g ∈ hs, parts g.id .mail := by
    by_contra hnone
    exact hmail (.inr ⟨rfl, fun g hg _ hp => hnone ⟨g, hg, hp⟩⟩)
  exact hapart.mail g hg hp

variable (hh : h ∈ hs)
include hh

theorem scope_counts : ¬ scope parts hs h .counts := by
  rintro (hp | ⟨hp, -⟩)
  · exact hapart.uncounted h hh hp
  · cases hp

/-- What another handler keeps to is not to be seen. -/
theorem not_scope_of_other {g : Handler} (hg : g ∈ hs) (hne : g.id ≠ h.id) {p : Part}
    (hp : parts g.id p) : ¬ scope parts hs h p := by
  rintro (hp' | ⟨rfl, hnone⟩)
  · exact hapart.apart g hg h hh hne p hp hp'
  · exact hnone g hg hne hp

end Scope

namespace Tracked

/-- Before anything has happened. -/
theorem start (hapart : Router.Apart d.message parts w₀ hs) :
    d.Tracked parts hs w₀ { world := w₀, tasks := hs.map (·, .fresh), room := hs.length } := by
  have hfresh : ∀ t ∈ hs.map (·, Stage.fresh), t.1 ∈ hs ∧ t.2 = .fresh := by
    intro t ht
    obtain ⟨h, hh, rfl⟩ := List.mem_map.1 ht
    exact ⟨hh, rfl⟩
  refine ⟨by simp [Function.comp_def], fun t ht => ?_, fun t ht => ?_, fun _ _ _ => rfl,
    fun t ht => ?_, ?_, fun s _ => ?_⟩
  · rw [(hfresh t ht).2]
    trivial
  · rw [(hfresh t ht).2]
    exact ⟨w₀, .refl, fun _ => agrees_self hapart t.1⟩
  · rw [(hfresh t ht).2]
    exact Stage.noConfusion
  · simp [Stage.handed?, List.filterMap_map]
  · have hnothing : ((hs.map (·, Stage.fresh)).flatMap fun t => t.2.booked t.1 d.message) = [] :=
      List.flatMap_eq_nil_iff.2 fun t ht => by rw [(hfresh t ht).2]; rfl
    rw [hnothing]
    rfl

section Steps

variable {front behind : List (Handler × Stage)}

/-- Of all tasks something holds if it holds of one of them and of those in front of it and behind. -/
theorem forall_mem_middle {R : Handler × Stage → Prop} {t : Handler × Stage} :
    (∀ u ∈ front ++ t :: behind, R u) ↔ R t ∧ ∀ u ∈ front ++ behind, R u := by
  rw [List.forall_mem_append, List.forall_mem_cons, List.forall_mem_append]
  exact and_left_comm

variable (hf : d.Tracked parts hs w₀ f)
include hf

/-- The other tasks are those of other handlers. -/
theorem others (honce : (hs.map (·.id)).Nodup) (htasks : f.tasks = front ++ (h, st) :: behind) :
    h ∈ hs ∧ ∀ t ∈ front ++ behind, t ∈ f.tasks ∧ t.1 ∈ hs ∧ h.id ≠ t.1.id := by
  have hmem : ∀ t ∈ f.tasks, t.1 ∈ hs := fun t ht => hf.handlers ▸ List.mem_map_of_mem ht
  have hmiddle : f.tasks.Perm ((h, st) :: (front ++ behind)) := htasks ▸ List.perm_middle
  refine ⟨hmem (h, st) (hmiddle.mem_iff.2 (.head _)), fun t ht => ?_⟩
  have htask := hmiddle.mem_iff.2 (List.mem_cons_of_mem _ ht)
  refine ⟨htask, hmem t htask, fun heq => ?_⟩
  rw [← hf.handlers, List.map_map, (hmiddle.map _).nodup_iff, List.map_cons, List.nodup_cons] at honce
  exact honce.1 (List.mem_map.2 ⟨t, ht, heq.symm⟩)

/-- A task goes on. -/
theorem goes (hapart : Router.Apart d.message parts w₀ hs) (honce : (hs.map (·.id)).Nodup)
    (hdeadline : (w₀.deadline d.timeout).tick ≤ d.horizon)
    (htasks : f.tasks = front ++ (h, st) :: behind) (hstep : d.step h f.world st = some (st', w)) :
    d.Tracked parts hs w₀ { f with world := w, tasks := front ++ (h, st') :: behind } := by
  obtain ⟨hh, hothers⟩ := hf.others honce htasks
  have htask : (h, st) ∈ f.tasks := htasks ▸ List.mem_append_right _ (.head _)
  have hst := hf.keeps _ htask
  have hnow := step_now hstep
  obtain ⟨hhanded, hhanded'⟩ := handed_of_step hstep
  have hscope : ∀ p, parts h.id p → scope parts hs h p := fun p hp => .inl hp
  refine ⟨?_, ?_, ?_, ?_, ?_, ?_, fun s hs => ?_⟩
  · rw [← hf.handlers, htasks, List.map_append, List.map_append, List.map_cons, List.map_cons]
  · exact forall_mem_middle.2
      ⟨step_keeps (hapart.keeps h hh) hst hstep, fun t ht => hf.keeps t (hothers t ht).1⟩
  · refine forall_mem_middle.2 ⟨?_, fun t ht => ?_⟩
    · exact (hf.follows _ htask).goes (hst.mono hscope) (scope_counts hapart hh) hstep
    · obtain ⟨ht, hmem, hne⟩ := hothers t ht
      exact (hf.follows t ht).aside
        (step_apart hst (fun p hp => not_scope_of_other hapart hmem hh hne hp) hstep) hnow
  · refine forall_mem_middle.2 ⟨fun hfresh => ?_, fun t ht hfresh => ?_⟩
    · obtain rfl : st' = .fresh := hfresh
      rcases stage_of_step hstep with h | h | ⟨-, -, h⟩ <;> cases h
    · exact hnow.trans (hf.onTime t (hothers t ht).1 hfresh)
  · refine forall_mem_middle.2 ⟨fun hbroken => ?_, fun t ht => hf.whole t (hothers t ht).1⟩
    obtain rfl : st' = .gone none := hbroken
    obtain ⟨rfl, hlate, -⟩ : st = .fresh ∧ _ := by
      rcases stage_of_step hstep with h | h | h
      · cases h
      · cases h
      · exact h
    have hbegins := hf.onTime _ htask rfl
    unfold World.deadline at hlate hdeadline
    rw [hbegins] at hlate
    exact absurd hdeadline (Nat.not_le_of_lt hlate)
  · refine hf.handed.trans (.of_eq ?_)
    simp only [htasks, List.filterMap_append, List.filterMap_cons, hhanded, hhanded']
  · rw [value_step hst (hapart.uncounted h hh) hs hstep, hf.counted s hs, htasks]
    simp only [List.flatMap_append, List.flatMap_cons, List.count_append,
      (booked_of_step hstep).2.2, List.count_nil]
    omega

/-- A task hands over its result. -/
theorem hands {r : CommandResult} (honce : (hs.map (·.id)).Nodup)
    (htasks : f.tasks = front ++ (h, .answering r) :: behind) :
    d.Tracked parts hs w₀ { f with
      tasks := front ++ (h, .gone (some r)) :: behind, channel := f.channel ++ [r] } := by
  obtain ⟨-, hothers⟩ := hf.others honce htasks
  have htask : (h, .answering r) ∈ f.tasks := htasks ▸ List.mem_append_right _ (.head _)
  refine ⟨?_, ?_, ?_, ?_, ?_, ?_, fun s hs => ?_⟩
  · rw [← hf.handlers, htasks, List.map_append, List.map_append, List.map_cons, List.map_cons]
  · exact forall_mem_middle.2 ⟨trivial, fun t ht => hf.keeps t (hothers t ht).1⟩
  · exact forall_mem_middle.2
      ⟨(hf.follows _ htask).hands, fun t ht => hf.follows t (hothers t ht).1⟩
  · exact forall_mem_middle.2 ⟨nofun, fun t ht => hf.onTime t (hothers t ht).1⟩
  · exact forall_mem_middle.2 ⟨nofun, fun t ht => hf.whole t (hothers t ht).1⟩
  · have hbefore := hf.handed
    simp only [htasks, List.filterMap_append, List.filterMap_cons, Stage.handed?] at hbefore ⊢
    rw [← List.append_assoc]
    exact (hbefore.append_right [r]).trans
      (List.perm_append_singleton _ _ |>.trans List.perm_middle.symm)
  · have hbefore := hf.counted s hs
    simp only [htasks, List.flatMap_append, List.flatMap_cons] at hbefore ⊢
    exact hbefore

/-- A result is collected. -/
theorem takes {r : CommandResult} {rest : List CommandResult} (hchannel : f.channel = r :: rest) :
    d.Tracked parts hs w₀ { f with channel := rest, results := f.results ++ [r] } where
  handlers := hf.handlers
  keeps := hf.keeps
  follows := hf.follows
  onTime := hf.onTime
  whole := hf.whole
  handed := by
    have hbefore := hf.handed
    rw [hchannel] at hbefore
    rwa [List.append_assoc]
  counted := hf.counted

/-- A notice goes on. -/
theorem stirs (hstirs : f.world.Stirs w) : d.Tracked parts hs w₀ { f with world := w } where
  handlers := hf.handlers
  keeps := hf.keeps
  follows t ht := (hf.follows t ht).stirs hstirs
  onTime t ht hfresh := hstirs.now.trans (hf.onTime t ht hfresh)
  whole := hf.whole
  handed := hf.handed
  counted s hs := hstirs.lasts (World.lasts_value hs _) (hf.counted s hs)

/-- Time passes. -/
theorem passes {tick : Nat} (hapart : Router.Apart d.message parts w₀ hs) (hquiet : d.Quiet f)
    (hlater : f.world.now < tick) (htimers : ∀ t ∈ f.timers, tick ≤ t) :
    d.Tracked parts hs w₀ { f with world := f.world.reach tick } where
  handlers := hf.handlers
  keeps := hf.keeps
  follows t ht := by
    have hh : t.1 ∈ hs := hf.handlers ▸ List.mem_map_of_mem ht
    obtain ⟨hwaits, hanswering⟩ := hquiet.waiting t ht
    refine (hf.follows t ht).passes ((hf.keeps t ht).mono fun p hp => .inl hp)
      (scope_counts hapart hh) hwaits hanswering hquiet.ready hlater (fun n hn => ?_) fun s hs => ?_
    · exact htimers n (List.mem_append_left _ (List.mem_filterMap.2 ⟨t, ht, hn⟩))
    · exact htimers s.1 (List.mem_append_right _ (List.mem_map_of_mem hs))
  onTime t ht hfresh := by
    -- who has not begun does not wait
    obtain ⟨h, st⟩ := t
    obtain rfl : st = .fresh := hfresh
    have hwaits := (hquiet.waiting _ ht).1
    simp only [step] at hwaits
    split at hwaits <;> cases hwaits
  whole := hf.whole
  handed := hf.handed
  counted := hf.counted

end Steps

/-- **Whatever happens next**, the tasks go on to do what they might do by themselves. -/
theorem step (hapart : Router.Apart d.message parts w₀ hs) (honce : (hs.map (·.id)).Nodup)
    (hdeadline : (w₀.deadline d.timeout).tick ≤ d.horizon) (hf : d.Tracked parts hs w₀ f)
    (hstep : d.Steps f f') : d.Tracked parts hs w₀ f' := by
  cases hstep with
  | goes htasks hstep => exact hf.goes hapart honce hdeadline htasks hstep
  | hands htasks hroom => exact hf.hands honce htasks
  | takes hchannel => exact hf.takes hchannel
  | stirs hstirs => exact hf.stirs hstirs
  | passes hquiet hlater htimers => exact hf.passes hapart hquiet hlater htimers

end Tracked

/-- **At any time, tasks of handlers with nothing in common have come as far as they might have come
by themselves.** -/
theorem tracked_of_reaches (hapart : Router.Apart d.message parts w₀ hs)
    (honce : (hs.map (·.id)).Nodup) (hdeadline : (w₀.deadline d.timeout).tick ≤ d.horizon)
    (hreaches : d.Reaches
      { world := w₀, tasks := hs.map (·, .fresh), room := hs.length } f) :
    d.Tracked parts hs w₀ f := by
  induction hreaches with
  | refl => exact .start hapart
  | tail _ hstep ih => exact ih.step hapart honce hdeadline hstep

/-- When all results are collected, there is one of each task, and these were counted. -/
theorem Tracked.exists_answers (hf : d.Tracked parts hs w₀ f) (honce : (hs.map (·.id)).Nodup)
    (hreturned : f.Returned) : ∃ answer : Handler → CommandResult,
      f.tasks = hs.map (fun h => (h, .gone (some (answer h)))) ∧
      f.results.Perm (hs.map answer) ∧
      ∀ s : Series, s.isRouters = true → f.world.metrics.value s =
        w₀.metrics.value s + (hs.flatMap fun h => h.counted d.message (answer h)).count s := by
  have hover : ∀ t ∈ f.tasks, ∃ a, t.2 = .gone (some a) := by
    rintro ⟨h, st⟩ ht
    have hdone := hreturned.tasks _ ht
    have hwhole := hf.whole _ ht
    cases st with
    | gone a =>
      cases a with
      | none => exact absurd rfl hwhole
      | some a => exact ⟨a, rfl⟩
    | _ => cases hdone
  have hsole : ∀ t ∈ f.tasks, ∀ u ∈ f.tasks, t.1 = u.1 → t = u := by
    have hids : (f.tasks.map fun t => t.1.id).Nodup := by
      rwa [← hf.handlers, List.map_map] at honce
    exact fun t ht u hu heq => List.inj_on_of_nodup_map hids ht hu (congrArg Handler.id heq)
  have hanswer : ∀ h, ∃ a, ∀ t ∈ f.tasks, t.1 = h → t.2 = .gone (some a) := by
    intro h
    by_cases hh : ∃ t ∈ f.tasks, t.1 = h
    · obtain ⟨t, ht, rfl⟩ := hh
      obtain ⟨a, ha⟩ := hover t ht
      exact ⟨a, fun u hu heq => hsole t ht u hu heq.symm ▸ ha⟩
    · exact ⟨⟨"", none⟩, fun t ht heq => absurd ⟨t, ht, heq⟩ hh⟩
  choose answer hanswer using hanswer
  have htasks : f.tasks = hs.map fun h => (h, .gone (some (answer h))) := by
    rw [← hf.handlers, List.map_map]
    refine (List.map_id'' (fun t => rfl) f.tasks).symm.trans (List.map_congr_left fun t ht => ?_)
    exact Prod.ext rfl (hanswer t.1 t ht rfl)
  refine ⟨answer, htasks, ?_, fun s hs => ?_⟩
  · have hhanded := hf.handed
    rw [hreturned.channel, List.append_nil, htasks, List.filterMap_map] at hhanded
    exact hhanded.trans (.of_eq (congrFun List.filterMap_eq_map hs))
  · rw [hf.counted s hs, htasks, List.flatMap_map]
    rfl

end Dispatch

end Takeaway
