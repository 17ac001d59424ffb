import Takeaway.Proofs.Command.Running
import Takeaway.Proofs.Message.Codec

/-!
The router. Main statement: of handlers that have no part of the world in common, each that is
registered for a message handles it once, and hands over what it might if it were the only one,
whatever becomes of the others and in whichever order things happen; what is counted are these
results; and if no command waits without end, all of them are collected.
-/

namespace Takeaway

variable {w : World} {m : Envelope} {h : Handler}

namespace Router

/-! ### Registration -/

/-- The router after some calls of `register`. -/
def registering (timeout : Span) (calls : List (List Event × Handler)) : Router :=
  calls.foldl (fun r c => r.register c.1 c.2) { timeout := timeout }

/-- Registered for an event, by one of some calls. -/
def Registered (calls : List (List Event × Handler)) (event : Event) (h : Handler) : Prop :=
  ∃ c ∈ calls, event ∈ c.1 ∧ c.2 = h

section Registration

variable (timeout : Span) {calls : List (List Event × Handler)} {c : List Event × Handler}
  {event : Event}

theorem registering_concat :
    registering timeout (calls ++ [c]) = (registering timeout calls).register c.1 c.2 :=
  List.foldl_concat ..

theorem registered_concat :
    Registered (calls ++ [c]) event h ↔ Registered calls event h ∨ event ∈ c.1 ∧ c.2 = h := by
  unfold Registered
  simp only [List.mem_append, List.mem_singleton, or_and_right, exists_or, exists_eq_left]

theorem timeout_registering (calls : List (List Event × Handler)) :
    (registering timeout calls).timeout = timeout := by
  induction calls using List.reverseRecOn with
  | nil => rfl
  | append_singleton calls c ih =>
    rw [registering_concat]
    exact ih

theorem ids_enlisted {hs : List Handler} (honce : (hs.map (·.id)).Nodup) :
    ((enlisted h hs).map (·.id)).Nodup := by
  unfold enlisted
  split
  · exact honce
  · rename_i hnew
    rw [List.map_append, List.nodup_append]
    refine ⟨honce, List.nodup_singleton _, ?_⟩
    rintro i hi j hj rfl
    obtain rfl := List.mem_singleton.1 hj
    obtain ⟨g, hg, heq⟩ := List.mem_map.1 hi
    exact hnew (List.any_eq_true.2 ⟨g, hg, beq_iff_eq.2 heq⟩)

theorem mem_enlisted {g : Handler} {hs : List Handler} (hsame : ∀ f ∈ hs, f.id = h.id → f = h) :
    g ∈ enlisted h hs ↔ g ∈ hs ∨ h = g := by
  unfold enlisted
  split
  · rename_i hthere
    obtain ⟨f, hf, hid⟩ := List.any_eq_true.1 hthere
    obtain rfl := hsame f hf (beq_iff_eq.1 hid)
    refine ⟨.inl, ?_⟩
    rintro (hg | rfl)
    · exact hg
    · exact hf
  · rw [List.mem_append, List.mem_singleton, eq_comm (a := g)]

/-- However often a handler is registered for an event, it is there once. -/
theorem ids_handlers (calls : List (List Event × Handler)) (event : Event) :
    (((registering timeout calls).handlers event).map (·.id)).Nodup := by
  induction calls using List.reverseRecOn with
  | nil => exact List.nodup_nil
  | append_singleton calls c ih =>
    rw [registering_concat]
    unfold register
    dsimp only
    split
    · exact ids_enlisted ih
    · exact ih

/-- The handlers for an event are those that were registered for it. -/
theorem mem_handlers (hsame : ∀ c ∈ calls, ∀ d ∈ calls, c.2.id = d.2.id → c.2 = d.2) :
    h ∈ (registering timeout calls).handlers event ↔ Registered calls event h := by
  induction calls using List.reverseRecOn generalizing h with
  | nil =>
    refine ⟨fun hh => absurd hh List.not_mem_nil, ?_⟩
    rintro ⟨c, hc, -⟩
    exact absurd hc List.not_mem_nil
  | append_singleton calls c ih =>
    have hbefore : ∀ {g}, g ∈ (registering timeout calls).handlers event ↔
        Registered calls event g :=
      ih fun a ha b hb => hsame a (List.mem_append_left _ ha) b (List.mem_append_left _ hb)
    rw [registering_concat, registered_concat, ← hbefore]
    unfold register
    dsimp only
    split
    · rename_i hmem
      rw [mem_enlisted fun f hf => ?_]
      · simp only [List.contains_iff_mem.1 hmem, true_and]
      · obtain ⟨b, hb, -, rfl⟩ := hbefore.1 hf
        exact hsame b (List.mem_append_left _ hb) c
          (List.mem_append_right _ (List.mem_singleton_self c))
    · rename_i hmem
      have hnot : event ∉ c.1 := fun hc => hmem (List.contains_iff_mem.2 hc)
      rw [or_iff_left fun hc => hnot hc.1]

theorem mem_handlers_of_apart {parts : Nat → Part → Prop}
    (hapart : Apart m parts w (calls.map (·.2))) :
    h ∈ (registering timeout calls).handlers event ↔ Registered calls event h :=
  mem_handlers timeout fun _ hc _ hd =>
    hapart.same _ (List.mem_map_of_mem hc) _ (List.mem_map_of_mem hd)

theorem handlers_of_unregistered (hnone : ∀ h, ¬ Registered calls event h) :
    (registering timeout calls).handlers event = [] := by
  induction calls using List.reverseRecOn with
  | nil => rfl
  | append_singleton calls c ih =>
    rw [registering_concat]
    unfold register
    dsimp only
    rw [if_neg fun hc => hnone c.2 (registered_concat.2 (.inr ⟨List.contains_iff_mem.1 hc, rfl⟩))]
    exact ih fun h hh => hnone h (registered_concat.2 (.inl hh))

end Registration

/-! ### Where a message goes -/

section Resolving

variable {r : Router} {event : Event}

theorem handlers_of_resolve {hs : List Handler} (hresolve : r.resolve m = .ok hs) :
    ∃ event, m.event = .ok event ∧ r.handlers event = hs ∧ hs ≠ [] := by
  unfold resolve at hresolve
  cases hevent : m.event with
  | error f =>
    rw [hevent] at hresolve
    cases f <;> cases hresolve
  | ok event =>
    rw [hevent] at hresolve
    dsimp only at hresolve
    split at hresolve
    · cases hresolve
    · next hsome =>
      cases hresolve
      exact ⟨event, rfl, rfl, hsome⟩

theorem resolve_of_handlers (hevent : m.event = .ok event) (hsome : r.handlers event ≠ []) :
    r.resolve m = .ok (r.handlers event) := by
  unfold resolve
  rw [hevent]
  dsimp only
  cases hhs : r.handlers event with
  | nil => exact absurd hhs hsome
  | cons h hs => rfl

/-- A message of no event, or of one without handlers, goes to none. -/
theorem resolve_of_unhandled (hnone : ∀ event, m.event = .ok event → r.handlers event = []) :
    ∃ f, r.resolve m = .error f := by
  unfold resolve
  cases hevent : m.event with
  | error f => cases f <;> exact ⟨_, rfl⟩
  | ok event =>
    dsimp only
    rw [hnone event hevent]
    exact ⟨_, rfl⟩

/-- A message goes to the handlers for its event. -/
theorem flows_of_handlers (hevent : m.event = .ok event) (hsome : r.handlers event ≠ []) :
    r.flows m = (r.handlers event).map (r.handle · m) := by
  unfold flows
  rw [resolve_of_handlers hevent hsome]

/-- Each of the handlers has a task of its own. -/
theorem fanout_of_handlers (hevent : m.event = .ok event) (hsome : r.handlers event ≠ []) :
    r.fanout m w =
      ⟨w, (r.handlers event).map (·, .fresh), [], (r.handlers event).length, []⟩ := by
  unfold fanout
  rw [resolve_of_handlers hevent hsome]

/-- A handler that is the only one has the only task. -/
theorem fanout_of_only {timeout : Span} {events : List Event} (hevent : m.event = .ok event)
    (hmem : event ∈ events) :
    (registering timeout [(events, h)]).fanout m w = Fanout.sole h .fresh w := by
  have hhandlers : (registering timeout [(events, h)]).handlers event = [h] :=
    if_pos (List.contains_iff_mem.2 hmem)
  rw [fanout_of_handlers hevent (by rw [hhandlers]; exact List.cons_ne_nil h []), hhandlers]
  rfl

section Error

variable {e : Fault} (hresolve : r.resolve m = .error e)
include hresolve

/-- Of a message that goes to none there is a report, and no task. -/
theorem fanout_of_error :
    r.fanout m w = ⟨w.count .unroutedEvents 1, [], [⟨routeKind, some e⟩], 1, []⟩ := by
  unfold fanout
  rw [hresolve]

theorem route_of_error :
    r.route m w = ([⟨routeKind, some e⟩], w.count .unroutedEvents 1) := by
  have hrun : ((do Flow.count .unroutedEvents; return ⟨routeKind, some e⟩) :
      Flow CommandResult).run .inTurn w = (⟨routeKind, some e⟩, w.count .unroutedEvents 1) := rfl
  unfold route flows
  rw [hresolve]
  exact Flow.runEach_of_run hrun (Nat.le_refl w.now)

end Error

end Resolving

theorem handle_congr {r r' : Router} (htimeout : r.timeout = r'.timeout) :
    r.handle h m = r'.handle h m := by
  unfold handle
  rw [htimeout]

/-! ### Whatever happens, and in one run -/

section Anyhow

variable {r : Router} {horizon : Nat}
  (hceases : ∀ event, m.event = .ok event → ∀ h ∈ r.handlers event, h.Ceases m)
include hceases

/-- **All results are collected in the end**, if no command waits without end. -/
theorem surelyReturns : r.SurelyReturns horizon m w := by
  unfold SurelyReturns
  cases hresolve : r.resolve m with
  | error e =>
    rw [fanout_of_error hresolve]
    exact Dispatch.comes_returned ⟨nofun, nofun, Nat.one_pos⟩
  | ok hs =>
    obtain ⟨event, hevent, rfl, hsome⟩ := handlers_of_resolve hresolve
    rw [fanout_of_handlers hevent hsome]
    refine Dispatch.comes_returned ⟨fun t ht => ?_, fun t ht => ?_, List.length_pos_iff.2 hsome⟩
    · obtain ⟨h, hh, rfl⟩ := List.mem_map.1 ht
      exact hceases event hevent h hh
    · obtain ⟨h, hh, rfl⟩ := List.mem_map.1 ht
      trivial

/-- **Where a message has one handler at most**, one run of it to its end is one of the ways that it
can take. -/
theorem returns_route (hfew : ∀ event, m.event = .ok event → (r.handlers event).length ≤ 1)
    (horder : w.InOrder) (hdeadline : (w.deadline r.timeout).tick ≤ horizon) :
    ∃ f, r.Returns horizon m w f ∧ f.results = (r.route m w).1 ∧ f.world = (r.route m w).2 := by
  cases hresolve : r.resolve m with
  | error e =>
    let f : Fanout := ⟨w.count .unroutedEvents 1, [], [], 1, [⟨routeKind, some e⟩]⟩
    have hreaches : Dispatch.Reaches ⟨m, r.timeout, horizon⟩ (r.fanout m w) f := by
      rw [fanout_of_error hresolve]
      exact .single (.takes rfl)
    have hroute := route_of_error (w := w) hresolve
    exact ⟨f, ⟨hreaches, rfl, nofun⟩, (congrArg Prod.fst hroute).symm,
      (congrArg Prod.snd hroute).symm⟩
  | ok hs =>
    obtain ⟨event, hevent, rfl, hsome⟩ := handlers_of_resolve hresolve
    obtain ⟨h, hh⟩ := List.length_eq_one_iff.1
      (Nat.le_antisymm (hfew event hevent) (List.length_pos_iff.2 hsome))
    rcases hrun : (r.handle h m).run .inTurn w with ⟨a, after⟩
    have hsole : Dispatch.Reaches ⟨m, r.timeout, horizon⟩ (Fanout.sole h .fresh w)
        (Fanout.sole h (.gone (some a)) after) :=
      reaches_handle hrun (hceases event hevent h (hh ▸ List.mem_singleton_self h)) horder hdeadline
    have hfanout : r.fanout m w = Fanout.sole h .fresh w := by
      rw [fanout_of_handlers hevent hsome, hh]
      rfl
    have hroute : r.route m w = ([a], after) := by
      unfold route
      rw [flows_of_handlers hevent hsome, hh]
      exact Flow.runEach_of_run hrun (Dispatch.now_le_of_reaches hsole)
    exact ⟨_, ⟨hfanout ▸ hsole, rfl, fun t ht => by rw [List.mem_singleton.1 ht]; rfl⟩,
      (congrArg Prod.fst hroute).symm, (congrArg Prod.snd hroute).symm⟩

end Anyhow

/-! ### Routing -/

variable {timeout : Span} {horizon : Nat} {calls : List (List Event × Handler)} {event : Event}
  {f : Fanout}

/-- What comes of a message that has handlers, when all results are collected: each handler has
handed over one, which is one that it may come to if it is the only one, and all that is counted are
these. A handler that hands over no notices may come to no other; and if that holds of all, running
them one after the other has the same results and counts the same. -/
structure Answered (timeout : Span) (horizon : Nat) (calls : List (List Event × Handler))
    (m : Envelope) (w : World) (event : Event) (f : Fanout) (hs : List Handler)
    (answer : Handler → CommandResult) : Prop where
  once : (hs.map (·.id)).Nodup
  handlers : ∀ h, h ∈ hs ↔ Registered calls event h
  results : f.results.Perm (hs.map answer)
  tallied : Tallied m hs answer w.metrics f.world.metrics
  alone : ∀ h ∈ hs, ∀ events, event ∈ events →
    (registering timeout [(events, h)]).Collects horizon m w [answer h]
  only : ∀ h ∈ hs, h.Silent m → ∀ events, event ∈ events → ∀ results,
    (registering timeout [(events, h)]).Collects horizon m w results → results = [answer h]
  route : (∀ h ∈ hs, h.Silent m) →
    ((registering timeout calls).route m w).1 = hs.map answer ∧
      Tallied m hs answer w.metrics ((registering timeout calls).route m w).2.metrics

/-- What comes of a message without handlers: it is reported once, and counted as such alone. -/
structure Unrouted (timeout : Span) (horizon : Nat) (calls : List (List Event × Handler))
    (m : Envelope) (w : World) : Prop where
  surely : (registering timeout calls).SurelyReturns horizon m w
  reported : ∃ e, (registering timeout calls).resolve m = .error e ∧
    ((registering timeout calls).route m w).1 = [⟨routeKind, some e⟩] ∧
    ∀ results, (registering timeout calls).Collects horizon m w results →
      results = [⟨routeKind, some e⟩]
  unrouted : ∀ f, (registering timeout calls).Returns horizon m w f →
    f.world.metrics.value .unroutedEvents = w.metrics.value .unroutedEvents + 1
  others : ∀ f, (registering timeout calls).Returns horizon m w f → ∀ s : Series,
    s.isRouters = true → s ≠ .unroutedEvents →
      f.world.metrics.value s = w.metrics.value s

section Only

variable {events : List Event} (hevent : m.event = .ok event) (hmem : event ∈ events)
include hevent hmem

/-- What a task has handed over among others may be collected of the handler by itself. -/
theorem collects_of_follows {P : Part → Prop} {v : World} {a : CommandResult}
    (hf : Dispatch.Follows ⟨m, timeout, horizon⟩ P w v h (.gone (some a))) :
    (registering timeout [(events, h)]).Collects horizon m w [a] := by
  obtain ⟨u, hreaches, -⟩ := hf
  refine ⟨Fanout.sole h (.gone (some a)) u, ⟨?_, rfl, fun t ht => ?_⟩, rfl⟩
  · rw [timeout_registering, fanout_of_only hevent hmem]
    exact hreaches
  · obtain rfl := List.mem_singleton.1 ht
    rfl

/-- A handler that is the only one and hands over no notices has one result. -/
theorem eq_of_collects {parts : Nat → Part → Prop} (hapart : Apart m parts w [h])
    (hdeadline : (w.deadline timeout).tick ≤ horizon) (hsilent : h.Silent m)
    {results : List CommandResult}
    (hcollects : (registering timeout [(events, h)]).Collects horizon m w results) :
    results = [((({ timeout := timeout } : Router).handle h m).run .inTurn w).1] := by
  obtain ⟨f, ⟨hreaches, hreturned⟩, rfl⟩ := hcollects
  rw [timeout_registering, fanout_of_only hevent hmem] at hreaches
  have honce : ([h].map (·.id)).Nodup := List.nodup_singleton _
  obtain ⟨answer, htasks, hresults, -⟩ :=
    (Dispatch.tracked_of_reaches hapart honce hdeadline hreaches).exists_answers honce hreturned
  rw [List.perm_singleton.1 hresults,
    ← Dispatch.answer_of_reaches hapart hdeadline hsilent hreaches htasks]

end Only

section Answered

variable {parts : Nat → Part → Prop}

theorem apart_handlers (hapart : Apart m parts w (calls.map (·.2))) :
    Apart m parts w ((registering timeout calls).handlers event) := by
  refine hapart.mono fun h hh => ?_
  obtain ⟨c, hc, -, rfl⟩ := (mem_handlers_of_apart timeout hapart).1 hh
  exact List.mem_map_of_mem hc

/-- Handlers that run one after the other have the results that each comes to by itself. -/
theorem route_of_runs {r : Router} {answer : Handler → CommandResult} (hevent : m.event = .ok event)
    (hsome : r.handlers event ≠ []) (hapart : Apart m parts w (r.handlers event))
    (honce : ((r.handlers event).map (·.id)).Nodup)
    (hrun : ∀ h ∈ r.handlers event, ((r.handle h m).run .inTurn w).1 = answer h) :
    (r.route m w).1 = (r.handlers event).map answer ∧
      Tallied m (r.handlers event) answer w.metrics (r.route m w).2.metrics := by
  obtain ⟨hanswers, hcounts⟩ := r.runEach_handle hapart honce rfl fun _ _ => .refl _ w
  rw [← flows_of_handlers hevent hsome] at hanswers hcounts
  refine ⟨hanswers.trans (List.map_congr_left hrun),
    tallied_of_counted fun s hs => (hcounts s hs).trans ?_⟩
  rw [List.flatMap_congr fun h hh => by rw [hrun h hh]]

variable (hevent : m.event = .ok event) (hsome : ∃ h, Registered calls event h)
include hevent hsome

/-- **A message that has handlers** comes to one result of each. -/
theorem answered (hapart : Apart m parts w (calls.map (·.2)))
    (hdeadline : (w.deadline timeout).tick ≤ horizon)
    (hreturns : (registering timeout calls).Returns horizon m w f) :
    ∃ hs answer, Answered timeout horizon calls m w event f hs answer := by
  have hmem : ∀ {h}, h ∈ (registering timeout calls).handlers event ↔ Registered calls event h :=
    mem_handlers_of_apart timeout hapart
  have hhandlers : (registering timeout calls).handlers event ≠ [] :=
    List.ne_nil_of_mem (hmem.2 hsome.choose_spec)
  have honce := ids_handlers timeout calls event
  have hamong : Apart m parts w ((registering timeout calls).handlers event) :=
    apart_handlers hapart
  obtain ⟨hreaches, hreturned⟩ := hreturns
  rw [timeout_registering, fanout_of_handlers hevent hhandlers] at hreaches
  have htracked := Dispatch.tracked_of_reaches hamong honce hdeadline hreaches
  obtain ⟨answer, htasks, hresults, hvalues⟩ := htracked.exists_answers honce hreturned
  have halone : ∀ h ∈ (registering timeout calls).handlers event, ∀ events, event ∈ events →
      (registering timeout [(events, h)]).Collects horizon m w [answer h] := by
    intro h hh events hevents
    refine collects_of_follows hevent hevents (htracked.follows (h, .gone (some (answer h))) ?_)
    rw [htasks]
    exact List.mem_map_of_mem hh
  -- who hands over no notices comes to the result of a run by itself
  have hsole : ∀ h ∈ (registering timeout calls).handlers event, h.Silent m →
      ∀ events, event ∈ events → ∀ results,
        (registering timeout [(events, h)]).Collects horizon m w results →
          results = [((({ timeout := timeout } : Router).handle h m).run .inTurn w).1] := by
    intro h hh hsilent events hevents results hcollects
    refine eq_of_collects hevent hevents (hamong.mono fun g hg => ?_) hdeadline hsilent hcollects
    exact List.mem_singleton.1 hg ▸ hh
  have hanswer : ∀ h ∈ (registering timeout calls).handlers event, h.Silent m →
      ((({ timeout := timeout } : Router).handle h m).run .inTurn w).1 = answer h := by
    intro h hh hsilent
    have hevents := List.mem_singleton_self event
    exact (List.cons.inj (hsole h hh hsilent _ hevents _ (halone h hh _ hevents))).1.symm
  refine ⟨_, answer, honce, fun h => hmem, hresults, tallied_of_counted hvalues, halone,
    fun h hh hsilent events hevents results hcollects => ?_, fun hsilent => ?_⟩
  · rw [hsole h hh hsilent events hevents results hcollects, hanswer h hh hsilent]
  · refine route_of_runs hevent hhandlers hamong honce fun h hh => ?_
    have hsame : (registering timeout calls).handle h m =
        ({ timeout := timeout } : Router).handle h m :=
      handle_congr (timeout_registering timeout calls)
    rw [hsame]
    exact hanswer h hh (hsilent h hh)

end Answered

section Unrouted

variable {e : Fault} (hresolve : (registering timeout calls).resolve m = .error e)
include hresolve

/-- Where there is no task, there is one result at any time, and nothing more is counted. -/
theorem reported_of_reaches {d : Dispatch}
    (hreaches : d.Reaches ((registering timeout calls).fanout m w) f) :
    f.tasks = [] ∧ f.results ++ f.channel = [⟨routeKind, some e⟩] ∧ ∀ s : Series,
      s.isRouters = true →
        f.world.metrics.value s = (w.count .unroutedEvents 1).metrics.value s := by
  rw [fanout_of_error hresolve] at hreaches
  induction hreaches with
  | refl => exact ⟨rfl, rfl, fun _ _ => rfl⟩
  | tail _ hstep ih =>
    obtain ⟨htasks, hresults, hvalues⟩ := ih
    cases hstep with
    | goes h _ => exact absurd (htasks.symm.trans h) (by simp)
    | hands h _ => exact absurd (htasks.symm.trans h) (by simp)
    | takes hchannel =>
      refine ⟨htasks, ?_, hvalues⟩
      rw [hchannel] at hresults
      rwa [List.append_assoc]
    | stirs hstirs =>
      exact ⟨htasks, hresults, fun s hs =>
        hstirs.lasts (World.lasts_value hs _) (hvalues s hs)⟩
    | passes _ _ _ => exact ⟨htasks, hresults, hvalues⟩

/-- **A message that has no handlers** comes to one report. -/
theorem unrouted : Unrouted timeout horizon calls m w := by
  have hreport : ∀ f, (registering timeout calls).Returns horizon m w f →
      f.results = [⟨routeKind, some e⟩] ∧ ∀ s : Series, s.isRouters = true →
        f.world.metrics.value s = (w.count .unroutedEvents 1).metrics.value s := by
    rintro f ⟨hreaches, hreturned⟩
    obtain ⟨-, hresults, hvalues⟩ := reported_of_reaches hresolve hreaches
    rw [hreturned.channel, List.append_nil] at hresults
    exact ⟨hresults, hvalues⟩
  refine ⟨?_, ⟨e, hresolve, ?_, ?_⟩, fun f hf => ?_, fun f hf s hs hne => ?_⟩
  · refine surelyReturns fun event hevent h hh => ?_
    exact nomatch hresolve.symm.trans (resolve_of_handlers hevent (List.ne_nil_of_mem hh))
  · rw [route_of_error hresolve]
  · rintro results ⟨f, hf, rfl⟩
    exact (hreport f hf).1
  · rw [(hreport f hf).2 _ rfl, World.value_count_one, if_pos (beq_self_eq_true _)]
  · rw [(hreport f hf).2 s hs]
    exact World.value_count_of_ne hne w 1

end Unrouted

/-- **Each handler for a message answers it once, as it might if it were the only one**, in whichever
order things happen, and each answer is counted once; and if no command waits without end, all answers
are collected. A message without handlers has one answer, which is a failure, and that is counted. -/
theorem route_answers (timeout : Span) (horizon : Nat) {parts : Nat → Part → Prop}
    (hapart : Apart m parts w (calls.map (·.2))) :
    (∀ event, m.event = .ok event → (∃ h, Registered calls event h) →
        (w.deadline timeout).tick ≤ horizon →
        (∀ f, (registering timeout calls).Returns horizon m w f →
          ∃ hs answer, Answered timeout horizon calls m w event f hs answer) ∧
        ((∀ h, Registered calls event h → h.Ceases m) →
          (registering timeout calls).SurelyReturns horizon m w)) ∧
      ((∀ event, m.event = .ok event → ¬ ∃ h, Registered calls event h) →
        Unrouted timeout horizon calls m w) := by
  refine ⟨fun event hevent hsome hdeadline => ⟨fun f hreturns => ?_, fun hceases => ?_⟩,
    fun hnone => ?_⟩
  · exact answered hevent hsome hapart hdeadline hreturns
  · refine surelyReturns fun event' hevent' h hh => ?_
    obtain rfl : event = event' := Except.ok.inj (hevent.symm.trans hevent')
    exact hceases h ((mem_handlers_of_apart timeout hapart).1 hh)
  · obtain ⟨e, he⟩ := resolve_of_unhandled (r := registering timeout calls) fun event hevent =>
      handlers_of_unregistered timeout fun h hh => hnone event hevent ⟨h, hh⟩
    exact unrouted he

/-! Three handlers for orders, of which the first is registered twice. -/

/-- A handler whose command crashes after a second. -/
def crashing : Handler :=
  ⟨0, "crash", fun _ => .ok ⟨fun _ => do
    Flow.pause (Span.seconds 1)
    return .crashed (.said "boom")⟩⟩

/-- A handler that can use no message. -/
def refusing : Handler := ⟨1, "refuse", fun _ => .error (.malformed "no order")⟩

/-- A handler that adds to the stock. -/
def adding : Handler :=
  ⟨2, "add", fun _ => .ok ⟨fun _ => do
    let _ ← Flow.ask (.add "fries" .one)
    return .finished (.ok ())⟩⟩

/-- The calls that register them. -/
def rivals : List (List Event × Handler) :=
  [([.orderPlaced, .orderCollected], crashing), ([.orderPlaced], refusing),
    ([.orderPlaced], crashing), ([.itemAdded, .orderPlaced], adding)]

theorem rivals_cases (hh : h ∈ rivals.map (·.2)) : h = crashing ∨ h = refusing ∨ h = adding := by
  simp only [rivals, List.map_cons, List.map_nil, List.mem_cons, List.not_mem_nil] at hh
  tauto

theorem apart_rivals (m : Envelope) :
    Apart m (fun i p => i = 2 ∧ p = .item "fries") w (rivals.map (·.2)) := by
  refine ⟨fun g hg h hh hid => ?_, fun h hh c hc d => ?_, fun h _ hp => ?_,
    fun g _ h _ hid p hp hp' => hid (hp.1.trans hp'.1.symm), fun h _ hp => ?_⟩
  · rcases rivals_cases hg with rfl | rfl | rfl <;> rcases rivals_cases hh with rfl | rfl | rfl <;>
      first | rfl | cases hid
  · rcases rivals_cases hh with rfl | rfl | rfl <;> cases hc
    · exact ⟨fun p hp => hp.elim, fun _ => trivial⟩
    · exact ⟨fun p hp => ⟨rfl, hp⟩, fun _ => trivial⟩
  · cases hp.2
  · cases hp.2

/-- A message of an order. -/
def placed : Envelope := (Envelope.blank (Timestamp.ofMillis 0)).withEvent .orderPlaced

/-- None of the three is disturbed by the others; and an old tag is nobody's. -/
theorem route_answers_rivals :
    (registering (Span.seconds 5) rivals).SurelyReturns 5000 placed {} ∧
      (∀ results, (registering (Span.seconds 5) rivals).Collects 5000 placed {} results →
        results.Perm [⟨"crash", some (.crashed "boom")⟩, ⟨"refuse", some (.malformed "no order")⟩,
          ⟨"add", none⟩]) ∧
      Unrouted (Span.seconds 5) 5000 rivals
        ((Envelope.blank (Timestamp.ofMillis 0)).withTag "legacy-event") {} := by
  have hevent : placed.event = .ok .orderPlaced := Envelope.event_withEvent _ _
  have hregistered : ∀ h, Registered rivals .orderPlaced h → h ∈ rivals.map (·.2) := by
    rintro h ⟨c, hc, -, rfl⟩
    exact List.mem_map_of_mem hc
  have hrefusing : Registered rivals .orderPlaced refusing :=
    ⟨_, .tail _ (.head _), List.mem_singleton_self _, rfl⟩
  obtain ⟨hanswered, hsurely⟩ := (route_answers (Span.seconds 5) 5000 (w := {})
    (apart_rivals placed)).1 .orderPlaced hevent ⟨refusing, hrefusing⟩ (by decide)
  refine ⟨hsurely fun h hh => ?_, ?_,
    (route_answers _ _ (apart_rivals _)).2 fun event hevent => by cases hevent⟩
  · rcases rivals_cases (hregistered h hh) with rfl | rfl | rfl <;> intro c hc d <;> cases hc
    · exact ⟨rfl, fun _ => trivial⟩
    · exact fun _ => trivial
  · rintro results ⟨f, hreturns, rfl⟩
    obtain ⟨hs, answer, hf⟩ := hanswered f hreturns
    -- none of them hands over a notice
    have hsilent : ∀ h ∈ hs, h.Silent placed := by
      intro h hh
      rcases rivals_cases (hregistered h ((hf.handlers h).1 hh)) with rfl | rfl | rfl <;>
        intro c hc d <;> cases hc
      · exact fun _ => trivial
      · exact ⟨rfl, fun _ => trivial⟩
    refine hf.results.trans (.of_eq ((hf.route hsilent).1.symm.trans ?_))
    unfold route
    rw [flows_of_handlers hevent (by decide)]
    rfl

end Router

end Takeaway
