import Takeaway.Proofs.Coverage.Conduct
import Takeaway.Proofs.Engine.Run

/-!
What the engine does about a message is of good conduct, whichever calls of the store and attempts
to send fail on the way. Main statement: what is said when a message is handled weighs less than
the message, unless some units were packed for good.
-/

namespace Takeaway

open World (Aside Orderly)

variable {w w' w'' : World} {m : Menu} {l l' : List Deed}

/-! ### Calm work -/

/-- Calm work is as expected if it says nothing wrong. -/
theorem Flow.Calm.duty {α : Type} {x : Flow α} {p : Envelope → Prop} {k : Nat} (hx : x.Calm p)
    (hw : w.Sound m) (hp : ∀ e, p e → w.Vouches m e ∧ e.isUpdate = false ∧ e.weight ≤ k) :
    x.Surely w fun l _ w' => Duty m k l w w' := by
  refine (hx.surely w).imp ?_
  rintro l a w' ⟨hstore, hkeep, hsaid⟩
  exact .of_keep hw (congrArg (·.store.orders) hstore) hkeep fun e he => hp e (hsaid e he)

theorem calm_addUnits (item : String) (q : Quantity) :
    (addUnits item q).Calm fun e => ∃ time, e = .itemAdded ⟨item, q⟩ time := by
  unfold addUnits
  refine Flow.Calm.bind (Flow.calm_ask trivial) fun b => ?_
  cases b
  · trivial
  · exact Flow.Calm.bind (Flow.calm_ask trivial) fun time => calm_notify ⟨time, rfl⟩

/-! ### The kitchen -/

namespace Kitchen

theorem calm_cook (p : List (Item × Span)) :
    (cook p).Calm fun e => ∃ i ∈ p.map (·.1), ∃ time, e = .itemAdded i time := by
  induction p with
  | nil => trivial
  | cons l r ih =>
    obtain ⟨i, s⟩ := l
    have hrest : (cook r).Calm fun e => ∃ j ∈ i :: r.map (·.1), ∃ time, e = .itemAdded j time := by
      refine ih.mono ?_
      rintro e ⟨j, hj, he⟩
      exact ⟨j, List.mem_cons_of_mem _ hj, he⟩
    unfold cook
    split
    · refine Flow.Calm.bind (fun _ => trivial) fun _ => Flow.Calm.bind ?_ fun _ => hrest
      refine (calm_addUnits i.name i.quantity).mono ?_
      rintro e ⟨time, rfl⟩
      exact ⟨i, List.mem_cons_self .., time, rfl⟩
    · exact hrest

/-- There is no plan but for items that are on the menu. -/
theorem known_of_plan {menu : Menu} {scale : Double} {lines : List Item} {p : List (Item × Span)}
    (h : plan menu scale lines = .ok p) : ∀ i ∈ lines, ∃ b, menu.isInstant i.name = .ok b := by
  unfold plan at h
  induction lines generalizing p with
  | nil => exact fun i hi => by cases hi
  | cons i r ih =>
    rw [List.mapM_cons] at h
    obtain ⟨l, hl, h⟩ := Except.of_bind_ok h
    obtain ⟨q, hq, -⟩ := Except.of_bind_ok h
    refine List.forall_mem_cons.2 ⟨?_, ih hq⟩
    unfold Menu.isInstant
    cases he : menu.entry i.name with
    | ok entry => exact ⟨entry.isInstant, rfl⟩
    | error f =>
      unfold preparation Menu.preparation at hl
      rw [he] at hl
      cases hl

theorem surely_prepare (hw : w.Sound m) (scale : Double) (lines : List Item) :
    WorkSurely (prepare m scale lines) w fun l _ w' => Duty m 0 l w w' := by
  unfold prepare
  refine workSurely_bind_ofRefusal (fun p hp => ?_) fun _ _ => .of_idle hw rfl Deeds.idle_nil
  have hcook := calm_cook p
  rw [plan_lines hp] at hcook
  refine Flow.Calm.duty (calmWork_lift hcook) hw ?_
  rintro e ⟨i, hi, time, rfl⟩
  have hevent := Envelope.event_itemAdded i time
  exact ⟨.itemAdded (known_of_plan hp i hi) time, Envelope.isUpdate_of_event hevent,
    (Envelope.weight_of_event hevent).le⟩

end Kitchen

/-! ### Arrivals and collections -/

namespace Engine

theorem surely_restockAll {c : Coverage} (d : Deadline) (hw : w.Orderly c.menu)
    (items : List String) :
    WorkSurely (restockAll c d items) w fun l _ w' => Restocking c.menu l w w' := by
  induction items generalizing w with
  | nil => exact workSurely_pure (.of_idle hw.sound rfl Deeds.idle_nil)
  | cons item r ih =>
    unfold restockAll
    have hrestock := Flow.Surely.and (c.surely_restock d hw.sound item)
      (Flow.surely_tidy (c.restock d item).run hw.toTidy)
    refine Flow.Surely.bind_lift hrestock ?_
    rintro l₁ res v ⟨h₁, htidy⟩
    have hrest := ih ⟨htidy, h₁.sound⟩
    split
    · exact hrest.imp fun l₂ _ w' h₂ => h₁.append h₂
    · exact hrest.imp fun l₂ _ w' h₂ => h₁.append h₂
    · refine workSurely_throw ?_
      rwa [List.append_nil]

theorem surely_handOver (hw : w.Sound m) (n : OrderNumber) (d : Deadline) :
    WorkSurely (handOver n d) w fun l _ w' => Duty m 0 l w w' := by
  unfold handOver
  refine WorkSurely.bind (Coverage.surely_load d n) ?_ ?_
  · rintro l₁ o v ⟨h₁, hv, ho⟩
    have hfirst : Duty m 0 l₁ w v := .of_idle hw hv.orders h₁
    have ho := ho o rfl
    obtain ⟨hsound, rfl⟩ := hfirst.sound n o ho
    refine workSurely_bind_ofRefusal (fun new hc => ?_) fun _ _ => ?_
    · obtain ⟨hs, -⟩ := hsound.collect hc
      have hx := Order.onward_collect hc
      split
      · next hne =>
        refine WorkSurely.bind (Coverage.surely_saveOrder d new) ?_ ?_
        · rintro l₂ _ v' (⟨-, -, f, ⟨⟩⟩ | ⟨l', u, hl', hu, rfl, rfl, -⟩)
          refine Flow.Surely.bind_lift surely_clock ?_
          rintro l₃ time w' ⟨h₃, rfl⟩
          refine workSurely_lift ((surely_tell o.number (by simpa using hne) time).imp ?_)
          intro l₄ _ w'' h₄
          have hvo : u.orders.find? new.number = some o := by rw [hx.number, hu.orders]; exact ho
          have htold := h₄.of_idle h₃
          rw [← hx.number] at htold
          have hwritten : Duty m 0 (⟨u, .save new, u.written new⟩ :: (l₃ ++ l₄)) u w'' := by
            refine .of_written (hfirst.sound.of_orders hu.orders) hvo hx hs (by simp) htold ?_
            intro x hx
            obtain ⟨time, rfl⟩ := (htold.said x hx).resolve_right (by simp)
            exact (Envelope.weight_of_event (Envelope.event_statusUpdated ..)).le
          have hidle : Duty m 0 l' v u := .of_idle hfirst.sound hu.orders hl'
          simpa only [List.append_assoc, List.singleton_append, List.nil_append] using
            hfirst.append (hidle.append hwritten)
        · rintro l₂ f v' (⟨hl₂, horders, -⟩ | ⟨-, -, -, -, -, -, ⟨⟩⟩)
          exact hfirst.append (.of_idle hfirst.sound horders hl₂)
      · refine workSurely_pure ?_
        simpa using hfirst
    · rwa [List.append_nil]
  · rintro l f v ⟨hl, hv, -⟩
    exact .of_idle hw hv.orders hl

end Engine

/-! ### Jobs -/

/-- A message of the given weight was handled: no more units are missing than before, and what was
said weighs less, unless some units were packed for good. Nothing was said that is asked for from
outside. -/
structure Handling (m : Menu) (k : Nat) (l : List Deed) (w w' : World) : Prop
    extends Conduct m l w w' where
  lacking : w'.lacking ≤ w.lacking
  light : ∀ x ∈ Deeds.said l, x.weight ≤ 2
  lighter : (∀ x ∈ Deeds.said l, x.weight < k) ∨ w'.lacking < w.lacking

namespace Handling

variable {k : Nat}

theorem of_duty (h : Duty m k l w w') (hk : k ≤ 2) : Handling m (k + 1) l w w' :=
  ⟨h.toConduct, h.lacking, fun x hx => (h.light x hx).trans hk,
    .inl fun x hx => Nat.lt_succ_of_le (h.light x hx)⟩

theorem of_restocking (h : Restocking m l w w') : Handling m k l w w' :=
  ⟨h.toConduct, h.lacking, h.light, h.earned.imp_left fun hnil x hx => by rw [hnil] at hx; cases hx⟩

theorem mono {k' : Nat} (h : Handling m k l w w') (hk : k ≤ k') : Handling m k' l w w' :=
  ⟨h.toConduct, h.lacking, h.light, h.lighter.imp_left fun hlt x hx => (hlt x hx).trans_le hk⟩

theorem of_idle (hw : w.Sound m) (h : w'.orders = w.orders) (hl : Deeds.Idle l) :
    Handling m k l w w' := .of_restocking (.of_idle hw h hl)

/-- Idle deeds may come before and after. -/
theorem between {v v' : World} {l₁ l₂ : List Deed} (hw : w.Sound m) (hl₁ : Deeds.Idle l₁)
    (h₁ : v.orders = w.orders) (h : Handling m k l v v') (hl₂ : Deeds.Idle l₂)
    (h₂ : w'.orders = v'.orders) : Handling m k (l₁ ++ (l ++ l₂)) w w' := by
  have hfirst : Duty m 0 l₁ w v := .of_idle hw h₁ hl₁
  have hlast : Duty m 0 l₂ v' w' := .of_idle h.sound h₂ hl₂
  have hsaid : ∀ x ∈ Deeds.said (l₁ ++ (l ++ l₂)), x ∈ Deeds.said l := fun x hx => by
    simpa only [Deeds.mem_said_append, hl₁.silent, hl₂.silent, List.not_mem_nil, false_or,
      or_false] using hx
  refine ⟨hfirst.toConduct.append (h.toConduct.append hlast.toConduct),
    (hlast.lacking.trans h.lacking).trans hfirst.lacking, fun x hx => h.light x (hsaid x hx), ?_⟩
  rcases h.lighter with hlt | hlt
  · exact .inl fun x hx => hlt x (hsaid x hx)
  · exact .inr ((hlast.lacking.trans_lt hlt).trans_le hfirst.lacking)

end Handling

namespace Job

/-- The weight of the messages that ask for a job. -/
def weight : Job → Nat
  | cover _ | sweep | handOver _ => 3
  | prepare _ => 2
  | restock _ | record _ => 0

variable {e : Engine}

theorem surely_work (hw : w.Orderly e.menu) (j : Job) (d : Deadline) :
    WorkSurely (j.work e d) w fun l _ w' => Handling e.menu j.weight l w w' := by
  cases j with
  | cover n =>
    refine WorkSurely.bind (e.coverage.surely_coverNew d hw.sound n) ?_ ?_
    · intro l _ w' h
      refine workSurely_pure ?_
      rw [List.append_nil]
      exact .of_duty h le_rfl
    · exact fun l f w' h => .of_duty h le_rfl
  | restock lines =>
    exact (Engine.surely_restockAll (c := e.coverage) d hw _).imp fun l _ w' h => .of_restocking h
  | sweep =>
    refine WorkSurely.bind (e.coverage.surely_sweep d hw) ?_ ?_
    · intro l _ w' h
      refine workSurely_pure ?_
      rw [List.append_nil]
      exact .of_duty h le_rfl
    · exact fun l f w' h => .of_duty h le_rfl
  | handOver n =>
    exact (Engine.surely_handOver hw.sound n d).imp fun l _ w' h =>
      (Handling.of_duty h (Nat.zero_le 2)).mono (by decide : 1 ≤ 3)
  | record s =>
    refine workSurely_lift (Flow.surely_ask fun r v hr => ?_)
    cases hr
    exact .of_idle hw.sound rfl (Deeds.idle_one rfl rfl rfl)
  | prepare lines =>
    exact (Kitchen.surely_prepare hw.sound e.settings.timeScale lines).imp fun l _ w' h =>
      (Handling.of_duty h (Nat.zero_le 2)).mono (Nat.le_succ 1)

end Job

namespace Engine

variable {e : Engine}

theorem idle_count (w : World) (s : Series) (n : Nat) :
    Deeds.Idle [⟨w, .count s n, (w.perform (.count s n)).2⟩] := Deeds.idle_one rfl rfl rfl

theorem surely_flow (hw : w.Orderly e.menu) (j : Job) :
    (j.flow e).Surely w fun l _ w' => Handling e.menu j.weight l w w' := by
  unfold Job.flow
  refine Flow.Surely.bind (p := fun l _ v => Deeds.Idle l ∧ v = w)
    (Flow.surely_ask fun r v hr => ?_) ?_
  · cases hr
    exact ⟨Deeds.idle_one rfl rfl rfl, rfl⟩
  rintro l₁ d w ⟨h₁, rfl⟩
  refine Flow.Surely.bind (Job.surely_work hw j d) fun l₂ res v h₂ => ?_
  refine Flow.surely_act (a := .count _ 1) fun r v₁ hr => ?_
  cases hr
  refine Flow.surely_act (a := .count _ 1) fun r v₂ hr => Flow.surely_done ?_
  cases hr
  exact .between hw.sound h₁ rfl h₂ ((idle_count ..).append (idle_count ..)) rfl

/-- A job weighs as much as the message that asks for it. -/
theorem weight_of_job {x : Envelope} {j : Job} (h : e.job x = .ok j) : j.weight = x.weight := by
  have hread : ∀ {α : Type} {kind : String} {r : Except MessageFailure α} {f : α → Job},
      Job.read kind (f <$> r) = .ok j → ∃ a, j = f a := by
    intro α kind r f hj
    rcases r with x | a <;> cases hj
    exact ⟨a, rfl⟩
  unfold job at h
  unfold Envelope.weight
  generalize x.event = event at h ⊢
  rcases event with f | event
  · cases f <;> cases h
  cases event with
  | orderPlaced =>
    obtain ⟨n, rfl⟩ := hread h
    rfl
  | itemAdded =>
    obtain ⟨lines, rfl⟩ := hread h
    rfl
  | sweepRequested =>
    cases h
    rfl
  | orderCollected =>
    obtain ⟨n, rfl⟩ := hread h
    rfl
  | statusUpdated =>
    obtain ⟨s, -, h⟩ := Except.of_bind_ok (Except.of_mapError_ok h)
    obtain ⟨n, -, h⟩ := Except.of_bind_ok h
    cases h
    rfl
  | itemRequested =>
    dsimp only at h
    split at h
    · obtain ⟨n, -, h⟩ := Except.of_bind_ok (Except.of_mapError_ok h)
      rcases hl : x.decode Item.linesReader with f | lines <;> rw [hl] at h <;> cases h
      rfl
    · cases h

/-- **What is said when a message is handled weighs less than the message**, unless some units were
packed for good. -/
theorem surely_response (hw : w.Orderly e.menu) (x : Envelope) :
    (e.response x).Surely w fun l _ w' => Handling e.menu x.weight l w w' := by
  unfold response
  cases hj : e.job x with
  | error r =>
    refine Flow.surely_act (a := .count _ 1) fun r v hr => Flow.surely_done ?_
    cases hr
    exact .of_idle hw.sound rfl (idle_count ..)
  | ok j =>
    rw [← weight_of_job hj]
    exact surely_flow hw j

end Engine

end Takeaway
