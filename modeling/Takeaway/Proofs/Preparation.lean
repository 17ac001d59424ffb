import Takeaway.Proofs.Engine.Run
import Takeaway.Proofs.Flow.Delivered
import Takeaway.Proofs.Message.Codec

/-!
The kitchen at work. Main statement: a request is refused as a whole, without any effect, for the
first line that is not on the menu; else its lines that ask for units take effect in their order,
each when the time that it and those before it take is over, whatever the deadline is.
-/

namespace Takeaway

/-! ### Units that come into stock -/

/-- Units that came into stock: when, which, and the stock before and after. -/
structure Raise where
  tick : Nat
  item : Item
  before : Stock
  after : Stock

/-- The message that announces units that came into stock. -/
def Raise.announcement (r : Raise) : Nat × Envelope :=
  (r.tick, .itemAdded r.item (Timestamp.ofMillis r.tick))

/-- The units that an action brought into stock. -/
def Deed.raise? (d : Deed) : Option Raise :=
  match d.action with
  | .add name q => some ⟨d.before.now, ⟨name, q⟩, d.before.stock, d.after.stock⟩
  | _ => none

/-- The message that an action handed over, and when. -/
def Deed.announcement? (d : Deed) : Option (Nat × Envelope) :=
  match d.action with
  | .note e => some (d.before.now, e)
  | _ => none

namespace Deeds

def raises (l : List Deed) : List Raise := l.filterMap Deed.raise?

def announcements (l : List Deed) : List (Nat × Envelope) := l.filterMap Deed.announcement?

variable {l l' : List Deed}

theorem raises_append : raises (l ++ l') = raises l ++ raises l' := List.filterMap_append

theorem announcements_append : announcements (l ++ l') = announcements l ++ announcements l' :=
  List.filterMap_append

theorem noted_eq (l : List Deed) : noted l = (announcements l).map (·.2) := by
  unfold noted announcements
  induction l with
  | nil => rfl
  | cons d r ih =>
    obtain ⟨w, a, v⟩ := d
    cases a <;> exact congrArg _ ih

end Deeds

/-! ### What a request comes to -/

namespace Kitchen

/-- The lines that ask for units. -/
def served (lines : List Item) : List Item := lines.filter fun i => decide (i.quantity.units ≠ 0)

/-- The time that some lines take, in milliseconds. -/
def cookingTime (time : String → Nat) (lines : List Item) : Nat :=
  (lines.map fun i => time i.name).sum

/-- The units that some lines bring into stock, from a tick on. -/
def courses (time : String → Nat) : Nat → Stock → List Item → List Raise
  | _, _, [] => []
  | t, s, i :: r =>
    if i.quantity.units = 0 then courses time t s r
    else ⟨t + time i.name, i, s, s.add i.name i.quantity⟩ ::
      courses time (t + time i.name) (s.add i.name i.quantity) r

variable {time : String → Nat}

theorem served_cons_of_zero {i : Item} {r : List Item} (hi : i.quantity.units = 0) :
    served (i :: r) = served r := List.filter_cons_of_neg (by simp [hi])

theorem served_cons_of_ne {i : Item} {r : List Item} (hi : i.quantity.units ≠ 0) :
    served (i :: r) = i :: served r := List.filter_cons_of_pos (by simp [hi])

theorem cookingTime_cons (time : String → Nat) (i : Item) (r : List Item) :
    cookingTime time (i :: r) = time i.name + cookingTime time r := List.sum_cons

/-- **The `k`-th line that asks for units takes effect when the first `k` of them are over.** -/
theorem courses_eq (time : String → Nat) (t : Nat) (s : Stock) (lines : List Item) :
    courses time t s lines = (served lines).mapIdx fun k i =>
      ⟨t + cookingTime time ((served lines).take (k + 1)), i, s.addAll ((served lines).take k),
        s.addAll ((served lines).take (k + 1))⟩ := by
  induction lines generalizing t s with
  | nil => rfl
  | cons i r ih =>
    unfold courses
    by_cases hi : i.quantity.units = 0
    · rw [if_pos hi, ih, served_cons_of_zero hi]
    · rw [if_neg hi, ih, served_cons_of_ne hi, List.mapIdx_cons]
      have hadd : ∀ l, s.addAll (i :: l) = (s.add i.name i.quantity).addAll l := fun l => if_neg hi
      simp only [List.take_succ_cons, cookingTime_cons, hadd, Nat.add_assoc]
      rfl

/-- What becomes of a world in which units come into stock. -/
structure Stocks (i : Item) (w : World) (l : List Deed) (w' : World) : Prop where
  raises : Deeds.raises l = [⟨w.now, i, w.stock, w.stock.add i.name i.quantity⟩]
  announcements : Deeds.announcements l =
    if w.stock.announces then [(w.now, .itemAdded i (Timestamp.ofMillis w.now))] else []
  saved : Deeds.saved l = []
  sent : Deeds.sent l = []
  clock : w'.now = w.now
  stock : w'.stock = w.stock.add i.name i.quantity
  clear : w'.Clear

/-- What becomes of a world in which some lines are cooked. -/
structure Cooks (time : String → Nat) (lines : List Item) (w : World) (l : List Deed) (w' : World) :
    Prop where
  raises : Deeds.raises l = courses time w.now w.stock lines
  announcements : Deeds.announcements l =
    if w.stock.announces then (courses time w.now w.stock lines).map Raise.announcement else []
  saved : Deeds.saved l = []
  sent : Deeds.sent l = []
  clock : w'.now = w.now + cookingTime time (served lines)
  stock : w'.stock = w.stock.addAll lines
  clear : w'.Clear

/-- Each line raises the count of its item, up to the largest one, and no other. -/
theorem raised_of_mem_courses {t : Nat} {s : Stock} {lines : List Item} {r : Raise}
    (hr : r ∈ courses time t s lines) :
    (r.after.onHand r.item.name).units =
        min ((r.before.onHand r.item.name).units + r.item.quantity.units) Quantity.largest ∧
      ∀ other, r.item.name ≠ other → r.after.onHand other = r.before.onHand other := by
  induction lines generalizing t s with
  | nil => cases hr
  | cons i rest ih =>
    unfold courses at hr
    split at hr
    · exact ih hr
    · rcases List.mem_cons.1 hr with rfl | hr
      · exact ⟨Stock.onHand_add s i.name i.quantity, fun _ => Stock.onHand_add_of_ne⟩
      · exact ih hr

namespace Cooks

variable {rank : World.Rank} {w w₁ w₂ w' : World} {l l' : List Deed} {i : Item} {r : List Item}

theorem nil (hw : w.Clear) : Cooks time [] w [] w where
  raises := rfl
  announcements := by
    unfold courses
    split <;> rfl
  saved := rfl
  sent := rfl
  clock := rfl
  stock := rfl
  clear := hw

/-- A line that asks for no units takes no time and has no effect. -/
theorem skip (hi : i.quantity.units = 0) (h : Cooks time r w l w') :
    Cooks time (i :: r) w l w' where
  raises := by rw [h.raises, courses, if_pos hi]
  announcements := by rw [h.announcements, courses, if_pos hi]
  saved := h.saved
  sent := h.sent
  clock := by rw [h.clock, served_cons_of_zero hi]
  stock := by rw [h.stock, Stock.addAll, if_pos hi]
  clear := h.clear

/-- A line that asks for units, and the lines behind it. -/
theorem cons (h' : Cooks time r w₂ l' w') (hi : i.quantity.units ≠ 0)
    (hnow : w₁.now = w.now + time i.name) (hstock : w₁.stock = w.stock) (h : Stocks i w₁ l w₂) :
    Cooks time (i :: r) w (l ++ l') w' where
  raises := by
    rw [Deeds.raises_append, h.raises, h'.raises, courses, if_neg hi, h.clock, h.stock, hnow,
      hstock]
    rfl
  announcements := by
    have hsame : w₂.stock.announces = w.stock.announces := by
      rw [h.stock, hstock]
      rfl
    rw [Deeds.announcements_append, h.announcements, h'.announcements, courses, if_neg hi, h.clock,
      hsame, h.stock, hnow, hstock]
    split <;> rfl
  saved := by rw [Deeds.saved_append, h.saved, h'.saved, List.append_nil]
  sent := by rw [Deeds.sent_append, h.sent, h'.sent, List.append_nil]
  clock := by
    rw [h'.clock, h.clock, hnow, served_cons_of_ne hi, cookingTime_cons, Nat.add_assoc]
  stock := by rw [h'.stock, h.stock, hstock, Stock.addAll, if_neg hi]
  clear := h'.clear

end Cooks

/-! ### Cooking -/

variable {rank : World.Rank} {w : World}

/-- Units come into stock and are announced at once. -/
theorem does_addUnits (hw : w.Clear) {item : String} {q : Quantity} (hq : q.units ≠ 0) :
    (addUnits item q).Does rank w fun l _ w' => Stocks ⟨item, q⟩ w l w' := by
  obtain ⟨counts, heq⟩ := w.add_eq item q
  have hclear : World.Clear { w with stock := w.stock.add item q, metrics := counts } :=
    ⟨⟨hw.isUp, hw.failing⟩, hw.room⟩
  have hpos : decide (0 < q.units) = true := decide_eq_true (Nat.pos_of_ne_zero hq)
  unfold addUnits
  refine Flow.does_act (a := .add item q) ?_
  rw [heq, hpos, Bool.and_true]
  generalize hadded : ({ w with stock := w.stock.add item q, metrics := counts } : World) = v at *
  have hnow : v.now = w.now := by rw [← hadded]
  have hstock : v.stock = w.stock.add item q := by rw [← hadded]
  cases ha : w.stock.announces with
  | false =>
    refine Flow.does_done ⟨?_, ?_, rfl, rfl, hnow, hstock, hclear⟩
    · show [_] = [_]
      rw [hstock]
    · rw [ha]
      rfl
  | true =>
    have hroom := hclear.wakes (World.Wakes.passForRoom hclear.toSending)
    have hroomNow := hclear.passForRoom_now
    have hroomStock := (World.aside_passForRoom v).stock
    refine Flow.does_act (a := .clock) (Flow.does_wait ?_)
    have hwait : v.await rank .slot none = (true, v.passForRoom) := rfl
    have hclock : v.perform .clock = (v.time, v) := rfl
    rw [hclock, hwait]
    refine Flow.does_ask (a := .note _) ⟨?_, ?_, rfl, rfl, ?_, ?_, ?_⟩
    · show [_] = [_]
      rw [hstock]
    · rw [ha]
      show [(v.passForRoom.now, _)] = [_]
      rw [hroomNow, hnow]
      show [(w.now, Envelope.itemAdded ⟨item, q⟩ (Timestamp.ofMillis v.now))] = _
      rw [hnow]
    · exact hroomNow.trans hnow
    · exact hroomStock.trans hstock
    · exact ⟨⟨hroom.isUp, hroom.failing⟩, hroom.room⟩

/-- A pause of some milliseconds. -/
theorem does_pause (hw : w.Clear) (t : Nat) : (Flow.pause (Span.millis t)).Does rank w
    fun l _ w' => l = [] ∧ w'.now = w.now + t ∧ w'.stock = w.stock ∧ w'.Clear := by
  refine Flow.does_wait (Flow.does_done ⟨rfl, ?_, ?_, ?_⟩)
  · have hnow := (w.await_pause rank (Span.millis t)).2
    rwa [Span.ticks_millis] at hnow
  · exact (w.aside_await rank (.pause (Span.millis t)) none).stock
  · exact hw.wakes (World.Wakes.await hw.toSending rank (.pause (Span.millis t)) none)

/-- **Lines are cooked one after the other**, each for its time. -/
theorem does_cook (time : String → Nat) (lines : List Item) (hw : w.Clear) :
    (cook (lines.map fun i => (i, Span.millis (time i.name)))).Does rank w fun l _ w' =>
      Cooks time lines w l w' := by
  induction lines generalizing w with
  | nil => exact Flow.does_done (.nil hw)
  | cons i r ih =>
    rw [List.map_cons]
    unfold cook
    split
    · next hq =>
      refine Flow.Does.bind (does_pause hw (time i.name)) ?_
      rintro _ _ v ⟨rfl, hnow, hstock, hv⟩
      refine Flow.Does.bind (does_addUnits hv hq) fun l _ u hu => ?_
      exact (ih hu.clear).imp fun l' _ w' hrest => hrest.cons hq hnow hstock hu
    · next hq => exact (ih hw).imp fun _ _ _ h => h.skip (Decidable.not_not.1 hq)

/-! ### Plans -/

/-- The plan for lines whose items take whole milliseconds. -/
theorem plan_of_times {menu : Menu} {scale : Double} {lines : List Item}
    (h : ∀ i ∈ lines, preparation menu scale i.name = .ok (Span.millis (time i.name))) :
    plan menu scale lines = .ok (lines.map fun i => (i, Span.millis (time i.name))) := by
  unfold plan
  induction lines with
  | nil => rfl
  | cons i r ih =>
    obtain ⟨hi, hr⟩ := List.forall_mem_cons.1 h
    rw [List.mapM_cons, hi, ih hr]
    rfl

/-- There is no plan for lines of which one is not on the menu, and the first one is to blame. -/
theorem plan_of_unknown {menu : Menu} (scale : Double) {front : List Item} {i : Item}
    (hfront : ∀ j ∈ front, menu.find? j.name ≠ none) (hi : menu.find? i.name = none)
    (behind : List Item) :
    plan menu scale (front ++ i :: behind) = .error (.unknownItem i.name) := by
  have hunknown : preparation menu scale i.name = .error (.unknownItem i.name) := by
    unfold preparation Menu.preparation Menu.entry
    rw [hi]
    rfl
  unfold plan
  induction front with
  | nil =>
    rw [List.nil_append, List.mapM_cons, hunknown]
    rfl
  | cons j r ih =>
    obtain ⟨hj, hr⟩ := List.forall_mem_cons.1 hfront
    obtain ⟨entry, hentry⟩ := Option.ne_none_iff_exists'.1 hj
    have hknown : preparation menu scale j.name = .ok (entry.preparation.scaled scale) := by
      unfold preparation Menu.preparation Menu.entry
      rw [hentry]
      rfl
    rw [List.cons_append, List.mapM_cons, hknown, ih hr]
    rfl

end Kitchen

/-! ### Requests -/

open Kitchen (served cookingTime Cooks)

/-- The lines of a request are prepared, each in its time. -/
structure Prepared (time : String → Nat) (lines : List Item) (rank : World.Rank) (w : World)
    (x : Flow Ending) : Prop where
  ending : (x.run rank w).1 = .finished (.ok ())
  /-- The lines that ask for units take effect in their order, each when it and those before it are
  over. -/
  raises : Deeds.raises (x.trail rank w) = (served lines).mapIdx fun k i =>
    ⟨w.now + cookingTime time ((served lines).take (k + 1)), i,
      w.stock.addAll ((served lines).take k), w.stock.addAll ((served lines).take (k + 1))⟩
  /-- Each of them raises the count of its item, and no other. -/
  raised : ∀ r ∈ Deeds.raises (x.trail rank w),
    (r.after.onHand r.item.name).units =
        min ((r.before.onHand r.item.name).units + r.item.quantity.units) Quantity.largest ∧
      ∀ other, r.item.name ≠ other → r.after.onHand other = r.before.onHand other
  /-- Each of them is announced at once, if additions are announced, and nothing else is said. -/
  announced : Deeds.announcements (x.trail rank w) =
    if w.stock.announces then (Deeds.raises (x.trail rank w)).map Raise.announcement else []
  sent : Deeds.sent (x.trail rank w) = []
  /-- When all notices have settled, the announcements were delivered, and with them the notices
  that were under way before, but no other message. -/
  settled : ∃ delivered : List Envelope, (x.run rank w).2.settle.broker =
      w.broker.deliverAll (delivered.map (Delivery.mk w.topic)) ∧
    (delivered : Multiset Envelope) =
      w.underWay + ((Deeds.announcements (x.trail rank w)).map (·.2) : List Envelope)
  saved : Deeds.saved (x.trail rank w) = []
  clock : (x.run rank w).2.now = w.now + cookingTime time (served lines)
  stock : (x.run rank w).2.stock = w.stock.addAll lines
  counts : ∀ item, ((x.run rank w).2.stock.onHand item).units =
    min ((w.stock.onHand item).units + Item.unitsOf item lines) Quantity.largest

theorem prepared_of_cooks {time : String → Nat} {lines : List Item} {rank : World.Rank} {w : World}
    {x : Flow Ending} (hw : w.Clear)
    (hx : x.Does rank w fun l r w' => r = .finished (.ok ()) ∧ Cooks time lines w l w') :
    Prepared time lines rank w x := by
  obtain ⟨hending, h⟩ := hx
  have hsaid : Deeds.said (x.trail rank w) =
      (Deeds.announcements (x.trail rank w)).map (·.2) := by
    unfold Deeds.said
    rw [h.sent, List.nil_append, Deeds.noted_eq]
  refine ⟨hending, ?_, fun r hr => ?_, ?_, h.sent, ?_, h.saved, h.clock, h.stock, fun item => ?_⟩
  · rw [h.raises, Kitchen.courses_eq]
  · rw [h.raises] at hr
    exact Kitchen.raised_of_mem_courses hr
  · rw [h.announcements, h.raises]
  · have hconveys := (Flow.conveys_run rank x hw.toSending).trans
      (World.Wakes.passWhile h.clear.toSending fun _ => true).toConveys
    obtain ⟨delivered, hbroker, hway⟩ := hconveys.sent
    have hnone := World.settle_of_sending h.clear.toSending
    unfold World.settle at hnone ⊢
    rw [hnone, add_zero, add_zero, hsaid] at hway
    exact ⟨delivered, hbroker, hway⟩
  · rw [h.stock]
    exact Stock.onHand_addAll lines w.stock item

/-- What a command does that does not crash is what its work does. -/
theorem does_command {α : Type} {work : Deadline → Work α} {d : Deadline} {rank : World.Rank}
    {w : World} {p : List Deed → Ending → World → Prop}
    (h : WorkDoes rank (work d) w fun l r w' => p l (.finished (r.map fun _ => ())) w') :
    ((Command.of work).run d).Does rank w p := by
  refine Flow.Does.bind h fun l r w' hr => ?_
  cases r with
  | ok a =>
    refine Flow.does_done ?_
    rwa [List.append_nil]
  | error f =>
    refine Flow.does_done ?_
    rwa [List.append_nil]

/-- **The kitchen prepares all of a request or nothing**, and takes for each line the time that it
needs, whatever the deadline is. -/
theorem Engine.prepares_paced (e : Engine) {m : Envelope} {c : Command}
    (hc : e.onItemRequested.build m = .ok c) :
    ∃ lines, m.decode Item.linesReader = .ok lines ∧
      (∀ front i behind, lines = front ++ i :: behind →
        (∀ j ∈ front, e.menu.find? j.name ≠ none) → e.menu.find? i.name = none →
        ∀ d rank w, (c.run d).run rank w = (.finished (.error (.unknownItem i.name)), w) ∧
          (c.run d).trail rank w = []) ∧
      ∀ time : String → Nat, (∀ i ∈ lines,
          Kitchen.preparation e.menu e.settings.timeScale i.name =
            .ok (Span.millis (time i.name))) →
        ∀ d rank w, w.Clear → Prepared time lines rank w (c.run d) := by
  obtain ⟨n, -, hc⟩ := Except.of_bind_ok hc
  obtain ⟨lines, hlines, hc⟩ := Except.of_bind_ok hc
  cases hc
  refine ⟨lines, Except.of_mapError_ok hlines, ?_, ?_⟩
  · rintro front i behind rfl hfront hi d rank w
    have hplan := Kitchen.plan_of_unknown e.settings.timeScale hfront hi behind
    have hdoes : ((Command.of fun _ => Kitchen.prepare e.menu e.settings.timeScale
        (front ++ i :: behind)).run d).Does rank w fun l r w' =>
          (r = .finished (.error (.unknownItem i.name)) ∧ w' = w) ∧ l = [] := by
      refine does_command ?_
      unfold Kitchen.prepare
      rw [hplan]
      exact workDoes_throw ⟨⟨rfl, rfl⟩, rfl⟩
    exact ⟨Prod.ext hdoes.1.1 hdoes.1.2, hdoes.2⟩
  · intro time htime d rank w hw
    refine prepared_of_cooks hw (does_command ?_)
    unfold Kitchen.prepare
    rw [Kitchen.plan_of_times htime]
    exact workDoes_lift ((Kitchen.does_cook time lines hw).imp fun l _ w' h => ⟨rfl, h⟩)

/-- A request for some lines. -/
def ticket (lines : List Item) : Envelope :=
  (((Envelope.blank (Timestamp.ofMillis 0)).withEvent .itemRequested).withOrder ⟨7⟩).withJson
    (Item.linesDocument lines)

theorem decode_ticket (lines : List Item) : (ticket lines).decode Item.linesReader = .ok lines := by
  unfold ticket
  rw [Envelope.decode_withJson _ _ (Item.moderate_linesDocument lines),
    Item.linesReader_linesDocument]
  rfl

/-- The kitchen has a command for every request that it can read. -/
theorem exists_build_ticket (e : Engine) (lines : List Item) :
    ∃ c, e.onItemRequested.build (ticket lines) = .ok c := by
  have hnumber : (ticket lines).orderNumber = .ok ⟨7⟩ :=
    Envelope.orderNumber_withOrder
      ((Envelope.blank (Timestamp.ofMillis 0)).withEvent .itemRequested)
      (by unfold OrderNumber.Fits; decide)
  refine ⟨.of fun _ => Kitchen.prepare e.menu e.settings.timeScale lines, ?_⟩
  unfold Engine.onItemRequested
  dsimp only
  rw [hnumber, decode_ticket]
  rfl

/-- Fries take effect after three seconds, nuggets four seconds later and more fries another three
seconds later, and the line in between takes no time; but nothing is prepared if there is pizza. -/
theorem Engine.prepares_paced_fries :
    (∃ c, ({} : Engine).onItemRequested.build (ticket
        [⟨"fries", .one⟩, ⟨"nuggets", .one⟩, ⟨"hamburger", .zero⟩, ⟨"fries", .one⟩]) = .ok c ∧
      (Deeds.raises ((c.run ⟨1, Span.millis 1⟩).trail .first {})).map
          (fun r => (r.tick, r.item)) =
        [(3000, ⟨"fries", .one⟩), (7000, ⟨"nuggets", .one⟩), (10000, ⟨"fries", .one⟩)]) ∧
    ∃ c, ({} : Engine).onItemRequested.build (ticket [⟨"fries", .one⟩, ⟨"pizza", .one⟩]) = .ok c ∧
      (c.run ⟨1, Span.millis 1⟩).run .first {} =
        (.finished (.error (.unknownItem "pizza")), {}) := by
  constructor
  · obtain ⟨c, hc⟩ := exists_build_ticket {}
      [⟨"fries", .one⟩, ⟨"nuggets", .one⟩, ⟨"hamburger", .zero⟩, ⟨"fries", .one⟩]
    refine ⟨c, hc, ?_⟩
    obtain ⟨lines, hlines, -, hpaced⟩ := Engine.prepares_paced {} hc
    cases (decode_ticket _).symm.trans hlines
    have hprepared := hpaced
      (fun name => if name = "fries" then 3000 else 4000) (by decide +kernel)
      ⟨1, Span.millis 1⟩ .first {} ⟨⟨rfl, rfl⟩, by decide⟩
    rw [hprepared.raises]
    decide +kernel
  · obtain ⟨c, hc⟩ := exists_build_ticket {} [⟨"fries", .one⟩, ⟨"pizza", .one⟩]
    refine ⟨c, hc, ?_⟩
    obtain ⟨lines, hlines, hrefused, -⟩ := Engine.prepares_paced {} hc
    cases (decode_ticket _).symm.trans hlines
    exact (hrefused [⟨"fries", .one⟩] ⟨"pizza", .one⟩ [] rfl (by decide +kernel)
      (by decide +kernel) ⟨1, Span.millis 1⟩ .first {}).1

end Takeaway
