import Takeaway.Proofs.Flow.Posted
import Takeaway.Proofs.Message.Codec

/-!
The stock by itself, under any requests one after the other: counts are set, units are added and
taken, and counts are looked at. Main statement: every request is answered as by a map in which
additions are capped and takes are made in full or not at all; the items with a count are those whose
count was set or added to; what is asked about one item is nothing to another; and every addition of
units is announced once, in the order of the additions.
-/

namespace Takeaway.Stock

/-! ### Requests -/

/-- What is asked of the stock. -/
inductive Request where
  /-- The count of an item is set, without a word. -/
  | seed (item : String) (q : Quantity)
  /-- Units of an item are added and announced. -/
  | add (item : String) (q : Quantity)
  | take (item : String) (q : Quantity)
  | onHand (item : String)
  /-- All counts are shown. -/
  | inventory

namespace Request

/-- The answers to a request. -/
abbrev Answer : Request → Type
  | seed _ _ => Unit
  | add _ _ => Unit
  | take _ _ => Except Fault Unit
  | onHand _ => Quantity
  | inventory => Index String Quantity

/-- What is done about a request; a count is set beforehand. -/
def flow : (r : Request) → Flow r.Answer
  | seed _ _ => .done ()
  | add item q => addUnits item q
  | take item q => .ask (.take item q)
  | onHand item => .ask (.onHand item)
  | inventory => .ask .inventory

/-- The world in which the flow of a request starts. -/
def start (w : World) : Request → World
  | seed item q => { w with stock := w.stock.seed item q }
  | _ => w

/-- The item that a request is about. -/
def item? : Request → Option String
  | seed item _ | add item _ | take item _ | onHand item => some item
  | inventory => none

end Request

/-- What a request is answered, and the world that is left. -/
def serve (rank : World.Rank) (w : World) (r : Request) : r.Answer × World :=
  r.flow.run rank (r.start w)

/-- The messages that a request says. -/
def said (rank : World.Rank) (w : World) (r : Request) : List Envelope :=
  Deeds.said (r.flow.trail rank (r.start w))

/-- The world after some requests, the first one first. -/
def after (rank : World.Rank) (w : World) (past : List Request) : World :=
  past.foldl (fun w r => (serve rank w r).2) w

/-- The world with nothing in stock. -/
def unstocked (w : World) (announces : Bool) : World :=
  { w with stock := { announces := announces } }

/-- The messages that some requests say, the first one first. -/
def told (rank : World.Rank) : World → List Request → List Envelope
  | _, [] => []
  | w, r :: rs => said rank w r ++ told rank (serve rank w r).2 rs

/-! ### What requests should come to -/

namespace Request

/-- The units of its item that a request should leave of those that there are. -/
def left (n : Nat) : Request → Nat
  | seed _ q => q.units
  | add _ q => min (n + q.units) Quantity.largest
  | take _ q => if q.units ≤ n then n - q.units else n
  | onHand _ | inventory => n

/-- The counts that a request should leave. -/
def counted (m : String → Nat) (r : Request) (i : String) : Nat :=
  if r.item? = some i then r.left (m i) else m i

/-- The item that has a count from then on. -/
def named : Request → List String
  | seed item _ | add item _ => [item]
  | take _ _ | onHand _ | inventory => []

/-- The units that are to be announced, if additions are announced at all. -/
def announced (announces : Bool) : Request → List Item
  | add item q => if announces && decide (0 < q.units) then [⟨item, q⟩] else []
  | seed _ _ | take _ _ | onHand _ | inventory => []

/-- What is to be answered where these are the counts, and these items have one. -/
def Answered (m : String → Nat) (items : List String) : (r : Request) → r.Answer → Prop
  | seed _ _, _ | add _ _, _ => True
  | take item q, a =>
    if q.units ≤ m item then a = .ok ()
    else ∃ available : Quantity, available.units = m item ∧
      a = .error (.insufficient item q available)
  | onHand item, a => a.units = m item
  | inventory, a => (∀ i, i ∈ a.keys ↔ i ∈ items) ∧
      ∀ i ∈ items, ∃ x, a.find? i = some x ∧ x.units = m i

/-- A request that leaves the stock as it is: a look, a take of nothing, or of more than there is. -/
def Idle (m : String → Nat) : Request → Prop
  | seed _ _ | add _ _ => False
  | take item q => q.units = 0 ∨ m item < q.units
  | onHand _ | inventory => True

end Request

/-- The counts that some requests should leave, where there were none before. -/
def counted (past : List Request) : String → Nat :=
  past.foldl (fun m r => r.counted m) fun _ => 0

/-- A message announces units that came into stock. -/
structure Announces (i : Item) (e : Envelope) : Prop where
  event : e.event = .ok .itemAdded
  lines : e.decode Item.linesReader = .ok [i]
  key : e.key = some i.name

/-- What should be true of the stock after some requests that were made of a world. -/
structure KeepsCount (rank : World.Rank) (w : World) (past : List Request) : Prop where
  answered : ∀ r : Request,
    r.Answered (counted past) (past.flatMap Request.named) (serve rank (after rank w past) r).1
  idle : ∀ r : Request, r.Idle (counted past) →
    (serve rank (after rank w past) r).2.stock = (after rank w past).stock
  /-- The requests about one item alone make its count. -/
  apart : ∀ i, (after rank w past).stock.counts.find? i =
    (after rank w (past.filter fun r => r.item? = some i)).stock.counts.find? i
  announced : List.Forall₂ Announces (past.flatMap (Request.announced w.stock.announces))
    (told rank w past)
  /-- Where sending works, what is announced is delivered. -/
  delivered : w.Brisk → (after rank w past).settle.broker =
    w.settle.broker.deliverAll ((told rank w past).map (Delivery.mk w.topic))

/-! ### Stocks and maps -/

section Maps

variable {m m' : String → Nat} {r : Request} {i : String}

/-- What a request leaves of an item depends on what there was of it. -/
theorem Request.counted_congr (r : Request) (h : m i = m' i) : r.counted m i = r.counted m' i := by
  unfold counted
  rw [h]

/-- What is asked about one item is nothing to another. -/
theorem Request.counted_of_ne (h : r.item? ≠ some i) : r.counted m i = m i := if_neg h

theorem Request.counted_of_idle (h : r.Idle m) : r.counted m = m := by
  funext i
  unfold counted
  split
  · next hi =>
    cases r with
    | seed item q => cases h
    | add item q => cases h
    | take item q =>
      obtain rfl : item = i := Option.some.inj hi
      show (if q.units ≤ m item then m item - q.units else m item) = m item
      rcases h with hzero | hless
      · rw [hzero, if_pos (Nat.zero_le _), Nat.sub_zero]
      · rw [if_neg (Nat.not_le.2 hless)]
    | onHand item => rfl
    | inventory => rfl
  · rfl

end Maps

/-- The stock has the counts of a map, for these items and no others. -/
structure Holds (m : String → Nat) (items : List String) (s : Stock) : Prop where
  units : ∀ i, (s.onHand i).units = m i
  keys : ∀ i, i ∈ s.counts.keys ↔ i ∈ items

namespace Holds

variable {m : String → Nat} {items : List String} {s s' : Stock} {item : String} {q : Quantity}

theorem empty (announces : Bool) : Holds (fun _ => 0) [] { announces := announces } where
  units _ := rfl
  keys _ := Iff.rfl

/-- It is enough to look at the item that a request is about, if the others stay as they are. -/
theorem units_counted (h : Holds m items s) {r : Request} (hr : r.item? = some item)
    (hself : (s'.onHand item).units = r.left (s.onHand item).units)
    (hothers : ∀ i, item ≠ i → s'.onHand i = s.onHand i) (i : String) :
    (s'.onHand i).units = r.counted m i := by
  unfold Request.counted
  rw [← h.units i]
  split
  · next hi =>
    obtain rfl : item = i := Option.some.inj (hr.symm.trans hi)
    exact hself
  · next hi =>
    have hne : item ≠ i := by
      rintro rfl
      exact hi hr
    rw [hothers i hne]

protected theorem seed (h : Holds m items s) (item : String) (q : Quantity) :
    Holds ((Request.seed item q).counted m) (items ++ [item]) (s.seed item q) where
  units := h.units_counted rfl (by rw [onHand_seed_self]; rfl) fun _ => onHand_seed_of_ne
  keys i := by rw [mem_keys_seed, h.keys, List.mem_append, List.mem_singleton, or_comm]

protected theorem add (h : Holds m items s) (item : String) (q : Quantity) :
    Holds ((Request.add item q).counted m) (items ++ [item]) (s.add item q) where
  units := h.units_counted rfl (onHand_add s item q) fun _ => onHand_add_of_ne
  keys := (h.seed item _).keys

protected theorem without (h : Holds m items s) (hq : q.units ≤ (s.onHand item).units) :
    Holds ((Request.take item q).counted m) items (s.without item q) where
  units := by
    refine h.units_counted rfl ?_ fun _ => onHand_without_of_ne hq
    have hleft := onHand_without hq
    show _ = if q.units ≤ _ then _ else _
    rw [if_pos hq]
    omega
  keys i := by rw [keys_without hq, h.keys]

/-- The counts of the map make up the counts of the stock. -/
theorem find? (h : Holds m items s) (i : String) (hi : i ∈ items) :
    ∃ x, s.counts.find? i = some x ∧ x.units = m i :=
  ⟨s.onHand i, by rw [find?_counts, if_pos ((h.keys i).2 hi)], h.units i⟩

/-- Stocks that hold the same of an item have the same count of it. -/
theorem find?_congr {m' : String → Nat} {items' : List String} {s' : Stock} (h : Holds m items s)
    (h' : Holds m' items' s') {i : String} (hm : m i = m' i) (hitems : i ∈ items ↔ i ∈ items') :
    s.counts.find? i = s'.counts.find? i := by
  have hunits : s.onHand i = s'.onHand i :=
    Quantity.ext ((h.units i).trans (hm.trans (h'.units i).symm))
  have hkeys : i ∈ s.counts.keys ↔ i ∈ s'.counts.keys :=
    (h.keys i).trans (hitems.trans (h'.keys i).symm)
  rw [find?_counts s, find?_counts s', hunits]
  simp only [hkeys]

end Holds

/-! ### One request -/

variable (rank : World.Rank) {w : World} {m : String → Nat} {items : List String}

theorem announces_itemAdded (i : Item) (time : Timestamp) : Announces i (.itemAdded i time) :=
  ⟨Envelope.event_itemAdded i time, Envelope.lines_itemAdded i time, rfl⟩

/-- Units are added and announced, whatever goes on while the announcement waits for room. -/
theorem does_add (w : World) (item : String) (q : Quantity) :
    (addUnits item q).Does rank w fun l _ w' =>
      w'.stock = w.stock.add item q ∧
        List.Forall₂ Announces ((Request.add item q).announced w.stock.announces)
          (Deeds.said l) := by
  obtain ⟨counts, heq⟩ := w.add_eq item q
  have hannounced : (Request.add item q).announced w.stock.announces =
      if (w.stock.announces && decide (0 < q.units)) = true then [⟨item, q⟩] else [] := rfl
  rw [hannounced]
  unfold addUnits
  refine Flow.does_act (a := .add item q) ?_
  rw [heq]
  cases w.stock.announces && decide (0 < q.units) with
  | false => exact Flow.does_done ⟨rfl, .nil⟩
  | true =>
    refine Flow.does_act (a := .clock) (Flow.does_wait (Flow.does_ask (a := .note _) ⟨?_, ?_⟩))
    · exact (World.aside_passForRoom _).stock
    · exact .cons (announces_itemAdded _ _) .nil

theorem each_flow (r : Request) : r.flow.Each fun a => a.isSend = false := by
  cases r with
  | add item q =>
    refine Flow.Each.bind (Flow.each_ask rfl) fun b => ?_
    cases b
    · trivial
    · exact Flow.Each.bind (Flow.each_ask rfl) fun time _ => Flow.each_ask rfl
  | seed item q => trivial
  | _ => exact Flow.each_ask rfl

/-- What becomes of a stock that holds the counts of a map. -/
structure Served (m : String → Nat) (items : List String) (w : World) (r : Request) (a : r.Answer)
    (w' : World) : Prop where
  holds : Holds (r.counted m) (items ++ r.named) w'.stock
  answered : r.Answered m items a
  idle : r.Idle m → w'.stock = w.stock
  announces : w'.stock.announces = w.stock.announces

/-- A take is made in full, or it fails and tells what there is. -/
theorem Holds.serve_take (h : Holds m items w.stock) (item : String) (q : Quantity) :
    Served m items w (.take item q) (serve rank w (.take item q)).1
      (serve rank w (.take item q)).2 := by
  have hunits : (w.stock.onHand item).units = m item := h.units item
  by_cases hq : q.units ≤ m item
  · have hhand : q.units ≤ (w.stock.onHand item).units := hq.trans_eq hunits.symm
    have hserve : Stock.serve rank w (.take item q) =
        (.ok (), { w with stock := w.stock.without item q }) := World.perform_take hhand
    rw [hserve]
    refine ⟨?_, ?_, ?_, announces_without _ _ _⟩
    · rw [Request.named, List.append_nil]
      exact h.without hhand
    · rw [Request.Answered, if_pos hq]
    · rintro (hzero | hless)
      · exact if_pos hzero
      · exact absurd hless (Nat.not_lt.2 hq)
  · have hless : m item < q.units := Nat.lt_of_not_le hq
    have hidle : (Request.take item q).Idle m := Or.inr hless
    have hserve : Stock.serve rank w (.take item q) =
        (.error (.insufficient item q (w.stock.onHand item)), w.count .takesRejected 1) :=
      World.perform_take_error (hunits.trans_lt hless)
    rw [hserve]
    refine ⟨?_, ?_, fun _ => rfl, rfl⟩
    · rw [Request.counted_of_idle hidle, Request.named, List.append_nil]
      exact h
    · rw [Request.Answered, if_neg hq]
      exact ⟨w.stock.onHand item, hunits, rfl⟩

/-- **A request leaves the counts that it should**, and is answered by those that there were. -/
theorem Holds.serve (h : Holds m items w.stock) (r : Request) :
    Served m items w r (serve rank w r).1 (serve rank w r).2 := by
  have hlook : ∀ {r : Request}, r.Idle m → Holds (r.counted m) (items ++ []) w.stock := by
    intro r hr
    rw [Request.counted_of_idle hr, List.append_nil]
    exact h
  cases r with
  | seed item q => exact ⟨h.seed item q, trivial, False.elim, rfl⟩
  | add item q =>
    have hstock : (Stock.serve rank w (.add item q)).2.stock = w.stock.add item q :=
      (does_add rank w item q).1
    refine ⟨?_, trivial, False.elim, ?_⟩
    · rw [hstock]
      exact h.add item q
    · rw [hstock]
      rfl
  | take item q => exact h.serve_take rank item q
  | onHand item => exact ⟨hlook trivial, h.units item, fun _ => rfl, rfl⟩
  | inventory => exact ⟨hlook trivial, ⟨h.keys, h.find?⟩, fun _ => rfl, rfl⟩

/-- A request says what it should. -/
theorem announces_said (r : Request) :
    List.Forall₂ Announces (r.announced w.stock.announces) (said rank w r) := by
  cases r with
  | add item q => exact (does_add rank w item q).2
  | _ => exact .nil

theorem posts_serve (hw : w.Brisk) (r : Request) :
    World.Posts (said rank w r) w (serve rank w r).2 := by
  have hstart : World.Posts [] w (r.start w) := by
    cases r <;> exact .of_same hw rfl rfl rfl
  exact hstart.nil_trans (Flow.posts_run rank (each_flow r) hstart.brisk)

/-! ### Requests one after the other -/

theorem Holds.after (h : Holds m items w.stock) (past : List Request) :
    Holds (past.foldl (fun m r => r.counted m) m) (items ++ past.flatMap Request.named)
      (after rank w past).stock := by
  -- the map and the items stand for what was asked before
  induction past generalizing w m items with
  | nil =>
    rw [List.flatMap_nil, List.append_nil]
    exact h
  | cons r past ih =>
    rw [List.flatMap_cons, ← List.append_assoc]
    exact ih (h.serve rank r).holds

theorem Holds.announced (h : Holds m items w.stock) (past : List Request) :
    List.Forall₂ Announces (past.flatMap (Request.announced w.stock.announces))
      (told rank w past) := by
  induction past generalizing w m items with
  | nil => exact .nil
  | cons r past ih =>
    have hserve := h.serve rank r
    rw [List.flatMap_cons, ← hserve.announces]
    refine List.rel_append ?_ (ih hserve.holds)
    rw [hserve.announces]
    exact announces_said rank r

theorem posts_after (hw : w.Brisk) (past : List Request) :
    World.Posts (told rank w past) w (after rank w past) := by
  induction past generalizing w with
  | nil => exact .of_same hw rfl rfl rfl
  | cons r past ih =>
    have hserve := posts_serve rank hw r
    exact hserve.trans (ih hserve.brisk)

/-! ### One item among others -/

theorem counted_filter {m' : String → Nat} {i : String} (past : List Request) (h : m i = m' i) :
    past.foldl (fun m r => r.counted m) m i =
      (past.filter fun r => r.item? = some i).foldl (fun m r => r.counted m) m' i := by
  -- the two maps need not agree but on the one item
  induction past generalizing m m' with
  | nil => exact h
  | cons r past ih =>
    by_cases hr : r.item? = some i
    · rw [List.filter_cons_of_pos (by simpa using hr)]
      exact ih (r.counted_congr h)
    · rw [List.filter_cons_of_neg (by simpa using hr)]
      exact ih ((Request.counted_of_ne hr).trans h)

theorem mem_named_filter {i : String} (past : List Request) :
    i ∈ past.flatMap Request.named ↔
      i ∈ (past.filter fun r => r.item? = some i).flatMap Request.named := by
  have habout : ∀ r : Request, i ∈ r.named → r.item? = some i := by
    intro r hi
    cases r <;> simp_all [Request.named, Request.item?]
  simp only [List.mem_flatMap, List.mem_filter, decide_eq_true_eq]
  refine exists_congr fun r => ⟨fun h => ⟨⟨h.1, habout r h.2⟩, h.2⟩, fun h => ⟨h.1.1, h.2⟩⟩

/-! ### Main statement -/

/-- **The stock keeps count** from nothing, whatever else is in the world: after any requests it
answers as the map does, and has announced what it should. -/
theorem keeps_count (rank : World.Rank) (w : World) (announces : Bool) (past : List Request) :
    KeepsCount rank (unstocked w announces) past := by
  have hstart : Holds (fun _ => 0) [] (unstocked w announces).stock := Holds.empty announces
  have hpast : ∀ rs, Holds (counted rs) (rs.flatMap Request.named)
      (after rank (unstocked w announces) rs).stock := fun rs => hstart.after rank rs
  exact {
    answered := fun r => ((hpast past).serve rank r).answered
    idle := fun r => ((hpast past).serve rank r).idle
    apart := fun i =>
      (hpast past).find?_congr (hpast _) (counted_filter past rfl) (mem_named_filter past)
    announced := hstart.announced rank past
    delivered := fun hw => (posts_after rank hw past).settled }

/-- Fries are added up to the brim and over it, one is taken and put back, and nothing is done about
nuggets or soda but to ask for some and to add none. -/
def brimful : List Request :=
  [.seed "fries" ⟨4294967293, by decide⟩, .add "fries" ⟨5, by decide⟩, .take "fries" .one,
    .take "nuggets" .one, .add "soda" .zero, .take "nuggets" .zero, .add "fries" .one]

/-- There are as many fries as can be counted. Fries and soda have a count; nuggets have none, so one
cannot be taken, but none can. What was added is announced, the fries over the brim too. -/
theorem keeps_count_brimful : ∃ first second : Envelope,
    Announces ⟨"fries", ⟨5, by decide⟩⟩ first ∧ Announces ⟨"fries", .one⟩ second ∧
    (after .first {} brimful).settle.broker.history = [⟨"orders", first⟩, ⟨"orders", second⟩] ∧
    (serve .first (after .first {} brimful) (.onHand "fries")).1.units = 4294967295 ∧
    (∃ available : Quantity, available.units = 0 ∧
      (serve .first (after .first {} brimful) (.take "nuggets" .one)).1 =
        .error (.insufficient "nuggets" .one available)) ∧
    (serve .first (after .first {} brimful) (.take "nuggets" .zero)).1 = .ok () ∧
    ∀ i, i ∈ (serve .first (after .first {} brimful) .inventory).1.keys ↔
      i = "fries" ∨ i = "soda" := by
  have h := keeps_count .first {} true brimful
  obtain ⟨first, second, htold, hfirst, hsecond⟩ : ∃ first second,
      told .first {} brimful = [first, second] ∧
      Announces ⟨"fries", ⟨5, by decide⟩⟩ first ∧ Announces ⟨"fries", .one⟩ second := by
    have hannounced : List.Forall₂ Announces [⟨"fries", ⟨5, by decide⟩⟩, ⟨"fries", .one⟩]
      (told .first {} brimful) := h.announced
    rcases hlist : told .first {} brimful with _ | ⟨first, _ | ⟨second, _ | ⟨third, rest⟩⟩⟩ <;>
      rw [hlist] at hannounced <;> simp at hannounced
    exact ⟨first, second, rfl, hannounced⟩
  have hfries : counted brimful "fries" = 4294967295 := by decide +kernel
  have hnuggets : counted brimful "nuggets" = 0 := by decide +kernel
  refine ⟨first, second, hfirst, hsecond, ?_, ?_, ?_, ?_, fun i => ?_⟩
  · have hdelivered : (after .first {} brimful).settle.broker = _ :=
      h.delivered ⟨⟨rfl, rfl⟩, rfl⟩
    have htold' : told .first (unstocked {} true) brimful = [first, second] := htold
    rw [hdelivered, htold']
    rfl
  · exact (h.answered (.onHand "fries")).trans hfries
  · have htake := h.answered (.take "nuggets" .one)
    rw [Request.Answered, hnuggets] at htake
    exact htake
  · have htake := h.answered (.take "nuggets" .zero)
    rw [Request.Answered, hnuggets] at htake
    exact htake
  · obtain ⟨hkeys, -⟩ := h.answered .inventory
    have hnamed : brimful.flatMap Request.named = ["fries", "fries", "soda", "fries"] := rfl
    rw [hnamed] at hkeys
    exact (hkeys i).trans (by simp only [List.mem_cons, List.not_mem_nil]; tauto)

end Takeaway.Stock
