import Takeaway.Proofs.Text.Grammar
import Takeaway.Settings

/-!
Settings that were read from variables. Main statement: whatever the variables hold, the settings
can be used; each of them is what its own variable says, or what it is without one if that cannot be
accepted, and no other variable has a part in it; the engine gets them as they are; and the brokers
are read back from the one text that they are written to.
-/

namespace Takeaway

namespace Settings

open Text (Trimmed DenotesNat DenotesInt trim)

/-! ### Lists with commas -/

theorem splitCommas_eq_splitOn (s : List Char) : splitCommas s = s.splitOn ',' := by
  induction s with
  | nil => rfl
  | cons c r ih =>
    have hsplit : (c :: r).splitOn ',' =
        if (c == ',') = true then [] :: r.splitOn ',' else (r.splitOn ',').modifyHead (c :: ·) :=
      List.splitOnP_cons_eq_if_modifyHead c r
    rw [hsplit, splitCommas, ih]
    by_cases hc : c = ','
    · rw [if_pos hc, if_pos (beq_iff_eq.2 hc)]
    · obtain ⟨p, ps, hr⟩ := List.exists_cons_of_ne_nil (List.splitOnP_ne_nil (· == ',') r)
      have hr : r.splitOn ',' = p :: ps := hr
      rw [if_neg hc, if_neg (fun h => hc (beq_iff_eq.1 h)), hr]
      rfl

theorem splitCommas_ne_nil (s : List Char) : splitCommas s ≠ [] := by
  rw [splitCommas_eq_splitOn]
  exact List.splitOnP_ne_nil _ s

theorem not_mem_of_mem_splitCommas {s p : List Char} (h : p ∈ splitCommas s) : ',' ∉ p := by
  induction s generalizing p with
  | nil =>
    rw [List.mem_singleton.1 h]
    exact List.not_mem_nil
  | cons c r ih =>
    rw [splitCommas] at h
    split at h
    · rcases List.mem_cons.1 h with rfl | h
      · exact List.not_mem_nil
      · exact ih h
    · next hc =>
      split at h
      · next hnil => exact absurd hnil (splitCommas_ne_nil r)
      · next q qs hr =>
        rw [hr] at ih
        rcases List.mem_cons.1 h with rfl | h
        · rw [List.mem_cons, not_or]
          exact ⟨fun heq => hc heq.symm, ih (List.mem_cons_self ..)⟩
        · exact ih (List.mem_cons_of_mem _ h)

/-- A text lists some names: it is cut at its commas, and of each piece that is not blank there is
the name, without the blanks around it. -/
def Lists (s : String) (ns : List String) : Prop :=
  ∃ pieces : List (List Char), s.toList = [','].intercalate pieces ∧ pieces ≠ [] ∧
    (∀ p ∈ pieces, ',' ∉ p) ∧
    ns = ((pieces.map trim).filter fun p => !p.isEmpty).map String.ofList

theorem names_eq_iff {s : String} {ns : List String} : names s = ns ↔ Lists s ns := by
  constructor
  · rintro rfl
    refine ⟨splitCommas s.toList, ?_, splitCommas_ne_nil _, fun p hp =>
      not_mem_of_mem_splitCommas hp, rfl⟩
    rw [splitCommas_eq_splitOn, List.intercalate_splitOn]
  · rintro ⟨pieces, hs, hne, hfree, rfl⟩
    unfold names
    rw [splitCommas_eq_splitOn, hs, List.splitOn_intercalate ',' hfree hne]

/-- A name as it stands in a list: it is not empty, has no blank at either end, and no comma. -/
structure IsName (n : String) : Prop where
  nonempty : n ≠ ""
  trimmed : Trimmed n.toList
  free : ',' ∉ n.toList

theorem isName_of_mem_names {s n : String} (h : n ∈ names s) : IsName n := by
  unfold names at h
  obtain ⟨p, hp, rfl⟩ := List.mem_map.1 h
  obtain ⟨hmem, hne⟩ := List.mem_filter.1 hp
  obtain ⟨piece, hpiece, rfl⟩ := List.mem_map.1 hmem
  refine ⟨fun hempty => ?_, ?_, ?_⟩
  · have hnil : trim piece = [] := by
      rw [← String.toList_ofList (l := trim piece), hempty]
      rfl
    rw [hnil] at hne
    cases hne
  · rw [String.toList_ofList]
    exact Text.trimmed_trim piece
  · rw [String.toList_ofList]
    exact fun hc => not_mem_of_mem_splitCommas hpiece
      (Text.mem_of_framed (Text.framed_trim piece) hc)

/-- **Names are read back from the text in which they stand with commas between.** -/
theorem names_intercalate {ns : List String} (hne : ns ≠ []) (h : ∀ n ∈ ns, IsName n) :
    names (",".intercalate ns) = ns := by
  refine names_eq_iff.2 ⟨ns.map String.toList, String.toList_intercalate, ?_, ?_, ?_⟩
  · exact fun hnil => hne (List.map_eq_nil_iff.1 hnil)
  · rintro p hp
    obtain ⟨n, hn, rfl⟩ := List.mem_map.1 hp
    exact (h n hn).free
  · have htrim : (ns.map String.toList).map trim = ns.map String.toList := by
      rw [List.map_map]
      exact List.map_congr_left fun n hn => Text.trim_of_trimmed (h n hn).trimmed
    have hkept : (ns.map String.toList).filter (fun p => !p.isEmpty) = ns.map String.toList := by
      refine List.filter_eq_self.2 fun p hp => ?_
      obtain ⟨n, hn, rfl⟩ := List.mem_map.1 hp
      have hnil : n.toList ≠ [] := fun hnil => (h n hn).nonempty (by
        rw [← String.ofList_toList (s := n), hnil])
      cases hl : n.toList with
      | nil => exact absurd hl hnil
      | cons c r => rfl
    rw [htrim, hkept, List.map_map]
    refine (List.map_id ns).symm.trans (List.map_congr_left fun n _ => ?_)
    exact String.ofList_toList.symm

/-! ### Variables -/

/-- The variables that settings are read from. -/
inductive Variable where
  | host | port | logLevel | brokers | topic | partitions | replication
  | sendAttempts | sendDelay | timeout | kitchen | timeScale | noticeLimit
deriving DecidableEq

namespace Variable

/-- The name under which a variable is looked up. -/
def name : Variable → String
  | host => "HOST"
  | port => "PORT"
  | logLevel => "RUST_LOG"
  | brokers => "KAFKA_BROKERS"
  | topic => "KAFKA_TOPIC"
  | partitions => "KAFKA_PARTITIONS"
  | replication => "KAFKA_REPLICATION_FACTOR"
  | sendAttempts => "SEND_MAX_ATTEMPTS"
  | sendDelay => "SEND_RETRY_DELAY_MS"
  | timeout => "COMMAND_TIMEOUT_MS"
  | kitchen => "KITCHEN_ENABLED"
  | timeScale => "KITCHEN_TIME_SCALE"
  | noticeLimit => "NOTIFY_MAX_IN_FLIGHT"

/-- What a variable sets. -/
abbrev Value : Variable → Type
  | host | logLevel | topic => String
  | port | sendAttempts | noticeLimit => Nat
  | partitions | replication => Int
  | brokers => List String
  | sendDelay | timeout => Span
  | kitchen => Bool
  | timeScale => Double

/-- What a variable may hold, and what it then sets. -/
def Accepts : (v : Variable) → String → v.Value → Prop
  | host, s, x | logLevel, s, x | topic, s, x => x = s
  | port, s, n => DenotesNat (trim s.toList) n ∧ n < 2 ^ 16
  | sendAttempts, s, n | noticeLimit, s, n => DenotesNat (trim s.toList) n ∧ 0 < n ∧ n < 2 ^ 32
  | partitions, s, z => DenotesInt (trim s.toList) z ∧ -(2 ^ 31) ≤ z ∧ z < 2 ^ 31
  | replication, s, z => DenotesInt (trim s.toList) z ∧ -(2 ^ 15) ≤ z ∧ z < 2 ^ 15
  | brokers, s, ns => Lists s ns ∧ ns ≠ []
  | sendDelay, s, x => ∃ n, DenotesNat (trim s.toList) n ∧ n < 2 ^ 64 ∧ Span.millis n = x
  | timeout, s, x => ∃ n, DenotesNat (trim s.toList) n ∧ 0 < n ∧ n < 2 ^ 64 ∧ Span.millis n = x
  | kitchen, s, x => String.ofList ((trim s.toList).map Char.toLower) ∈
      if x then ["1", "true", "yes", "on"] else ["0", "false", "no", "off"]
  | timeScale, s, x => Double.read? (trim s.toList) = some x ∧
      ∃ negative m p, x = .finite negative m p ∧ (negative = true → m = 0)

/-- How a variable is read. -/
def read? : (v : Variable) → String → Option v.Value
  | host, s | logLevel, s | topic, s => some s
  | port, s => Text.natWithin? 16 (trim s.toList)
  | sendAttempts, s | noticeLimit, s => positive? 32 (trim s.toList)
  | partitions, s => Text.intWithin? 32 (trim s.toList)
  | replication, s => Text.intWithin? 16 (trim s.toList)
  | brokers, s => (some (names s)).filter fun ns => !ns.isEmpty
  | sendDelay, s => (Text.natWithin? 64 (trim s.toList)).map Span.millis
  | timeout, s => (positive? 64 (trim s.toList)).map Span.millis
  | kitchen, s => switch? (trim s.toList)
  | timeScale, s => (Double.read? (trim s.toList)).filter Double.isScale

end Variable

/-- What a variable has set. -/
def get (s : Settings) : (v : Variable) → v.Value
  | .host => s.host
  | .port => s.port
  | .logLevel => s.logLevel
  | .brokers => s.brokers
  | .topic => s.topic
  | .partitions => s.partitions
  | .replication => s.replication
  | .sendAttempts => s.sendAttempts
  | .sendDelay => s.sendDelay
  | .timeout => s.timeout
  | .kitchen => s.kitchen
  | .timeScale => s.timeScale
  | .noticeLimit => s.noticeLimit

/-! ### What is accepted -/

theorem positive?_eq_some_iff {bits n : Nat} {s : List Char} :
    positive? bits s = some n ↔ DenotesNat s n ∧ 0 < n ∧ n < 2 ^ bits := by
  unfold positive?
  rw [Option.filter_eq_some_iff, Text.natWithin?_eq_some_iff, decide_eq_true_eq, and_assoc,
    and_comm (a := n < 2 ^ bits)]

theorem switch?_eq_some_iff {s : List Char} {x : Bool} :
    switch? s = some x ↔ String.ofList ((trim s).map Char.toLower) ∈
      if x then ["1", "true", "yes", "on"] else ["0", "false", "no", "off"] := by
  unfold switch?
  generalize String.ofList ((trim s).map Char.toLower) = word
  -- no word switches both on and off
  have hoff : word ∈ ["0", "false", "no", "off"] → word ∉ ["1", "true", "yes", "on"] := by
    intro h
    simp only [List.mem_cons, List.not_mem_nil, or_false] at h
    rcases h with rfl | rfl | rfl | rfl <;> decide
  simp only [List.contains_iff_mem]
  cases x with
  | true =>
    rw [if_pos rfl]
    split
    · next hon => simp only [hon]
    · next hon =>
      split <;> simp only [hon, reduceCtorEq, Option.some.injEq]
  | false =>
    rw [if_neg Bool.false_ne_true]
    split
    · next hon =>
      refine ⟨nofun, fun h => absurd hon (hoff h)⟩
    · split
      · next h => simp only [h]
      · next h => simp only [h, reduceCtorEq]

theorem isScale_iff {d : Double} : d.isScale = true ↔
    ∃ negative m p, d = .finite negative m p ∧ (negative = true → m = 0) := by
  constructor
  · intro h
    cases d with
    | nan => cases h
    | infinite => cases h
    | finite negative m p =>
      refine ⟨negative, m, p, rfl, ?_⟩
      rintro rfl
      simpa [Double.isScale] using h
  · rintro ⟨negative, m, p, rfl, h⟩
    cases negative with
    | false => rfl
    | true => simp [Double.isScale, h rfl]

namespace Variable

/-- **What is read of a variable is what it may hold.** -/
theorem read?_eq_some_iff (v : Variable) {s : String} {x : v.Value} :
    v.read? s = some x ↔ v.Accepts s x := by
  cases v with
  | host | logLevel | topic =>
    exact ⟨fun h => (Option.some.inj h).symm, fun h => congrArg some h.symm⟩
  | port => exact Text.natWithin?_eq_some_iff 16
  | sendAttempts | noticeLimit => exact positive?_eq_some_iff
  | partitions =>
    exact (Text.intWithin?_eq_some_iff 32).trans
      (and_congr_right fun _ => Text.fitsSigned_iff 32 x)
  | replication =>
    exact (Text.intWithin?_eq_some_iff 16).trans
      (and_congr_right fun _ => Text.fitsSigned_iff 16 x)
  | brokers =>
    show (some (names s)).filter (fun ns => !ns.isEmpty) = some x ↔ Lists s x ∧ x ≠ []
    rw [Option.filter_eq_some_iff, Option.some_inj, names_eq_iff]
    simp
  | sendDelay =>
    show (Text.natWithin? 64 (trim s.toList)).map Span.millis = some x ↔ ∃ n, _
    rw [Option.map_eq_some_iff]
    simp only [Text.natWithin?_eq_some_iff, and_assoc]
  | timeout =>
    show (positive? 64 (trim s.toList)).map Span.millis = some x ↔ ∃ n, _
    rw [Option.map_eq_some_iff]
    simp only [positive?_eq_some_iff, and_assoc]
  | kitchen =>
    show switch? (trim s.toList) = some x ↔ _
    rw [switch?_eq_some_iff, Text.trim_trim]
    rfl
  | timeScale =>
    show (Double.read? (trim s.toList)).filter Double.isScale = some x ↔ _
    rw [Option.filter_eq_some_iff, isScale_iff]
    rfl

end Variable

/-! ### Settings that were read -/

variable {lookup lookup' : String → Option String} {v : Variable}

/-- **Each setting is read from its own variable**, and is what it is without one otherwise. -/
theorem get_read (lookup : String → Option String) (v : Variable) :
    (read lookup).get v = ((lookup v.name).bind v.read?).getD (({} : Settings).get v) := by
  cases v with
  | port | partitions | replication | sendAttempts | kitchen | noticeLimit => rfl
  | host | logLevel | topic | brokers | sendDelay | timeout | timeScale =>
    unfold read get Variable.read? Variable.name
    dsimp only
    cases lookup _ <;> rfl

theorem get_read_of_accepts {s : String} {x : v.Value} (hs : lookup v.name = some s)
    (h : v.Accepts s x) : (read lookup).get v = x := by
  rw [get_read, hs, Option.bind_some, v.read?_eq_some_iff.2 h, Option.getD_some]

theorem get_read_of_not (h : ∀ s x, lookup v.name = some s → ¬ v.Accepts s x) :
    (read lookup).get v = ({} : Settings).get v := by
  have hnone : (lookup v.name).bind v.read? = none := by
    refine Option.eq_none_iff_forall_ne_some.2 fun x hx => ?_
    obtain ⟨s, hs, hread⟩ := Option.bind_eq_some_iff.1 hx
    exact h s x hs (v.read?_eq_some_iff.1 hread)
  rw [get_read, hnone, Option.getD_none]

/-- What holds of all that a variable may set and of the setting without one holds of the setting
that was read. -/
theorem get_read_induction {P : v.Value → Prop} (hown : P (({} : Settings).get v))
    (h : ∀ s x, v.Accepts s x → P x) : P ((read lookup).get v) := by
  by_cases hsome : ∃ s x, lookup v.name = some s ∧ v.Accepts s x
  · obtain ⟨s, x, hs, hx⟩ := hsome
    rw [get_read_of_accepts hs hx]
    exact h s x hx
  · rw [get_read_of_not fun s x hs hx => hsome ⟨s, x, hs, hx⟩]
    exact hown

theorem get_read_congr (h : lookup' v.name = lookup v.name) :
    (read lookup').get v = (read lookup).get v := by
  rw [get_read, get_read, h]

/-- Settings that can be used. -/
structure Usable (s : Settings) : Prop where
  sendAttempts : 1 ≤ s.sendAttempts
  timeout : 0 < s.timeout.nanos
  noticeLimit : 1 ≤ s.noticeLimit
  /-- The scale is a finite number that is not below zero. -/
  timeScale : ∃ negative m p, s.timeScale = .finite negative m p ∧ (negative = true → m = 0)
  someBroker : s.brokers ≠ []
  brokers : ∀ n ∈ s.brokers, IsName n

theorem usable_read (lookup : String → Option String) : (read lookup).Usable where
  sendAttempts := by
    refine get_read_induction (v := .sendAttempts) (P := fun n => 1 ≤ n) (by decide) ?_
    exact fun s n h => h.2.1
  timeout := by
    refine get_read_induction (v := .timeout) (P := fun x => 0 < x.nanos) (by decide) ?_
    rintro s x ⟨n, -, hpos, -, rfl⟩
    exact Nat.mul_pos hpos (by decide)
  noticeLimit := by
    refine get_read_induction (v := .noticeLimit) (P := fun n => 1 ≤ n) (by decide) ?_
    exact fun s n h => h.2.1
  timeScale := by
    refine get_read_induction (v := .timeScale)
      (P := fun x => ∃ negative m p, x = .finite negative m p ∧ (negative = true → m = 0)) ?_ ?_
    · exact ⟨false, _, _, rfl, nofun⟩
    · exact fun s x h => h.2
  someBroker := by
    refine get_read_induction (v := .brokers) (P := fun ns => ns ≠ []) (by decide) ?_
    exact fun s ns h => h.2
  brokers := by
    refine get_read_induction (v := .brokers) (P := fun ns => ∀ n ∈ ns, IsName n) ?_ ?_
    · intro n hn
      obtain rfl := List.mem_singleton.1 hn
      have htrim : Text.trim "localhost:9092".toList = "localhost:9092".toList := by decide +kernel
      exact ⟨by decide, (Text.trim_eq_iff.1 htrim).2, by decide⟩
    · intro s ns h n hn
      rw [← names_eq_iff.2 h.1] at hn
      exact isName_of_mem_names hn

/-- Where something is sent at least once, the engine does as often as it was set. -/
theorem engine_of_attempts {s : Settings} (h : 1 ≤ s.sendAttempts) :
    s.engine = {
      timeout := s.timeout
      retry := ⟨s.sendAttempts, s.sendDelay⟩
      kitchen := s.kitchen
      timeScale := s.timeScale
      noticeLimit := s.noticeLimit } := by
  unfold engine RetryPolicy.of
  rw [max_eq_left h]

theorem name_injective : Function.Injective Variable.name := by
  intro v v' h
  cases v <;> cases v' <;> first | rfl | exact absurd h (by decide)

/-! ### Main statement -/

/-- **Whatever the variables hold, the settings can be used.** Each setting is what its own variable
says, or what it is without one if there is none or it cannot be accepted; it depends on no other
variable, so that a change of one variable changes no other setting; the engine gets the settings
unchanged; and the brokers are read back from the one text in which they are written. -/
theorem read_usable (lookup : String → Option String) :
    (read lookup).Usable ∧
    (∀ v : Variable,
      (∀ s x, lookup v.name = some s → v.Accepts s x → (read lookup).get v = x) ∧
      ((∀ s x, lookup v.name = some s → ¬ v.Accepts s x) →
        (read lookup).get v = ({} : Settings).get v)) ∧
    (∀ lookup' (v : Variable),
      (lookup' v.name = lookup v.name → (read lookup').get v = (read lookup).get v) ∧
      ((∀ name, name ≠ v.name → lookup' name = lookup name) →
        ∀ v', v' ≠ v → (read lookup').get v' = (read lookup).get v')) ∧
    (read lookup).engine = {
      timeout := (read lookup).timeout
      retry := ⟨(read lookup).sendAttempts, (read lookup).sendDelay⟩
      kitchen := (read lookup).kitchen
      timeScale := (read lookup).timeScale
      noticeLimit := (read lookup).noticeLimit } ∧
    (∀ lookup', lookup' Variable.brokers.name = some (read lookup).bootstrap →
      (read lookup').brokers = (read lookup).brokers) := by
  have husable := usable_read lookup
  refine ⟨husable, fun v => ⟨fun s x hs h => get_read_of_accepts hs h, get_read_of_not⟩,
    fun lookup' v => ⟨get_read_congr, fun hothers v' hne => ?_⟩,
    engine_of_attempts husable.sendAttempts, fun lookup' hs => ?_⟩
  · exact get_read_congr (hothers _ fun h => hne (name_injective h))
  · refine get_read_of_accepts (v := .brokers) hs ⟨names_eq_iff.1 ?_, husable.someBroker⟩
    exact names_intercalate husable.someBroker husable.brokers

/-- Some variables, not all of which can be accepted. -/
def mixed (name : String) : Option String :=
  [("PORT", " +08080\n"), ("SEND_MAX_ATTEMPTS", "0"), ("KITCHEN_TIME_SCALE", "nan"),
    ("KAFKA_BROKERS", " kafka-1:9092 ,, kafka-2:9092,")].lookup name

/-- A port with a sign, zeros and blanks is taken, and no attempt at all is not; without the port
the brokers are still the same, and so they are when they are written anew. -/
theorem read_usable_mixed :
    let anew (name : String) : Option String :=
      if name = "PORT" then none else mixed name
    let back (name : String) : Option String :=
      if name = "KAFKA_BROKERS" then some (read mixed).bootstrap else none
    (read mixed).port = 8080 ∧ (read mixed).sendAttempts = 5 ∧ (read mixed).timeScale = .one ∧
      (read mixed).brokers = ["kafka-1:9092", "kafka-2:9092"] ∧
      (read anew).brokers = (read mixed).brokers ∧ (read back).brokers = (read mixed).brokers := by
  intro anew back
  obtain ⟨-, hset, hlocal, -, hback⟩ := read_usable mixed
  have hport : Variable.port.Accepts " +08080\n" 8080 :=
    Variable.port.read?_eq_some_iff.1 (by decide)
  refine ⟨(hset .port).1 _ 8080 rfl hport, (hset .sendAttempts).2 ?_, by decide +kernel,
    by decide +kernel, (hlocal anew .port).2 ?_ .brokers (by decide), hback back rfl⟩
  · intro s n hs h
    cases hs
    have hnone : Variable.sendAttempts.read? "0" = none := by decide
    rw [Variable.sendAttempts.read?_eq_some_iff.2 h] at hnone
    cases hnone
  · exact fun name hne => if_neg hne

end Settings

end Takeaway
