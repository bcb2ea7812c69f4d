import Mathlib.Algebra.BigOperators.Group.List.Basic
import Mathlib.Data.List.Range
import Mathlib.Tactic.Ring
import TftpOS.Lib.Run
import TftpOS.Webhooks

/-!
# Deliveries from attempt to attempt

What the loop of `_deliver` does is a matter of the outcomes alone: it stops at the first status
2xx, or after the last attempt it has (`attemptAll_range'`). The record it leaves is another matter.
Every attempt changes some of the fields and leaves the others as the attempt before it has left
them, so the record describes the final attempt only where the others left nothing behind
(`record_describes_iff`).

`get_recent_deliveries` reads a log that keeps the last deliveries of a run.
-/

namespace TftpOS

open Lib

namespace WebhookManager

variable {ι : Type}

/-! ### The final attempt -/

/-- The post of an attempt returns a status 2xx. -/
def Succeeds (weather : Weather) (attempt : ℕ) : Prop :=
  ∃ status, weather.outcome attempt = .ok status ∧ 200 ≤ status ∧ status < 300

/-- The post of an attempt raises an exception. -/
def Raises (weather : Weather) (attempt : ℕ) : Prop := ∃ text, weather.outcome attempt = .error text

/-- There are `a` attempts: the last of them is the first to succeed, or uses up what there is. -/
structure FinalAttempt (weather : Weather) (maxAttempts a : ℕ) : Prop where
  pos : 1 ≤ a
  le : a ≤ maxAttempts
  before : ∀ i, i + 1 < a → ¬ Succeeds weather i
  stops : Succeeds weather (a - 1) ∨ a = maxAttempts

/-- A record describes an attempt. -/
structure Describes (weather : Weather) (attempt : ℕ) (delivery : WebhookDelivery ι) : Prop where
  success : delivery.success = true ↔ Succeeds weather attempt
  status : ∀ status, weather.outcome attempt = .ok status → delivery.statusCode = some status
  raised : ∀ text, weather.outcome attempt = .error text →
    delivery.statusCode = none ∧ delivery.error = some text
  clean : delivery.success = true → delivery.error = none

/-- What the attempts from `s` up to `a` make of a record. -/
structure Leaves (weather : Weather) (s a : ℕ) (delivery last : WebhookDelivery ι) : Prop where
  attempts : last.attempts = a
  success : last.success = true ↔ Succeeds weather (a - 1)
  status : ∀ status, weather.outcome (a - 1) = .ok status → last.statusCode = some status
  raised : ∀ text, weather.outcome (a - 1) = .error text → last.error = some text
  noStatus : last.statusCode = none ↔
    delivery.statusCode = none ∧ ∀ i, s ≤ i → i < a → Raises weather i
  noError : last.error = none ↔ delivery.error = none ∧ ∀ i, s ≤ i → i < a → Succeeds weather i

/-- The actions of the attempts from `s` up to `a`: a sleep between each two. -/
def trace (post : Post) (s a : ℕ) : List (Action ι) :=
  (List.range' s (a - s)).flatMap fun i =>
    .post post :: if i + 1 < a then [.sleep (2 ^ i)] else []

/-- The posts among the actions. -/
def posts (actions : List (Action ι)) : List Post :=
  actions.filterMap fun
    | .post post => some post
    | _ => none

/-- The seconds slept. -/
def sleeps (actions : List (Action ι)) : List ℚ :=
  actions.filterMap fun
    | .sleep seconds => some seconds
    | _ => none

variable {weather : Weather} {post : Post} {maxAttempts s a : ℕ}

theorem FinalAttempt.unique {b : ℕ} (ha : FinalAttempt weather maxAttempts a)
    (hb : FinalAttempt weather maxAttempts b) : a = b := by
  have hle : ∀ {a b}, FinalAttempt weather maxAttempts a → FinalAttempt weather maxAttempts b →
      b ≤ a := by
    intro a b ha hb
    by_contra hlt
    have hpos := ha.pos
    have hle := hb.le
    rcases ha.stops with hsucceeds | hmax
    · exact hb.before (a - 1) (by omega) hsucceeds
    · omega
  exact le_antisymm (hle hb ha) (hle ha hb)

/-- An attempt that succeeds at once is the only one. -/
theorem FinalAttempt.eq_one (h : FinalAttempt weather maxAttempts a) (hfirst : Succeeds weather 0) :
    a = 1 := by
  have hpos := h.pos
  by_contra hne
  exact h.before 0 (by omega) hfirst

/-- Where the final attempt fails, there were as many as there can be, and all of them failed. -/
theorem FinalAttempt.all_fail (h : FinalAttempt weather maxAttempts a)
    (hfail : ¬ Succeeds weather (a - 1)) :
    a = maxAttempts ∧ ∀ i < maxAttempts, ¬ Succeeds weather i := by
  have hmax := h.stops.resolve_left hfail
  refine ⟨hmax, fun i hi => ?_⟩
  by_cases hlast : i + 1 < a
  · exact h.before i hlast
  · obtain rfl : i = a - 1 := by omega
    exact hfail

theorem trace_cons (h : s < a) :
    trace (ι := ι) post s a =
      (.post post :: if s + 1 < a then [.sleep (2 ^ s)] else []) ++ trace post (s + 1) a := by
  obtain ⟨n, rfl⟩ := Nat.exists_eq_add_of_lt h
  have hlength : s + n + 1 - s = n + 1 := by omega
  have hrest : s + n + 1 - (s + 1) = n := by omega
  rw [trace, trace, hlength, hrest, List.range'_succ, List.flatMap_cons]

theorem trace_succ : trace (ι := ι) post s (s + 1) = [.post post] := by
  rw [trace_cons (Nat.lt_succ_self s), trace]
  simp

/-- The attempts from `s` on are attempt `s` and those after it. -/
theorem forall_from_iff {P : ℕ → Prop} (hsa : s < a) :
    (∀ i, s ≤ i → i < a → P i) ↔
      (∀ i, s ≤ i → i < s + 1 → P i) ∧ ∀ i, s + 1 ≤ i → i < a → P i := by
  constructor
  · exact fun hall => ⟨fun i hle hlt => hall i hle (by omega),
      fun i hle hlt => hall i (by omega) hlt⟩
  · rintro ⟨hfirst, hrest⟩ i hle hlt
    rcases Nat.eq_or_lt_of_le hle with rfl | hgt
    · exact hfirst s le_rfl (Nat.lt_succ_self s)
    · exact hrest i hgt hlt

/-! ### The loop -/

/-- There is one attempt from `s` up to `s + 1`. -/
theorem forall_single_iff {P : ℕ → Prop} : (∀ i, s ≤ i → i < s + 1 → P i) ↔ P s := by
  refine ⟨fun h => h s le_rfl (Nat.lt_succ_self s), fun h i hle hlt => ?_⟩
  obtain rfl : i = s := by omega
  exact h

theorem not_succeeds_of_raises {text : String} (h : weather.outcome s = .error text) :
    ¬ Succeeds weather s := by
  rintro ⟨status, hstatus, -⟩
  rw [h] at hstatus
  cases hstatus

theorem not_raises_of_status {status : ℤ} (h : weather.outcome s = .ok status) :
    ¬ Raises weather s := by
  rintro ⟨text, htext⟩
  rw [h] at htext
  cases htext

theorem succeeds_iff_of_status {status : ℤ} (h : weather.outcome s = .ok status) :
    Succeeds weather s ↔ 200 ≤ status ∧ status < 300 := by
  constructor
  · rintro ⟨status', hstatus, hok⟩
    rw [h] at hstatus
    obtain rfl := Except.ok.inj hstatus
    exact hok
  · exact fun hok => ⟨status, h, hok⟩

section

variable {delivery : WebhookDelivery ι}

/-- An attempt that raises. -/
theorem leaves_of_raises {text : String} (hfresh : delivery.success = false)
    (h : weather.outcome s = .error text) :
    Leaves weather s (s + 1) delivery
      { delivery with attempts := s + 1, error := some text } := by
  have hfail := not_succeeds_of_raises h
  refine ⟨rfl, ?_, ?_, ?_, ?_, ?_⟩
  · simp [hfresh, hfail]
  · simp [h]
  · simp [h]
  · rw [forall_single_iff]
    exact ⟨fun hnone => ⟨hnone, text, h⟩, And.left⟩
  · rw [forall_single_iff]
    simp [hfail]

/-- An attempt that is answered with a status 2xx. -/
theorem leaves_of_succeeds {status : ℤ} (h : weather.outcome s = .ok status)
    (hok : 200 ≤ status ∧ status < 300) :
    Leaves weather s (s + 1) delivery { delivery with
      attempts := s + 1, statusCode := some status, success := true,
      deliveredAt := some (weather.clock s) } := by
  have hsucceeds := (succeeds_iff_of_status h).mpr hok
  have hnoRaise := not_raises_of_status h
  refine ⟨rfl, ?_, ?_, ?_, ?_, ?_⟩
  · simp [hsucceeds]
  · simp [h]
  · simp [h]
  · rw [forall_single_iff]
    simp [hnoRaise]
  · rw [forall_single_iff]
    simp [hsucceeds]

/-- An attempt that is answered with another status. -/
theorem leaves_of_fails {status : ℤ} (hfresh : delivery.success = false)
    (h : weather.outcome s = .ok status) (hok : ¬ (200 ≤ status ∧ status < 300)) :
    Leaves weather s (s + 1) delivery { delivery with
      attempts := s + 1, statusCode := some status,
      error := some ("HTTP " ++ toString status) } := by
  have hfail := mt (succeeds_iff_of_status h).mp hok
  have hnoRaise := not_raises_of_status h
  refine ⟨rfl, ?_, ?_, ?_, ?_, ?_⟩
  · simp [hfresh, hfail]
  · simp [h]
  · simp [h]
  · rw [forall_single_iff]
    simp [hnoRaise]
  · rw [forall_single_iff]
    simp [hfail]

variable (weather post maxAttempts s) in
/-- One attempt: the record it leaves, and whether the loop goes on. -/
theorem attemptAll_step (rest : List ℕ) (hfresh : delivery.success = false) :
    ∃ next : WebhookDelivery ι, Leaves weather s (s + 1) delivery next ∧
      (Succeeds weather s ∧
          attemptAll weather post maxAttempts (s :: rest) delivery = (next, [.post post]) ∨
        ¬ Succeeds weather s ∧ attemptAll weather post maxAttempts (s :: rest) delivery =
          ((attemptAll weather post maxAttempts rest next).1, .post post ::
            backoff maxAttempts s ++ (attemptAll weather post maxAttempts rest next).2)) := by
  rw [attemptAll]
  rcases hout : weather.outcome s with text | status
  · exact ⟨_, leaves_of_raises hfresh hout, .inr ⟨not_succeeds_of_raises hout, rfl⟩⟩
  · by_cases hok : 200 ≤ status ∧ status < 300
    · refine ⟨_, leaves_of_succeeds hout hok, .inl ⟨(succeeds_iff_of_status hout).mpr hok, ?_⟩⟩
      simp only [if_pos hok]
    · have hfail := mt (succeeds_iff_of_status hout).mp hok
      refine ⟨_, leaves_of_fails hfresh hout hok, .inr ⟨hfail, ?_⟩⟩
      simp only [if_neg hok]

end

/-- What one attempt leaves, and then the others. -/
theorem Leaves.trans {delivery next last : WebhookDelivery ι} (hsa : s + 1 < a)
    (h : Leaves weather s (s + 1) delivery next) (h' : Leaves weather (s + 1) a next last) :
    Leaves weather s a delivery last where
  attempts := h'.attempts
  success := h'.success
  status := h'.status
  raised := h'.raised
  noStatus := by rw [h'.noStatus, h.noStatus, and_assoc, forall_from_iff (by omega : s < a)]
  noError := by rw [h'.noError, h.noError, and_assoc, forall_from_iff (by omega : s < a)]

variable (weather post) in
/-- **The loop**: from attempt `s` on, it goes up to the final one. -/
theorem attemptAll_range' {k : ℕ} (hk : 0 < k) (hmax : s + k = maxAttempts)
    {delivery : WebhookDelivery ι} (hfresh : delivery.success = false) :
    ∃ a last, s < a ∧ a ≤ maxAttempts ∧ (∀ i, s ≤ i → i + 1 < a → ¬ Succeeds weather i) ∧
      (Succeeds weather (a - 1) ∨ a = maxAttempts) ∧
      attemptAll weather post maxAttempts (List.range' s k) delivery = (last, trace post s a) ∧
      Leaves weather s a delivery last := by
  induction k generalizing s delivery with
  | zero => exact absurd hk (Nat.lt_irrefl 0)
  | succ k ih =>
    rw [List.range'_succ]
    obtain ⟨next, hnext, ⟨hsucceeds, hloop⟩ | ⟨hfail, hloop⟩⟩ :=
      attemptAll_step weather post maxAttempts s (List.range' (s + 1) k) hfresh
    · refine ⟨s + 1, next, Nat.lt_succ_self s, by omega, ?_, .inl ?_, ?_, hnext⟩
      · intro i hle hlt
        omega
      · simpa using hsucceeds
      · rw [hloop, trace_succ]
    · rcases Nat.eq_zero_or_pos k with rfl | hk'
      · have hlast : ¬ s + 1 < maxAttempts := by omega
        refine ⟨s + 1, next, Nat.lt_succ_self s, by omega, ?_, .inr (by omega), ?_, hnext⟩
        · intro i hle hlt
          omega
        · rw [hloop, trace_succ, List.range'_zero, attemptAll, backoff, if_neg hlast]
          rfl
      · have hnextFresh : next.success = false := by
          rw [Bool.eq_false_iff]
          intro htrue
          exact hfail (by simpa using hnext.success.mp htrue)
        obtain ⟨a, last, hgt, hle, hbefore, hstops, htrace, hleaves⟩ :=
          ih hk' (show s + 1 + k = maxAttempts by omega) hnextFresh
        have hmore : s + 1 < maxAttempts := by omega
        refine ⟨a, last, by omega, hle, ?_, hstops, ?_, hnext.trans hgt hleaves⟩
        · intro i hsi hlt
          rcases Nat.eq_or_lt_of_le hsi with rfl | hgt'
          · exact hfail
          · exact hbefore i hgt' hlt
        · rw [hloop, htrace, trace_cons (by omega : s < a), backoff, if_pos hmore, if_pos hgt]

/-! ### Deliveries -/

/-- The number of attempts that a webhook has. -/
def attemptsOf (wh : WebhookConfig) : ℕ := (max 1 wh.retryCount).toNat

/-- The post of a delivery. -/
def postOf (lib : WebhookLib ι) (weather : Weather) (wh : WebhookConfig) (event : String)
    (payload : Dict String (Value ι)) : Post :=
  let payloadBytes := lib.encode (payload.set "event" (.str event))
  { url := wh.url
    body := payloadBytes
    headers := headers lib wh event weather.deliveryId payloadBytes
    timeout := wh.timeout }

section

variable (lib : WebhookLib ι) (weather : Weather) (m : WebhookManager ι) (wh : WebhookConfig)
  (event : String) (payload : Dict String (Value ι))

/-- The record that a delivery starts with. -/
def started : WebhookDelivery ι where
  deliveryId := weather.deliveryId
  webhookUrl := wh.url
  event := event
  payload := payload.set "event" (.str event)

/-- **A delivery** makes its attempts, and then hands out the record they leave. -/
theorem deliver_spec :
    ∃ a last, FinalAttempt weather (attemptsOf wh) a ∧
      Leaves weather 0 a (started weather wh event payload) last ∧
      deliver lib weather m wh event payload =
        (last, trace (postOf lib weather wh event payload) 0 a ++
          (if m.onDelivery then [.notify last] else []), m.record last) := by
  have hmax : 0 < attemptsOf wh := by
    rw [attemptsOf]
    omega
  obtain ⟨a, last, hpos, hle, hbefore, hstops, hloop, hleaves⟩ :=
    @attemptAll_range' ι weather (postOf lib weather wh event payload) _ _ _ hmax (Nat.zero_add _)
      (started weather wh event payload) rfl
  refine ⟨a, last, ⟨hpos, hle, fun i => hbefore i (Nat.zero_le i), hstops⟩, hleaves, ?_⟩
  rw [← List.range_eq_range'] at hloop
  exact congrArg (fun r : WebhookDelivery ι × List (Action ι) =>
    (r.1, r.2 ++ (if m.onDelivery then [.notify r.1] else []), m.record r.1)) hloop

/-- The record that a delivery returns, logs and hands to the callback describes the final
attempt. -/
structure RecordDescribes : Prop where
  logged : (deliver lib weather m wh event payload).2.2.deliveries.getLast? =
    some (deliver lib weather m wh event payload).1
  notified : ∀ delivery, .notify delivery ∈ (deliver lib weather m wh event payload).2.1 →
    delivery = (deliver lib weather m wh event payload).1
  describes : ∀ a, FinalAttempt weather (attemptsOf wh) a →
    Describes weather (a - 1) (deliver lib weather m wh event payload).1

/-- The first attempt succeeds; or none does, and the last one returns a status or they all raise
exceptions. -/
def NothingLeftBehind : Prop :=
  Succeeds weather 0 ∨
    (∀ i < attemptsOf wh, ¬ Succeeds weather i) ∧
      ((∃ status, weather.outcome (attemptsOf wh - 1) = .ok status) ∨
        ∀ i < attemptsOf wh, Raises weather i)

end

variable {lib : WebhookLib ι} {m : WebhookManager ι} {wh : WebhookConfig} {event : String}
  {payload : Dict String (Value ι)}

theorem deliveries_record (m : WebhookManager ι) (delivery : WebhookDelivery ι) :
    (m.record delivery).deliveries =
      (m.deliveries ++ [delivery]).drop ((m.deliveries ++ [delivery]).length - maxDeliveries) := by
  simp only [record]

theorem getLast?_record (m : WebhookManager ι) (delivery : WebhookDelivery ι) :
    (m.record delivery).deliveries.getLast? = some delivery := by
  have hlength : (m.deliveries ++ [delivery]).length - maxDeliveries <
      (m.deliveries ++ [delivery]).length := by
    rw [List.length_append, List.length_singleton, maxDeliveries]
    omega
  rw [deliveries_record, List.getLast?_drop, if_neg (Nat.not_le.mpr hlength), List.getLast?_concat]

theorem notify_not_mem_trace (delivery : WebhookDelivery ι) :
    .notify delivery ∉ trace post s a := by
  intro h
  obtain ⟨i, -, hi⟩ := List.mem_flatMap.mp h
  split_ifs at hi <;> simp at hi

/-- The record of the attempts describes the final one where they leave nothing behind. -/
theorem describes_iff {last : WebhookDelivery ι} (ha : FinalAttempt weather (attemptsOf wh) a)
    (hleaves : Leaves weather 0 a (started weather wh event payload) last) :
    Describes weather (a - 1) last ↔ NothingLeftBehind weather wh := by
  have hpos := ha.pos
  have hnoStatus : last.statusCode = none ↔ ∀ i < a, Raises weather i := by
    rw [hleaves.noStatus]
    simp [started]
  have hnoError : last.error = none ↔ ∀ i < a, Succeeds weather i := by
    rw [hleaves.noError]
    simp [started]
  constructor
  · intro hdescribes
    by_cases hsucceeds : Succeeds weather (a - 1)
    · have hclean := hdescribes.clean (hdescribes.success.mpr hsucceeds)
      exact .inl (hnoError.mp hclean 0 hpos)
    · obtain ⟨hmax, hfail⟩ := ha.all_fail hsucceeds
      refine .inr ⟨hfail, ?_⟩
      rw [← hmax]
      rcases hout : weather.outcome (a - 1) with text | status
      · exact .inr (hnoStatus.mp (hdescribes.raised text hout).1)
      · exact .inl ⟨status, rfl⟩
  · rintro (hfirst | ⟨hnone, hlast⟩)
    · -- the first attempt is the final one
      obtain rfl := ha.eq_one hfirst
      refine ⟨hleaves.success, hleaves.status, ?_, fun _ => hnoError.mpr ?_⟩
      · exact fun text htext => absurd hfirst (not_succeeds_of_raises htext)
      · intro i hi
        obtain rfl : i = 0 := by omega
        exact hfirst
    · have hle := ha.le
      have hfail : ¬ Succeeds weather (a - 1) := hnone _ (by omega)
      have hmax := (ha.all_fail hfail).1
      refine ⟨hleaves.success, hleaves.status, ?_, fun htrue => ?_⟩
      · intro text htext
        refine ⟨hnoStatus.mpr ?_, hleaves.raised text htext⟩
        rcases hlast with ⟨status, hstatus⟩ | hraise
        · rw [← hmax, htext] at hstatus
          cases hstatus
        · rwa [hmax]
      · exact absurd (hleaves.success.mp htrue) hfail

/-- **The record of a delivery**: it describes the final attempt exactly where the attempts before
it leave nothing behind. -/
theorem record_describes_iff (lib : WebhookLib ι) (weather : Weather) (m : WebhookManager ι)
    (wh : WebhookConfig) (event : String) (payload : Dict String (Value ι)) :
    RecordDescribes lib weather m wh event payload ↔ NothingLeftBehind weather wh := by
  obtain ⟨a, last, ha, hleaves, hdeliver⟩ := deliver_spec lib weather m wh event payload
  rw [← describes_iff ha hleaves]
  constructor
  · intro hrecord
    have hdescribes := hrecord.describes a ha
    rwa [hdeliver] at hdescribes
  · intro hdescribes
    refine ⟨?_, ?_, ?_⟩
    · rw [hdeliver]
      exact getLast?_record m last
    · intro delivery hmem
      rw [hdeliver] at hmem ⊢
      rcases List.mem_append.mp hmem with htrace | hnotify
      · exact absurd htrace (notify_not_mem_trace delivery)
      · split_ifs at hnotify
        · cases List.mem_singleton.mp hnotify
          rfl
        · cases hnotify
    · intro b hb
      rw [hdeliver, hb.unique ha]
      exact hdescribes

/-- A post that fails once. -/
def failsOnce : Weather :=
  ⟨"0123456789abcdef", fun i => .ok (if i = 0 then 500 else 200), fun _ => 0⟩

/-- A delivery that succeeds at the second attempt keeps the error of the first. -/
theorem error_left_behind :
    (deliver labLib failsOnce ⟨[], true, []⟩ { url := "https://lab" } "provision.started"
        ∅).1.error = some "HTTP 500" ∧
      (deliver labLib failsOnce ⟨[], true, []⟩ { url := "https://lab" } "provision.started"
        ∅).1.success = true ∧
      ¬ RecordDescribes labLib failsOnce ⟨[], true, []⟩ { url := "https://lab" }
        "provision.started" ∅ := by
  have herror : (deliver labLib failsOnce ⟨[], true, []⟩ { url := "https://lab" }
      "provision.started" ∅).1.error = some "HTTP 500" := by decide +kernel
  have hsuccess : (deliver labLib failsOnce ⟨[], true, []⟩ { url := "https://lab" }
      "provision.started" ∅).1.success = true := by decide +kernel
  refine ⟨herror, hsuccess, fun hrecord => ?_⟩
  have hsecond : FinalAttempt failsOnce (attemptsOf { url := "https://lab" }) 2 := by
    refine ⟨by decide, by decide, ?_, .inl ⟨200, rfl, by decide, by decide⟩⟩
    rintro i hi ⟨status, hstatus, hok⟩
    obtain rfl : i = 0 := by omega
    obtain rfl := Except.ok.inj hstatus
    exact absurd hok (by decide)
  have hclean := (hrecord.describes 2 hsecond).clean hsuccess
  rw [herror] at hclean
  cases hclean

/-! ### Attempts and sleeps -/

/-- `entries[:limit]`. -/
def sliceTo {α : Type} (entries : List α) (limit : ℤ) : List α :=
  if 0 ≤ limit then entries.take limit.toNat else entries.take (entries.length - (-limit).toNat)

/-- `get_recent_deliveries`. -/
def getRecentDeliveries (m : WebhookManager ι) (limit : ℤ) : List (WebhookDelivery ι) :=
  sliceTo m.deliveries.reverse limit

/-- A call of `_deliver`. -/
structure Job (ι : Type) where
  weather : Weather
  webhook : WebhookConfig
  event : String
  payload : Dict String (Value ι)

/-- Perform a delivery. -/
def perform (lib : WebhookLib ι) (m : WebhookManager ι) (job : Job ι) :
    WebhookDelivery ι × WebhookManager ι :=
  let r := deliver lib job.weather m job.webhook job.event job.payload
  (r.1, r.2.2)

theorem posts_append (actions actions' : List (Action ι)) :
    posts (actions ++ actions') = posts actions ++ posts actions' :=
  List.filterMap_append

theorem sleeps_append (actions actions' : List (Action ι)) :
    sleeps (actions ++ actions') = sleeps actions ++ sleeps actions' :=
  List.filterMap_append

/-- The attempts post one after the other, and between two of them the sleep doubles. -/
theorem posts_trace {k : ℕ} (h : s + k + 1 = a) :
    posts (trace (ι := ι) post s a) = List.replicate (k + 1) post ∧
      (sleeps (trace (ι := ι) post s a)).sum = 2 ^ (a - 1) - 2 ^ s := by
  induction k generalizing s with
  | zero =>
    obtain rfl : a = s + 1 := by omega
    rw [trace_succ]
    simp [posts, sleeps]
  | succ k ih =>
    obtain ⟨hposts, hsleeps⟩ := ih (show s + 1 + k + 1 = a by omega)
    rw [trace_cons (by omega : s < a), if_pos (by omega : s + 1 < a), posts_append, sleeps_append,
      hposts, List.sum_append, hsleeps]
    constructor
    · rfl
    · have hfirst : (sleeps ([.post post, .sleep (2 ^ s)] : List (Action ι))).sum = 2 ^ s := by
        simp [sleeps]
      rw [hfirst]
      ring

/-- The last entries of a list, of which the last are taken again after more have come. -/
theorem drop_append_drop {α : Type} (l l' : List α) (k : ℕ) :
    (l.drop (l.length - k) ++ l').drop ((l.drop (l.length - k) ++ l').length - k) =
      (l ++ l').drop ((l ++ l').length - k) := by
  have happend : l.drop (l.length - k) ++ l' = (l ++ l').drop (l.length - k) :=
    (List.drop_append_of_le_length (Nat.sub_le _ _)).symm
  rw [happend, List.drop_drop]
  congr 1
  rw [List.length_drop, List.length_append]
  omega

/-- The log holds the last of the deliveries. -/
theorem deliveries_run (lib : WebhookLib ι) {m : WebhookManager ι}
    (hm : m.deliveries.length ≤ maxDeliveries) (jobs : List (Job ι)) :
    (run (perform lib) m jobs).deliveries =
      (m.deliveries ++ outputs (perform lib) m jobs).drop
        ((m.deliveries ++ outputs (perform lib) m jobs).length - maxDeliveries) := by
  induction jobs generalizing m with
  | nil =>
    have hall : m.deliveries.length - maxDeliveries = 0 := Nat.sub_eq_zero_of_le hm
    rw [run_nil, outputs_nil, List.append_nil, hall, List.drop_zero]
  | cons job jobs ih =>
    have hrecord : (perform lib m job).2 = m.record (perform lib m job).1 := rfl
    have hkept : (m.record (perform lib m job).1).deliveries.length ≤ maxDeliveries := by
      rw [deliveries_record, List.length_drop]
      omega
    rw [run_cons, outputs_cons, hrecord, ih hkept, deliveries_record, drop_append_drop,
      List.append_assoc, List.singleton_append]

/-- **Attempts and sleeps**: a delivery makes its attempts up to the final one, and the log of a
manager is read from the last delivery back. -/
theorem deliveries_follow_outcomes (lib : WebhookLib ι) (webhooks : List WebhookConfig)
    (onDelivery : Bool) (jobs : List (Job ι)) :
    (∀ (weather : Weather) (m : WebhookManager ι) (wh : WebhookConfig) (event : String)
        (payload : Dict String (Value ι)), ∃ a, FinalAttempt weather (attemptsOf wh) a ∧
      posts (deliver lib weather m wh event payload).2.1 =
        List.replicate a (postOf lib weather wh event payload) ∧
      (∀ i < (posts (deliver lib weather m wh event payload).2.1).length, Succeeds weather i →
        i + 1 = (posts (deliver lib weather m wh event payload).2.1).length) ∧
      (deliver lib weather m wh event payload).1.attempts = a ∧
      (sleeps (deliver lib weather m wh event payload).2.1).sum = 2 ^ (a - 1) - 1) ∧
    ∀ n : ℕ, getRecentDeliveries (run (perform lib) ⟨webhooks, onDelivery, []⟩ jobs) n =
      ((outputs (perform lib) ⟨webhooks, onDelivery, []⟩ jobs).drop
        ((outputs (perform lib) ⟨webhooks, onDelivery, []⟩ jobs).length -
          min n (min 500
            (outputs (perform lib) ⟨webhooks, onDelivery, []⟩ jobs).length))).reverse := by
  constructor
  · intro weather m wh event payload
    obtain ⟨a, last, ha, hleaves, hdeliver⟩ := deliver_spec lib weather m wh event payload
    obtain ⟨k, rfl⟩ : ∃ k, a = k + 1 := ⟨a - 1, by have := ha.pos; omega⟩
    obtain ⟨hposts, hsleeps⟩ := @posts_trace ι
      (postOf lib weather wh event payload) 0 (k + 1) k (by omega)
    have hquiet : posts (if m.onDelivery then [Action.notify last] else []) = [] ∧
        sleeps (if m.onDelivery then [Action.notify last] else []) = [] := by
      split_ifs <;> exact ⟨rfl, rfl⟩
    rw [hdeliver]
    simp only [posts_append, sleeps_append, hposts, hquiet.1, hquiet.2, List.append_nil, hsleeps]
    refine ⟨k + 1, ha, rfl, ?_, hleaves.attempts, by norm_num⟩
    intro i hi hsucceeds
    rw [List.length_replicate] at hi ⊢
    by_contra hne
    exact ha.before i (by omega) hsucceeds
  · intro n
    have hlog := deliveries_run lib (m := ⟨webhooks, onDelivery, []⟩) (Nat.zero_le _) jobs
    rw [List.nil_append] at hlog
    rw [getRecentDeliveries, hlog, sliceTo, if_pos (Int.natCast_nonneg n), Int.toNat_natCast,
      List.take_reverse, List.drop_drop, List.length_drop, maxDeliveries]
    congr 2
    omega

end WebhookManager

end TftpOS
