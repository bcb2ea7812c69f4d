import TftpOS.Lib.WorkerPool
import TftpOS.WebhookRuns

/-!
# Firing webhooks

`fire`, `fire_sync`, `send_test` and `shutdown` of `WebhookManager`, with the thread pool that
`fire` hands its deliveries to. Any number of calls and of workers are under way at a time, and
their steps come in any order: a call of `fire` hands over one delivery, a worker takes one, and a
thread makes one attempt, appends its record to the log under the lock, or calls `on_delivery`.

Alone, these steps are `_deliver` (`finishes_delivery`). Together they deliver everything that was
fired exactly once (`deliveries_exactly_once`), begin it in the order in which it was handed over
(`deliveries_in_order`), and come to an end (`deliveries_end`).
-/

namespace TftpOS

open Lib

namespace WebhookManager

variable {ι : Type}

/-! ### The steps of a delivery -/

/-- One round of the loop over the attempts: what it does, the delivery, and whether it leaves the
loop. -/
def attemptOnce (weather : Weather) (post : Post) (maxAttempts attempt : ℕ)
    (delivery : WebhookDelivery ι) : List (Action ι) × WebhookDelivery ι × Bool :=
  let delivery := { delivery with attempts := attempt + 1 }
  match weather.outcome attempt with
  | .ok status =>
    let delivery := { delivery with statusCode := some status }
    if 200 ≤ status ∧ status < 300 then
      ([.post post],
        { delivery with success := true, deliveredAt := some (weather.clock attempt) }, true)
    else
      let delivery := { delivery with error := some ("HTTP " ++ toString status) }
      (.post post :: backoff maxAttempts attempt, delivery, false)
  | .error text =>
    let delivery := { delivery with error := some text }
    (.post post :: backoff maxAttempts attempt, delivery, false)

/-- How far a delivery is. -/
inductive Progress (ι : Type) where
  /-- In the loop, with the attempts to come. -/
  | attempting (attempts : List ℕ) (delivery : WebhookDelivery ι)
  | recording (delivery : WebhookDelivery ι)
  | notifying (delivery : WebhookDelivery ι)

/-- A delivery under way. -/
structure Delivering (ι : Type) where
  job : Job ι
  progress : Progress ι

/-- What a step of a delivery does: what it does to the world, or an entry of the log. -/
inductive Effect (ι : Type) where
  | act (action : Action ι)
  | log (delivery : WebhookDelivery ι)

/-- One step of `_deliver`. -/
def deliverStep (lib : WebhookLib ι) (onDelivery : Bool) :
    Delivering ι → List (Effect ι) × (Delivering ι ⊕ WebhookDelivery ι)
  | ⟨job, .attempting [] delivery⟩ => ([], .inl ⟨job, .recording delivery⟩)
  | ⟨job, .attempting (attempt :: attempts) delivery⟩ =>
    let post := postOf lib job.weather job.webhook job.event job.payload
    let (actions, delivery, left) :=
      attemptOnce job.weather post (attemptsOf job.webhook) attempt delivery
    (actions.map .act,
      .inl ⟨job, if left then .recording delivery else .attempting attempts delivery⟩)
  | ⟨job, .recording delivery⟩ => ([.log delivery], .inl ⟨job, .notifying delivery⟩)
  | ⟨_, .notifying delivery⟩ =>
    (if onDelivery then [.act (.notify delivery)] else [], .inr delivery)

/-- `_deliver`, step by step. -/
def delivering (lib : WebhookLib ι) (onDelivery : Bool) :
    Work (Job ι) (Delivering ι) (Effect ι) (WebhookDelivery ι) where
  start job := ⟨job, .attempting (List.range (attemptsOf job.webhook))
    (started job.weather job.webhook job.event job.payload)⟩
  step := deliverStep lib onDelivery

/-- What a delivery does, with its entry of the log. -/
def effectsOf (lib : WebhookLib ι) (onDelivery : Bool) (job : Job ι) : List (Effect ι) :=
  let post := postOf lib job.weather job.webhook job.event job.payload
  let r := attemptAll job.weather post (attemptsOf job.webhook)
    (List.range (attemptsOf job.webhook)) (started job.weather job.webhook job.event job.payload)
  r.2.map .act ++ [.log r.1] ++ if onDelivery then [.act (.notify r.1)] else []

/-- How many steps a delivery has left, at most. -/
def Delivering.size (d : Delivering ι) : ℕ :=
  match d.progress with
  | .attempting attempts _ => attempts.length + 2
  | .recording _ => 1
  | .notifying _ => 0

theorem size_step (lib : WebhookLib ι) (onDelivery : Bool) (p : Delivering ι)
    (effects : List (Effect ι)) (q : Delivering ι)
    (h : (delivering lib onDelivery).step p = (effects, .inl q)) : q.size < p.size := by
  obtain ⟨job, ⟨_ | ⟨attempt, attempts⟩, delivery⟩ | delivery | delivery⟩ := p
  · cases h
    exact Nat.lt_succ_self _
  · simp only [delivering, deliverStep, Prod.mk.injEq, Sum.inl.injEq] at h
    obtain ⟨-, rfl⟩ := h
    rw [Delivering.size, Delivering.size]
    dsimp only
    split_ifs <;> simp
  · cases h
    exact Nat.lt_succ_self _
  · cases (Prod.mk.inj h).2

/-- The loop is its first round and the others. -/
theorem attemptAll_eq_attemptOnce (weather : Weather) (post : Post) (maxAttempts attempt : ℕ)
    (attempts : List ℕ) (delivery : WebhookDelivery ι) :
    attemptAll weather post maxAttempts (attempt :: attempts) delivery =
      let r := attemptOnce weather post maxAttempts attempt delivery
      if r.2.2 then (r.2.1, r.1)
      else
        let rest := attemptAll weather post maxAttempts attempts r.2.1
        (rest.1, r.1 ++ rest.2) := by
  rw [attemptAll, attemptOnce]
  rcases weather.outcome attempt with text | status
  · rfl
  · by_cases hok : 200 ≤ status ∧ status < 300
    · simp only [if_pos hok, if_true]
    · simp only [if_neg hok, Bool.false_eq_true, if_false]

/-- From a place in the loop on, a delivery makes the attempts to come, appends its record to the
log and hands it to the callback. -/
theorem finishes_attempting (lib : WebhookLib ι) (onDelivery : Bool) (job : Job ι)
    (attempts : List ℕ) (delivery : WebhookDelivery ι) :
    let r := attemptAll job.weather (postOf lib job.weather job.webhook job.event job.payload)
      (attemptsOf job.webhook) attempts delivery
    (delivering lib onDelivery).Finishes ⟨job, .attempting attempts delivery⟩
      (r.2.map .act ++ ([.log r.1] ++ if onDelivery then [.act (.notify r.1)] else [])) r.1 := by
  have hrecord : ∀ last, (delivering lib onDelivery).Finishes ⟨job, .recording last⟩
      ([.log last] ++ if onDelivery then [.act (.notify last)] else []) last := fun last =>
    .more rfl (.last rfl)
  induction attempts generalizing delivery with
  | nil => exact hrecord delivery |> .more rfl
  | cons attempt attempts ih =>
    rw [attemptAll_eq_attemptOnce]
    rcases hround : attemptOnce job.weather
      (postOf lib job.weather job.webhook job.event job.payload) (attemptsOf job.webhook) attempt
      delivery with ⟨actions, next, left⟩
    have hstep : (delivering lib onDelivery).step
        ⟨job, .attempting (attempt :: attempts) delivery⟩ =
        (actions.map .act,
          .inl ⟨job, if left then .recording next else .attempting attempts next⟩) := by
      simp only [delivering, deliverStep, hround]
    cases left with
    | true => exact .more hstep (hrecord next)
    | false =>
      dsimp only
      rw [if_neg Bool.false_ne_true, List.map_append, List.append_assoc]
      exact .more hstep (ih next)

/-- **Alone**, the steps of a delivery are `_deliver`. -/
theorem finishes_delivery (lib : WebhookLib ι) (m : WebhookManager ι) (job : Job ι) :
    (delivering lib m.onDelivery).Finishes ((delivering lib m.onDelivery).start job)
      (effectsOf lib m.onDelivery job)
      (deliver lib job.weather m job.webhook job.event job.payload).1 := by
  rw [effectsOf, List.append_assoc]
  exact finishes_attempting lib m.onDelivery job _ _

/-- What is done to the world, without the entries of the log. -/
def actions (effects : List (Effect ι)) : List (Action ι) :=
  effects.filterMap fun
    | .act action => some action
    | .log _ => none

/-- The entries of the log. -/
def logged (effects : List (Effect ι)) : List (WebhookDelivery ι) :=
  effects.filterMap fun
    | .act _ => none
    | .log delivery => some delivery

theorem actions_append (effects effects' : List (Effect ι)) :
    actions (effects ++ effects') = actions effects ++ actions effects' :=
  List.filterMap_append

theorem logged_append (effects effects' : List (Effect ι)) :
    logged (effects ++ effects') = logged effects ++ logged effects' :=
  List.filterMap_append

@[simp]
theorem actions_map_act (as : List (Action ι)) : actions (as.map .act) = as := by
  rw [actions, List.filterMap_map]
  exact List.filterMap_some

@[simp]
theorem logged_map_act (as : List (Action ι)) : logged (as.map .act) = [] := by
  rw [logged, List.filterMap_map]
  exact List.filterMap_eq_nil_iff.mpr fun _ _ => rfl

/-- A delivery is its attempts, an entry of the log and a call of the callback. -/
theorem deliver_eq (lib : WebhookLib ι) (m : WebhookManager ι) (job : Job ι) :
    deliver lib job.weather m job.webhook job.event job.payload =
      let r := attemptAll job.weather (postOf lib job.weather job.webhook job.event job.payload)
        (attemptsOf job.webhook) (List.range (attemptsOf job.webhook))
        (started job.weather job.webhook job.event job.payload)
      (r.1, r.2 ++ if m.onDelivery then [.notify r.1] else [], m.record r.1) := rfl

/-- A delivery does what `_deliver` does, and has one entry in the log. -/
theorem effectsOf_spec (lib : WebhookLib ι) (m : WebhookManager ι) (job : Job ι) :
    actions (effectsOf lib m.onDelivery job) =
        (deliver lib job.weather m job.webhook job.event job.payload).2.1 ∧
      logged (effectsOf lib m.onDelivery job) =
        [(deliver lib job.weather m job.webhook job.event job.payload).1] := by
  rw [effectsOf, deliver_eq]
  simp only [actions_append, logged_append, actions_map_act, logged_map_act]
  cases m.onDelivery
  · exact ⟨by simp [actions], rfl⟩
  · exact ⟨by simp [actions], rfl⟩

/-! ### The manager and its pool -/

/-- `SUPPORTED_EVENTS`. -/
def supportedEvents : List String :=
  ["provision.started", "provision.complete", "provision.failed", "netboot.disabled"]

/-- A call of `fire` or of `fire_sync`. The delivery to the `i`-th webhook that it goes on with
meets `weather i`. -/
structure FireCall (ι : Type) where
  event : String
  payload : Dict String (Value ι)
  weather : ℕ → Weather

/-- The webhooks that subscribe to an event; without a list of events, to all. -/
def subscribed (webhooks : List WebhookConfig) (event : String) : List WebhookConfig :=
  webhooks.filter fun wh => wh.events.isEmpty || wh.events.contains event

/-- The deliveries of a call. -/
def FireCall.jobs (supported : List String) (webhooks : List WebhookConfig) (call : FireCall ι) :
    List (Job ι) :=
  if call.event ∈ supported then
    (subscribed webhooks call.event).zipIdx.map fun target =>
      ⟨call.weather target.2, target.1, call.event, call.payload⟩
  else []

/-- A call of `send_test`. -/
structure TestCall where
  webhookUrl : Option String := none
  timestamp : ℚ
  weather : ℕ → Weather

/-- The deliveries of a test. -/
def TestCall.jobs (webhooks : List WebhookConfig) (call : TestCall) : List (Job ι) :=
  let payload : Dict String (Value ι) := Dict.ofEntries [("event", .str "test"),
    ("message", .str "TftpOS webhook test"), ("timestamp", .float call.timestamp)]
  let targets : List WebhookConfig := match filled call.webhookUrl with
    | some url => webhooks.filter fun wh => wh.url == url
    | none => webhooks
  targets.zipIdx.map fun target => ⟨call.weather target.2, target.1, "test", payload⟩

/-- A call of `fire` under way: how many deliveries it has handed over, and those to come. -/
structure Firing (ι : Type) where
  dispatched : ℕ
  rest : List (Job ι)

/-- A manager, its pool, and the calls of `fire` under way. -/
structure Dispatch (ι : Type) where
  supported : List String
  manager : WebhookManager ι
  pool : WorkerPool (Job ι) (Delivering ι) (Effect ι) (WebhookDelivery ι)
  firing : List (Firing ι) := []
  /-- The deliveries that the pool has refused, and those behind them. -/
  refused : List (Job ι) := []

/-- What happens next. -/
inductive Event (ι : Type) where
  | fire (call : FireCall ι)
  /-- A call of `fire` hands over its next delivery. -/
  | handOver (i : ℕ)
  | fireSync (call : FireCall ι)
  | sendTest (call : TestCall)
  | shutdown
  | turn (turn : WorkerPool.Turn)

/-- The deliveries that an event brings. -/
def Event.jobs (supported : List String) (webhooks : List WebhookConfig) :
    Event ι → List (Job ι)
  | .fire call | .fireSync call => call.jobs supported webhooks
  | .sendTest call => call.jobs webhooks
  | .handOver _ | .shutdown | .turn _ => []

/-- Calls that make no deliveries themselves. -/
def Event.Pooled : Event ι → Prop
  | .fireSync _ | .sendTest _ => False
  | _ => True

namespace Dispatch

/-- `WebhookManager.__init__`. -/
def init (webhooks : List WebhookConfig) (onDelivery : Bool) (supported : List String)
    (maxWorkers : ℕ) : Dispatch ι where
  supported := supported
  manager := ⟨webhooks, onDelivery, []⟩
  pool := { limit := maxWorkers }

/-- What the effects of a step do to the manager. -/
def logEffects (m : WebhookManager ι) (effects : List (Effect ι)) : WebhookManager ι :=
  (logged effects).foldl record m

/-- The next delivery of a call of `fire`: what the call returns or raises, if it ends. -/
def handOver (s : Dispatch ι) (i : ℕ) : Option (Except PyExc ℕ) × Dispatch ι :=
  match s.firing[i]? with
  | none | some ⟨_, []⟩ => (none, s)
  | some ⟨n, job :: rest⟩ =>
    match s.pool.submit job with
    | none =>
      (some (.error ⟨.runtimeError, "cannot schedule new futures after shutdown"⟩),
        { s with firing := s.firing.eraseIdx i, refused := s.refused ++ job :: rest })
    | some pool =>
      if rest.isEmpty then (some (.ok (n + 1)), { s with pool, firing := s.firing.eraseIdx i })
      else (none, { s with pool, firing := s.firing.set i ⟨n + 1, rest⟩ })

/-- The next thing that happens. -/
def step (lib : WebhookLib ι) (s : Dispatch ι) : Event ι → Option (Except PyExc ℕ) × Dispatch ι
  | .fire call =>
    let jobs := call.jobs s.supported s.manager.webhooks
    if jobs.isEmpty then (some (.ok 0), s)
    else (none, { s with firing := s.firing ++ [⟨0, jobs⟩] })
  | .handOver i => s.handOver i
  | .fireSync call =>
    let jobs := call.jobs s.supported s.manager.webhooks
    (none, { s with pool := s.pool.call (delivering lib s.manager.onDelivery) jobs })
  | .sendTest call =>
    let jobs := call.jobs s.manager.webhooks
    (none, { s with pool := s.pool.call (delivering lib s.manager.onDelivery) jobs })
  | .shutdown => (none, { s with pool := s.pool.shutdown })
  | .turn .take => (none, { s with pool := s.pool.take (delivering lib s.manager.onDelivery) })
  | .turn (.advance k) =>
    match s.pool.threads[k]? with
    | none => (none, s)
    | some t =>
      let work := delivering lib s.manager.onDelivery
      (none, { s with
        manager := logEffects s.manager (work.step t.progress).1
        pool := s.pool.advance work k })

/-! ### What holds in any order of the steps -/

/-- The entries of the log, with the numbers of the deliveries. -/
def entries (trace : List (ℕ × Effect ι)) : List (ℕ × WebhookDelivery ι) :=
  trace.filterMap fun e =>
    match e.2 with
    | .act _ => none
    | .log delivery => some (e.1, delivery)

theorem entries_append (trace trace' : List (ℕ × Effect ι)) :
    entries (trace ++ trace') = entries trace ++ entries trace' :=
  List.filterMap_append

theorem entries_map (n : ℕ) (effects : List (Effect ι)) :
    entries (effects.map (Prod.mk n)) = (logged effects).map (Prod.mk n) := by
  rw [entries, logged, List.filterMap_map, List.map_filterMap]
  refine List.filterMap_congr fun effect _ => ?_
  cases effect <;> rfl

/-- The entries of the delivery with a number. -/
def entriesOf (trace : List (ℕ × Effect ι)) (n : ℕ) : List (WebhookDelivery ι) :=
  ((entries trace).filter fun e => e.1 = n).map Prod.snd

theorem logged_trail (trace : List (ℕ × Effect ι)) (n : ℕ) :
    logged (trail some n trace) = entriesOf trace n := by
  induction trace with
  | nil => rfl
  | cons e trace ih =>
    obtain ⟨m, effect⟩ := e
    rw [← List.singleton_append, trail_append, logged_append, entriesOf, entries_append,
      List.filter_append, List.map_append, ih, entriesOf]
    congr 1
    by_cases hm : m = n
    · subst hm
      cases effect <;> simp [trail, markOn, logged, entries]
    · cases effect <;> simp [trail, markOn, logged, entries, hm]

/-- A log that keeps the last entries. -/
theorem deliveries_logEffects {m : WebhookManager ι} (hm : m.deliveries.length ≤ maxDeliveries)
    (effects : List (Effect ι)) :
    (logEffects m effects).deliveries = (m.deliveries ++ logged effects).drop
      ((m.deliveries ++ logged effects).length - maxDeliveries) := by
  rw [logEffects]
  generalize logged effects = last
  induction last generalizing m with
  | nil =>
    rw [List.foldl_nil, List.append_nil, Nat.sub_eq_zero_of_le hm, List.drop_zero]
  | cons delivery last ih =>
    have hkept : (m.record delivery).deliveries.length ≤ maxDeliveries := by
      rw [deliveries_record, List.length_drop]
      omega
    rw [List.foldl_cons, ih hkept, deliveries_record, drop_append_drop, List.append_assoc,
      List.singleton_append]

theorem logEffects_webhooks (m : WebhookManager ι) (effects : List (Effect ι)) :
    (logEffects m effects).webhooks = m.webhooks ∧
      (logEffects m effects).onDelivery = m.onDelivery := by
  rw [logEffects]
  generalize logged effects = last
  induction last generalizing m with
  | nil => exact ⟨rfl, rfl⟩
  | cons delivery last ih =>
    have hsame : (m.record delivery).webhooks = m.webhooks ∧
        (m.record delivery).onDelivery = m.onDelivery := by simp only [record, and_self]
    rw [List.foldl_cons, ← hsame.1, ← hsame.2]
    exact ih (m.record delivery)

variable {lib : WebhookLib ι} {webhooks : List WebhookConfig} {onDelivery : Bool}
  {supported : List String} {maxWorkers : ℕ} {events : List (Event ι)} {s : Dispatch ι}

/-- What holds of a manager after some events. -/
structure Dispatched (lib : WebhookLib ι) (webhooks : List WebhookConfig) (onDelivery : Bool)
    (supported : List String) (maxWorkers : ℕ) (events : List (Event ι)) (s : Dispatch ι) :
    Prop where
  supports : s.supported = supported
  hooks : s.manager.webhooks = webhooks
  callback : s.manager.onDelivery = onDelivery
  limit : s.pool.limit = maxWorkers
  sound : s.pool.Sound (delivering lib onDelivery)
  ordered : s.pool.Ordered
  /-- What was fired is with the pool, still to be handed over, or refused. -/
  jobs : (s.pool.accepted ++ (s.firing.flatMap Firing.rest ++ s.refused)).Perm
    (events.flatMap (Event.jobs supported webhooks))
  refused : s.refused ≠ [] → s.pool.closed = true
  closed : s.pool.closed = true → .shutdown ∈ events
  log : s.manager.deliveries = ((entries s.pool.trace).map Prod.snd).drop
    (((entries s.pool.trace).map Prod.snd).length - maxDeliveries)

theorem dispatched_init : Dispatched lib webhooks onDelivery supported maxWorkers []
    (init webhooks onDelivery supported maxWorkers : Dispatch ι) where
  supports := rfl
  hooks := rfl
  callback := rfl
  limit := rfl
  sound := WorkerPool.sound_new maxWorkers
  ordered := WorkerPool.ordered_new maxWorkers
  jobs := .refl _
  refused h := absurd rfl h
  closed h := by cases h
  log := List.drop_nil.symm

/-- A call of `fire` hands over its next delivery, or ends with an exception. -/
theorem handOver_cases (s : Dispatch ι) (i : ℕ) :
    ((s.handOver i).2 = s ∧ ∀ n job rest, s.firing[i]? ≠ some ⟨n, job :: rest⟩) ∨
      ∃ pre n job rest post, s.firing = pre ++ ⟨n, job :: rest⟩ :: post ∧
      ((s.pool.submit job = none ∧ (s.handOver i).2 =
          { s with firing := pre ++ post, refused := s.refused ++ job :: rest }) ∨
        ∃ pool new, s.pool.submit job = some pool ∧ new.flatMap Firing.rest = rest ∧
          (s.handOver i).2 = { s with pool, firing := pre ++ new ++ post }) := by
  rw [handOver]
  rcases hi : s.firing[i]? with _ | ⟨n, _ | ⟨job, rest⟩⟩
  · exact .inl ⟨rfl, fun _ _ _ h => by cases h⟩
  · exact .inl ⟨rfl, fun _ _ _ h => by cases h⟩
  · obtain ⟨hlt, hget⟩ := List.getElem?_eq_some_iff.mp hi
    refine .inr ⟨s.firing.take i, n, job, rest, s.firing.drop (i + 1), ?_, ?_⟩
    · rw [← hget, List.getElem_cons_drop, List.take_append_drop]
    · rcases hsubmit : s.pool.submit job with _ | pool
      · refine .inl ⟨rfl, ?_⟩
        simp only [hsubmit, List.eraseIdx_eq_take_drop_succ]
      · cases rest with
        | nil =>
          refine .inr ⟨pool, [], rfl, rfl, ?_⟩
          simp only [hsubmit, List.isEmpty_nil, if_true, List.eraseIdx_eq_take_drop_succ,
            List.append_nil]
        | cons job' rest =>
          refine .inr ⟨pool, [⟨n + 1, job' :: rest⟩], rfl, by simp, ?_⟩
          simp only [hsubmit, List.isEmpty_cons, Bool.false_eq_true, if_false,
            List.set_eq_take_append_cons_drop, if_pos hlt, List.append_assoc, List.singleton_append]

theorem submit_pool {job : Job ι} {pool pool' : WorkerPool (Job ι) (Delivering ι) (Effect ι)
    (WebhookDelivery ι)} (h : pool.submit job = some pool') :
    pool.closed = false ∧ pool'.closed = false ∧ pool'.limit = pool.limit ∧
      pool'.accepted = pool.accepted ++ [job] ∧ pool'.trace = pool.trace := by
  rw [WorkerPool.submit] at h
  split_ifs at h with hclosed
  obtain rfl := Option.some.inj h
  rw [Bool.not_eq_true] at hclosed
  exact ⟨hclosed, hclosed, rfl, rfl, rfl⟩

section

variable (h : Dispatched lib webhooks onDelivery supported maxWorkers events s)
include h

theorem Dispatched.fire (call : FireCall ι) :
    Dispatched lib webhooks onDelivery supported maxWorkers (events ++ [.fire call])
      (step lib s (.fire call)).2 := by
  have hclosed : s.pool.closed = true → .shutdown ∈ events ++ [.fire call] := fun hc =>
    List.mem_append_left _ (h.closed hc)
  have hjobs := h.jobs
  have hcall : call.jobs s.supported s.manager.webhooks = call.jobs supported webhooks := by
    rw [h.supports, h.hooks]
  rw [Dispatch.step, hcall]
  split_ifs with hempty
  · refine { h with jobs := ?_, closed := hclosed }
    rw [List.flatMap_append, List.flatMap_singleton, Event.jobs, List.isEmpty_iff.mp hempty,
      List.append_nil]
    exact hjobs
  · refine { h with jobs := ?_, closed := hclosed }
    classical
    rw [List.perm_iff_count] at hjobs ⊢
    intro job
    have hcount := hjobs job
    simp only [List.flatMap_append, List.flatMap_singleton, List.count_append,
      Event.jobs] at hcount ⊢
    omega

theorem Dispatched.handOver (i : ℕ) :
    Dispatched lib webhooks onDelivery supported maxWorkers (events ++ [.handOver i])
      (step lib s (.handOver i)).2 := by
  have hclosed : s.pool.closed = true → .shutdown ∈ events ++ [Event.handOver i] := fun hc =>
    List.mem_append_left _ (h.closed hc)
  have hevents : (events ++ [Event.handOver i]).flatMap (Event.jobs supported webhooks) =
      events.flatMap (Event.jobs supported webhooks) := by
    rw [List.flatMap_append, List.flatMap_singleton, Event.jobs, List.append_nil]
  have hjobs := h.jobs
  rw [← hevents] at hjobs
  rw [Dispatch.step]
  rcases handOver_cases s i with ⟨heq, -⟩ | ⟨pre, n, job, rest, post, hfiring, hcases⟩
  · rw [heq]
    exact { h with jobs := hjobs, closed := hclosed }
  rcases hcases with ⟨hsubmit, heq⟩ | ⟨pool, new, hsubmit, hnew, heq⟩
  · -- the pool is shut down
    rw [heq]
    rw [WorkerPool.submit] at hsubmit
    split_ifs at hsubmit with hshut
    refine { h with jobs := ?_, closed := hclosed, refused := fun _ => hshut }
    classical
    rw [List.perm_iff_count] at hjobs ⊢
    intro x
    have hcount := hjobs x
    simp only [hfiring, List.flatMap_append, List.flatMap_cons, List.count_append] at hcount ⊢
    omega
  · rw [heq]
    obtain ⟨hopen, hopen', hlimit, haccepted, htrace⟩ := submit_pool hsubmit
    refine { h with
      limit := hlimit.trans h.limit
      sound := h.sound.submit hsubmit
      ordered := h.ordered.submit h.sound hsubmit
      jobs := ?_
      refused := fun hne => absurd (h.refused hne) (by simp [hopen])
      closed := fun hc => absurd hc (by simp [hopen'])
      log := htrace ▸ h.log }
    classical
    rw [List.perm_iff_count] at hjobs ⊢
    intro x
    have hcount := hjobs x
    simp only [hfiring, haccepted, hnew, List.flatMap_append, List.flatMap_cons,
      List.count_append, List.count_cons, List.count_nil] at hcount ⊢
    omega

/-- A caller that makes deliveries itself. -/
theorem Dispatched.call {jobs : List (Job ι)} {event : Event ι}
    (hjobs : event.jobs supported webhooks = jobs) :
    Dispatched lib webhooks onDelivery supported maxWorkers (events ++ [event])
      { s with pool := s.pool.call (delivering lib onDelivery) jobs } := by
  refine { h with
    sound := h.sound.call jobs
    ordered := h.ordered.call jobs
    jobs := ?_
    closed := fun hc => List.mem_append_left _ (h.closed hc) }
  have hperm := h.jobs
  classical
  rw [List.perm_iff_count] at hperm ⊢
  intro job
  have hcount := hperm job
  simp only [WorkerPool.call, List.flatMap_append, List.flatMap_singleton, List.count_append,
    hjobs] at hcount ⊢
  omega

/-- A worker takes a delivery, or the pool is shut down: nothing is done. -/
theorem Dispatched.quiet {event : Event ι} (hnone : event.jobs supported webhooks = [])
    {pool : WorkerPool (Job ι) (Delivering ι) (Effect ι) (WebhookDelivery ι)}
    (hsound : pool.Sound (delivering lib onDelivery)) (hordered : pool.Ordered)
    (hlimit : pool.limit = s.pool.limit) (haccepted : pool.accepted = s.pool.accepted)
    (htrace : pool.trace = s.pool.trace)
    (hclosed : pool.closed = true ↔ s.pool.closed = true ∨ event = .shutdown) :
    Dispatched lib webhooks onDelivery supported maxWorkers (events ++ [event])
      { s with pool } := by
  refine { h with
    limit := hlimit.trans h.limit
    sound := hsound
    ordered := hordered
    jobs := ?_
    refused := fun hne => hclosed.mpr (.inl (h.refused hne))
    closed := fun hc => ?_
    log := htrace ▸ h.log }
  · rw [List.flatMap_append, List.flatMap_singleton, hnone, List.append_nil, haccepted]
    exact h.jobs
  · rcases hclosed.mp hc with hc | rfl
    · exact List.mem_append_left _ (h.closed hc)
    · exact List.mem_append_right _ (List.mem_singleton_self _)

/-- A thread makes a step. -/
theorem Dispatched.advance (k : ℕ) :
    Dispatched lib webhooks onDelivery supported maxWorkers (events ++ [.turn (.advance k)])
      (step lib s (.turn (.advance k))).2 := by
  have hjobs : (events ++ [Event.turn (.advance k)]).flatMap (Event.jobs supported webhooks) =
      events.flatMap (Event.jobs supported webhooks) := by
    rw [List.flatMap_append, List.flatMap_singleton, Event.jobs, List.append_nil]
  have hclosed : s.pool.closed = true → .shutdown ∈ events ++ [.turn (.advance k)] := fun hc =>
    List.mem_append_left _ (h.closed hc)
  have hlength : s.manager.deliveries.length ≤ maxDeliveries := by
    rw [h.log, List.length_drop]
    omega
  rcases hk : s.pool.threads[k]? with _ | t
  · simp only [Dispatch.step, hk]
    exact { h with jobs := hjobs.symm ▸ h.jobs, closed := hclosed }
  rcases hstep : (delivering lib onDelivery).step t.progress with ⟨effects, next⟩
  simp only [Dispatch.step, h.callback, hk, hstep]
  have hpool : (s.pool.advance (delivering lib onDelivery) k).trace =
      s.pool.trace ++ effects.map (Prod.mk t.ticket.2) ∧
      (s.pool.advance (delivering lib onDelivery) k).accepted = s.pool.accepted ∧
      (s.pool.advance (delivering lib onDelivery) k).limit = s.pool.limit ∧
      (s.pool.advance (delivering lib onDelivery) k).closed = s.pool.closed := by
    rw [WorkerPool.advance, hk]
    simp only [hstep]
    cases next <;> exact ⟨rfl, rfl, rfl, rfl⟩
  obtain ⟨htrace, haccepted, hlimit, hshut⟩ := hpool
  obtain ⟨hhooks, hcallback⟩ := logEffects_webhooks s.manager effects
  refine {
    supports := h.supports
    hooks := hhooks.trans h.hooks
    callback := hcallback.trans h.callback
    limit := hlimit.trans h.limit
    sound := h.sound.advance k
    ordered := h.ordered.advance h.sound k
    jobs := ?_
    refused := fun hne => hshut.trans (h.refused hne)
    closed := fun hc => hclosed (hshut.symm.trans hc)
    log := ?_ }
  · dsimp only
    rw [hjobs, haccepted]
    exact h.jobs
  · dsimp only
    rw [htrace, entries_append, entries_map, List.map_append, List.map_map,
      deliveries_logEffects hlength, h.log, drop_append_drop]
    congr 2
    all_goals simp [Function.comp_def]

end

theorem Dispatched.step (h : Dispatched lib webhooks onDelivery supported maxWorkers events s)
    (event : Event ι) : Dispatched lib webhooks onDelivery supported maxWorkers
      (events ++ [event]) (step lib s event).2 := by
  cases event with
  | fire call => exact h.fire call
  | handOver i => exact h.handOver i
  | fireSync call =>
    have hjobs : (Event.fireSync call).jobs supported webhooks =
        call.jobs s.supported s.manager.webhooks := by
      rw [h.supports, h.hooks, Event.jobs]
    rw [Dispatch.step, h.callback]
    exact h.call hjobs
  | sendTest call =>
    have hjobs : (Event.sendTest call : Event ι).jobs supported webhooks =
        call.jobs s.manager.webhooks := by
      rw [h.hooks, Event.jobs]
    rw [Dispatch.step, h.callback]
    exact h.call hjobs
  | shutdown =>
    exact h.quiet rfl h.sound.shutdown h.ordered.shutdown rfl rfl rfl
      (by simp [WorkerPool.shutdown])
  | turn turn =>
    cases turn with
    | advance k => exact h.advance k
    | take =>
      rw [Dispatch.step, h.callback]
      rcases WorkerPool.take_cases (delivering lib onDelivery) s.pool with
        ⟨heq, -⟩ | ⟨ticket, queue, -, -, heq⟩
      · refine h.quiet rfl h.sound.take h.ordered.take ?_ ?_ ?_ ?_ <;> rw [heq]
        simp
      · refine h.quiet rfl h.sound.take h.ordered.take ?_ ?_ ?_ ?_ <;> rw [heq]
        simp

theorem dispatched_run (lib : WebhookLib ι) (webhooks : List WebhookConfig) (onDelivery : Bool)
    (supported : List String) (maxWorkers : ℕ) (events : List (Event ι)) :
    Dispatched lib webhooks onDelivery supported maxWorkers events
      (run (step lib) (init webhooks onDelivery supported maxWorkers) events) :=
  run_induction dispatched_init (fun _ event h => h.step event) events

/-- The record and the actions of a delivery, as `_deliver` makes them. -/
theorem Dispatched.actions_of (h : Dispatched lib webhooks onDelivery supported maxWorkers events s)
    {n : ℕ} {job : Job ι} (hjob : s.pool.accepted[n]? = some job) :
    let d := deliver lib job.weather ⟨webhooks, onDelivery, []⟩ job.webhook job.event job.payload
    s.pool.actionsOf n <+: effectsOf lib onDelivery job ∧
      ∀ f ∈ s.pool.finished, f.ticket.2 = n →
        s.pool.actionsOf n = effectsOf lib onDelivery job ∧ f.result = d.1 :=
  h.sound.prefix_of_finishes (Work.exists_finishes (size_step lib onDelivery)) hjob
    (finishes_delivery lib ⟨webhooks, onDelivery, []⟩ job)

/-- **Exactly once**: in any order of the steps, everything that is fired is with the pool, still
to be handed over, or refused after a shutdown; what is with the pool is waiting, being delivered
or delivered, each in one place. Of each delivery the first actions that `_deliver` takes have been
taken, and no others, and all of them once it has ended; the log has at most one entry of each, the
record that `_deliver` makes, and keeps the last entries. -/
theorem deliveries_exactly_once (lib : WebhookLib ι) (webhooks : List WebhookConfig)
    (onDelivery : Bool) (supported : List String) (maxWorkers : ℕ) (events : List (Event ι)) :
    let s := run (step lib) (init webhooks onDelivery supported maxWorkers) events
    (s.pool.accepted ++ (s.firing.flatMap Firing.rest ++ s.refused)).Perm
        (events.flatMap (Event.jobs supported webhooks)) ∧
      (.shutdown ∉ events → s.refused = []) ∧
      s.pool.tickets.Perm s.pool.accepted.zipIdx ∧
      (∀ n job, s.pool.accepted[n]? = some job →
        let d := deliver lib job.weather ⟨webhooks, onDelivery, []⟩ job.webhook job.event
          job.payload
        actions (s.pool.actionsOf n) <+: d.2.1 ∧ entriesOf s.pool.trace n <+: [d.1] ∧
          ∀ f ∈ s.pool.finished, f.ticket.2 = n →
            actions (s.pool.actionsOf n) = d.2.1 ∧ entriesOf s.pool.trace n = [d.1] ∧
              f.result = d.1) ∧
      s.manager.deliveries = ((entries s.pool.trace).map Prod.snd).drop
        ((entries s.pool.trace).length - 500) := by
  intro s
  have h := dispatched_run lib webhooks onDelivery supported maxWorkers events
  refine ⟨h.jobs, fun hshutdown => ?_, h.sound.tickets, fun n job hjob => ?_, ?_⟩
  · by_contra hne
    exact hshutdown (h.closed (h.refused hne))
  · obtain ⟨hwritten, hfinished⟩ := h.actions_of hjob
    have hspec := effectsOf_spec lib ⟨webhooks, onDelivery, []⟩ job
    rw [← logged_trail]
    refine ⟨?_, ?_, fun f hf hn => ?_⟩
    · exact hspec.1 ▸ hwritten.filterMap _
    · exact hspec.2 ▸ hwritten.filterMap _
    · obtain ⟨hall, hresult⟩ := hfinished f hf hn
      exact ⟨(congrArg actions hall).trans hspec.1, (congrArg logged hall).trans hspec.2, hresult⟩
  · have hlog := h.log
    rwa [List.length_map] at hlog

/-! ### The order of the deliveries -/

/-- The record of a delivery. -/
def recordOf (lib : WebhookLib ι) (job : Job ι) : WebhookDelivery ι :=
  (deliver lib job.weather ⟨[], false, []⟩ job.webhook job.event job.payload).1

theorem recordOf_eq (lib : WebhookLib ι) (m : WebhookManager ι) (job : Job ι) :
    (deliver lib job.weather m job.webhook job.event job.payload).1 = recordOf lib job := by
  rw [recordOf, deliver_eq, deliver_eq]

theorem outputs_perform (lib : WebhookLib ι) (m : WebhookManager ι) (jobs : List (Job ι)) :
    outputs (perform lib) m jobs = jobs.map (recordOf lib) := by
  induction jobs generalizing m with
  | nil => rfl
  | cons job jobs ih =>
    rw [outputs_cons, ih, List.map_cons]
    exact congrArg (· :: _) (recordOf_eq lib m job)

/-- The entry of a delivery, if there is one, is its record. -/
theorem Dispatched.entriesOf_prefix
    (h : Dispatched lib webhooks onDelivery supported maxWorkers events s) {n : ℕ} {job : Job ι}
    (hjob : s.pool.accepted[n]? = some job) :
    entriesOf s.pool.trace n <+: [recordOf lib job] := by
  have hspec := (effectsOf_spec lib ⟨webhooks, onDelivery, []⟩ job).2
  rw [← logged_trail, ← recordOf_eq lib ⟨webhooks, onDelivery, []⟩, ← hspec]
  exact (h.actions_of hjob).1.filterMap _

theorem Dispatched.entriesOf_eq_nil
    (h : Dispatched lib webhooks onDelivery supported maxWorkers events s) {n : ℕ}
    (hn : s.pool.accepted.length ≤ n) : entriesOf s.pool.trace n = [] := by
  rw [← logged_trail]
  exact congrArg logged (h.sound.actionsOf_of_le hn)

/-- An entry is the record of a delivery that the pool has accepted. -/
theorem Dispatched.entry (h : Dispatched lib webhooks onDelivery supported maxWorkers events s)
    {n : ℕ} {delivery : WebhookDelivery ι} (hmem : (n, delivery) ∈ entries s.pool.trace) :
    ∃ job, s.pool.accepted[n]? = some job ∧ delivery = recordOf lib job := by
  have hof : delivery ∈ entriesOf s.pool.trace n :=
    List.mem_map.mpr ⟨(n, delivery), List.mem_filter.mpr ⟨hmem, by simp⟩, rfl⟩
  rcases Nat.lt_or_ge n s.pool.accepted.length with hlt | hle
  · have hjob := List.getElem?_eq_getElem hlt
    exact ⟨_, hjob, List.mem_singleton.mp ((h.entriesOf_prefix hjob).subset hof)⟩
  · rw [h.entriesOf_eq_nil hle] at hof
    cases hof

theorem Dispatched.length_entriesOf
    (h : Dispatched lib webhooks onDelivery supported maxWorkers events s) (n : ℕ) :
    (entriesOf s.pool.trace n).length ≤ 1 := by
  rcases Nat.lt_or_ge n s.pool.accepted.length with hlt | hle
  · exact (h.entriesOf_prefix (List.getElem?_eq_getElem hlt)).length_le
  · rw [h.entriesOf_eq_nil hle]
    exact Nat.zero_le _

theorem pooled_step (lib : WebhookLib ι) (h : s.pool.Pooled) {event : Event ι}
    (hevent : Event.Pooled event) : (step lib s event).2.pool.Pooled := by
  cases event with
  | fire call =>
    rw [Dispatch.step]
    split_ifs
    · exact h
    · exact h
  | handOver i =>
    rw [Dispatch.step]
    rcases handOver_cases s i with ⟨heq, -⟩ | ⟨pre, n, job, rest, post, -, hcases⟩
    · rwa [heq]
    · rcases hcases with ⟨-, heq⟩ | ⟨pool, new, hsubmit, -, heq⟩
      · rwa [heq]
      · rw [heq]
        exact h.submit hsubmit
  | fireSync call => exact hevent.elim
  | sendTest call => exact hevent.elim
  | shutdown => exact ⟨h.threads, h.finished⟩
  | turn turn =>
    cases turn with
    | take => exact h.take
    | advance k =>
      rcases hk : s.pool.threads[k]? with _ | t
      · simp only [Dispatch.step, hk]
        exact h
      · simp only [Dispatch.step, hk]
        exact h.advance k

/-- The log has the deliveries in their order. -/
def InOrder (s : Dispatch ι) : Prop :=
  (entries s.pool.trace).map Prod.fst = List.range (entries s.pool.trace).length

theorem entriesOf_eq_nil_iff {trace : List (ℕ × Effect ι)} {n : ℕ} :
    entriesOf trace n = [] ↔ n ∉ (entries trace).map Prod.fst := by
  simp only [entriesOf, List.map_eq_nil_iff, List.filter_eq_nil_iff, decide_eq_true_eq,
    List.mem_map, not_exists, not_and]

/-- A step has one entry at most. -/
theorem logged_step {p : Delivering ι} {effects : List (Effect ι)}
    {next : Delivering ι ⊕ WebhookDelivery ι}
    (h : (delivering lib onDelivery).step p = (effects, next)) :
    logged effects = [] ∨ ∃ delivery, logged effects = [delivery] := by
  obtain ⟨job, ⟨_ | ⟨attempt, attempts⟩, delivery⟩ | delivery | delivery⟩ := p
  · cases h
    exact .inl rfl
  · simp only [delivering, deliverStep, Prod.mk.injEq] at h
    obtain ⟨rfl, -⟩ := h
    exact .inl (logged_map_act _)
  · cases h
    exact .inr ⟨delivery, rfl⟩
  · simp only [delivering, deliverStep, Prod.mk.injEq] at h
    obtain ⟨rfl, -⟩ := h
    split_ifs <;> exact .inl rfl

/-- When a single worker makes a delivery, those before it have their entries. -/
theorem Dispatched.entry_before (h : Dispatched lib webhooks onDelivery supported 1 events s)
    (hpooled : s.pool.Pooled) {t : WorkerThread (Job ι) (Delivering ι)} (ht : t ∈ s.pool.threads)
    {m : ℕ} (hm : m < t.ticket.2) : m ∈ (entries s.pool.trace).map Prod.fst := by
  have hahead := h.ordered.ahead_lt h.sound ht (hpooled.threads t ht)
  rw [h.limit, Nat.lt_one_iff] at hahead
  have hlt := hm.trans (h.sound.number_lt
    (List.mem_append_left _ (WorkerPool.ticket_mem_unfinished ht)))
  have hjob := List.getElem?_eq_getElem hlt
  obtain ⟨f, hf, hticket⟩ := hpooled.finished_of_ahead h.sound h.ordered hahead hm hjob
  have hdone := ((h.actions_of hjob).2 f hf (congrArg Prod.snd hticket)).1
  have hentry := (congrArg logged hdone).trans
    (effectsOf_spec lib ⟨webhooks, onDelivery, []⟩ s.pool.accepted[m]).2
  by_contra hnot
  rw [← entriesOf_eq_nil_iff, ← logged_trail] at hnot
  rw [WorkerPool.actionsOf, hnot] at hentry
  cases hentry

/-- A single worker makes one delivery after the other. -/
theorem inOrder_advance (h : Dispatched lib webhooks onDelivery supported 1 events s)
    (hpooled : s.pool.Pooled) (horder : InOrder s) (k : ℕ) :
    InOrder (step lib s (.turn (.advance k))).2 := by
  have hnext := h.advance k
  rw [InOrder] at horder
  rcases hk : s.pool.threads[k]? with _ | t
  · simp only [Dispatch.step, hk]
    exact horder
  rcases hstep : (delivering lib onDelivery).step t.progress with ⟨effects, next⟩
  have htrace : (s.pool.advance (delivering lib onDelivery) k).trace =
      s.pool.trace ++ effects.map (Prod.mk t.ticket.2) := by
    rw [WorkerPool.advance, hk]
    simp only [hstep]
    cases next <;> rfl
  simp only [Dispatch.step, h.callback, hk] at hnext ⊢
  have hone := hnext.length_entriesOf t.ticket.2
  rw [InOrder]
  simp only [htrace, entries_append, entries_map, entriesOf, List.filter_append,
    List.map_append, List.length_append] at hone ⊢
  rcases logged_step hstep with hlogged | ⟨delivery, hlogged⟩
  · rw [hlogged, List.map_nil, List.map_nil, List.append_nil, List.length_nil, Nat.add_zero]
    exact horder
  -- the delivery has no entry yet, and all before it have one
  have hfirst : t.ticket.2 ∉ (entries s.pool.trace).map Prod.fst := by
    rw [← entriesOf_eq_nil_iff, entriesOf, List.map_eq_nil_iff, ← List.length_eq_zero_iff]
    rw [hlogged] at hone
    simp only [List.map_cons, List.map_nil, List.filter_cons, decide_true, if_true,
      List.filter_nil, List.length_cons, List.length_map, List.length_nil] at hone
    omega
  have hbefore : ∀ m < t.ticket.2, m ∈ (entries s.pool.trace).map Prod.fst := fun m hm =>
    h.entry_before hpooled (List.mem_of_getElem? hk) hm
  simp only [horder, List.mem_range] at hfirst hbefore
  have hnumber : t.ticket.2 = (entries s.pool.trace).length := by
    by_contra hne
    exact Nat.lt_irrefl _ (hbefore (entries s.pool.trace).length (by omega))
  simp [hlogged, horder, hnumber, List.range_succ]

/-- The log of a single worker is in order after any events. -/
theorem inOrder_run (lib : WebhookLib ι) (webhooks : List WebhookConfig) (onDelivery : Bool)
    (supported : List String) {events : List (Event ι)} (hevents : ∀ e ∈ events, e.Pooled) :
    let s := run (step lib) (init webhooks onDelivery supported 1) events
    s.pool.Pooled ∧ InOrder s := by
  induction events using List.reverseRecOn with
  | nil => exact ⟨WorkerPool.pooled_new 1, rfl⟩
  | append_singleton events event ih =>
    have h := dispatched_run lib webhooks onDelivery supported 1 events
    obtain ⟨hpooled, horder⟩ := ih fun e he => hevents e (List.mem_append_left _ he)
    have hevent := hevents event (List.mem_append_right _ (List.mem_singleton_self _))
    rw [run_concat]
    refine ⟨pooled_step lib hpooled hevent, ?_⟩
    cases event with
    | fire call =>
      rw [Dispatch.step]
      split_ifs <;> exact horder
    | handOver i =>
      rw [Dispatch.step]
      rcases handOver_cases _ i with ⟨heq, -⟩ | ⟨pre, n, job, rest, post, -, hcases⟩
      · rwa [heq]
      · rcases hcases with ⟨-, heq⟩ | ⟨pool, new, hsubmit, -, heq⟩
        · rwa [heq]
        · rw [heq, InOrder, (submit_pool hsubmit).2.2.2.2]
          exact horder
    | fireSync call => exact hevent.elim
    | sendTest call => exact hevent.elim
    | shutdown => exact horder
    | turn turn =>
      cases turn with
      | advance k => exact inOrder_advance h hpooled horder k
      | take =>
        rw [Dispatch.step, InOrder]
        rcases WorkerPool.take_cases (delivering lib _) _ with ⟨heq, -⟩ | ⟨ticket, queue, -, -, heq⟩
        · rw [heq]
          exact horder
        · rw [heq]
          exact horder

/-- **In order**: no more than `max_workers` deliveries are made by the pool at a time, and a
delivery is begun when fewer than `max_workers` of those handed over before it have not ended. With
one worker, and no deliveries that callers make themselves, the log is that of deliveries made one
after the other. -/
theorem deliveries_in_order (lib : WebhookLib ι) (webhooks : List WebhookConfig)
    (onDelivery : Bool) (supported : List String) (maxWorkers : ℕ) (events : List (Event ι)) :
    let s := run (step lib) (init webhooks onDelivery supported maxWorkers) events
    s.pool.busy ≤ maxWorkers ∧
      (∀ n, ((∃ t ∈ s.pool.threads, t.worker = true ∧ t.ticket.2 = n) ∨
          ∃ f ∈ s.pool.finished, f.worker = true ∧ f.ticket.2 = n) →
        s.pool.ahead n < maxWorkers) ∧
      (maxWorkers = 1 → (∀ e ∈ events, e.Pooled) →
        s.manager.deliveries = (run (perform lib) ⟨webhooks, onDelivery, []⟩
          (s.pool.accepted.take (entries s.pool.trace).length)).deliveries) := by
  intro s
  have h := dispatched_run lib webhooks onDelivery supported maxWorkers events
  refine ⟨h.limit ▸ h.sound.busy, ?_, ?_⟩
  · rintro n (⟨t, ht, hworker, rfl⟩ | ⟨f, hf, hworker, rfl⟩)
    · exact h.limit ▸ h.ordered.ahead_lt h.sound ht hworker
    · exact h.limit ▸ (h.ordered.finished f hf hworker).2
  · rintro rfl hevents
    obtain ⟨-, horder⟩ := inOrder_run lib webhooks onDelivery supported hevents
    have hrecords : (entries s.pool.trace).map Prod.snd =
        (s.pool.accepted.take (entries s.pool.trace).length).map (recordOf lib) := by
      refine List.ext_getElem? fun i => ?_
      rw [List.getElem?_map, List.getElem?_map]
      rcases hi : (entries s.pool.trace)[i]? with _ | ⟨n, delivery⟩
      · have hle := List.getElem?_eq_none_iff.mp hi
        rw [List.getElem?_take_eq_none hle]
        rfl
      · obtain ⟨hlt, -⟩ := List.getElem?_eq_some_iff.mp hi
        have hn : n = i := by
          have hnumber := congrArg (fun l : List ℕ => l[i]?) horder
          rw [List.getElem?_map, List.getElem?_range hlt] at hnumber
          exact Option.some.inj ((congrArg (Option.map Prod.fst) hi).symm.trans hnumber)
        obtain ⟨job, hjob, rfl⟩ := h.entry (List.mem_of_getElem? hi)
        rw [List.getElem?_take_of_lt hlt, ← hn, hjob]
        rfl
    have hlog := h.log
    rw [deliveries_run lib (Nat.zero_le _), outputs_perform, List.nil_append, ← hrecords]
    exact hlog

/-! ### Coming to an end -/

/-- What is under way can go on: a call of `fire` has a delivery to hand over, a worker and a
delivery are there, or a thread. -/
def CanMove (s : Dispatch ι) : Event ι → Prop
  | .handOver i => ∃ n job rest, s.firing[i]? = some ⟨n, job :: rest⟩
  | .turn turn => s.pool.CanTurn turn
  | .fire _ | .fireSync _ | .sendTest _ | .shutdown => False

/-- The steps that are left, at most. -/
def left (lib : WebhookLib ι) (s : Dispatch ι) : ℕ :=
  let work := delivering lib s.manager.onDelivery
  ((s.firing.flatMap Firing.rest).map fun job => (work.start job).size + 3).sum +
    s.pool.left work Delivering.size

theorem left_submit {job : Job ι}
    {pool pool' : WorkerPool (Job ι) (Delivering ι) (Effect ι) (WebhookDelivery ι)}
    (h : pool.submit job = some pool') (work : Work (Job ι) (Delivering ι) (Effect ι)
      (WebhookDelivery ι)) :
    pool'.left work Delivering.size =
      pool.left work Delivering.size + ((work.start job).size + 2) := by
  rw [WorkerPool.submit] at h
  split_ifs at h
  obtain rfl := Option.some.inj h
  simp only [WorkerPool.left, List.map_append, List.sum_append, List.map_cons, List.map_nil,
    List.sum_cons, List.sum_nil]
  omega

/-- Every step that is taken leaves fewer. -/
theorem left_step_lt {event : Event ι} (hcan : s.CanMove event) :
    (step lib s event).2.left lib < s.left lib := by
  have hsize := size_step lib s.manager.onDelivery
  cases event with
  | handOver i =>
    rw [step]
    rcases handOver_cases s i with ⟨-, hnone⟩ | ⟨pre, n, job, rest, post, hfiring, hcases⟩
    · obtain ⟨n, job, rest, hi⟩ := hcan
      exact absurd hi (hnone n job rest)
    rcases hcases with ⟨-, heq⟩ | ⟨pool, new, hsubmit, hnew, heq⟩
    · rw [heq, left, left, hfiring]
      simp only [List.flatMap_append, List.flatMap_cons, List.map_append, List.map_cons,
        List.sum_append, List.sum_cons]
      omega
    · rw [heq, left, left, hfiring, left_submit hsubmit]
      simp only [List.flatMap_append, List.flatMap_cons, List.map_append, List.map_cons,
        List.sum_append, List.sum_cons, hnew]
      omega
  | turn turn =>
    have hlt := WorkerPool.left_turn_lt hsize hcan
    cases turn with
    | take => exact Nat.add_lt_add_left hlt _
    | advance k =>
      rw [step]
      rcases hk : s.pool.threads[k]? with _ | t
      · exact absurd hcan (Nat.not_lt.mpr (List.getElem?_eq_none_iff.mp hk))
      · rw [left, left]
        dsimp only
        rw [(logEffects_webhooks _ _).2]
        exact Nat.add_lt_add_left hlt _
  | fire call => exact hcan.elim
  | fireSync call => exact hcan.elim
  | sendTest call => exact hcan.elim
  | shutdown => exact hcan.elim

theorem length_moves_le {moves : List (Event ι)}
    (hmoves : ∀ pre e, pre ++ [e] <+: moves → (run (step lib) s pre).CanMove e) :
    moves.length + (run (step lib) s moves).left lib ≤ s.left lib := by
  induction moves generalizing s with
  | nil => exact (Nat.zero_add _).le
  | cons e moves ih =>
    rw [forall_steps_cons (P := fun pre e => (run (step lib) s pre).CanMove e)] at hmoves
    have hrest : moves.length + (run (step lib) (step lib s e).2 moves).left lib ≤
        (step lib s e).2.left lib := ih hmoves.2
    have hlt : (step lib s e).2.left lib < s.left lib := left_step_lt hmoves.1
    rw [List.length_cons, run_cons]
    omega

/-- Nothing is fired by a step that goes on with what is under way. -/
theorem CanMove.jobs_eq_nil {event : Event ι} (h : s.CanMove event) :
    event.jobs supported webhooks = [] := by
  cases event with
  | handOver | turn => rfl
  | fire | fireSync | sendTest | shutdown => exact h.elim

/-- Where nothing can go on, everything has been handed over, and nothing is left in the pool. -/
theorem idle_of_not_canMove (hworkers : 0 < s.pool.limit) (hstuck : ∀ e, ¬ s.CanMove e) :
    s.firing.flatMap Firing.rest = [] ∧ s.pool.Idle := by
  constructor
  · rw [List.flatMap_eq_nil_iff]
    intro f hf
    obtain ⟨i, hi⟩ := List.getElem?_of_mem hf
    obtain ⟨n, _ | ⟨job, rest⟩⟩ := f
    · rfl
    · exact absurd ⟨n, job, rest, hi⟩ (hstuck (.handOver i))
  · by_contra hidle
    obtain ⟨turn, hturn⟩ := WorkerPool.exists_canTurn hworkers hidle
    exact hstuck (.turn turn) hturn

/-- **Coming to an end**: whatever has been fired and whether the pool has been shut down, what is
under way goes on for so many steps at most, in any order; and when no call and no thread can go
on, everything that was fired has been delivered, but for what was handed over after a shutdown. -/
theorem deliveries_end (lib : WebhookLib ι) (webhooks : List WebhookConfig) (onDelivery : Bool)
    (supported : List String) {maxWorkers : ℕ} (hworkers : 0 < maxWorkers)
    (events moves : List (Event ι)) :
    let s := run (step lib) (init webhooks onDelivery supported maxWorkers) events
    let s' := run (step lib) s moves
    (∀ pre e, pre ++ [e] <+: moves → (run (step lib) s pre).CanMove e) →
      moves.length ≤ s.left lib ∧
        ((∀ e, ¬ s'.CanMove e) →
          (s'.pool.finished.map (fun f => f.ticket.1) ++ s'.refused).Perm
            (events.flatMap (Event.jobs supported webhooks))) := by
  intro s s' hmoves
  refine ⟨(Nat.le_add_right _ _).trans (length_moves_le hmoves), fun hstuck => ?_⟩
  have h := dispatched_run lib webhooks onDelivery supported maxWorkers (events ++ moves)
  rw [run_append] at h
  have hnone : moves.flatMap (Event.jobs supported webhooks) = [] := by
    rw [List.flatMap_eq_nil_iff]
    intro e he
    obtain ⟨pre, post, rfl⟩ := List.append_of_mem he
    exact (hmoves pre e ⟨post, by simp⟩).jobs_eq_nil
  obtain ⟨hfiring, hqueue, hthreads⟩ := idle_of_not_canMove (h.limit ▸ hworkers) hstuck
  have hjobs := h.jobs
  rw [List.flatMap_append, hnone, List.append_nil, hfiring, List.nil_append] at hjobs
  have hfinished := h.sound.tickets.map Prod.fst
  rw [WorkerPool.tickets, WorkerPool.unfinished, hqueue, hthreads, List.flatMap_nil,
    List.append_nil, List.nil_append, List.zipIdx_map_fst, List.map_map] at hfinished
  exact (hfinished.append_right _).trans hjobs

/-- One event, one worker, and a receiver that answers at once. -/
theorem deliveries_end_answered :
    let call : FireCall Empty :=
      ⟨"provision.started", ∅, fun _ => ⟨"0123456789abcdef", fun _ => .ok 200, fun _ => 0⟩⟩
    let s := run (step labLib) (init [{ url := "https://lab" }] true supportedEvents 1) [.fire call]
    let moves := [.handOver 0, .turn .take, .turn (.advance 0), .turn (.advance 0),
      .turn (.advance 0)]
    let s' := run (step labLib) s moves
    moves.length ≤ s.left labLib ∧
      ((∀ e, ¬ s'.CanMove e) → (s'.pool.finished.map (fun f => f.ticket.1) ++ s'.refused).Perm
        (call.jobs supportedEvents [{ url := "https://lab" }])) := by
  intro call s moves s'
  refine deliveries_end labLib [{ url := "https://lab" }] true supportedEvents Nat.one_pos
    [.fire call] moves ?_
  have hstart : s.CanMove (.handOver 0) := ⟨_, _, _, rfl⟩
  simp only [moves, forall_steps_cons]
  refine ⟨hstart, ⟨List.cons_ne_nil _ _, Nat.one_pos⟩, Nat.one_pos, Nat.one_pos, Nat.one_pos,
    fun pre e hpre => ?_⟩
  exact absurd (List.prefix_nil.mp hpre)
    (List.append_ne_nil_of_right_ne_nil _ (List.cons_ne_nil _ _))

end Dispatch

end WebhookManager

end TftpOS
