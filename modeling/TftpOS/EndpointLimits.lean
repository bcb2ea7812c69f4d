import TftpOS.Lib.Noninterference
import TftpOS.Python.Text
import TftpOS.RateLimitRuns

/-!
# Rate limits by endpoint

The module level of `tftpos/rate_limit.py`: request paths are classified into three groups, each
with a limiter of its own that `configure_rate_limiting` makes. A middleware asks `get_limiter` for
the limiter of a path's group and calls a method of it; `Limits.step` is such a call.

The limits of a client on a group are the client's own (`clients_isolated`): what is asked about
another client or on another group can be left out of a run, and after a configuration the requests
of a client to a group are all allowed exactly when they conform to the bucket configured for the
group.
-/

namespace TftpOS

open Lib

/-- `EndpointGroup`. -/
inductive EndpointGroup
  | tftp
  | api
  | auth
  deriving DecidableEq

/-- `classify_endpoint`. -/
def classifyEndpoint (path : String) : EndpointGroup :=
  if startsWith path "/api/v1/boot/" || startsWith path "/api/v1/autoinstall/" then .tftp
  else if startsWith path "/api/v1/auth/" then .auth
  else .api

/-- The arguments of `configure_rate_limiting`. -/
structure LimitSettings where
  enabled : Bool := false
  tftpRpm : ℚ := 300
  tftpBurst : ℤ := 50
  apiRpm : ℚ := 60
  apiBurst : ℤ := 20
  authRpm : ℚ := 10
  authBurst : ℤ := 5

/-- The limiter that the arguments configure for a group. -/
def LimitSettings.limiter (settings : LimitSettings) : EndpointGroup → RateLimiter
  | .tftp => .init settings.tftpRpm settings.tftpBurst
  | .api => .init settings.apiRpm settings.apiBurst
  | .auth => .init settings.authRpm settings.authBurst

/-- `_limiters` and `_enabled`. -/
structure Limits where
  limiters : Dict EndpointGroup RateLimiter := ∅
  enabled : Bool := false

namespace Limits

/-- `configure_rate_limiting`. -/
def configure (limits : Limits) (settings : LimitSettings) : Limits where
  limiters := ((limits.limiters.set .tftp (settings.limiter .tftp)).set .api
    (settings.limiter .api)).set .auth (settings.limiter .auth)
  enabled := settings.enabled

/-- `get_limiter`. -/
def getLimiter (limits : Limits) (group : EndpointGroup) : Option RateLimiter :=
  limits.limiters.get? group

/-- `reset_all_limiters`. -/
def resetAll (limits : Limits) : Limits :=
  { limits with limiters := limits.limiters.mapValues fun _ limiter => limiter.reset }

/-- A call of the module, or of a method of the limiter of a group. -/
inductive Op
  | configure (settings : LimitSettings)
  | resetAll
  | isEnabled
  | on (group : EndpointGroup) (event : RateLimiter.Event)

/-- What a call returns: `unlimited` where the group has no limiter. -/
inductive Reply
  | nothing
  | flag (enabled : Bool)
  | unlimited
  | answer (a : RateLimiter.Answer)

/-- One call. -/
def step (limits : Limits) : Op → Reply × Limits
  | .configure settings => (.nothing, limits.configure settings)
  | .resetAll => (.nothing, limits.resetAll)
  | .isEnabled => (.flag limits.enabled, limits)
  | .on group event =>
    match limits.getLimiter group with
    | none => (.unlimited, limits)
    | some limiter =>
      (.answer (limiter.perform event).1,
        { limits with limiters := limits.limiters.set group (limiter.perform event).2 })

end Limits

/-! ### What one client sees of a limiter -/

namespace RateLimiter

/-- The client that a method of the limiter is about: none for those about all of them. -/
def Op.key? : Op → Option String
  | .check key => some key
  | .remaining key => some key
  | .retryAfter key => some key
  | .reset => none
  | .cleanup _ => none

/-- What is a client's own in a limiter. -/
def share (client : String) (rl : RateLimiter) : ℚ × ℤ × Option Bucket :=
  (rl.rate, rl.burst, rl.buckets.get? client)

variable {rl rl' : RateLimiter} {client : String} {e : Event}

theorem share_eq_iff : rl.share client = rl'.share client ↔
    rl.rate = rl'.rate ∧ rl.burst = rl'.burst ∧
      rl.buckets.get? client = rl'.buckets.get? client := by
  rw [share, share, Prod.mk.injEq, Prod.mk.injEq]

/-- A method about another client leaves a client's share alone. -/
theorem share_perform_of_ne {key : String} (hkey : e.op.key? = some key) (hne : client ≠ key) :
    (rl.perform e).2.share client = rl.share client := by
  have hspares : e.op.Spares client := by
    obtain ⟨now, op⟩ := e
    cases op with
    | check key' => exact Option.some.inj hkey ▸ hne
    | remaining key' => exact trivial
    | retryAfter key' => exact trivial
    | reset => cases hkey
    | cleanup maxAgeSeconds => cases hkey
  exact share_eq_iff.mpr ⟨perform_rate rl e, perform_burst rl e, get?_perform_of_spares hspares⟩

/-- What `check` answers a client, and what it makes of the share, the share decides. -/
theorem check_congr (h : rl.share client = rl'.share client) (now : ℚ) :
    (rl.check now client).1 = (rl'.check now client).1 ∧
      (rl.check now client).2.buckets.get? client =
        (rl'.check now client).2.buckets.get? client := by
  obtain ⟨hrate, hburst, hget⟩ := share_eq_iff.mp h
  cases hbucket : rl.buckets.get? client with
  | none =>
    obtain ⟨hans, hnext⟩ := check_of_get?_eq_none hbucket now
    obtain ⟨hans', hnext'⟩ := check_of_get?_eq_none (hget ▸ hbucket) now
    exact ⟨hans.trans hans'.symm, by rw [hnext, hnext', hburst]⟩
  | some b =>
    obtain ⟨hans, hnext⟩ := check_of_get?_eq_some hbucket now
    obtain ⟨hans', hnext'⟩ := check_of_get?_eq_some (hget ▸ hbucket) now
    have hrefill : rl.refill b now = rl'.refill b now := by rw [refill, refill, hrate]
    exact ⟨by rw [hans, hans', hrefill], by rw [hnext, hnext', hrefill]⟩

/-- A method about a client answers what the client's share decides. -/
theorem perform_congr (h : rl.share client = rl'.share client) (hkey : e.op.key? = some client) :
    (rl.perform e).1 = (rl'.perform e).1 := by
  obtain ⟨hrate, hburst, hget⟩ := share_eq_iff.mp h
  obtain ⟨now, op⟩ := e
  cases op with
  | check key =>
    obtain rfl : key = client := Option.some.inj hkey
    exact congrArg Answer.allowed (check_congr h now).1
  | remaining key =>
    obtain rfl : key = client := Option.some.inj hkey
    simp only [perform, remaining, hget, hburst, refill, hrate]
  | retryAfter key =>
    obtain rfl : key = client := Option.some.inj hkey
    simp only [perform, retryAfter, hget, refill, hrate]
    rfl
  | reset => cases hkey
  | cleanup maxAgeSeconds => cases hkey

/-- Every method makes of a client's share what the share decides. -/
theorem share_perform_congr (h : rl.share client = rl'.share client) :
    (rl.perform e).2.share client = (rl'.perform e).2.share client := by
  obtain ⟨hrate, hburst, hget⟩ := share_eq_iff.mp h
  refine share_eq_iff.mpr ⟨?_, ?_, ?_⟩
  · rw [perform_rate, perform_rate, hrate]
  · rw [perform_burst, perform_burst, hburst]
  · obtain ⟨now, op⟩ := e
    cases op with
    | check key =>
      by_cases hne : client = key
      · subst hne
        exact (check_congr h now).2
      · exact (get?_check_of_ne hne now).trans (hget.trans (get?_check_of_ne hne now).symm)
    | remaining key => exact hget
    | retryAfter key => exact hget
    | reset => rfl
    | cleanup maxAgeSeconds =>
      change (rl.cleanup now maxAgeSeconds).2.buckets.get? client =
        (rl'.cleanup now maxAgeSeconds).2.buckets.get? client
      simp only [get?_cleanup, mem_staleKeys_iff, hget]

end RateLimiter

/-! ### What one client sees of the limits -/

namespace Limits

/-- The call is about the client on the group, or about all clients of the group. -/
def concerns (group : EndpointGroup) (client : String) : Op → Bool
  | .on group' event =>
    decide (group' = group) && (event.op.key?.all fun key => decide (key = client))
  | _ => true

/-- What a client of a group reads: the flag, and the answers of the methods about the client. -/
def read (group : EndpointGroup) (client : String) : Op → Reply → Option Reply
  | .isEnabled, reply => some reply
  | .on group' event, reply =>
    if group' = group ∧ event.op.key? = some client then some reply else none
  | _, _ => none

/-- What a client of a group reads in a run. -/
def repliesTo (group : EndpointGroup) (client : String) (limits : Limits) (ops : List Op) :
    List Reply :=
  observed step (read group client) limits ops

/-- What is a client's own in a group. -/
def share (group : EndpointGroup) (client : String) (limits : Limits) :
    Bool × Option (ℚ × ℤ × Option Bucket) :=
  (limits.enabled, (limits.getLimiter group).map (RateLimiter.share client))

variable {limits limits' : Limits} {group group' : EndpointGroup} {client : String}
  {event : RateLimiter.Event} {settings : LimitSettings}

theorem share_eq_iff : limits.share group client = limits'.share group client ↔
    limits.enabled = limits'.enabled ∧ (limits.getLimiter group).map (RateLimiter.share client) =
      (limits'.getLimiter group).map (RateLimiter.share client) := by
  rw [share, share, Prod.mk.injEq]

theorem getLimiter_configure (limits : Limits) (settings : LimitSettings) (group : EndpointGroup) :
    (limits.configure settings).getLimiter group = some (settings.limiter group) := by
  cases group <;> simp [configure, getLimiter, Dict.get?_set]

theorem getLimiter_resetAll (limits : Limits) (group : EndpointGroup) :
    limits.resetAll.getLimiter group = (limits.getLimiter group).map RateLimiter.reset :=
  Dict.get?_mapValues

theorem step_on_of_eq_none (h : limits.getLimiter group = none) :
    limits.step (.on group event) = (.unlimited, limits) := by
  rw [step, h]

theorem step_on_of_eq_some {rl : RateLimiter} (h : limits.getLimiter group = some rl) :
    limits.step (.on group event) = (.answer (rl.perform event).1,
      { limits with limiters := limits.limiters.set group (rl.perform event).2 }) := by
  rw [step, h]

theorem enabled_step_on : (limits.step (.on group event)).2.enabled = limits.enabled := by
  cases h : limits.getLimiter group with
  | none => rw [step_on_of_eq_none h]
  | some rl => rw [step_on_of_eq_some h]

/-- A call on a group makes of its limiter what the method does. -/
theorem getLimiter_step_on :
    (limits.step (.on group event)).2.getLimiter group =
      (limits.getLimiter group).map fun rl => (rl.perform event).2 := by
  cases h : limits.getLimiter group with
  | none => rw [step_on_of_eq_none h, h, Option.map_none]
  | some rl => rw [step_on_of_eq_some h, Option.map_some]; exact Dict.get?_set_self

/-- It leaves the limiters of the other groups alone. -/
theorem getLimiter_step_on_of_ne (hne : group ≠ group') :
    (limits.step (.on group' event)).2.getLimiter group = limits.getLimiter group := by
  cases h : limits.getLimiter group' with
  | none => rw [step_on_of_eq_none h]
  | some rl => rw [step_on_of_eq_some h]; exact Dict.get?_set_of_ne hne

/-- Calls that do not concern a client do not show to the client. -/
theorem share_step_of_not_concerns {op : Op} (h : concerns group client op = false) :
    (limits.step op).2.share group client = limits.share group client := by
  cases op with
  | configure settings => cases h
  | resetAll => cases h
  | isEnabled => cases h
  | on group' event =>
    refine share_eq_iff.mpr ⟨enabled_step_on, ?_⟩
    by_cases hgroup : group' = group
    · subst hgroup
      rw [concerns, decide_eq_true rfl, Bool.true_and, Option.all_eq_false] at h
      obtain ⟨key, hkey, hne⟩ := h
      rw [getLimiter_step_on, Option.map_map]
      congr 1
      funext rl
      exact RateLimiter.share_perform_of_ne hkey (Ne.symm (of_decide_eq_false hne))
    · rw [getLimiter_step_on_of_ne (Ne.symm hgroup)]

/-- A client reads what the client's share decides. -/
theorem read_congr {op : Op} (h : limits.share group client = limits'.share group client) :
    read group client op (limits.step op).1 = read group client op (limits'.step op).1 := by
  obtain ⟨henabled, hlimiter⟩ := share_eq_iff.mp h
  cases op with
  | configure settings => rfl
  | resetAll => rfl
  | isEnabled => exact congrArg (some ∘ Reply.flag) henabled
  | on group' event =>
    rw [read, read]
    split_ifs with hread
    · obtain ⟨rfl, hkey⟩ := hread
      cases hget : limits.getLimiter group' with
      | none =>
        rw [hget, Option.map_none, eq_comm, Option.map_eq_none_iff] at hlimiter
        rw [step_on_of_eq_none hget, step_on_of_eq_none hlimiter]
      | some rl =>
        rw [hget, Option.map_some, eq_comm, Option.map_eq_some_iff] at hlimiter
        obtain ⟨rl', hget', hshare⟩ := hlimiter
        rw [step_on_of_eq_some hget, step_on_of_eq_some hget',
          RateLimiter.perform_congr hshare hkey]
    · rfl

/-- Every call makes of a client's share what the share decides. -/
theorem share_step_congr {op : Op} (h : limits.share group client = limits'.share group client) :
    (limits.step op).2.share group client = (limits'.step op).2.share group client := by
  obtain ⟨henabled, hlimiter⟩ := share_eq_iff.mp h
  cases op with
  | configure settings =>
    refine share_eq_iff.mpr ⟨rfl, ?_⟩
    exact congrArg _ ((getLimiter_configure ..).trans (getLimiter_configure ..).symm)
  | resetAll =>
    refine share_eq_iff.mpr ⟨henabled, ?_⟩
    change (limits.resetAll.getLimiter group).map _ = (limits'.resetAll.getLimiter group).map _
    rw [getLimiter_resetAll, getLimiter_resetAll]
    cases hget : limits.getLimiter group with
    | none =>
      rw [hget, Option.map_none, eq_comm, Option.map_eq_none_iff] at hlimiter
      rw [hlimiter]
    | some rl =>
      rw [hget, Option.map_some, eq_comm, Option.map_eq_some_iff] at hlimiter
      obtain ⟨rl', hget', hshare⟩ := hlimiter
      obtain ⟨hrate, hburst, -⟩ := RateLimiter.share_eq_iff.mp hshare
      rw [hget', Option.map_some, Option.map_some, Option.map_some, Option.map_some]
      exact congrArg some (RateLimiter.share_eq_iff.mpr ⟨hrate.symm, hburst.symm, rfl⟩)
  | isEnabled => exact h
  | on group' event =>
    refine share_eq_iff.mpr ⟨by rw [enabled_step_on, enabled_step_on, henabled], ?_⟩
    by_cases hgroup : group = group'
    · subst hgroup
      rw [getLimiter_step_on, getLimiter_step_on, Option.map_map, Option.map_map]
      cases hget : limits.getLimiter group with
      | none =>
        rw [hget, Option.map_none, eq_comm, Option.map_eq_none_iff] at hlimiter
        rw [hlimiter]
      | some rl =>
        rw [hget, Option.map_some, eq_comm, Option.map_eq_some_iff] at hlimiter
        obtain ⟨rl', hget', hshare⟩ := hlimiter
        rw [hget']
        exact congrArg some (RateLimiter.share_perform_congr hshare.symm)
    · rw [getLimiter_step_on_of_ne hgroup, getLimiter_step_on_of_ne hgroup, hlimiter]

/-- Limits in which a client has the same share look alike to the client. -/
theorem unwinding (group : EndpointGroup) (client : String) :
    Unwinding step (read group client) (concerns group client)
      (fun limits limits' => limits.share group client = limits'.share group client) where
  unread op reply h := by
    cases op with
    | configure settings => rfl
    | resetAll => rfl
    | isEnabled => cases h
    | on group' event =>
      refine if_neg fun hread => ?_
      rw [concerns, decide_eq_true hread.1, hread.2, Bool.true_and, Option.all_some,
        decide_eq_true rfl] at h
      cases h
  hidden limits limits' op h hshare := (share_step_of_not_concerns h).trans hshare
  reads limits limits' op _ hshare := read_congr hshare
  shown limits limits' op _ hshare := share_step_congr hshare

/-! ### Requests after a configuration -/

/-- A request: its path, its client, and the clock value that `check` reads. -/
structure Request where
  path : String
  client : String
  now : ℚ

/-- The call of a middleware for a request. -/
def Request.op (r : Request) : Op := .on (classifyEndpoint r.path) ⟨r.now, .check r.client⟩

/-- The requests to a group, as calls of `check` of its limiter. -/
def callsOf (group : EndpointGroup) (requests : List Request) : List RateLimiter.Call :=
  (requests.filter fun r => classifyEndpoint r.path = group).map fun r => ⟨r.client, r.now⟩

variable {r : Request} {requests : List Request}

theorem callsOf_cons_self (h : classifyEndpoint r.path = group) :
    callsOf group (r :: requests) = ⟨r.client, r.now⟩ :: callsOf group requests := by
  simp [callsOf, h]

theorem callsOf_cons_of_ne (h : classifyEndpoint r.path ≠ group) :
    callsOf group (r :: requests) = callsOf group requests := by
  simp [callsOf, h]

/-- What a client reads of the requests to a group are the answers of its limiter. -/
theorem repliesTo_requests {rl : RateLimiter} (hget : limits.getLimiter group = some rl) :
    repliesTo group client limits (requests.map Request.op) =
      (RateLimiter.keyEvents client rl (callsOf group requests)).map fun e =>
        .answer (.allowed e.2) := by
  induction requests generalizing limits rl with
  | nil => rfl
  | cons r requests ih =>
    by_cases hgroup : classifyEndpoint r.path = group
    · subst hgroup
      have hstep : (limits.step r.op).1 = .answer (.allowed (rl.step ⟨r.client, r.now⟩).1) :=
        congrArg Prod.fst (step_on_of_eq_some hget)
      have hget' : (limits.step r.op).2.getLimiter (classifyEndpoint r.path) =
          some (rl.step ⟨r.client, r.now⟩).2 :=
        getLimiter_step_on.trans (by rw [hget]; rfl)
      have hrest := ih hget'
      rw [callsOf_cons_self rfl, List.map_cons]
      by_cases hclient : r.client = client
      · rw [RateLimiter.keyEvents_cons_self _ hclient, List.map_cons, ← hrest]
        refine observed_cons_of_some ((if_pos ⟨rfl, congrArg some hclient⟩).trans ?_)
        exact congrArg some hstep
      · rw [RateLimiter.keyEvents_cons_of_ne _ hclient, ← hrest]
        exact observed_cons_of_none (if_neg fun h => hclient (Option.some.inj h.2))
    · have hget' : (limits.step r.op).2.getLimiter group = some rl :=
        (getLimiter_step_on_of_ne (Ne.symm hgroup)).trans hget
      rw [callsOf_cons_of_ne hgroup, ← ih hget']
      exact observed_cons_of_none (if_neg fun h => hgroup h.1)

/-- **Limits by client and group.** Whatever is configured, reset or asked in a run, a client of a
group reads what it reads in the run without all that is about another client or on another group.
After a configuration with a burst of at least one, the requests of a client to a group are all
allowed exactly when no window of them asks for more than the bucket configured for the group. -/
theorem clients_isolated (limits : Limits) (group : EndpointGroup) (client : String) :
    (∀ ops, repliesTo group client limits ops =
      repliesTo group client limits (ops.filter (concerns group client))) ∧
    ∀ settings : LimitSettings, 1 ≤ (settings.limiter group).burst → ∀ requests : List Request,
      ((∀ reply ∈ repliesTo group client (limits.configure settings) (requests.map Request.op),
          reply = .answer (.allowed true)) ↔
        Conforms (settings.limiter group).rate ((settings.limiter group).burst : ℚ)
          (RateLimiter.keyTimes client (callsOf group requests))) := by
  refine ⟨(unwinding group client).observed_filter rfl, fun settings hburst requests => ?_⟩
  have hfresh : (settings.limiter group).buckets.get? client = none := by cases group <;> rfl
  rw [repliesTo_requests (getLimiter_configure limits settings group),
    ← RateLimiter.forall_keyEvents_iff_conforms hfresh hburst, List.forall_mem_map]
  simp only [Reply.answer.injEq, RateLimiter.Answer.allowed.injEq]

/-- Three requests with the limits by default, of which one is for the authentication endpoints. -/
theorem clients_isolated_default :
    (∀ reply ∈ repliesTo .auth "10.0.0.1" (({} : Limits).configure {})
        (([⟨"/api/v1/auth/keys", "10.0.0.1", 0⟩, ⟨"/api/v1/profiles", "10.0.0.1", 0⟩,
          ⟨"/api/v1/auth/keys", "10.0.0.2", 0⟩] : List Request).map Request.op),
        reply = .answer (.allowed true)) ↔
      Conforms (({} : LimitSettings).limiter .auth).rate
        ((({} : LimitSettings).limiter .auth).burst : ℚ)
        (RateLimiter.keyTimes "10.0.0.1" (callsOf .auth
          [⟨"/api/v1/auth/keys", "10.0.0.1", 0⟩, ⟨"/api/v1/profiles", "10.0.0.1", 0⟩,
            ⟨"/api/v1/auth/keys", "10.0.0.2", 0⟩])) :=
  (clients_isolated {} .auth "10.0.0.1").2 {} (by decide) _

end Limits

end TftpOS
