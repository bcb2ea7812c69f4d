import Mathlib.Data.Rat.Cast.Order
import Mathlib.Algebra.Order.Field.Rat
import Mathlib.Data.Rat.Floor
import TftpOS.Lib.Dict
import TftpOS.Lib.Meter
import TftpOS.Lib.Run
import TftpOS.Lib.TokenBucket

/-!
# Token-bucket rate limiting

`RateLimiter` of `tftpos/rate_limit.py`, with exact rationals for its floats. A call of `check`
reads the clock before it takes the lock, so the clock values of successive calls need not be
ordered: each call carries its own reading.

The calls on one key form a metered trace (`exists_metered_keyEvents`), which bounds the calls
allowed in every window of clock values.
-/

namespace TftpOS

open Lib

/-- `_Bucket`. -/
structure Bucket where
  tokens : ℚ
  capacity : ℤ
  lastRefill : ℚ

/-- `RateLimiter`. -/
structure RateLimiter where
  rate : ℚ
  burst : ℤ
  buckets : Dict String Bucket

namespace RateLimiter

/-- `RateLimiter.__init__`. -/
def init (requestsPerMinute : ℚ) (burst : ℤ) : RateLimiter :=
  ⟨requestsPerMinute / 60, burst, ∅⟩

/-- The refill in `check`: the tokens of a bucket at time `now`, up to its capacity. -/
def refill (rl : RateLimiter) (bucket : Bucket) (now : ℚ) : ℚ :=
  min (bucket.capacity : ℚ) (bucket.tokens + (now - bucket.lastRefill) * rl.rate)

/-- `RateLimiter.check`, for a call on `key` that read the clock at `now`. -/
def check (rl : RateLimiter) (now : ℚ) (key : String) : Bool × RateLimiter :=
  match rl.buckets.get? key with
  | none =>
    -- first request from this key: a full bucket minus the token consumed
    (true, { rl with buckets := rl.buckets.set key ⟨rl.burst - 1, rl.burst, now⟩ })
  | some bucket =>
    let tokens := rl.refill bucket now
    if 1 ≤ tokens then
      (true, { rl with buckets := rl.buckets.set key { bucket with
        tokens := tokens - 1, lastRefill := now } })
    else
      (false, { rl with buckets := rl.buckets.set key { bucket with
        tokens := tokens, lastRefill := now } })

/-- `int()` of a number: its integer part, towards zero. -/
def int (q : ℚ) : ℤ := if 0 ≤ q then ⌊q⌋ else ⌈q⌉

/-- `RateLimiter.remaining`. -/
def remaining (rl : RateLimiter) (now : ℚ) (key : String) : ℤ :=
  match rl.buckets.get? key with
  | none => rl.burst
  | some bucket => int (rl.refill bucket now)

/-- `RateLimiter.retry_after`. -/
def retryAfter (rl : RateLimiter) (now : ℚ) (key : String) : ℚ :=
  match rl.buckets.get? key with
  | none => 0
  | some bucket =>
    let tokens := rl.refill bucket now
    if 1 ≤ tokens then 0 else
    if rl.rate ≤ 0 then 0 else (1 - tokens) / rl.rate

/-- `RateLimiter.reset`. -/
def reset (rl : RateLimiter) : RateLimiter := { rl with buckets := ∅ }

/-- The keys of the buckets that were last used more than `maxAgeSeconds` before `now`. -/
def staleKeys (rl : RateLimiter) (now maxAgeSeconds : ℚ) : List String :=
  (rl.buckets.entries.filter fun e => maxAgeSeconds < now - e.2.lastRefill).map Prod.fst

/-- `RateLimiter.cleanup`: the number of entries removed, and the limiter without them. -/
def cleanup (rl : RateLimiter) (now maxAgeSeconds : ℚ) : ℕ × RateLimiter :=
  ((rl.staleKeys now maxAgeSeconds).length,
    { rl with buckets := (rl.staleKeys now maxAgeSeconds).foldl Dict.del rl.buckets })

/-- A call of `check`: the key and the clock value it read. -/
structure Call where
  key : String
  now : ℚ

/-- One call, in the order in which the lock is taken. -/
def step (rl : RateLimiter) (c : Call) : Bool × RateLimiter := rl.check c.now c.key

/-- The calls on `key` in a run, each with its clock value and its answer. -/
def keyEvents (key : String) (rl : RateLimiter) (calls : List Call) : List (ℚ × Bool) :=
  ((calls.zip (outputs step rl calls)).filter fun c => c.1.key = key).map
    fun c => (c.1.now, c.2)

variable {rl : RateLimiter} {key : String} {calls : List Call}

/-! ### What one call does -/

theorem check_rate (now : ℚ) : (rl.check now key).2.rate = rl.rate := by
  rw [check]
  split
  · rfl
  · dsimp only
    split_ifs <;> rfl

theorem check_burst (now : ℚ) : (rl.check now key).2.burst = rl.burst := by
  rw [check]
  split
  · rfl
  · dsimp only
    split_ifs <;> rfl

/-- A call on another key leaves the bucket of a key alone. -/
theorem get?_check_of_ne {key' : String} (h : key ≠ key') (now : ℚ) :
    (rl.check now key').2.buckets.get? key = rl.buckets.get? key := by
  rw [check]
  split
  · exact Dict.get?_set_of_ne h
  · dsimp only
    split_ifs <;> exact Dict.get?_set_of_ne h

/-- The first call on a key is allowed and leaves the bucket one short of the burst. -/
theorem check_of_get?_eq_none (h : rl.buckets.get? key = none) (now : ℚ) :
    (rl.check now key).1 = true ∧
      (rl.check now key).2.buckets.get? key = some ⟨rl.burst - 1, rl.burst, now⟩ := by
  simp [check, h]

/-- A later call refills the bucket, and takes a token exactly when it is allowed. -/
theorem check_of_get?_eq_some {b : Bucket} (h : rl.buckets.get? key = some b) (now : ℚ) :
    (rl.check now key).1 = decide (1 ≤ rl.refill b now) ∧
      (rl.check now key).2.buckets.get? key = some { b with
        tokens := rl.refill b now - if 1 ≤ rl.refill b now then 1 else 0
        lastRefill := now } := by
  by_cases hle : 1 ≤ rl.refill b now <;> simp [check, h, hle]

/-- The refill is that of a token bucket at the rate of the limiter. -/
theorem refill_eq_refilled (b : Bucket) (now : ℚ) :
    rl.refill b now = refilled rl.rate b.capacity b.tokens b.lastRefill now := by
  rw [refill, refilled, mul_comm]

theorem int_eq_floor {q : ℚ} (h : 0 ≤ q) : int q = ⌊q⌋ := if_pos h

theorem remaining_of_get?_eq_none (h : rl.buckets.get? key = none) (now : ℚ) :
    rl.remaining now key = rl.burst := by
  rw [remaining, h]

theorem remaining_of_get?_eq_some {b : Bucket} (h : rl.buckets.get? key = some b) (now : ℚ) :
    rl.remaining now key = int (rl.refill b now) := by
  rw [remaining, h]

theorem retryAfter_of_get?_eq_none (h : rl.buckets.get? key = none) (now : ℚ) :
    rl.retryAfter now key = 0 := by
  rw [retryAfter, h]

theorem retryAfter_of_get?_eq_some {b : Bucket} (h : rl.buckets.get? key = some b) (now : ℚ)
    (hrate : 0 < rl.rate) :
    rl.retryAfter now key =
      if 1 ≤ rl.refill b now then 0 else (1 - rl.refill b now) / rl.rate := by
  rw [retryAfter, h]
  dsimp only
  rw [if_neg (not_le.mpr hrate)]

theorem mem_staleKeys_iff {now maxAgeSeconds : ℚ} :
    key ∈ rl.staleKeys now maxAgeSeconds ↔
      ∃ b, rl.buckets.get? key = some b ∧ maxAgeSeconds < now - b.lastRefill := by
  simp [staleKeys, Dict.get?_eq_some_iff]

/-- `cleanup` keeps the bucket of a key unless it is stale. -/
theorem get?_cleanup (now maxAgeSeconds : ℚ) :
    (rl.cleanup now maxAgeSeconds).2.buckets.get? key =
      if key ∈ rl.staleKeys now maxAgeSeconds then none else rl.buckets.get? key :=
  Dict.get?_foldl_del

/-! ### The calls on one key are metered -/

theorem keyEvents_cons_self (c : Call) (hc : c.key = key) :
    keyEvents key rl (c :: calls) =
      (c.now, (rl.step c).1) :: keyEvents key (rl.step c).2 calls := by
  simp [keyEvents, hc]

theorem keyEvents_cons_of_ne (c : Call) (hc : c.key ≠ key) :
    keyEvents key rl (c :: calls) = keyEvents key (rl.step c).2 calls := by
  simp [keyEvents, hc]

/-- From a bucket that exists, the calls on its key are metered from its tokens. -/
theorem metered_keyEvents {b : Bucket} (h : rl.buckets.get? key = some b)
    (hcap : b.capacity = rl.burst) :
    Metered rl.rate rl.burst b.tokens b.lastRefill (keyEvents key rl calls) := by
  induction calls generalizing rl b with
  | nil => exact .nil _ _
  | cons c calls ih =>
    have hrate : (rl.step c).2.rate = rl.rate := check_rate c.now
    have hburst : (rl.step c).2.burst = rl.burst := check_burst c.now
    by_cases hc : c.key = key
    · subst hc
      obtain ⟨hans, hget⟩ := check_of_get?_eq_some h c.now
      have hrest := ih hget (hcap.trans hburst.symm)
      change Metered (rl.step c).2.rate (rl.step c).2.burst _ _
        (keyEvents c.key (rl.step c).2 calls) at hrest
      rw [hrate, hburst] at hrest
      rw [keyEvents_cons_self c rfl]
      -- the elapsed time may be negative; the level then falls
      have hrefill : rl.refill b c.now ≤ b.tokens + rl.rate * (c.now - b.lastRefill) := by
        rw [mul_comm]
        exact min_le_right _ _
      have hfull : rl.refill b c.now ≤ rl.burst := by
        rw [← hcap]
        exact min_le_left _ _
      refine .cons ?_ ?_ hrest
      · rw [step, hans]
        simp only [decide_eq_true_eq]
        linarith
      · intro hgranted
        have hone : 1 ≤ rl.refill b c.now := by simpa [step, hans] using hgranted
        rw [if_pos hone]
        constructor <;> linarith
    · have hkept : (rl.step c).2.buckets.get? key = some b :=
        (get?_check_of_ne (Ne.symm hc) c.now).trans h
      rw [keyEvents_cons_of_ne c hc, ← hrate, ← hburst]
      exact ih hkept (hcap.trans hburst.symm)

/-- The calls on a key that has no bucket yet are metered from the full burst. -/
theorem exists_metered_keyEvents (h : rl.buckets.get? key = none) (hburst : 1 ≤ rl.burst) :
    ∃ level stamp, Metered rl.rate rl.burst level stamp (keyEvents key rl calls) := by
  induction calls generalizing rl with
  | nil => exact ⟨0, 0, .nil _ _⟩
  | cons c calls ih =>
    have hrate : (rl.step c).2.rate = rl.rate := check_rate c.now
    have hburst' : (rl.step c).2.burst = rl.burst := check_burst c.now
    by_cases hc : c.key = key
    · subst hc
      obtain ⟨hans, hget⟩ := check_of_get?_eq_none h c.now
      have hrest : Metered (rl.step c).2.rate (rl.step c).2.burst _ _
          (keyEvents c.key (rl.step c).2 calls) := metered_keyEvents hget hburst'.symm
      rw [hrate, hburst'] at hrest
      have hpos : (1 : ℚ) ≤ rl.burst := by exact_mod_cast hburst
      refine ⟨rl.burst, c.now, ?_⟩
      rw [keyEvents_cons_self c rfl, step, hans]
      exact .cons (by simp) (fun _ => ⟨by linarith, le_rfl⟩) hrest
    · have hkept : (rl.step c).2.buckets.get? key = none :=
        (get?_check_of_ne (Ne.symm hc) c.now).trans h
      rw [keyEvents_cons_of_ne c hc, ← hrate, ← hburst']
      exact ih hkept (hburst'.symm ▸ hburst)

/-- **Rate bound.** On a fresh limiter, whatever clock values the calls read and in whatever
order they take the lock, the calls on a key that read the clock between `s` and `t` and were
allowed number at most `burst + rate * (t - s)`. -/
theorem allowed_in_window_le (requestsPerMinute : ℚ) (burst : ℤ) (hburst : 1 ≤ burst)
    (hrate : 0 ≤ (init requestsPerMinute burst).rate) (calls : List Call) (key : String)
    (s t : ℚ) (hst : s ≤ t) :
    (((calls.zip (outputs step (init requestsPerMinute burst) calls)).countP fun c =>
        c.1.key = key ∧ s ≤ c.1.now ∧ c.1.now ≤ t ∧ c.2 = true : ℕ) : ℚ) ≤
      burst + (init requestsPerMinute burst).rate * (t - s) := by
  obtain ⟨level, stamp, hmetered⟩ : ∃ level stamp,
      Metered (init requestsPerMinute burst).rate burst level stamp
        (keyEvents key (init requestsPerMinute burst) calls) :=
    exists_metered_keyEvents rfl hburst
  have hcap : (0 : ℚ) ≤ burst := by exact_mod_cast (by omega : (0 : ℤ) ≤ burst)
  have hle := hmetered.countP_granted_le hrate hcap hst
  rw [keyEvents, List.countP_map, List.countP_filter] at hle
  refine le_trans (le_of_eq ?_) hle
  congr 2
  funext c
  simp only [grantedIn, Function.comp_apply, Bool.decide_and, Bool.decide_eq_true]
  ac_rfl

/-- Three calls of one key whose readings reach the lock out of order: two are allowed in the
window, under a bound of three. -/
theorem allowed_in_window_le_out_of_order :
    (((([⟨"a", 5⟩, ⟨"a", 4⟩, ⟨"a", 5⟩] : List Call).zip
      (outputs step (init 60 2) [⟨"a", 5⟩, ⟨"a", 4⟩, ⟨"a", 5⟩])).countP fun c =>
        c.1.key = "a" ∧ 4 ≤ c.1.now ∧ c.1.now ≤ 5 ∧ c.2 = true : ℕ) : ℚ) ≤
      2 + (init 60 2).rate * (5 - 4) :=
  allowed_in_window_le 60 2 (by decide) (by norm_num [init]) _ "a" 4 5 (by norm_num)

end RateLimiter

end TftpOS
