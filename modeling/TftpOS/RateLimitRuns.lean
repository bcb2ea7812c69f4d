import Mathlib.Data.Finset.Order
import TftpOS.RateLimit

/-!
# What the rate limiter admits

The methods of `RateLimiter` as the operations of one machine. Each operation reads the clock, and
a run is a list of operations with their readings.

* the calls on a key since it was first seen are all allowed exactly when no window of them asks
  for more than a full bucket (`all_allowed_iff_windows`);
* in every state reached at nondecreasing readings, every bucket holds between zero and its
  capacity, provided the burst is at least one (`tokensSound_iff`);
* `retry_after` and `remaining` predict what `check` will answer (`retryAfter_remaining_exact`).
-/

namespace TftpOS.RateLimiter

open Lib

variable {rl : RateLimiter} {key : String} {calls : List Call}

/-! ### Conforming traffic -/

/-- The readings of the calls on `key`. -/
def keyTimes (key : String) (calls : List Call) : List ℚ :=
  (calls.filter fun c => c.key = key).map Call.now

theorem keyTimes_cons_self (c : Call) (hc : c.key = key) :
    keyTimes key (c :: calls) = c.now :: keyTimes key calls := by
  simp [keyTimes, hc]

theorem keyTimes_cons_of_ne (c : Call) (hc : c.key ≠ key) :
    keyTimes key (c :: calls) = keyTimes key calls := by
  simp [keyTimes, hc]

/-- From a bucket that exists, all calls on its key are allowed exactly when a token bucket admits
them. -/
theorem forall_keyEvents_iff_admits {b : Bucket} (h : rl.buckets.get? key = some b)
    (hcap : b.capacity = rl.burst) :
    (∀ e ∈ keyEvents key rl calls, e.2 = true) ↔
      Admits rl.rate rl.burst b.tokens b.lastRefill (keyTimes key calls) := by
  induction calls generalizing rl b with
  | nil => exact iff_of_true (by simp [keyEvents]) trivial
  | cons c calls ih =>
    have hrate : (rl.step c).2.rate = rl.rate := check_rate c.now
    have hburst : (rl.step c).2.burst = rl.burst := check_burst c.now
    by_cases hc : c.key = key
    · subst hc
      obtain ⟨hans, hget⟩ : (rl.step c).1 = _ ∧ (rl.step c).2.buckets.get? c.key = _ :=
        check_of_get?_eq_some h c.now
      have hrest := ih hget (hcap.trans hburst.symm)
      rw [hrate, hburst] at hrest
      rw [keyEvents_cons_self c rfl, keyTimes_cons_self c rfl, List.forall_mem_cons, Admits,
        ← hcap, ← refill_eq_refilled, hans, decide_eq_true_eq]
      refine and_congr_right fun hone => ?_
      rw [if_pos hone] at hrest
      rwa [hcap]
    · have hkept : (rl.step c).2.buckets.get? key = some b :=
        (get?_check_of_ne (Ne.symm hc) c.now).trans h
      rw [keyEvents_cons_of_ne c hc, keyTimes_cons_of_ne c hc, ← hrate, ← hburst]
      exact ih hkept (hcap.trans hburst.symm)

/-- From the first call on a key on, a full bucket is what counts. -/
theorem forall_keyEvents_iff_conforms (h : rl.buckets.get? key = none) (hburst : 1 ≤ rl.burst) :
    (∀ e ∈ keyEvents key rl calls, e.2 = true) ↔
      Conforms rl.rate (rl.burst : ℚ) (keyTimes key calls) := by
  induction calls generalizing rl with
  | nil =>
    refine iff_of_true (by simp [keyEvents]) fun i j hij hj => absurd hj (Nat.not_lt_zero j)
  | cons c calls ih =>
    have hrate : (rl.step c).2.rate = rl.rate := check_rate c.now
    have hburst' : (rl.step c).2.burst = rl.burst := check_burst c.now
    by_cases hc : c.key = key
    · subst hc
      obtain ⟨hans, hget⟩ : (rl.step c).1 = _ ∧ (rl.step c).2.buckets.get? c.key = _ :=
        check_of_get?_eq_none h c.now
      have hrest : (∀ e ∈ keyEvents c.key (rl.step c).2 calls, e.2 = true) ↔ _ :=
        forall_keyEvents_iff_admits hget hburst'.symm
      rw [hrate, hburst'] at hrest
      have hone : (1 : ℚ) ≤ rl.burst := by exact_mod_cast hburst
      have hstart : rl.rate * (c.now - c.now) = 0 := by rw [sub_self, mul_zero]
      rw [keyEvents_cons_self c rfl, keyTimes_cons_self c rfl, List.forall_mem_cons, hrest,
        ← admits_full_iff hstart, Admits, refilled_self le_rfl, hans, and_iff_right rfl,
        and_iff_right hone]
    · have hkept : (rl.step c).2.buckets.get? key = none :=
        (get?_check_of_ne (Ne.symm hc) c.now).trans h
      rw [keyEvents_cons_of_ne c hc, keyTimes_cons_of_ne c hc, ← hrate, ← hburst']
      exact ih hkept (hburst'.symm ▸ hburst)

/-- **Conforming traffic is never refused.** The calls on a key since it was first seen, with any
calls on other keys between them, are all allowed exactly when every window of them holds at most
the burst and the gain during the window. -/
theorem all_allowed_iff_windows (rl : RateLimiter) (hburst : 1 ≤ rl.burst) (key : String)
    (hkey : rl.buckets.get? key = none) (calls : List Call) :
    (∀ c ∈ calls.zip (outputs step rl calls), c.1.key = key → c.2 = true) ↔
      ∀ i j (_ : i ≤ j) (hj : j < (keyTimes key calls).length),
        ((j - i + 1 : ℕ) : ℚ) ≤
          rl.burst + rl.rate * ((keyTimes key calls)[j] - (keyTimes key calls)[i]) := by
  rw [← Conforms, ← forall_keyEvents_iff_conforms hkey hburst]
  simp only [keyEvents, List.forall_mem_map, List.mem_filter, decide_eq_true_eq, and_imp]

/-- Three calls a second apart under a burst of two and one token a second. -/
theorem all_allowed_iff_windows_example :
    (∀ c ∈ ([⟨"a", 0⟩, ⟨"b", 0⟩, ⟨"a", 1⟩, ⟨"a", 2⟩] : List Call).zip
        (outputs step (init 60 2) [⟨"a", 0⟩, ⟨"b", 0⟩, ⟨"a", 1⟩, ⟨"a", 2⟩]),
        c.1.key = "a" → c.2 = true) ↔
      ∀ i j (_ : i ≤ j)
        (hj : j < (keyTimes "a" [⟨"a", 0⟩, ⟨"b", 0⟩, ⟨"a", 1⟩, ⟨"a", 2⟩]).length),
        ((j - i + 1 : ℕ) : ℚ) ≤ (init 60 2).burst + (init 60 2).rate *
          ((keyTimes "a" [⟨"a", 0⟩, ⟨"b", 0⟩, ⟨"a", 1⟩, ⟨"a", 2⟩])[j] -
            (keyTimes "a" [⟨"a", 0⟩, ⟨"b", 0⟩, ⟨"a", 1⟩, ⟨"a", 2⟩])[i]) :=
  all_allowed_iff_windows (init 60 2) (by decide) "a" rfl _

/-! ### The limiter as a machine -/

/-- A method of the limiter with its arguments. -/
inductive Op
  | check (key : String)
  | remaining (key : String)
  | retryAfter (key : String)
  | reset
  | cleanup (maxAgeSeconds : ℚ)

/-- An operation and the clock value it reads. -/
structure Event where
  now : ℚ
  op : Op

/-- What an operation returns. -/
inductive Answer
  | allowed (granted : Bool)
  | number (n : ℤ)
  | seconds (d : ℚ)
  | nothing
  deriving DecidableEq

/-- One operation, in the order in which the lock is taken. -/
def perform (rl : RateLimiter) (e : Event) : Answer × RateLimiter :=
  match e.op with
  | .check key => (.allowed (rl.check e.now key).1, (rl.check e.now key).2)
  | .remaining key => (.number (rl.remaining e.now key), rl)
  | .retryAfter key => (.seconds (rl.retryAfter e.now key), rl)
  | .reset => (.nothing, rl.reset)
  | .cleanup maxAgeSeconds =>
    (.number (rl.cleanup e.now maxAgeSeconds).1, (rl.cleanup e.now maxAgeSeconds).2)

/-- The readings of a run do not go backwards. -/
def Ordered (events : List Event) : Prop := (events.map Event.now).Pairwise (· ≤ ·)

variable {e : Event} {events : List Event} {clock now requestsPerMinute : ℚ} {burst : ℤ}

theorem perform_rate (rl : RateLimiter) (e : Event) : (perform rl e).2.rate = rl.rate := by
  obtain ⟨now, op⟩ := e
  cases op with
  | check key => exact check_rate now
  | _ => rfl

theorem perform_burst (rl : RateLimiter) (e : Event) : (perform rl e).2.burst = rl.burst := by
  obtain ⟨now, op⟩ := e
  cases op with
  | check key => exact check_burst now
  | _ => rfl

theorem run_rate (rl : RateLimiter) (events : List Event) :
    (run perform rl events).rate = rl.rate :=
  run_invariant (P := fun s => s.rate = rl.rate)
    (fun s e (_ : True) h => (perform_rate s e).trans h) rfl fun _ _ => trivial

theorem run_burst (rl : RateLimiter) (events : List Event) :
    (run perform rl events).burst = rl.burst :=
  run_invariant (P := fun s => s.burst = rl.burst)
    (fun s e (_ : True) h => (perform_burst s e).trans h) rfl fun _ _ => trivial

/-! ### The representation invariant -/

/-- What holds of a bucket at a clock value: its level lies between zero and its capacity, which
is the burst, and it was not refilled in the future. -/
structure Bucket.SoundAt (burst : ℤ) (clock : ℚ) (b : Bucket) : Prop where
  nonneg : 0 ≤ b.tokens
  le_capacity : b.tokens ≤ b.capacity
  capacity_eq : b.capacity = burst
  lastRefill_le : b.lastRefill ≤ clock

/-- All buckets are sound at a clock value. -/
def SoundAt (rl : RateLimiter) (clock : ℚ) : Prop :=
  ∀ key b, rl.buckets.get? key = some b → Bucket.SoundAt rl.burst clock b

theorem soundAt_init : (init requestsPerMinute burst).SoundAt clock := by
  intro key b h
  cases h

theorem SoundAt.mono (h : rl.SoundAt clock) (hle : clock ≤ now) : rl.SoundAt now :=
  fun key b hb => { h key b hb with lastRefill_le := (h key b hb).lastRefill_le.trans hle }

section

variable (hrate : 0 ≤ rl.rate) (hburst : 1 ≤ rl.burst)

include hrate hburst

theorem Bucket.SoundAt.refill_nonneg {b : Bucket} (h : Bucket.SoundAt rl.burst clock b)
    (hle : clock ≤ now) : 0 ≤ rl.refill b now := by
  have hcap : (0 : ℚ) ≤ b.capacity := by
    rw [h.capacity_eq]
    exact_mod_cast (by omega : (0 : ℤ) ≤ rl.burst)
  rw [refill_eq_refilled]
  exact refilled_nonneg hrate hcap h.nonneg (h.lastRefill_le.trans hle)

theorem soundAt_check (h : rl.SoundAt clock) (hle : clock ≤ now) :
    (rl.check now key).2.SoundAt now := by
  intro key' b hb
  rw [check_burst]
  by_cases hkey : key' = key
  · subst hkey
    cases hget : rl.buckets.get? key' with
    | none =>
      obtain rfl : _ = b := Option.some.inj ((check_of_get?_eq_none hget now).2.symm.trans hb)
      have hone : (1 : ℚ) ≤ rl.burst := by exact_mod_cast hburst
      exact ⟨sub_nonneg.mpr hone, sub_le_self _ zero_le_one, rfl, le_rfl⟩
    | some b₀ =>
      obtain rfl : _ = b := Option.some.inj ((check_of_get?_eq_some hget now).2.symm.trans hb)
      have hnonneg := (h key' b₀ hget).refill_nonneg hrate hburst hle
      have hcap : rl.refill b₀ now ≤ b₀.capacity := min_le_left _ _
      refine ⟨?_, ?_, (h key' b₀ hget).capacity_eq, le_rfl⟩
      · dsimp only
        split_ifs with hone <;> linarith
      · dsimp only
        split_ifs <;> linarith
  · rw [get?_check_of_ne hkey] at hb
    exact h.mono hle key' b hb

/-- **Step.** Every operation keeps the buckets sound, as long as the clock does not go
backwards. -/
theorem soundAt_perform (h : rl.SoundAt clock) (hle : clock ≤ e.now) :
    (perform rl e).2.SoundAt e.now := by
  obtain ⟨now, op⟩ := e
  cases op with
  | check key => exact soundAt_check hrate hburst h hle
  | remaining key => exact h.mono hle
  | retryAfter key => exact h.mono hle
  | reset =>
    intro key b hb
    cases hb
  | cleanup maxAgeSeconds =>
    intro key b hb
    have hkept := (get?_cleanup now maxAgeSeconds).symm.trans hb
    split_ifs at hkept
    exact h.mono hle key b hkept

end

/-- **Run.** So does every run. -/
theorem soundAt_run (hrate : 0 ≤ rl.rate) (hburst : 1 ≤ rl.burst) (h : rl.SoundAt clock)
    (hordered : Ordered events) (hstart : ∀ e ∈ events, clock ≤ e.now) (hclock : clock ≤ now)
    (hend : ∀ e ∈ events, e.now ≤ now) : (run perform rl events).SoundAt now := by
  induction events generalizing rl clock with
  | nil => exact h.mono hclock
  | cons e events ih =>
    rw [List.forall_mem_cons] at hstart hend
    obtain ⟨hlater, hordered⟩ := List.pairwise_cons.mp hordered
    rw [run_cons]
    refine ih ?_ ?_ (soundAt_perform hrate hburst h hstart.1) hordered
      (List.forall_mem_map.mp hlater) hend.1 hend.2
    · rwa [perform_rate]
    · rwa [perform_burst]

theorem Ordered.le_of_mem {e' : Event} (h : Ordered (e :: events)) (hmem : e' ∈ e :: events) :
    e.now ≤ e'.now := by
  rcases List.mem_cons.mp hmem with rfl | hlater
  · exact le_rfl
  · exact (List.pairwise_cons.mp h).1 e'.now (List.mem_map_of_mem hlater)

/-- Every state reached from a fresh limiter is sound at all later clock values. -/
theorem soundAt_run_init (hrate : 0 ≤ (init requestsPerMinute burst).rate) (hburst : 1 ≤ burst)
    (hordered : Ordered events) (hend : ∀ e ∈ events, e.now ≤ now) :
    (run perform (init requestsPerMinute burst) events).SoundAt now := by
  cases events with
  | nil => exact soundAt_init
  | cons e events =>
    have hstart : (init requestsPerMinute burst).SoundAt e.now := soundAt_init
    exact soundAt_run hrate hburst hstart hordered (fun _ hmem => hordered.le_of_mem hmem)
      (hend e List.mem_cons_self) hend

/-- The tokens that a call on `key` finds: those of its bucket, or a full bucket. -/
def tokensAt (rl : RateLimiter) (now : ℚ) (key : String) : ℚ :=
  match rl.buckets.get? key with
  | none => rl.burst
  | some bucket => rl.refill bucket now

theorem tokensAt_of_get?_eq_none (h : rl.buckets.get? key = none) (now : ℚ) :
    rl.tokensAt now key = rl.burst := by
  rw [tokensAt, h]

theorem tokensAt_of_get?_eq_some {b : Bucket} (h : rl.buckets.get? key = some b) (now : ℚ) :
    rl.tokensAt now key = rl.refill b now := by
  rw [tokensAt, h]

/-- Without a call of `check`, no bucket is made. -/
theorem buckets_run_eq_empty (h : rl.buckets = ∅)
    (hnone : ∀ e ∈ events, ∀ key, e.op ≠ .check key) : (run perform rl events).buckets = ∅ := by
  refine run_invariant (P := fun s : RateLimiter => s.buckets = ∅) (fun s e he hs => ?_) h hnone
  obtain ⟨now, op⟩ := e
  cases op with
  | check key => exact absurd rfl (he key)
  | remaining key => exact hs
  | retryAfter key => exact hs
  | reset => rfl
  | cleanup maxAgeSeconds =>
    ext1
    simp [perform, cleanup, staleKeys, hs]

/-- A call that is allowed took a token that was there, when the burst is at least one. -/
theorem one_le_tokensAt (hburst : 1 ≤ rl.burst) (h : (rl.check now key).1 = true) :
    1 ≤ rl.tokensAt now key := by
  cases hget : rl.buckets.get? key with
  | none =>
    rw [tokensAt_of_get?_eq_none hget]
    exact_mod_cast hburst
  | some b =>
    rw [tokensAt_of_get?_eq_some hget]
    simpa [(check_of_get?_eq_some hget now).1] using h

/-- What is wanted of a run: every bucket it reaches holds between zero and its capacity, and every
call that is allowed finds a token. -/
def TokensSound (rl : RateLimiter) (events : List Event) : Prop :=
  (∀ pre, pre <+: events → ∀ b ∈ (run perform rl pre).buckets.values,
    0 ≤ b.tokens ∧ b.tokens ≤ b.capacity) ∧
  ∀ pre now key, pre ++ [⟨now, .check key⟩] <+: events →
    (perform (run perform rl pre) ⟨now, .check key⟩).1 = .allowed true →
      1 ≤ (run perform rl pre).tokensAt now key

/-- With a burst of zero a first call finds no token and is allowed all the same. -/
theorem op_ne_check_of_tokensSound (hburst : burst < 1)
    (h : TokensSound (init requestsPerMinute burst) events) :
    ∀ e ∈ events, ∀ key, e.op ≠ .check key := by
  -- no prefix has a call
  suffices hnone : ∀ pre, pre <+: events → ∀ e ∈ pre, ∀ key, e.op ≠ .check key from
    hnone events List.prefix_rfl
  intro pre
  induction pre using List.reverseRecOn with
  | nil => simp
  | append_singleton pre e ih =>
    intro hpre e' he' key hcheck
    rw [List.mem_append, List.mem_singleton] at he'
    have hbefore := ih ((List.prefix_append pre [e]).trans hpre)
    rcases he' with hmem | rfl
    · exact hbefore e' hmem key hcheck
    · obtain ⟨now, op⟩ := e'
      subst hcheck
      have hempty : (run perform (init requestsPerMinute burst) pre).buckets.get? key = none :=
        congrArg (fun d : Dict String Bucket => d.get? key) (buckets_run_eq_empty rfl hbefore)
      have hone := h.2 pre now key hpre
        (congrArg Answer.allowed (check_of_get?_eq_none hempty now).1)
      rw [tokensAt_of_get?_eq_none hempty, run_burst] at hone
      have hone' : 1 ≤ burst := by exact_mod_cast hone
      omega

theorem tokensSound_of_one_le (hrate : 0 ≤ (init requestsPerMinute burst).rate)
    (hburst : 1 ≤ burst) (hordered : Ordered events) :
    TokensSound (init requestsPerMinute burst) events := by
  refine ⟨fun pre hpre b hb => ?_, fun pre now key _ hans => ?_⟩
  · obtain ⟨key, hget⟩ := Dict.mem_values_iff.mp hb
    obtain ⟨now, hnow⟩ := (pre.map Event.now).toFinset.exists_le
    have hreached : (run perform (init requestsPerMinute burst) pre).SoundAt now :=
      soundAt_run_init hrate hburst
        (List.Pairwise.sublist (hpre.sublist.map Event.now) hordered)
        fun e he => hnow e.now (by simpa using ⟨e, he, rfl⟩)
    have hsound := hreached key b hget
    exact ⟨hsound.nonneg, hsound.le_capacity⟩
  · refine one_le_tokensAt ?_ (Answer.allowed.inj hans)
    rwa [run_burst]

theorem tokensSound_of_op_ne_check (hnone : ∀ e ∈ events, ∀ key, e.op ≠ .check key) :
    TokensSound (init requestsPerMinute burst) events := by
  refine ⟨fun pre hpre b hb => ?_, fun pre now key hpre _ => ?_⟩
  · rw [buckets_run_eq_empty rfl fun e he => hnone e (hpre.subset he)] at hb
    cases hb
  · exact absurd rfl (hnone ⟨now, .check key⟩ (hpre.subset (by simp)) key)

/-- **Representation invariant.** At nondecreasing readings, a run of a fresh limiter keeps every
bucket between zero and its capacity and takes only tokens that are there exactly when the burst
is at least one or the run never calls `check`: with a burst of zero the first call on a key is
allowed and leaves the bucket at minus one, and with a negative one below that. -/
theorem tokensSound_iff (requestsPerMinute : ℚ) (burst : ℤ)
    (hrate : 0 ≤ (init requestsPerMinute burst).rate) (events : List Event)
    (hordered : Ordered events) :
    TokensSound (init requestsPerMinute burst) events ↔
      1 ≤ burst ∨ ∀ e ∈ events, ∀ key, e.op ≠ .check key := by
  constructor
  · intro h
    rcases lt_or_ge burst 1 with hzero | hone
    · exact .inr (op_ne_check_of_tokensSound hzero h)
    · exact .inl hone
  · rintro (hone | hnone)
    · exact tokensSound_of_one_le hrate hone hordered
    · exact tokensSound_of_op_ne_check hnone

/-- Calls for two clients under a burst of two, with a token every two seconds. -/
private def spacedCalls : List Event :=
  [⟨0, .check "a"⟩, ⟨0, .check "a"⟩, ⟨1, .check "a"⟩, ⟨1, .check "b"⟩, ⟨2, .check "a"⟩,
    ⟨2, .check "a"⟩]

theorem tokensSound_iff_spaced :
    outputs perform (init 30 2) spacedCalls = [.allowed true, .allowed true, .allowed false,
        .allowed true, .allowed true, .allowed false] ∧
      TokensSound (init 30 2) spacedCalls := by
  have hordered : Ordered spacedCalls := by
    rw [Ordered]
    decide +kernel
  exact ⟨by decide +kernel,
    (tokensSound_iff 30 2 (by decide +kernel) spacedCalls hordered).mpr (.inl (by decide))⟩

/-- Under a burst of zero the first call is allowed although no token is there, and leaves the
bucket at minus one. -/
theorem not_tokensSound_burst_zero :
    ¬ TokensSound (init 60 0) [⟨0, .check "10.0.0.1"⟩] ∧
      (perform (init 60 0) ⟨0, .check "10.0.0.1"⟩).1 = .allowed true ∧
      (perform (init 60 0) ⟨0, .check "10.0.0.1"⟩).2.buckets.get? "10.0.0.1" =
        some ⟨-1, 0, 0⟩ := by
  have hbucket : (perform (init 60 0) ⟨0, .check "10.0.0.1"⟩).2.buckets.get? "10.0.0.1" =
      some ⟨-1, 0, 0⟩ := by
    simp [perform, check, init]
  refine ⟨fun h => ?_, rfl, hbucket⟩
  have hneg := h.1 _ List.prefix_rfl _ (Dict.mem_values_iff.mpr ⟨"10.0.0.1", hbucket⟩)
  exact absurd hneg.1 (by norm_num)

/-! ### What the other methods predict -/

/-- The operation neither consumes a token of `key` nor removes buckets. -/
def Op.Spares (key : String) : Op → Prop
  | .check key' => key ≠ key'
  | .reset => False
  | .cleanup _ => False
  | _ => True

/-- An operation that spares a key leaves its bucket alone. -/
theorem get?_perform_of_spares (h : e.op.Spares key) :
    (perform rl e).2.buckets.get? key = rl.buckets.get? key := by
  obtain ⟨now, op⟩ := e
  cases op with
  | check key' => exact get?_check_of_ne h now
  | remaining key' => rfl
  | retryAfter key' => rfl
  | reset => exact h.elim
  | cleanup maxAgeSeconds => exact h.elim

theorem get?_run_of_spares (h : ∀ e ∈ events, e.op.Spares key) :
    (run perform rl events).buckets.get? key = rl.buckets.get? key :=
  run_invariant (P := fun s : RateLimiter => s.buckets.get? key = rl.buckets.get? key)
    (fun _ _ he hs => (get?_perform_of_spares he).trans hs) rfl h

/-- **`retry_after` is exact.** After the seconds it returns a call is allowed, and before them none
is. -/
theorem check_iff_retryAfter_le (hrate : 0 < rl.rate) (hburst : 1 ≤ rl.burst)
    (hsound : rl.SoundAt now) (hevents : ∀ e ∈ events, e.op.Spares key) {t : ℚ} (ht : now ≤ t) :
    ((run perform rl events).check t key).1 = true ↔ rl.retryAfter now key ≤ t - now := by
  have hkept : (run perform rl events).buckets.get? key = rl.buckets.get? key :=
    get?_run_of_spares hevents
  cases hget : rl.buckets.get? key with
  | none =>
    rw [hget] at hkept
    rw [(check_of_get?_eq_none hkept t).1, retryAfter_of_get?_eq_none hget]
    exact iff_of_true rfl (sub_nonneg.mpr ht)
  | some b =>
    rw [hget] at hkept
    have hcap : (1 : ℚ) ≤ b.capacity := by
      rw [(hsound key b hget).capacity_eq]
      exact_mod_cast hburst
    have hrefill : ∀ u, (run perform rl events).refill b u = rl.refill b u := fun u => by
      rw [refill, refill, run_rate]
    rw [(check_of_get?_eq_some hkept t).1, retryAfter_of_get?_eq_some hget _ hrate, hrefill,
      decide_eq_true_eq]
    split_ifs with hone
    · -- a token is there already, and time only adds to it
      refine iff_of_true (hone.trans ?_) (sub_nonneg.mpr ht)
      rw [refill, refill]
      have hgain := mul_le_mul_of_nonneg_right (sub_le_sub_right ht b.lastRefill) hrate.le
      exact min_le_min le_rfl (by linarith)
    · rw [refill_eq_refilled] at hone ⊢
      rw [refill_eq_refilled]
      exact one_le_refilled_iff_wait_le hrate hcap (not_le.mp hone)

/-- The calls of `check` in a run, each with its answer. -/
def checks (rl : RateLimiter) (events : List Event) : List (Call × Bool) :=
  (events.zip (outputs perform rl events)).filterMap fun
    | (⟨now, .check key⟩, .allowed granted) => some (⟨key, now⟩, granted)
    | _ => none

/-- What the calls of `check` on `key` answered. -/
def answersOn (key : String) (rl : RateLimiter) (events : List Event) : List Bool :=
  ((checks rl events).filter fun c => c.1.key = key).map Prod.snd

theorem checks_cons_check :
    checks rl (⟨now, .check key⟩ :: events) =
      (⟨key, now⟩, (rl.check now key).1) :: checks (rl.check now key).2 events := rfl

theorem checks_cons_of_ne (h : ∀ key, e.op ≠ .check key) :
    checks rl (e :: events) = checks (perform rl e).2 events := by
  obtain ⟨now, op⟩ := e
  cases op with
  | check key => exact absurd rfl (h key)
  | _ => rfl

theorem checks_append (events' : List Event) :
    checks rl (events ++ events') = checks rl events ++ checks (run perform rl events) events' := by
  induction events generalizing rl with
  | nil => rfl
  | cons e events ih =>
    by_cases h : ∀ key, e.op ≠ .check key
    · rw [List.cons_append, checks_cons_of_ne h, checks_cons_of_ne h, ih, run_cons]
    · obtain ⟨now, op⟩ := e
      push Not at h
      obtain ⟨key, rfl⟩ : ∃ key, op = .check key := h
      rw [List.cons_append, checks_cons_check, checks_cons_check, ih, List.cons_append, run_cons]
      rfl

theorem answersOn_cons_of_spares (h : e.op.Spares key) :
    answersOn key rl (e :: events) = answersOn key (perform rl e).2 events := by
  by_cases hcheck : ∀ key, e.op ≠ .check key
  · rw [answersOn, answersOn, checks_cons_of_ne hcheck]
  · obtain ⟨now, op⟩ := e
    push Not at hcheck
    obtain ⟨key', rfl⟩ : ∃ key, op = .check key := hcheck
    have hne : ¬ key' = key := fun heq => h heq.symm
    rw [answersOn, checks_cons_check, List.filter_cons_of_neg (by simpa using hne)]
    rfl

theorem answersOn_cons_check :
    answersOn key rl (⟨now, .check key⟩ :: events) =
      (rl.check now key).1 :: answersOn key (rl.check now key).2 events := by
  rw [answersOn, checks_cons_check, List.filter_cons_of_pos (by simp)]
  rfl

/-- The operations all read the clock at `now`, and each is a call of `check` on `key` or spares
it. -/
def AtOnce (key : String) (now : ℚ) (events : List Event) : Prop :=
  ∀ e ∈ events, e.now = now ∧ (e.op = .check key ∨ e.op.Spares key)

/-- Of the calls on a bucket at one instant, as many are allowed as the level has whole tokens. -/
theorem answersOn_of_get?_eq_some {b : Bucket} (hget : rl.buckets.get? key = some b)
    (hevents : AtOnce key now events) :
    FirstOnly ⌊rl.refill b now⌋ (answersOn key rl events) := by
  induction events generalizing rl b with
  | nil => exact firstOnly_nil
  | cons e events ih =>
    obtain ⟨hnow, hlater⟩ := List.forall_mem_cons.mp hevents
    obtain ⟨now', op⟩ := e
    obtain ⟨rfl, rfl | hspares⟩ := hnow
    · obtain ⟨hans, hget'⟩ := check_of_get?_eq_some hget now'
      have hcap : rl.refill b now' ≤ b.capacity := min_le_left _ _
      have hnext : (rl.check now' key).2.refill
          { b with
            tokens := rl.refill b now' - if 1 ≤ rl.refill b now' then 1 else 0
            lastRefill := now' } now' =
          rl.refill b now' - if 1 ≤ rl.refill b now' then 1 else 0 := by
        rw [refill_eq_refilled]
        exact refilled_self (by dsimp only; split_ifs <;> linarith)
      have hrest := ih hget' hlater
      rw [hnext] at hrest
      rw [answersOn_cons_check, hans]
      exact firstOnly_cons_floor hrest
    · have hget' : (perform rl ⟨now', op⟩).2.buckets.get? key = some b :=
        (get?_perform_of_spares hspares).trans hget
      have hrefill : (perform rl ⟨now', op⟩).2.refill b now' = rl.refill b now' := by
        rw [refill, refill, perform_rate]
      have hrest := ih hget' hlater
      rw [hrefill] at hrest
      rwa [answersOn_cons_of_spares hspares]

/-- Of the calls at one instant on a key that has no bucket, as many are allowed as the burst. -/
theorem answersOn_of_get?_eq_none (hburst : 1 ≤ rl.burst) (hget : rl.buckets.get? key = none)
    (hevents : AtOnce key now events) : FirstOnly rl.burst (answersOn key rl events) := by
  induction events generalizing rl with
  | nil => exact firstOnly_nil
  | cons e events ih =>
    obtain ⟨hnow, hlater⟩ := List.forall_mem_cons.mp hevents
    obtain ⟨now', op⟩ := e
    obtain ⟨rfl, rfl | hspares⟩ := hnow
    · obtain ⟨hans, hget'⟩ := check_of_get?_eq_none hget now'
      have hrest := answersOn_of_get?_eq_some hget' hlater
      have hnext : ⌊(rl.check now' key).2.refill ⟨rl.burst - 1, rl.burst, now'⟩ now'⌋ =
          rl.burst - 1 := by
        rw [refill_eq_refilled, refilled_self (sub_le_self _ zero_le_one), Int.floor_sub_one,
          Int.floor_intCast]
      rw [hnext] at hrest
      rw [answersOn_cons_check, hans]
      exact firstOnly_cons.mpr ⟨(decide_eq_true hburst).symm, hrest⟩
    · have hget' : (perform rl ⟨now', op⟩).2.buckets.get? key = none :=
        (get?_perform_of_spares hspares).trans hget
      have hrest := ih ((perform_burst rl ⟨now', op⟩).symm ▸ hburst) hget' hlater
      rw [perform_burst] at hrest
      rwa [answersOn_cons_of_spares hspares]

/-- **`remaining` is exact.** Of calls at the instant it was read, as many are allowed as it
returned. -/
theorem answersOn_eq_remaining (hrate : 0 ≤ rl.rate) (hburst : 1 ≤ rl.burst)
    (hsound : rl.SoundAt now) (hevents : AtOnce key now events) :
    FirstOnly (rl.remaining now key) (answersOn key rl events) := by
  cases hget : rl.buckets.get? key with
  | none =>
    rw [remaining_of_get?_eq_none hget]
    exact answersOn_of_get?_eq_none hburst hget hevents
  | some b =>
    have hnonneg := (hsound key b hget).refill_nonneg hrate hburst le_rfl
    rw [remaining_of_get?_eq_some hget, int_eq_floor hnonneg]
    exact answersOn_of_get?_eq_some hget hevents

/-- **The methods agree.** Take any state that a fresh limiter reaches at nondecreasing readings,
and a later clock value. With no consumption or removal in between, a call on `key` is allowed
exactly when the seconds that `retry_after` returned have passed; and of the calls on `key` at that
very clock value, exactly the first `remaining` are allowed. -/
theorem retryAfter_remaining_exact (requestsPerMinute : ℚ) (burst : ℤ)
    (hrate : 0 < (init requestsPerMinute burst).rate) (hburst : 1 ≤ burst) (past : List Event)
    (hpast : Ordered past) (now : ℚ) (hnow : ∀ e ∈ past, e.now ≤ now) (key : String) :
    (∀ events, (∀ e ∈ events, e.op.Spares key) → ∀ t, now ≤ t →
      ((perform (run perform (init requestsPerMinute burst) (past ++ events))
          ⟨t, .check key⟩).1 = .allowed true ↔
        (run perform (init requestsPerMinute burst) past).retryAfter now key ≤ t - now)) ∧
    0 ≤ (run perform (init requestsPerMinute burst) past).remaining now key ∧
    ∀ events, AtOnce key now events →
      ∀ i (hi : i < (answersOn key (run perform (init requestsPerMinute burst) past)
          events).length),
        (answersOn key (run perform (init requestsPerMinute burst) past) events)[i] =
          decide ((i : ℤ) <
            (run perform (init requestsPerMinute burst) past).remaining now key) := by
  have hsound := soundAt_run_init hrate.le hburst hpast hnow
  have hrate' : 0 < (run perform (init requestsPerMinute burst) past).rate := by
    rwa [run_rate]
  have hburst' : 1 ≤ (run perform (init requestsPerMinute burst) past).burst := by
    rwa [run_burst]
  refine ⟨fun events hevents t ht => ?_, ?_, fun events hevents => ?_⟩
  · rw [← check_iff_retryAfter_le hrate' hburst' hsound hevents ht, run_append]
    simp [perform]
  · cases hget : (run perform (init requestsPerMinute burst) past).buckets.get? key with
    | none =>
      rw [remaining_of_get?_eq_none hget]
      omega
    | some b =>
      have hnonneg := (hsound key b hget).refill_nonneg hrate'.le hburst' le_rfl
      rw [remaining_of_get?_eq_some hget, int_eq_floor hnonneg]
      exact Int.floor_nonneg.mpr hnonneg
  · exact answersOn_eq_remaining hrate'.le hburst' hsound hevents

/-- A burst of one, used up half a second ago at one token a second; another key is seen before
the next call. -/
theorem retryAfter_remaining_exact_half_second :
    ((perform (run perform (init 60 1) ([⟨0, .check "a"⟩] ++ [⟨1, .check "b"⟩]))
        ⟨1, .check "a"⟩).1 = .allowed true ↔
      (run perform (init 60 1) [⟨0, .check "a"⟩]).retryAfter (1 / 2) "a" ≤ 1 - 1 / 2) ∧
    0 ≤ (run perform (init 60 1) [⟨0, .check "a"⟩]).remaining (1 / 2) "a" := by
  obtain ⟨hretry, hremaining, -⟩ := retryAfter_remaining_exact 60 1 (by norm_num [init]) le_rfl
    [⟨0, .check "a"⟩] (List.pairwise_singleton _ _) (1 / 2) (by simp) "a"
  exact ⟨hretry [⟨1, .check "b"⟩] (by simp [Op.Spares]) 1 (by norm_num), hremaining⟩

end TftpOS.RateLimiter
