import TftpOS.RateLimitRuns

/-!
# Forgetting buckets

`RateLimiter.cleanup` forgets buckets by the age of their last use, and `check` hands a full bucket
to a key it does not know. A run with calls of `cleanup` is compared with the run without them:
the limiters stay related by `Forgets` while only full buckets are removed, so every call gets the
same answer. This is so for every run exactly when the age is one in which the rate yields the
burst (`cleanup_harmless`).
-/

namespace TftpOS.RateLimiter

open Lib

variable {rl : RateLimiter} {key : String} {events : List Event} {clock now requestsPerMinute : ℚ}
  {burst : ℤ}

/-- The operation is a call of `cleanup`. -/
def Op.isCleanup : Op → Bool
  | .cleanup _ => true
  | _ => false

/-- A run without its calls of `cleanup`. -/
def withoutCleanup (events : List Event) : List Event := events.filter fun e => !e.op.isCleanup

/-- Every call that is refused in a run without its calls of `cleanup` is refused in the run with
them. -/
def NeverGrants (rl : RateLimiter) (events : List Event) : Prop :=
  List.Forall₂ (fun plain kept => plain.1 = kept.1 ∧ (plain.2 = false → kept.2 = false))
    (checks rl (withoutCleanup events)) (checks rl events)

/-- Every bucket that a call of `cleanup` in the run removes would be full by then. -/
def RemovesFull (rl : RateLimiter) (events : List Event) : Prop :=
  ∀ pre now maxAgeSeconds, pre ++ [⟨now, .cleanup maxAgeSeconds⟩] <+: events →
    ∀ key ∈ (run perform rl pre).staleKeys now maxAgeSeconds,
      (run perform rl pre).tokensAt now key = rl.burst

/-- The limiters of the two runs: a bucket that only the first one still has is full from now
on. -/
structure Forgets (clock : ℚ) (plain kept : RateLimiter) : Prop where
  rate_eq : kept.rate = plain.rate
  burst_eq : kept.burst = plain.burst
  bucket : ∀ key, kept.buckets.get? key = plain.buckets.get? key ∨
    kept.buckets.get? key = none ∧ ∃ b, plain.buckets.get? key = some b ∧
      b.capacity = plain.burst ∧ ∀ t, clock ≤ t → plain.refill b t = plain.burst

section

variable {plain kept : RateLimiter}

theorem Forgets.refl : Forgets clock rl rl := ⟨rfl, rfl, fun _ => .inl rfl⟩

theorem Forgets.mono (h : Forgets clock plain kept) (hle : clock ≤ now) :
    Forgets now plain kept where
  rate_eq := h.rate_eq
  burst_eq := h.burst_eq
  bucket key := (h.bucket key).imp_right fun ⟨hkept, b, hplain, hcap, hfull⟩ =>
    ⟨hkept, b, hplain, hcap, fun t ht => hfull t (hle.trans ht)⟩

theorem Forgets.refill (h : Forgets clock plain kept) (b : Bucket) (t : ℚ) :
    kept.refill b t = plain.refill b t := by
  rw [RateLimiter.refill, RateLimiter.refill, h.rate_eq]

/-- A call gets the same answer in both runs, and afterwards both have the same bucket for its
key: what the first finds full, the second makes anew. -/
theorem Forgets.check_self (h : Forgets clock plain kept) (hburst : 1 ≤ plain.burst)
    (hle : clock ≤ now) (key : String) :
    (kept.check now key).1 = (plain.check now key).1 ∧
      (kept.check now key).2.buckets.get? key = (plain.check now key).2.buckets.get? key := by
  rcases h.bucket key with heq | ⟨hkept, b, hplain, hcap, hfull⟩
  · cases hplain : plain.buckets.get? key with
    | none =>
      obtain ⟨hans, hget⟩ := check_of_get?_eq_none hplain now
      obtain ⟨hans', hget'⟩ := check_of_get?_eq_none (heq.trans hplain) now
      exact ⟨hans'.trans hans.symm, by rw [hget, hget', h.burst_eq]⟩
    | some b =>
      obtain ⟨hans, hget⟩ := check_of_get?_eq_some hplain now
      obtain ⟨hans', hget'⟩ := check_of_get?_eq_some (heq.trans hplain) now
      rw [hans, hans', hget, hget', h.refill]
      exact ⟨rfl, rfl⟩
  · have hone : (1 : ℚ) ≤ plain.burst := by exact_mod_cast hburst
    obtain ⟨hans, hget⟩ := check_of_get?_eq_some hplain now
    obtain ⟨hans', hget'⟩ := check_of_get?_eq_none hkept now
    rw [hfull now hle] at hans hget
    rw [if_pos hone] at hget
    rw [hans, hans', hget, hget', h.burst_eq, hcap]
    exact ⟨(decide_eq_true hone).symm, rfl⟩

theorem Forgets.check (h : Forgets clock plain kept) (hburst : 1 ≤ plain.burst)
    (hle : clock ≤ now) (key : String) :
    Forgets now (plain.check now key).2 (kept.check now key).2 where
  rate_eq := by rw [check_rate, check_rate, h.rate_eq]
  burst_eq := by rw [check_burst, check_burst, h.burst_eq]
  bucket key' := by
    by_cases hkey : key' = key
    · exact .inl (hkey ▸ (h.check_self hburst hle key).2)
    · rw [get?_check_of_ne hkey, get?_check_of_ne hkey, check_burst]
      refine ((h.mono hle).bucket key').imp_right fun ⟨hkept, b, hplain, hcap, hfull⟩ =>
        ⟨hkept, b, hplain, hcap, fun t ht => ?_⟩
      rw [← hfull t ht, RateLimiter.refill, RateLimiter.refill, check_rate]

/-- A call of `cleanup` that removes full buckets only, in the second run. -/
theorem Forgets.cleanup (h : Forgets clock plain kept) (hrate : 0 ≤ plain.rate)
    (hsound : kept.SoundAt now) (hle : clock ≤ now) {maxAgeSeconds : ℚ}
    (hfull : ∀ key ∈ kept.staleKeys now maxAgeSeconds, kept.tokensAt now key = kept.burst) :
    Forgets now plain (kept.cleanup now maxAgeSeconds).2 where
  rate_eq := h.rate_eq
  burst_eq := h.burst_eq
  bucket key := by
    rw [get?_cleanup]
    split_ifs with hstale
    · obtain ⟨b, hget, -⟩ := mem_staleKeys_iff.mp hstale
      have hplain : plain.buckets.get? key = some b := by
        rcases h.bucket key with heq | ⟨hkept, -⟩
        · exact heq.symm.trans hget
        · cases hkept.symm.trans hget
      have hcap : b.capacity = plain.burst := (hsound key b hget).capacity_eq.trans h.burst_eq
      have hnow := hfull key hstale
      rw [tokensAt_of_get?_eq_some hget, h.refill, h.burst_eq, ← hcap, refill_eq_refilled] at hnow
      refine .inr ⟨rfl, b, hplain, hcap, fun t ht => ?_⟩
      rw [refill_eq_refilled, ← hcap]
      exact refilled_eq_cap_of_le hrate ht hnow
    · exact (h.mono hle).bucket key

end

/-- Both runs answer alike, from limiters of which the second has forgotten full buckets only. -/
theorem Forgets.checks_eq {plain kept : RateLimiter} (h : Forgets clock plain kept)
    (hrate : 0 ≤ plain.rate) (hburst : 1 ≤ plain.burst) (hsound : kept.SoundAt clock)
    (hordered : Ordered events) (hstart : ∀ e ∈ events, clock ≤ e.now)
    (hfull : RemovesFull kept events) :
    checks plain (withoutCleanup events) = checks kept events := by
  induction events generalizing plain kept clock with
  | nil => rfl
  | cons e events ih =>
    rw [List.forall_mem_cons] at hstart
    obtain ⟨hlater, hrest⟩ := List.pairwise_cons.mp hordered
    rw [List.forall_mem_map] at hlater
    have hsound' := soundAt_perform (e := e) (by rwa [h.rate_eq]) (by rwa [h.burst_eq])
      hsound hstart.1
    have hfull' : RemovesFull (perform kept e).2 events := fun pre now maxAgeSeconds hpre =>
      perform_burst kept e ▸
        hfull (e :: pre) now maxAgeSeconds (List.cons_prefix_cons.mpr ⟨rfl, hpre⟩)
    obtain ⟨now, op⟩ := e
    cases op with
    | check key =>
      rw [checks_cons_check, ← ih (h.check hburst hstart.1 key) (by rwa [check_rate])
        (by rwa [check_burst]) hsound' hrest hlater hfull', (h.check_self hburst hstart.1 key).1]
      rfl
    | remaining key =>
      exact ih (h.mono hstart.1) hrate hburst hsound' hrest hlater hfull'
    | retryAfter key =>
      exact ih (h.mono hstart.1) hrate hburst hsound' hrest hlater hfull'
    | reset =>
      exact ih ⟨h.rate_eq, h.burst_eq, fun _ => .inl rfl⟩ hrate hburst hsound' hrest hlater
        hfull'
    | cleanup maxAgeSeconds =>
      exact ih (h.cleanup hrate (hsound.mono hstart.1) hstart.1
        (hfull [] now maxAgeSeconds (List.cons_prefix_cons.mpr ⟨rfl, List.nil_prefix⟩)))
        hrate hburst hsound' hrest hlater hfull'

/-- **Housekeeping that removes full buckets only** changes no answer. -/
theorem checks_withoutCleanup (hrate : 0 ≤ (init requestsPerMinute burst).rate)
    (hburst : 1 ≤ burst) (hordered : Ordered events)
    (hfull : RemovesFull (init requestsPerMinute burst) events) :
    checks (init requestsPerMinute burst) (withoutCleanup events) =
      checks (init requestsPerMinute burst) events := by
  cases events with
  | nil => rfl
  | cons e events =>
    have hstart : (init requestsPerMinute burst).SoundAt e.now := soundAt_init
    exact Forgets.checks_eq .refl hrate hburst hstart hordered
      (fun _ hmem => hordered.le_of_mem hmem) hfull

/-- A bucket fills up within an age in which the rate yields the burst. -/
theorem removesFull_of_le (hrate : 0 ≤ (init requestsPerMinute burst).rate) (hburst : 1 ≤ burst)
    (hordered : Ordered events) (hage : ∀ e ∈ events, ∀ maxAgeSeconds,
      e.op = .cleanup maxAgeSeconds →
        burst ≤ maxAgeSeconds * (init requestsPerMinute burst).rate) :
    RemovesFull (init requestsPerMinute burst) events := by
  intro pre now maxAgeSeconds hpre key hstale
  obtain ⟨b, hget, hold⟩ := mem_staleKeys_iff.mp hstale
  have hordered' : Ordered (pre ++ [⟨now, .cleanup maxAgeSeconds⟩]) :=
    List.Pairwise.sublist (hpre.sublist.map Event.now) hordered
  rw [Ordered, List.map_append, List.pairwise_append] at hordered'
  have hsound := soundAt_run_init hrate hburst hordered'.1
    (fun e he => hordered'.2.2 e.now (List.mem_map_of_mem he) now (by simp)) key b hget
  rw [tokensAt_of_get?_eq_some hget, refill, hsound.capacity_eq, run_burst, run_rate]
  have henough := hage ⟨now, .cleanup maxAgeSeconds⟩ (hpre.subset (by simp)) maxAgeSeconds rfl
  have hgain := mul_le_mul_of_nonneg_right hold.le hrate
  change min (burst : ℚ) _ = burst
  exact min_eq_left (by linarith [hsound.nonneg])

/-- Several calls on a key at one instant. -/
def callsAt (n : ℕ) (now : ℚ) (key : String) : List Event := List.replicate n ⟨now, .check key⟩

theorem atOnce_callsAt (n : ℕ) : AtOnce key now (callsAt n now key) := by
  intro e he
  rw [List.eq_of_mem_replicate he]
  exact ⟨rfl, .inl rfl⟩

theorem length_answersOn_callsAt (n : ℕ) :
    (answersOn key rl (callsAt n now key)).length = n := by
  induction n generalizing rl with
  | zero => rfl
  | succ n ih =>
    rw [callsAt, List.replicate_succ, answersOn_cons_check, List.length_cons, ← callsAt, ih]

/-- Calls on one key only: what they answered. -/
theorem map_snd_checks_callsAt (n : ℕ) :
    (checks rl (callsAt n now key)).map Prod.snd = answersOn key rl (callsAt n now key) := by
  induction n generalizing rl with
  | zero => rfl
  | succ n ih =>
    rw [callsAt, List.replicate_succ, answersOn_cons_check, checks_cons_check, List.map_cons,
      ← callsAt, ih]

/-- Of calls at one instant on a key without a bucket, none is refused up to the burst. -/
theorem forall_checks_callsAt {n : ℕ} (hburst : 1 ≤ rl.burst) (hget : rl.buckets.get? key = none)
    (hn : (n : ℤ) ≤ rl.burst) : ∀ c ∈ checks rl (callsAt n now key), c.2 = true := by
  have hall : ∀ a ∈ answersOn key rl (callsAt n now key), a = true := by
    intro a ha
    obtain ⟨i, hi, rfl⟩ := List.mem_iff_getElem.mp ha
    rw [answersOn_of_get?_eq_none hburst hget (atOnce_callsAt n) i hi, decide_eq_true_eq]
    rw [length_answersOn_callsAt] at hi
    omega
  rw [← map_snd_checks_callsAt, List.forall_mem_map] at hall
  exact hall

/-- One call more than a bucket has whole tokens: one is refused. -/
theorem exists_refused_callsAt {b : Bucket} {n : ℕ} (hget : rl.buckets.get? key = some b)
    (hfloor : ⌊rl.refill b now⌋ = n) : ∃ c ∈ checks rl (callsAt (n + 1) now key), c.2 = false := by
  have hn : n < (answersOn key rl (callsAt (n + 1) now key)).length := by
    rw [length_answersOn_callsAt]
    exact Nat.lt_succ_self n
  have hlast := answersOn_of_get?_eq_some hget (atOnce_callsAt (n + 1)) n hn
  rw [hfloor, decide_eq_false (lt_irrefl _)] at hlast
  have hmem := List.getElem_mem hn
  rwa [hlast, ← map_snd_checks_callsAt, List.mem_map] at hmem

/-- The bucket after calls at one instant on a fresh limiter, up to the burst. -/
theorem get?_run_callsAt {n : ℕ} (hn : ((n + 1 : ℕ) : ℤ) ≤ burst) :
    (run perform (init requestsPerMinute burst) (callsAt (n + 1) now key)).buckets.get? key =
      some ⟨burst - (n + 1 : ℕ), burst, now⟩ := by
  induction n with
  | zero =>
    refine (check_of_get?_eq_none rfl now).2.trans ?_
    rw [Nat.zero_add, Nat.cast_one]
    rfl
  | succ n ih =>
    have hget := ih (by omega)
    have hone : (1 : ℚ) ≤ burst - (n + 1 : ℕ) := by
      rw [le_sub_iff_add_le']
      exact_mod_cast hn
    have hrefill : (run perform (init requestsPerMinute burst)
        (callsAt (n + 1) now key)).refill ⟨burst - (n + 1 : ℕ), burst, now⟩ now =
          burst - (n + 1 : ℕ) := by
      rw [refill_eq_refilled]
      exact refilled_self (sub_le_self _ (Nat.cast_nonneg _))
    rw [callsAt, List.replicate_succ', run_concat, ← callsAt]
    refine (check_of_get?_eq_some hget now).2.trans ?_
    rw [hrefill, if_pos hone]
    push_cast
    ring_nf

/-- Where the run with its calls of `cleanup` refuses nothing, the run without them does not
either. -/
theorem NeverGrants.forall_checks (h : NeverGrants rl events)
    (hkept : ∀ c ∈ checks rl events, c.2 = true) :
    ∀ c ∈ checks rl (withoutCleanup events), c.2 = true := by
  rw [NeverGrants] at h
  generalize checks rl (withoutCleanup events) = plain at h ⊢
  generalize checks rl events = kept at h hkept
  induction h with
  | nil => simp
  | cons hc _ ih =>
    rw [List.forall_mem_cons] at hkept ⊢
    refine ⟨?_, ih hkept.2⟩
    by_contra hrefused
    rw [hc.2 (Bool.eq_false_iff.mpr hrefused)] at hkept
    exact Bool.false_ne_true hkept.1

/-- A greater age in which the rate still yields less than the burst. -/
theorem exists_age_lt {rate maxAgeSeconds : ℚ} (hrate : 0 ≤ rate) (hburst : 1 ≤ burst)
    (hshort : maxAgeSeconds * rate < burst) : ∃ age, maxAgeSeconds < age ∧ age * rate < burst := by
  rcases hrate.eq_or_lt with hzero | hpos
  · refine ⟨maxAgeSeconds + 1, lt_add_one _, ?_⟩
    rw [← hzero, mul_zero]
    exact_mod_cast hburst
  · obtain ⟨age, hlow, hhigh⟩ := exists_between ((lt_div_iff₀ hpos).mpr hshort)
    exact ⟨age, hlow, (lt_div_iff₀ hpos).mp hhigh⟩

/-- A key asks for tokens at the start, and once more after a call of `cleanup`. -/
def returning (m n : ℕ) (age maxAgeSeconds : ℚ) : List Event :=
  callsAt (m + 1) 0 "a" ++ ⟨age, .cleanup maxAgeSeconds⟩ :: callsAt (n + 1) age "a"

section

variable {m n : ℕ} {age maxAgeSeconds : ℚ}

theorem withoutCleanup_returning :
    withoutCleanup (returning m n age maxAgeSeconds) =
      callsAt (m + 1) 0 "a" ++ callsAt (n + 1) age "a" := by
  simp [returning, withoutCleanup, callsAt, Op.isCleanup]

theorem ordered_returning (hage : 0 ≤ age) : Ordered (returning m n age maxAgeSeconds) := by
  simp [returning, Ordered, callsAt, List.pairwise_append, hage]

/-- The whole burst at the start leaves the bucket empty. -/
theorem get?_run_burst (hm : burst = (m + 1 : ℕ)) :
    (run perform (init requestsPerMinute burst) (callsAt (m + 1) 0 "a")).buckets.get? "a" =
      some ⟨0, burst, 0⟩ := by
  rw [get?_run_callsAt hm.ge, hm]
  simp

/-- The key has been forgotten when it returns, and gets up to the burst again. -/
theorem forall_checks_returning (hburst : 1 ≤ burst) (hm : burst = (m + 1 : ℕ))
    (hn : (n : ℤ) < burst) (hold : maxAgeSeconds < age) :
    ∀ c ∈ checks (init requestsPerMinute burst) (returning m n age maxAgeSeconds), c.2 = true := by
  have hstale : "a" ∈ (run perform (init requestsPerMinute burst)
      (callsAt (m + 1) 0 "a")).staleKeys age maxAgeSeconds :=
    mem_staleKeys_iff.mpr ⟨_, get?_run_burst hm, by rwa [sub_zero]⟩
  rw [returning, checks_append, checks_cons_of_ne (by simp), List.forall_mem_append]
  refine ⟨forall_checks_callsAt hburst rfl hm.ge, forall_checks_callsAt ?_ ?_ ?_⟩
  · rwa [perform_burst, run_burst]
  · exact (get?_cleanup age maxAgeSeconds).trans (if_pos hstale)
  · rw [perform_burst, run_burst]
    exact_mod_cast hn

/-- Without the call of `cleanup` the last call finds no whole token. -/
theorem exists_refused_returning (hm : burst = (m + 1 : ℕ))
    (hn : ⌊age * (init requestsPerMinute burst).rate⌋ = n)
    (hyield : age * (init requestsPerMinute burst).rate < burst) :
    ∃ c ∈ checks (init requestsPerMinute burst)
      (withoutCleanup (returning m n age maxAgeSeconds)), c.2 = false := by
  have hrefill : (run perform (init requestsPerMinute burst) (callsAt (m + 1) 0 "a")).refill
      ⟨0, burst, 0⟩ age = age * (init requestsPerMinute burst).rate := by
    rw [refill, run_rate, zero_add, sub_zero]
    exact min_eq_right hyield.le
  obtain ⟨c, hc, hrefused⟩ := exists_refused_callsAt (get?_run_burst hm) (by rw [hrefill, hn])
  rw [withoutCleanup_returning, checks_append]
  exact ⟨c, List.mem_append_right _ hc, hrefused⟩

end

/-- An age too short for an empty bucket to fill up within it: a key uses up its burst, is
forgotten at a slightly greater age, and then gets what it would have been refused. -/
theorem exists_not_neverGrants (hrate : 0 ≤ (init requestsPerMinute burst).rate)
    (hburst : 1 ≤ burst) {maxAgeSeconds : ℚ} (hage : 0 ≤ maxAgeSeconds)
    (hshort : maxAgeSeconds * (init requestsPerMinute burst).rate < burst) :
    ∃ events, Ordered events ∧
      (∀ e ∈ events, (∃ key, e.op = .check key) ∨ e.op = .cleanup maxAgeSeconds) ∧
      ¬ NeverGrants (init requestsPerMinute burst) events := by
  obtain ⟨age, hold, hyield⟩ := exists_age_lt hrate hburst hshort
  have hnow : 0 ≤ age := hage.trans hold.le
  obtain ⟨m, hm⟩ : ∃ m : ℕ, burst = (m + 1 : ℕ) := ⟨(burst - 1).toNat, by omega⟩
  obtain ⟨n, hn⟩ : ∃ n : ℕ, ⌊age * (init requestsPerMinute burst).rate⌋ = n :=
    Int.eq_ofNat_of_zero_le (Int.floor_nonneg.mpr (mul_nonneg hnow hrate))
  have hfew : (n : ℤ) < burst := by
    rw [← hn]
    exact Int.floor_lt.mpr hyield
  refine ⟨returning m n age maxAgeSeconds, ordered_returning hnow, ?_, fun hgrants => ?_⟩
  · simp [returning, callsAt]
  · obtain ⟨c, hc, hrefused⟩ := exists_refused_returning hm hn hyield
    rw [hgrants.forall_checks (forall_checks_returning hburst hm hfew hold) c hc] at hrefused
    exact Bool.noConfusion hrefused

/-- **When housekeeping is harmless.** In a run of a fresh limiter at nondecreasing readings whose
calls of `cleanup` remove full buckets only, every call of `check` gets the answer it gets without
them. For an age this is so in every run exactly when the rate yields the burst within it; with a
shorter age, some run allows a call that is refused without the cleanup. -/
theorem cleanup_harmless (requestsPerMinute : ℚ) (burst : ℤ)
    (hrate : 0 ≤ (init requestsPerMinute burst).rate) (hburst : 1 ≤ burst) :
    (∀ events, Ordered events → RemovesFull (init requestsPerMinute burst) events →
      checks (init requestsPerMinute burst) (withoutCleanup events) =
        checks (init requestsPerMinute burst) events) ∧
    (∀ events, Ordered events →
      (∀ e ∈ events, ∀ maxAgeSeconds, e.op = .cleanup maxAgeSeconds →
        burst ≤ maxAgeSeconds * (init requestsPerMinute burst).rate) →
      RemovesFull (init requestsPerMinute burst) events) ∧
    ∀ maxAgeSeconds, 0 ≤ maxAgeSeconds →
      ((∀ events, Ordered events →
          (∀ e ∈ events, (∃ key, e.op = .check key) ∨ e.op = .cleanup maxAgeSeconds) →
          NeverGrants (init requestsPerMinute burst) events) ↔
        burst ≤ maxAgeSeconds * (init requestsPerMinute burst).rate) := by
  refine ⟨fun events => checks_withoutCleanup hrate hburst,
    fun events => removesFull_of_le hrate hburst, fun maxAgeSeconds hage => ⟨?_, ?_⟩⟩
  · intro h
    by_contra hshort
    obtain ⟨events, hordered, hops, hgrants⟩ :=
      exists_not_neverGrants hrate hburst hage (not_le.mp hshort)
    exact hgrants (h events hordered hops)
  · intro henough events hordered hops
    have hfull := removesFull_of_le hrate hburst hordered fun e he maxAgeSeconds' hop => by
      rcases hops e he with ⟨key, hcheck⟩ | hcleanup
      · cases hcheck.symm.trans hop
      · cases hcleanup.symm.trans hop
        exact henough
    rw [NeverGrants, checks_withoutCleanup hrate hburst hordered hfull]
    exact List.forall₂_same.mpr fun c _ => ⟨rfl, id⟩

/-- The limiter of the authentication endpoints: half a minute is long enough for its burst of
five. -/
theorem cleanup_harmless_auth :
    (∀ events, Ordered events →
        (∀ e ∈ events, (∃ key, e.op = .check key) ∨ e.op = .cleanup 30) →
        NeverGrants (init 10 5) events) ↔
      ((5 : ℤ) : ℚ) ≤ 30 * (init 10 5).rate :=
  (cleanup_harmless 10 5 (by norm_num [init]) (by decide)).2.2 30 (by norm_num)

/-- A burst of one at one token a second: after half a second the key is forgotten, and its next
call is allowed. -/
theorem cleanup_grants :
    Ordered [⟨0, .check "a"⟩, ⟨1 / 2, .cleanup (1 / 4)⟩, ⟨1 / 2, .check "a"⟩] ∧
      ¬ NeverGrants (init 60 1)
        [⟨0, .check "a"⟩, ⟨1 / 2, .cleanup (1 / 4)⟩, ⟨1 / 2, .check "a"⟩] := by
  refine ⟨by simp [Ordered], fun h => ?_⟩
  have hkept : (checks (init 60 1)
      [⟨0, .check "a"⟩, ⟨1 / 2, .cleanup (1 / 4)⟩, ⟨1 / 2, .check "a"⟩]).map Prod.snd =
        [true, true] := by decide +kernel
  have hplain : (checks (init 60 1) (withoutCleanup
      [⟨0, .check "a"⟩, ⟨1 / 2, .cleanup (1 / 4)⟩, ⟨1 / 2, .check "a"⟩])).map Prod.snd =
        [true, false] := by decide +kernel
  have hall := h.forall_checks fun c hc => by
    have hmem := List.mem_map_of_mem (f := Prod.snd) hc
    rw [hkept] at hmem
    simpa using hmem
  have hfalse : false ∈ (checks (init 60 1) (withoutCleanup
      [⟨0, .check "a"⟩, ⟨1 / 2, .cleanup (1 / 4)⟩, ⟨1 / 2, .check "a"⟩])).map Prod.snd := by
    rw [hplain]
    decide
  obtain ⟨c, hc, hrefused⟩ := List.mem_map.mp hfalse
  rw [hall c hc] at hrefused
  exact Bool.noConfusion hrefused

end TftpOS.RateLimiter
