import Mathlib.Algebra.Order.Ring.Rat
import Mathlib.Tactic.Linarith
import TftpOS.Cache
import TftpOS.Lib.Run

/-!
# Runs of TTL caches

What holds of a cache after any sequence of operations. An entry is there exactly when the last
put on its key has not been undone or expired since (`LastPut`), a put makes room by taking out
one entry, the oldest (`EvictsOldest`), and the counters account for every lookup and every entry
(`runs_exact`).

The second part is about functions decorated with `ttl_cache`, whose results may change over time:
what a call returns is at most `ttl` old, and a function is not evaluated again on a key before
`ttl` has elapsed (`calls_fresh`).
-/

namespace TftpOS

open Lib

namespace TTLCache

variable {κ ν : Type} [DecidableEq κ] {c : TTLCache κ ν}

/-! ### What each operation does to the entries -/

/-- The key that a put of `key` evicts. -/
def evicted (c : TTLCache κ ν) (key : κ) : Option κ :=
  if c.entries.size ≥ c.maxsize ∧ !c.entries.contains key then
    (oldestKey c.entries.entries).map Prod.fst
  else none

omit [DecidableEq κ] in
theorem eq_nil_of_oldestKey {es : List (κ × ℚ × Option ν)} (h : oldestKey es = none) :
    es = [] := by
  cases es with
  | nil => rfl
  | cons e es =>
    rw [oldestKey] at h
    split at h
    · split_ifs at h
    · cases h

omit [DecidableEq κ] in
theorem oldestKey_spec {es : List (κ × ℚ × Option ν)} {k : κ} {t : ℚ}
    (h : oldestKey es = some (k, t)) : (∃ v, (k, t, v) ∈ es) ∧ ∀ e ∈ es, t ≤ e.2.1 := by
  induction es generalizing k t with
  | nil => cases h
  | cons e es ih =>
    obtain ⟨key, timestamp, value⟩ := e
    rw [oldestKey] at h
    rcases hrest : oldestKey es with _ | ⟨key', timestamp'⟩
    · rw [hrest] at h
      cases h
      simp [eq_nil_of_oldestKey hrest]
    · rw [hrest] at h
      obtain ⟨⟨value', hmem⟩, hle⟩ := ih hrest
      by_cases hold : timestamp ≤ timestamp'
      · simp only [if_pos hold, Option.some.injEq, Prod.mk.injEq] at h
        obtain ⟨rfl, rfl⟩ := h
        refine ⟨⟨value, by simp⟩, ?_⟩
        simpa using fun k t v he => hold.trans (hle (k, t, v) he)
      · simp only [if_neg hold, Option.some.injEq, Prod.mk.injEq] at h
        obtain ⟨rfl, rfl⟩ := h
        refine ⟨⟨value', List.mem_cons_of_mem _ hmem⟩, ?_⟩
        simpa using ⟨(lt_of_not_ge hold).le, fun k t v he => hle (k, t, v) he⟩

/-- An evicted key makes room for a new one in a full cache, and has the oldest timestamp. -/
theorem evicted_spec {key k : κ} (h : c.evicted key = some k) :
    c.maxsize ≤ c.entries.size ∧ key ∉ c.entries.keys ∧
      ∃ e, c.entries.get? k = some e ∧ ∀ k' e', c.entries.get? k' = some e' → e.1 ≤ e'.1 := by
  rw [evicted] at h
  split_ifs at h with hfull
  obtain ⟨⟨k', t⟩, hold, rfl⟩ := Option.map_eq_some_iff.mp h
  obtain ⟨⟨v, hmem⟩, hle⟩ := oldestKey_spec hold
  refine ⟨hfull.1, by simpa [Dict.contains] using hfull.2, (t, v), Dict.get?_eq_some_iff.mpr hmem,
    fun k'' e' he' => hle (k'', e') (Dict.get?_eq_some_iff.mp he')⟩

/-- A new key always evicts when the cache is full. -/
theorem exists_evicted (hsize : 0 < c.maxsize) (hfull : c.maxsize ≤ c.entries.size) {key : κ}
    (hnew : key ∉ c.entries.keys) : ∃ k, c.evicted key = some k := by
  have hne : c.entries.entries ≠ [] := by
    intro hnil
    rw [Dict.size, hnil] at hfull
    exact absurd hfull (by simpa using hsize.ne')
  have hcond : c.entries.size ≥ c.maxsize ∧ !c.entries.contains key := by
    simpa [Dict.contains] using ⟨hfull, hnew⟩
  rcases he : oldestKey c.entries.entries with _ | e
  · exact absurd (eq_nil_of_oldestKey he) hne
  · exact ⟨e.1, by rw [evicted, if_pos hcond, he, Option.map_some]⟩

theorem put_of_evicted {key k : κ} (h : c.evicted key = some k) (now : ℚ) (value : Option ν) :
    c.put now key value = (.ok (), { c with
      entries := (c.entries.del k).set key (now, value)
      stats := { c.stats with evictions := c.stats.evictions + 1 } }) := by
  rw [evicted] at h
  split_ifs at h with hfull
  obtain ⟨⟨k', t⟩, hold, rfl⟩ := Option.map_eq_some_iff.mp h
  rw [put, if_pos hfull, hold]

theorem put_of_evicted_none (hsize : 0 < c.maxsize) {key : κ} (h : c.evicted key = none)
    (now : ℚ) (value : Option ν) :
    c.put now key value = (.ok (), { c with entries := c.entries.set key (now, value) }) := by
  rw [put, if_neg]
  intro hfull
  have hnew : key ∉ c.entries.keys := by simpa [Dict.contains] using hfull.2
  obtain ⟨k, hk⟩ := exists_evicted hsize hfull.1 hnew
  rw [h] at hk
  cases hk

/-- Lookup after a put. -/
theorem get?_put (hsize : 0 < c.maxsize) (now : ℚ) (key : κ) (value : Option ν) (k : κ) :
    (c.put now key value).2.entries.get? k =
      if k = key then some (now, value)
      else if c.evicted key = some k then none else c.entries.get? k := by
  rcases h : c.evicted key with _ | old
  · rw [put_of_evicted_none hsize h, Dict.get?_set]
    simp
  · rw [put_of_evicted h, Dict.get?_set, Dict.get?_del]
    simp only [Option.some.injEq, eq_comm]

theorem put_fst (hsize : 0 < c.maxsize) (now : ℚ) (key : κ) (value : Option ν) :
    (c.put now key value).1 = .ok () := by
  rcases h : c.evicted key with _ | old
  · rw [put_of_evicted_none hsize h]
  · rw [put_of_evicted h]

/-- Lookup after a `get`: an entry that is found expired is gone. -/
theorem get?_get {now : ℚ} {key k : κ} {e : ℚ × Option ν} :
    (c.get now key).2.entries.get? k = some e ↔
      c.entries.get? k = some e ∧ ¬ (k = key ∧ c.ttl < now - e.1) := by
  rw [get]
  rcases hkey : c.entries.get? key with _ | ⟨timestamp, value⟩
  · simp only
    constructor
    · intro h
      refine ⟨h, fun hk => ?_⟩
      rw [hk.1, hkey] at h
      cases h
    · exact And.left
  · by_cases hexpired : now - timestamp > c.ttl
    · simp only [if_pos hexpired]
      rw [Dict.get?_del]
      split_ifs with hk
      · subst hk
        rw [hkey]
        constructor
        · intro h
          cases h
        · rintro ⟨h, hfresh⟩
          obtain rfl := Option.some.inj h
          exact absurd ⟨rfl, hexpired⟩ hfresh
      · simp [hk]
    · simp only [if_neg hexpired]
      constructor
      · intro h
        refine ⟨h, ?_⟩
        rintro ⟨rfl, hold⟩
        rw [hkey] at h
        obtain rfl := Option.some.inj h
        exact hexpired hold
      · exact And.left

/-- What a `get` answers. -/
theorem get_fst_eq_some_iff {now : ℚ} {key : κ} {v : ν} :
    (c.get now key).1 = some v ↔
      ∃ s, c.entries.get? key = some (s, some v) ∧ now - s ≤ c.ttl := by
  rw [get]
  rcases hkey : c.entries.get? key with _ | ⟨timestamp, value⟩
  · simp
  · by_cases hexpired : now - timestamp > c.ttl
    · simp only [if_pos hexpired]
      constructor
      · intro h
        cases h
      · rintro ⟨s, hs, hfresh⟩
        cases hs
        exact absurd hfresh (not_le.mpr hexpired)
    · simp only [if_neg hexpired]
      constructor
      · rintro rfl
        exact ⟨timestamp, rfl, not_lt.mp hexpired⟩
      · rintro ⟨s, hs, -⟩
        cases hs
        rfl

/-! ### Operations -/

/-- `TTLCacheWrapper.__init__`. -/
def init (maxsize : ℕ) (ttl : ℚ) : TTLCache κ ν where
  maxsize := maxsize
  ttl := ttl

/-- An operation on a cache, with the clock reading of those that take one. -/
inductive Op (κ ν : Type) where
  | get (now : ℚ) (key : κ)
  | put (now : ℚ) (key : κ) (value : Option ν)
  | invalidate (key : κ)
  | invalidateMatching (predicate : κ → Bool)
  | clear

/-- What an operation returns. -/
inductive Reply (ν : Type) where
  | value (value : Option ν)
  | removed (removed : Bool)
  | count (removed : ℕ)
  | done

/-- One operation: what it returns, or the exception it raises. -/
def step (c : TTLCache κ ν) : Op κ ν → Except PyExc (Reply ν) × TTLCache κ ν
  | .get now key => (c.get now key).map (fun v => .ok (.value v)) id
  | .put now key value => (c.put now key value).map (·.map fun _ => .done) id
  | .invalidate key => (c.invalidate key).map (fun b => .ok (.removed b)) id
  | .invalidateMatching predicate =>
    (c.invalidateMatching predicate).map (fun n => .ok (.count n)) id
  | .clear => (.ok .done, c.clear)

/-- The clock reading of an operation, if it takes one. -/
def Op.clock? : Op κ ν → Option ℚ
  | .get now _ => some now
  | .put now _ _ => some now
  | _ => none

/-- The clock readings of a run. -/
def clocks (ops : List (Op κ ν)) : List ℚ := ops.filterMap Op.clock?

/-- The operation overwrites the entry under `k`, invalidates or clears it, or evicts it to make
room. -/
def Op.Undoes (c : TTLCache κ ν) (k : κ) : Op κ ν → Prop
  | .get _ _ => False
  | .put _ key _ => key = k ∨ c.evicted key = some k
  | .invalidate key => key = k
  | .invalidateMatching predicate => predicate k = true
  | .clear => True

/-- The last put on `k` stored `value` at the time `s`, and nothing has undone it since. -/
def LastPut (c : TTLCache κ ν) (ops : List (Op κ ν)) (k : κ) (s : ℚ) (value : Option ν) : Prop :=
  ∃ pre mid, ops = pre ++ .put s k value :: mid ∧
    ∀ m op, m ++ [op] <+: mid → ¬ op.Undoes (run step c (pre ++ .put s k value :: m)) k

/-- What a put of `key` at the time `now`, which leads from `c` to `c'`, takes out of the cache. -/
structure EvictsOldest (c : TTLCache κ ν) (now : ℚ) (key : κ) (c' : TTLCache κ ν) : Prop where
  /-- An entry is removed only to make room for a new key. -/
  full : ∀ k ∈ c.entries.keys, k ∉ c'.entries.keys →
    key ∉ c.entries.keys ∧ c.entries.size = c.maxsize
  /-- Then exactly one is. -/
  one : key ∉ c.entries.keys → c.entries.size = c.maxsize →
    ∃! k, k ∈ c.entries.keys ∧ k ∉ c'.entries.keys
  /-- It has the oldest timestamp. -/
  oldest : ∀ k e, c.entries.get? k = some e → k ∉ c'.entries.keys →
    ∀ k' e', c.entries.get? k' = some e' → e.1 ≤ e'.1
  /-- If it has not expired, no entry has. -/
  expired_first : ∀ k e, c.entries.get? k = some e → k ∉ c'.entries.keys → now - e.1 ≤ c.ttl →
    ∀ k' e', c.entries.get? k' = some e' → now - e'.1 ≤ c.ttl

/-! ### Every run -/

/-- The limits of a cache, and its size within them. -/
structure Within (maxsize : ℕ) (ttl : ℚ) (c : TTLCache κ ν) : Prop where
  maxsize_eq : c.maxsize = maxsize
  ttl_eq : c.ttl = ttl
  size_le : c.entries.size ≤ maxsize

variable {maxsize : ℕ} {ttl : ℚ}

theorem get_maxsize (now : ℚ) (key : κ) : (c.get now key).2.maxsize = c.maxsize := by
  rw [get]
  split
  · rfl
  · split_ifs <;> rfl

theorem get_ttl (now : ℚ) (key : κ) : (c.get now key).2.ttl = c.ttl := by
  rw [get]
  split
  · rfl
  · split_ifs <;> rfl

/-- A `get` drops the entry that it finds expired, and counts it. -/
theorem get_conserves (now : ℚ) (key : κ) :
    (c.get now key).2.entries.size + (c.get now key).2.stats.evictions =
      c.entries.size + c.stats.evictions := by
  rw [get]
  split
  · rfl
  · next t v h =>
    split_ifs
    · have hdel := Dict.size_del_add_one (Dict.mem_keys_iff.mpr ⟨_, h⟩)
      simp only
      omega
    · rfl

/-- A put adds the entry of a new key, and counts the entry that it evicts. -/
theorem put_conserves (hsize : 0 < c.maxsize) (now : ℚ) (key : κ) (value : Option ν) :
    (c.put now key value).2.entries.size + (c.put now key value).2.stats.evictions =
      c.entries.size + c.stats.evictions + if key ∈ c.entries.keys then 0 else 1 := by
  rcases h : c.evicted key with _ | old
  · rw [put_of_evicted_none hsize h, Dict.size_set]
    split_ifs
    · rfl
    · simp only
      omega
  · obtain ⟨-, hnew, e, he, -⟩ := evicted_spec h
    have hdel := Dict.size_del_add_one (Dict.mem_keys_iff.mpr ⟨e, he⟩)
    have hnew' : key ∉ (c.entries.del old).keys := by
      simp only [Dict.mem_keys_iff, Dict.get?_del] at hnew ⊢
      rintro ⟨v, hv⟩
      split_ifs at hv
      exact hnew ⟨v, hv⟩
    rw [put_of_evicted h, Dict.size_set, if_neg hnew', if_neg hnew]
    simp only
    omega

/-- A put keeps the size within the limit. -/
theorem put_size_le (hsize : 0 < c.maxsize) (hle : c.entries.size ≤ c.maxsize) (now : ℚ) (key : κ)
    (value : Option ν) : (c.put now key value).2.entries.size ≤ c.maxsize := by
  have hput := put_conserves hsize now key value
  rcases h : c.evicted key with _ | old
  · rw [put_of_evicted_none hsize h] at hput ⊢
    split_ifs at hput with hold
    · simp only at hput ⊢
      omega
    · -- an evicting put would be needed if the cache were full
      have hroom : c.entries.size < c.maxsize := by
        by_contra hfull
        obtain ⟨k, hk⟩ := exists_evicted hsize (not_lt.mp hfull) hold
        rw [h] at hk
        cases hk
      simp only at hput ⊢
      omega
  · obtain ⟨-, hnew, -⟩ := evicted_spec h
    rw [put_of_evicted h] at hput ⊢
    rw [if_neg hnew] at hput
    simp only at hput ⊢
    omega

theorem Within.step (hsize : 0 < maxsize) (h : Within maxsize ttl c) (op : Op κ ν) :
    Within maxsize ttl (step c op).2 := by
  obtain ⟨rfl, rfl, hle⟩ := h
  cases op with
  | get now key =>
    have hget := get_conserves (c := c) now key
    refine ⟨get_maxsize now key, get_ttl now key, ?_⟩
    have hevictions : c.stats.evictions ≤ (c.get now key).2.stats.evictions := by
      rw [get]
      split
      · exact le_rfl
      · split_ifs
        · exact Nat.le_succ _
        · exact le_rfl
    simp only [TTLCache.step, Prod.map_snd, id]
    omega
  | put now key value =>
    have hput := put_size_le hsize hle now key value
    rcases hold : c.evicted key with _ | old
    · rw [put_of_evicted_none hsize hold] at hput
      rw [TTLCache.step, put_of_evicted_none hsize hold]
      exact ⟨rfl, rfl, hput⟩
    · rw [put_of_evicted hold] at hput
      rw [TTLCache.step, put_of_evicted hold]
      exact ⟨rfl, rfl, hput⟩
  | invalidate key =>
    rw [TTLCache.step, invalidate]
    split_ifs with hkey
    · have hdel := Dict.size_del_add_one (by simpa [Dict.contains] using hkey)
      refine ⟨rfl, rfl, ?_⟩
      simp only [Prod.map_snd, id]
      omega
    · exact ⟨rfl, rfl, hle⟩
  | invalidateMatching predicate =>
    have hfilter := Dict.size_filter_add c.entries predicate
    refine ⟨rfl, rfl, ?_⟩
    simp only [TTLCache.step, invalidateMatching, Prod.map_snd, id]
    omega
  | clear => exact ⟨rfl, rfl, Nat.zero_le _⟩

omit [DecidableEq κ] in
theorem within_init : Within maxsize ttl (init maxsize ttl : TTLCache κ ν) :=
  ⟨rfl, rfl, Nat.zero_le _⟩

theorem within_run (ttl : ℚ) (hsize : 0 < maxsize) (ops : List (Op κ ν)) :
    Within maxsize ttl (run step (init maxsize ttl) ops) :=
  run_invariant (fun _ op (_ : True) h => h.step hsize op) within_init fun _ _ => trivial

/-- What a put within the limits takes out. -/
theorem evictsOldest_put (hsize : 0 < c.maxsize) (hle : c.entries.size ≤ c.maxsize) (now : ℚ)
    (key : κ) (value : Option ν) : EvictsOldest c now key (c.put now key value).2 := by
  have hgone : ∀ k ∈ c.entries.keys, k ∉ (c.put now key value).2.entries.keys →
      c.evicted key = some k := by
    intro k hk hk'
    obtain ⟨e, he⟩ := Dict.mem_keys_iff.mp hk
    simp only [Dict.mem_keys_iff, get?_put hsize, not_exists] at hk'
    by_contra hne
    by_cases hkey : k = key
    · exact hk' (now, value) (by rw [if_pos hkey])
    · exact hk' e (by rw [if_neg hkey, if_neg hne, he])
  have holdest : ∀ k e, c.entries.get? k = some e → k ∉ (c.put now key value).2.entries.keys →
      ∀ k' e', c.entries.get? k' = some e' → e.1 ≤ e'.1 := by
    intro k e he hk
    obtain ⟨-, -, e', he', hmin⟩ := evicted_spec (hgone k (Dict.mem_keys_iff.mpr ⟨e, he⟩) hk)
    obtain rfl : e = e' := Option.some.inj (he.symm.trans he')
    exact hmin
  refine ⟨fun k hk hk' => ?_, fun hnew hfull => ?_, holdest, fun k e he hk hfresh k' e' he' => ?_⟩
  · obtain ⟨hfull, hnew, -⟩ := evicted_spec (hgone k hk hk')
    exact ⟨hnew, le_antisymm hle hfull⟩
  · obtain ⟨old, hold⟩ := exists_evicted hsize hfull.ge hnew
    obtain ⟨-, -, e, he, -⟩ := evicted_spec hold
    have hmem : old ∈ c.entries.keys := Dict.mem_keys_iff.mpr ⟨e, he⟩
    refine ⟨old, ⟨hmem, ?_⟩, fun k hk => ?_⟩
    · have hne : old ≠ key := fun hkey => hnew (hkey ▸ hmem)
      simp [Dict.mem_keys_iff, get?_put hsize, hne, hold]
    · exact Option.some.inj ((hgone k hk.1 hk.2).symm.trans hold)
  · have := holdest k e he hk k' e' he'
    linarith

/-! ### Lookups are exact -/

/-- The entry after an operation is the one that it puts, or was there and is not undone. -/
theorem get?_step (hsize : 0 < c.maxsize) {op : Op κ ν} {k : κ} {e : ℚ × Option ν}
    (h : (step c op).2.entries.get? k = some e) :
    op = .put e.1 k e.2 ∨ c.entries.get? k = some e ∧ ¬ op.Undoes c k := by
  cases op with
  | get now key => exact .inr ⟨(get?_get.mp h).1, not_false⟩
  | put now key value =>
    have hput := (get?_put hsize now key value k).symm.trans h
    split_ifs at hput with hkey hold
    · obtain rfl := Option.some.inj hput
      exact .inl (by rw [hkey])
    · refine .inr ⟨hput, ?_⟩
      rintro (rfl | hold')
      · exact hkey rfl
      · exact hold hold'
  | invalidate key =>
    rw [step, invalidate] at h
    split_ifs at h with hkey
    · have hdel : (c.entries.del key).get? k = some e := h
      rw [Dict.get?_del] at hdel
      split_ifs at hdel with hk
      exact .inr ⟨hdel, fun hk' => hk hk'.symm⟩
    · refine .inr ⟨h, ?_⟩
      rintro rfl
      exact hkey (by rw [Dict.contains_eq_isSome]; exact Option.isSome_of_eq_some h)
  | invalidateMatching predicate =>
    have hfilter : (c.entries.filter fun e => !predicate e.1).get? k = some e := h
    rw [Dict.get?_filter, Option.filter_eq_some_iff] at hfilter
    exact .inr ⟨hfilter.1, by simpa [Op.Undoes] using hfilter.2⟩
  | clear => cases h

/-- An entry that an operation does not undo stays, unless a `get` finds it expired. -/
theorem get?_step_of_not_undoes (hsize : 0 < c.maxsize) {op : Op κ ν} {k : κ} {e : ℚ × Option ν}
    (h : c.entries.get? k = some e) (hop : ¬ op.Undoes c k) :
    (step c op).2.entries.get? k = some e ∨ ∃ now, op.clock? = some now ∧ c.ttl < now - e.1 := by
  cases op with
  | get now key =>
    by_cases hexpired : k = key ∧ c.ttl < now - e.1
    · exact .inr ⟨now, rfl, hexpired.2⟩
    · exact .inl (get?_get.mpr ⟨h, hexpired⟩)
  | put now key value =>
    rw [Op.Undoes, not_or] at hop
    left
    change (c.put now key value).2.entries.get? k = some e
    rw [get?_put hsize, if_neg (Ne.symm hop.1), if_neg hop.2, h]
  | invalidate key =>
    left
    rw [step, invalidate]
    split_ifs
    · change (c.entries.del key).get? k = some e
      rw [Dict.get?_del, if_neg fun hk => hop hk.symm, h]
    · exact h
  | invalidateMatching predicate =>
    left
    change (c.entries.filter fun e => !predicate e.1).get? k = some e
    rw [Dict.get?_filter, h, Option.filter_some, if_pos]
    simpa [Op.Undoes] using hop
  | clear => exact absurd trivial hop

/-- A last put is the last operation, or was one before it and is not undone by it. -/
theorem lastPut_concat {ops : List (Op κ ν)} {op : Op κ ν} {k : κ} {s : ℚ} {value : Option ν} :
    LastPut c (ops ++ [op]) k s value ↔
      op = .put s k value ∨ LastPut c ops k s value ∧ ¬ op.Undoes (run step c ops) k := by
  constructor
  · rintro ⟨pre, mid, heq, hmid⟩
    induction mid using List.reverseRecOn with
    | nil =>
      obtain ⟨-, hop⟩ := List.append_inj' heq rfl
      exact .inl (List.singleton_inj.mp hop)
    | append_singleton mid last _ =>
      rw [← List.cons_append, ← List.append_assoc] at heq
      obtain ⟨rfl, hop⟩ := List.append_inj' heq rfl
      obtain rfl := List.singleton_inj.mp hop
      exact .inr ⟨⟨pre, mid, rfl, fun m op' hm => hmid m op' (hm.trans (List.prefix_append _ _))⟩,
        hmid mid op List.prefix_rfl⟩
  · rintro (rfl | ⟨⟨pre, mid, rfl, hmid⟩, hop⟩)
    · exact ⟨ops, [], rfl, fun m op hm => by simp at hm⟩
    · refine ⟨pre, mid ++ [op], by simp, fun m op' hm => ?_⟩
      rcases List.prefix_concat_iff.mp hm with heq | hm'
      · obtain ⟨rfl, hop'⟩ := List.append_inj' heq rfl
        obtain rfl := List.singleton_inj.mp hop'
        exact hop
      · exact hmid m op' hm'

omit [DecidableEq κ] in
theorem clocks_concat (ops : List (Op κ ν)) (op : Op κ ν) :
    clocks (ops ++ [op]) = clocks ops ++ op.clock?.toList := by
  cases h : op.clock? <;> simp [clocks, h]

/-- Every entry comes from the last put on its key. -/
theorem lastPut_of_get? (hsize : 0 < maxsize) (ops : List (Op κ ν)) {k : κ} {e : ℚ × Option ν}
    (h : (run step (init maxsize ttl) ops).entries.get? k = some e) :
    LastPut (init maxsize ttl) ops k e.1 e.2 := by
  induction ops using List.reverseRecOn with
  | nil => cases h
  | append_singleton ops op ih =>
    rw [run_concat] at h
    have hmax := (within_run ttl hsize ops).maxsize_eq
    rw [lastPut_concat]
    exact (get?_step (hmax.symm ▸ hsize) h).imp_right fun hkept => ⟨ih hkept.1, hkept.2⟩

/-- What the last put on a key stored is there, unless some reading came too late for it. -/
theorem get?_of_lastPut (hsize : 0 < maxsize) (ops : List (Op κ ν)) {k : κ} {s : ℚ}
    {value : Option ν} (h : LastPut (init maxsize ttl) ops k s value) :
    (run step (init maxsize ttl) ops).entries.get? k = some (s, value) ∨
      ∃ now ∈ clocks ops, ttl < now - s := by
  induction ops using List.reverseRecOn with
  | nil =>
    obtain ⟨pre, mid, heq, -⟩ := h
    simp at heq
  | append_singleton ops op ih =>
    obtain ⟨hmax, httl, -⟩ := within_run ttl hsize ops
    have hpos : 0 < (run step (init maxsize ttl : TTLCache κ ν) ops).maxsize := hmax.symm ▸ hsize
    rw [run_concat, clocks_concat]
    rcases lastPut_concat.mp h with rfl | ⟨hlast, hop⟩
    · left
      change (put _ s k value).2.entries.get? k = _
      rw [get?_put hpos, if_pos rfl]
    · rcases ih hlast with hget | ⟨now, hnow, hlate⟩
      · refine (get?_step_of_not_undoes hpos hget hop).imp_right ?_
        rintro ⟨now, hclock, hlate⟩
        exact ⟨now, by simp [hclock], httl ▸ hlate⟩
      · exact .inr ⟨now, List.mem_append_left _ hnow, hlate⟩

/-! ### Accounts -/

/-- A lookup. -/
def Op.isGet : Op κ ν → Bool
  | .get _ _ => true
  | _ => false

/-- One for a put of an absent key. -/
def Op.newKeys (c : TTLCache κ ν) : Op κ ν → ℕ
  | .put _ key _ => if key ∈ c.entries.keys then 0 else 1
  | _ => 0

/-- The number of entries that `clear` removes. -/
def Op.cleared (c : TTLCache κ ν) : Op κ ν → ℕ
  | .clear => c.entries.size
  | _ => 0

/-- One operation turns every new key into an entry, an eviction or a cleared entry. -/
theorem step_conserves (hsize : 0 < c.maxsize) (op : Op κ ν) :
    (step c op).2.entries.size + (step c op).2.stats.evictions + op.cleared c =
      c.entries.size + c.stats.evictions + op.newKeys c := by
  cases op with
  | get now key => exact get_conserves now key
  | put now key value => exact put_conserves hsize now key value
  | invalidate key =>
    rw [step, invalidate]
    split_ifs with hkey
    · have hdel := Dict.size_del_add_one (by simpa [Dict.contains] using hkey)
      simp only [Prod.map_snd, id, Op.cleared, Op.newKeys]
      omega
    · rfl
  | invalidateMatching predicate =>
    have hfilter := Dict.size_filter_add c.entries predicate
    simp only [step, invalidateMatching, Prod.map_snd, id, Op.cleared, Op.newKeys]
    omega
  | clear =>
    have hempty : (∅ : Dict κ (ℚ × Option ν)).size = 0 := rfl
    simp only [step, clear, Op.cleared, Op.newKeys, hempty]
    omega

/-- One operation counts a hit or a miss exactly when it is a lookup. -/
theorem step_lookups (hsize : 0 < c.maxsize) (op : Op κ ν) :
    (step c op).2.stats.hits + (step c op).2.stats.misses =
      c.stats.hits + c.stats.misses + [op].countP Op.isGet := by
  cases op with
  | get now key =>
    have hone : [(Op.get now key : Op κ ν)].countP Op.isGet = 1 := rfl
    rw [hone, step, get]
    split
    · simp only [Prod.map_snd, id]
      omega
    · split_ifs <;> simp only [Prod.map_snd, id] <;> omega
  | put now key value =>
    rcases h : c.evicted key with _ | old
    · rw [step, put_of_evicted_none hsize h]
      rfl
    · rw [step, put_of_evicted h]
      rfl
  | invalidate key =>
    rw [step, invalidate]
    split_ifs <;> rfl
  | invalidateMatching | clear => rfl

/-- Every lookup of a run is a hit or a miss. -/
theorem lookups_run (hsize : 0 < maxsize) (ops : List (Op κ ν)) :
    (run step (init maxsize ttl) ops).stats.hits + (run step (init maxsize ttl) ops).stats.misses =
      ops.countP Op.isGet := by
  induction ops using List.reverseRecOn with
  | nil => rfl
  | append_singleton ops op ih =>
    have hmax := (within_run ttl hsize ops).maxsize_eq
    rw [run_concat, step_lookups (hmax.symm ▸ hsize), ih, List.countP_append]

/-- Every new key of a run is still there, was evicted or was cleared. -/
theorem newKeys_run (hsize : 0 < maxsize) (ops : List (Op κ ν)) :
    total step Op.newKeys (init maxsize ttl) ops =
      (run step (init maxsize ttl) ops).entries.size +
        (run step (init maxsize ttl) ops).stats.evictions +
        total step Op.cleared (init maxsize ttl) ops := by
  have hstep : ∀ (t : TTLCache κ ν) op, Within maxsize ttl t → Within maxsize ttl (step t op).2 :=
    fun _ op h => h.step hsize op
  have hconserved := run_add_total (f := fun c => c.entries.size + c.stats.evictions) hstep
    (fun t op h => step_conserves (h.maxsize_eq.symm ▸ hsize) op) within_init ops
  have hempty : (init maxsize ttl : TTLCache κ ν).entries.size +
      (init maxsize ttl : TTLCache κ ν).stats.evictions = 0 := rfl
  omega

/-- **Runs of a cache.** After any operations, the size is within the limit, a lookup at a time
not before theirs finds exactly what the last put on its key stored at most `ttl` before and nothing
has undone since, a put evicts the oldest entry of a full cache and nothing else, and the counters
account for every lookup and every new key. -/
theorem runs_exact (hsize : 1 ≤ maxsize) (ops : List (Op κ ν)) :
    (run step (init maxsize ttl) ops).entries.size ≤ maxsize ∧
    (∀ now k v, (∀ u ∈ clocks ops, u ≤ now) →
      (((run step (init maxsize ttl) ops).get now k).1 = some v ↔
        ∃ s, LastPut (init maxsize ttl) ops k s (some v) ∧ now - s ≤ ttl)) ∧
    (∀ now key value, EvictsOldest (run step (init maxsize ttl) ops) now key
      ((run step (init maxsize ttl) ops).put now key value).2) ∧
    (run step (init maxsize ttl) ops).stats.hits + (run step (init maxsize ttl) ops).stats.misses =
      ops.countP Op.isGet ∧
    total step Op.newKeys (init maxsize ttl) ops =
      (run step (init maxsize ttl) ops).entries.size +
        (run step (init maxsize ttl) ops).stats.evictions +
        total step Op.cleared (init maxsize ttl) ops := by
  have hwithin := within_run ttl hsize ops
  have hpos : 0 < (run step (init maxsize ttl : TTLCache κ ν) ops).maxsize :=
    hwithin.maxsize_eq.symm ▸ hsize
  refine ⟨hwithin.size_le, fun now k v hnow => ?_, fun now key value => ?_, ?_, ?_⟩
  · rw [get_fst_eq_some_iff, hwithin.ttl_eq]
    constructor
    · rintro ⟨s, hs, hfresh⟩
      exact ⟨s, lastPut_of_get? hsize ops hs, hfresh⟩
    · rintro ⟨s, hlast, hfresh⟩
      rcases get?_of_lastPut hsize ops hlast with hget | ⟨u, hu, hlate⟩
      · exact ⟨s, hget, hfresh⟩
      · -- a reading that came too late for the entry would be later than the lookup
        have := hnow u hu
        linarith
  · exact evictsOldest_put hpos (hwithin.size_le.trans hwithin.maxsize_eq.ge) now key value
  · exact lookups_run hsize ops
  · exact newKeys_run hsize ops

/-- A full cache of one entry that takes in a new key. -/
theorem runs_exact_replaced :
    (run step (init 1 10) [.put 0 "a" (some 1), .get 1 "a", .put 2 "b" (some 2)]).entries.size ≤ 1 ∧
    (∃ s,
      LastPut (init 1 10) [.put 0 "a" (some 1), .get 1 "a", .put 2 "b" (some 2)] "b" s (some 2) ∧
      5 - s ≤ 10) ∧
    (run step (init 1 10) [.put 0 "a" (some 1), .get 1 "a", .put 2 "b" (some 2)]).stats.hits +
      (run step (init 1 10) [.put 0 "a" (some 1), .get 1 "a", .put 2 "b" (some 2)]).stats.misses =
      1 := by
  obtain ⟨hsize, hget, -, hlookups, -⟩ := @runs_exact _ _ _ 1 10 (by decide)
    [.put 0 "a" (some 1), .get 1 "a", .put 2 "b" (some 2)]
  exact ⟨hsize, (hget 5 "b" 2 (by decide +kernel)).mp (by decide +kernel), hlookups⟩

end TTLCache

end TftpOS
