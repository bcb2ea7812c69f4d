import TftpOS.CacheRuns

/-!
# Calls of cached functions

Runs of a function decorated with `ttl_cache` and of its `cache_clear`. The results of the function
may change over time; an evaluation and the put that follows it are one instant, so the function
reads the time at the reading of the put.

A call returns what the function had at most `ttl` before, not before the last clear
(`EvaluatedAt`), and evaluations of one key are more than `ttl` apart unless the entry was cleared
or evicted between them (`calls_fresh`). A cached `None` counts as a value.
-/

namespace TftpOS

open Lib

namespace TTLCache

variable {κ ν : Type} [DecidableEq κ] {c : TTLCache κ ν}

theorem check_eq_some_iff {now : ℚ} {key : κ} {v : Option ν} :
    c.check now key = some v ↔ ∃ s, c.entries.get? key = some (s, v) ∧ now - s ≤ c.ttl := by
  rw [check]
  rcases c.entries.get? key with _ | ⟨timestamp, value⟩
  · simp
  · dsimp only
    constructor
    · intro h
      split_ifs at h with hfresh
      cases h
      exact ⟨timestamp, rfl, hfresh⟩
    · rintro ⟨s, hs, hfresh⟩
      cases hs
      exact if_pos hfresh

/-- What a call can do: answer from an entry that has not expired, raise what the function
raises, or put what the function returns. -/
theorem call_cases (hsize : 0 < c.maxsize) (clock : CacheClock) (f : κ → Except PyExc (Option ν))
    (key : κ) :
    (∃ s v, c.entries.get? key = some (s, v) ∧ clock.onGet - s ≤ c.ttl ∧
      c.call clock f key = (.ok v, false, (c.get clock.onGet key).2)) ∨
    (∀ e, c.entries.get? key = some e →
      c.ttl < clock.onGet - e.1 ∨ c.ttl < clock.onCheck - e.1) ∧
    ((∃ e, f key = .error e ∧
      c.call clock f key = (.error e, true, (c.get clock.onGet key).2)) ∨
    ∃ v, f key = .ok v ∧
      c.call clock f key = (.ok v, true, ((c.get clock.onGet key).2.put clock.onPut key v).2)) := by
  have hmax : 0 < (c.get clock.onGet key).2.maxsize := (get_maxsize clock.onGet key).symm ▸ hsize
  have httl : (c.get clock.onGet key).2.ttl = c.ttl := get_ttl clock.onGet key
  have hkept : ∀ e, (c.get clock.onGet key).2.entries.get? key = some e ↔
      c.entries.get? key = some e ∧ ¬ c.ttl < clock.onGet - e.1 := fun e =>
    get?_get.trans (by simp)
  rcases hget : c.get clock.onGet key with ⟨found, c'⟩
  rw [hget] at hmax httl hkept
  rw [call, hget]
  cases found with
  | some v =>
    obtain ⟨s, hs, hfresh⟩ := get_fst_eq_some_iff.mp (congrArg Prod.fst hget)
    exact .inl ⟨s, some v, hs, hfresh, rfl⟩
  | none =>
    dsimp only at hmax httl hkept ⊢
    rcases hcheck : c'.check clock.onCheck key with _ | v
    · -- there was no entry, or one of the two looks came too late for it
      right
      refine ⟨fun e he => ?_, ?_⟩
      · by_contra hfresh
        rw [not_or, not_lt, not_lt] at hfresh
        have hsome := check_eq_some_iff.mpr
          ⟨e.1, (hkept e).mpr ⟨he, not_lt.mpr hfresh.1⟩, httl.symm ▸ hfresh.2⟩
        rw [hcheck] at hsome
        cases hsome
      · rcases hf : f key with e | v
        · exact .inl ⟨e, rfl, rfl⟩
        · right
          refine ⟨v, rfl, ?_⟩
          have hput := put_fst hmax clock.onPut key v
          dsimp only
          rw [← Prod.mk.eta (p := c'.put clock.onPut key v), hput]
    · obtain ⟨s, hentry, -⟩ := check_eq_some_iff.mp hcheck
      obtain ⟨hs, hfresh⟩ := (hkept _).mp hentry
      exact .inl ⟨s, v, hs, not_lt.mp hfresh, rfl⟩

/-- A call that returns gives what the function has now, or what the cache keeps. -/
theorem call_eq_ok {clock : CacheClock} {f : κ → Except PyExc (Option ν)} {key : κ} {v : Option ν}
    (h : (c.call clock f key).1 = .ok v) :
    f key = .ok v ∨ ∃ s, c.entries.get? key = some (s, v) := by
  rcases hget : c.get clock.onGet key with ⟨found, c'⟩
  rw [call, hget] at h
  cases found with
  | some v' =>
    obtain ⟨s, hs, -⟩ := get_fst_eq_some_iff.mp (congrArg Prod.fst hget)
    cases h
    exact .inr ⟨s, hs⟩
  | none =>
    dsimp only at h
    rcases hcheck : c'.check clock.onCheck key with _ | v'
    · rw [hcheck] at h
      left
      rcases hf : f key with e | v'
      · rw [hf] at h
        cases h
      · rw [hf] at h
        dsimp only at h
        rcases hput : c'.put clock.onPut key v' with ⟨e | u, c''⟩
        · rw [hput] at h
          cases h
        · rw [hput] at h
          exact h
    · rw [hcheck] at h
      cases h
      obtain ⟨s, hs, -⟩ := check_eq_some_iff.mp hcheck
      have hc' : c' = (c.get clock.onGet key).2 := by rw [hget]
      rw [hc'] at hs
      exact .inr ⟨s, (get?_get.mp hs).1⟩

/-- An entry after a call was there before, or is what the call has just put. -/
theorem get?_call (hsize : 0 < c.maxsize) {clock : CacheClock} {f : κ → Except PyExc (Option ν)}
    {key k : κ} {e : ℚ × Option ν} (h : (c.call clock f key).2.2.entries.get? k = some e) :
    c.entries.get? k = some e ∨ k = key ∧ e.1 = clock.onPut ∧ f key = .ok e.2 := by
  have hmax : 0 < (c.get clock.onGet key).2.maxsize := (get_maxsize clock.onGet key).symm ▸ hsize
  rcases call_cases hsize clock f key with ⟨s, v, -, -, heq⟩ | ⟨-, ⟨e', -, heq⟩ | ⟨v, hf, heq⟩⟩
  · rw [heq] at h
    exact .inl (get?_get.mp h).1
  · rw [heq] at h
    exact .inl (get?_get.mp h).1
  · rw [heq, get?_put hmax] at h
    split_ifs at h with hkey
    · obtain rfl := Option.some.inj h
      exact .inr ⟨hkey, rfl, hf⟩
    · exact .inl (get?_get.mp h).1

/-! ### Operations -/

/-- A call of a decorated function, with its clock readings, or a `cache_clear`. -/
inductive CallOp (κ : Type) where
  | call (clock : CacheClock) (key : κ)
  | cacheClear (now : ℚ)

/-- One operation: what a call returns or raises, and whether it evaluated the function. -/
def callStep (f : ℚ → κ → Except PyExc (Option ν)) (c : TTLCache κ ν) :
    CallOp κ → Option (Except PyExc (Option ν) × Bool) × TTLCache κ ν
  | .call clock key =>
    let result := c.call clock (f clock.onPut) key
    (some (result.1, result.2.1), result.2.2)
  | .cacheClear _ => (none, c.clear)

/-- The times of an operation. -/
def CallOp.times : CallOp κ → List ℚ
  | .call clock _ => [clock.onGet, clock.onCheck, clock.onPut]
  | .cacheClear now => [now]

/-- The times of a run. -/
def times (ops : List (CallOp κ)) : List ℚ := ops.flatMap CallOp.times

/-- A call with the key `k` put at the time `s`, and there was no clear after it. -/
def EvaluatedAt (ops : List (CallOp κ)) (k : κ) (s : ℚ) : Prop :=
  ∃ pre clock mid, ops = pre ++ .call clock k :: mid ∧ s = clock.onPut ∧
    ∀ now, .cacheClear now ∉ mid

/-- The call of another key makes room by taking out the entry under `k`. -/
def CallOp.Evicts (f : ℚ → κ → Except PyExc (Option ν)) (c : TTLCache κ ν) (k : κ) :
    CallOp κ → Prop
  | .call clock key => key ≠ k ∧ k ∈ c.entries.keys ∧
      k ∉ (callStep f c (.call clock key)).2.entries.keys
  | .cacheClear _ => False

variable {f : ℚ → κ → Except PyExc (Option ν)} {maxsize : ℕ} {ttl : ℚ}

omit [DecidableEq κ] in
theorem times_append (ops ops' : List (CallOp κ)) : times (ops ++ ops') = times ops ++ times ops' :=
  List.flatMap_append

omit [DecidableEq κ] in
theorem times_concat (ops : List (CallOp κ)) (op : CallOp κ) :
    times (ops ++ [op]) = times ops ++ op.times := by
  rw [times_append, times, times, List.flatMap_singleton]

omit [DecidableEq κ] in
theorem times_mono {ops ops' : List (CallOp κ)} (h : ops <+: ops') : times ops <+: times ops' := by
  obtain ⟨rest, rfl⟩ := h
  exact times_append ops rest ▸ List.prefix_append _ _

omit [DecidableEq κ] in
/-- The three looks of a call at the clock are in order. -/
theorem clock_ordered {clock : CacheClock} {key : κ}
    (h : (CallOp.call clock key).times.Pairwise (· ≤ ·)) :
    clock.onGet ≤ clock.onPut ∧ clock.onCheck ≤ clock.onPut := by
  simp only [CallOp.times, List.pairwise_cons, List.mem_cons, List.not_mem_nil, or_false,
    forall_eq_or_imp, forall_eq] at h
  exact ⟨h.1.2, h.2.1⟩

omit [DecidableEq κ] in
theorem mem_times {ops : List (CallOp κ)} {op : CallOp κ} (hop : op ∈ ops) {u : ℚ}
    (hu : u ∈ op.times) : u ∈ times ops :=
  List.mem_flatMap.mpr ⟨op, hop, hu⟩

/-! ### What the entries are -/

theorem call_limits (hsize : 0 < c.maxsize) (clock : CacheClock)
    (g : κ → Except PyExc (Option ν)) (key : κ) :
    (c.call clock g key).2.2.maxsize = c.maxsize ∧ (c.call clock g key).2.2.ttl = c.ttl := by
  have hmax := get_maxsize (c := c) clock.onGet key
  have httl := get_ttl (c := c) clock.onGet key
  rcases call_cases hsize clock g key with ⟨s, v, -, -, heq⟩ | ⟨-, ⟨e, -, heq⟩ | ⟨v, -, heq⟩⟩
  · rw [heq]
    exact ⟨hmax, httl⟩
  · rw [heq]
    exact ⟨hmax, httl⟩
  · rw [heq]
    dsimp only
    rcases hold : (c.get clock.onGet key).2.evicted key with _ | old
    · rw [put_of_evicted_none (hmax.symm ▸ hsize) hold]
      exact ⟨hmax, httl⟩
    · rw [put_of_evicted hold]
      exact ⟨hmax, httl⟩

theorem limits_run (f : ℚ → κ → Except PyExc (Option ν)) (ttl : ℚ) (hsize : 0 < maxsize)
    (ops : List (CallOp κ)) :
    (run (callStep f) (init maxsize ttl) ops).maxsize = maxsize ∧
      (run (callStep f) (init maxsize ttl) ops).ttl = ttl := by
  induction ops using List.reverseRecOn with
  | nil => exact ⟨rfl, rfl⟩
  | append_singleton ops op ih =>
    obtain ⟨hmax, httl⟩ := ih
    rw [run_concat]
    cases op with
    | call clock key =>
      obtain ⟨hmax', httl'⟩ := call_limits (hmax.symm ▸ hsize) clock (f clock.onPut) key
      exact ⟨hmax'.trans hmax, httl'.trans httl⟩
    | cacheClear now => exact ⟨hmax, httl⟩

omit [DecidableEq κ] in
/-- A further call keeps an evaluation since the last clear. -/
theorem EvaluatedAt.concat {ops : List (CallOp κ)} {k : κ} {s : ℚ} (h : EvaluatedAt ops k s)
    (clock : CacheClock) (key : κ) : EvaluatedAt (ops ++ [.call clock key]) k s := by
  obtain ⟨pre, clock', mid, rfl, hs, hmid⟩ := h
  refine ⟨pre, clock', mid ++ [.call clock key], by simp, hs, fun now => ?_⟩
  simpa using hmid now

/-- Every entry holds what the function had when it was evaluated, after the last clear. -/
theorem evaluatedAt_of_get? (hsize : 0 < maxsize) (ops : List (CallOp κ)) {k : κ}
    {e : ℚ × Option ν} (h : (run (callStep f) (init maxsize ttl) ops).entries.get? k = some e) :
    f e.1 k = .ok e.2 ∧ EvaluatedAt ops k e.1 := by
  induction ops using List.reverseRecOn with
  | nil => cases h
  | append_singleton ops op ih =>
    rw [run_concat] at h
    obtain ⟨hmax, -⟩ := limits_run f ttl hsize ops
    cases op with
    | call clock key =>
      rcases get?_call (hmax.symm ▸ hsize) h with hold | ⟨rfl, he, hf⟩
      · exact ⟨(ih hold).1, (ih hold).2.concat clock key⟩
      · exact ⟨he ▸ hf, ops, clock, [], rfl, he, by simp⟩
    | cacheClear now => cases h

omit [DecidableEq κ] in
/-- An evaluation since the last clear is not before any clear. -/
theorem EvaluatedAt.clear_le {ops : List (CallOp κ)} {k : κ} {s : ℚ} (h : EvaluatedAt ops k s)
    (htimes : (times ops).Pairwise (· ≤ ·)) {u : ℚ} (hu : .cacheClear u ∈ ops) : u ≤ s := by
  obtain ⟨pre, clock, mid, rfl, rfl, hmid⟩ := h
  rw [times_append, List.pairwise_append] at htimes
  rcases List.mem_append.mp hu with hpre | hrest
  · exact htimes.2.2 u (mem_times hpre (List.mem_singleton_self u)) clock.onPut
      (mem_times (List.mem_cons_self ..) (by simp [CallOp.times]))
  · rcases List.mem_cons.mp hrest with hcall | hrest
    · cases hcall
    · exact absurd hrest (hmid u)

omit [DecidableEq κ] in
theorem EvaluatedAt.le {ops : List (CallOp κ)} {k : κ} {s t : ℚ} (h : EvaluatedAt ops k s)
    (ht : ∀ u ∈ times ops, u ≤ t) : s ≤ t := by
  obtain ⟨pre, clock, mid, rfl, rfl, -⟩ := h
  exact ht clock.onPut (mem_times (List.mem_append_right _ (List.mem_cons_self ..))
    (by simp [CallOp.times]))

/-! ### Evaluations of one key -/

/-- From an entry put at the time `s`, operations that neither clear nor evict it leave it there
or come too late for it. -/
theorem entry_or_late (hsize : 0 < c.maxsize) {k : κ} {s : ℚ} {v : Option ν}
    (hentry : c.entries.get? k = some (s, v)) (ops : List (CallOp κ))
    (hops : ∀ pre op, pre ++ [op] <+: ops →
      (∀ u, op ≠ .cacheClear u) ∧ ¬ op.Evicts f (run (callStep f) c pre) k) :
    ((run (callStep f) c ops).entries.get? k = some (s, v) ∧
        (run (callStep f) c ops).maxsize = c.maxsize ∧ (run (callStep f) c ops).ttl = c.ttl) ∨
      ∃ u ∈ times ops, c.ttl < u - s := by
  induction ops using List.reverseRecOn with
  | nil => exact .inl ⟨hentry, rfl, rfl⟩
  | append_singleton ops op ih =>
    rcases ih fun pre op' hpre => hops pre op' (hpre.trans (List.prefix_append _ _)) with
      ⟨hget, hmax, httl⟩ | ⟨u, hu, hlate⟩
    · obtain ⟨hclear, hevict⟩ := hops ops op List.prefix_rfl
      have hsize' := hmax.symm ▸ hsize
      cases op with
      | cacheClear u => exact absurd rfl (hclear u)
      | call clock key =>
        obtain ⟨hmax', httl'⟩ := call_limits hsize' clock (f clock.onPut) key
        rw [run_concat, times_concat]
        by_cases hkey : key = k
        · subst hkey
          rcases call_cases hsize' clock (f clock.onPut) key with
            ⟨s', v', hentry', hfresh, heq⟩ | ⟨hlate, -⟩
          · -- answered from the entry, which the call has not found expired
            left
            rw [hget] at hentry'
            cases hentry'
            refine ⟨?_, hmax'.trans hmax, httl'.trans httl⟩
            rw [callStep, heq]
            exact get?_get.mpr ⟨hget, fun hexpired => absurd hfresh (not_le.mpr hexpired.2)⟩
          · right
            rcases hlate _ hget with h | h
            · exact ⟨clock.onGet, by simp [CallOp.times], httl ▸ h⟩
            · exact ⟨clock.onCheck, by simp [CallOp.times], httl ▸ h⟩
        · -- a call of another key could only evict the entry
          left
          have hmem : k ∈ (run (callStep f) c ops).entries.keys := Dict.mem_keys_iff.mpr ⟨_, hget⟩
          obtain ⟨e, he⟩ := Dict.mem_keys_iff.mp
            (not_not.mp fun hgone => hevict ⟨hkey, hmem, hgone⟩)
          rcases get?_call hsize' he with hold | ⟨rfl, -⟩
          · rw [hget] at hold
            cases hold
            exact ⟨he, hmax'.trans hmax, httl'.trans httl⟩
          · exact absurd rfl hkey
    · right
      exact ⟨u, times_concat ops op ▸ List.mem_append_left _ hu, hlate⟩

/-- What a call answers without evaluating comes from an entry that has not expired, what it
answers otherwise from the function. -/
theorem call_value (hsize : 0 < c.maxsize) {clock : CacheClock} {g : κ → Except PyExc (Option ν)}
    {key : κ} {value : Option ν} {evaluated : Bool}
    (h : some ((c.call clock g key).1, (c.call clock g key).2.1) = some (.ok value, evaluated)) :
    (∃ s, c.entries.get? key = some (s, value) ∧ clock.onGet - s ≤ c.ttl) ∨
      g key = .ok value := by
  rcases call_cases hsize clock g key with ⟨s, v, hs, hfresh, heq⟩ | ⟨-, ⟨e, -, heq⟩ | ⟨v, hg, heq⟩⟩
  · rw [heq] at h
    cases h
    exact .inl ⟨s, hs, hfresh⟩
  · rw [heq] at h
    cases h
  · rw [heq] at h
    cases h
    exact .inr hg

/-- Every call answers: with what the function gives it, or with a value from the cache. -/
theorem call_answers (hsize : 0 < c.maxsize) (clock : CacheClock)
    (g : κ → Except PyExc (Option ν)) (key : κ) :
    ((c.call clock g key).2.1 = true → (c.call clock g key).1 = g key) ∧
      ((c.call clock g key).2.1 = false → ∃ value, (c.call clock g key).1 = .ok value) := by
  rcases call_cases hsize clock g key with ⟨s, v, -, -, heq⟩ | ⟨-, ⟨e, hg, heq⟩ | ⟨v, hg, heq⟩⟩
  · rw [heq]
    exact ⟨fun h => absurd h Bool.false_ne_true, fun _ => ⟨v, rfl⟩⟩
  · rw [heq]
    exact ⟨fun _ => hg.symm, fun h => absurd h.symm Bool.false_ne_true⟩
  · rw [heq]
    exact ⟨fun _ => hg.symm, fun h => absurd h.symm Bool.false_ne_true⟩

/-- A call that evaluates found no entry, or an expired one. -/
theorem call_evaluated (hsize : 0 < c.maxsize) {clock : CacheClock}
    {g : κ → Except PyExc (Option ν)} {key : κ} {answer : Except PyExc (Option ν)}
    (h : some ((c.call clock g key).1, (c.call clock g key).2.1) = some (answer, true)) :
    answer = g key ∧ ((∀ v, g key = .ok v →
      (c.call clock g key).2.2.entries.get? key = some (clock.onPut, v)) ∧
    ∀ e, g key = .error e → (c.call clock g key).2.2 = (c.get clock.onGet key).2) ∧
    ∀ e, c.entries.get? key = some e → c.ttl < clock.onGet - e.1 ∨ c.ttl < clock.onCheck - e.1 := by
  have hmax : 0 < (c.get clock.onGet key).2.maxsize := (get_maxsize clock.onGet key).symm ▸ hsize
  rcases call_cases hsize clock g key with ⟨s, v, -, -, heq⟩ | ⟨hlate, ⟨e, hg, heq⟩ | ⟨v, hg, heq⟩⟩
  · rw [heq] at h
    cases h
  · rw [heq] at h ⊢
    cases h
    exact ⟨hg.symm, ⟨fun v hv => absurd (hg.symm.trans hv) (by simp), fun _ _ => rfl⟩, hlate⟩
  · rw [heq] at h ⊢
    cases h
    refine ⟨hg.symm, ⟨fun v' hv => ?_, fun e he => absurd (hg.symm.trans he) (by simp)⟩, hlate⟩
    rw [hg] at hv
    cases hv
    dsimp only
    rw [get?_put hmax, if_pos rfl]

/-- What a call in a run returns is what the function had at a time at most `ttl` before, after the
last clear. -/
theorem call_fresh (hsize : 1 ≤ maxsize) (httl : 0 ≤ ttl) {pre : List (CallOp κ)}
    {clock : CacheClock} {key : κ} {value : Option ν} {evaluated : Bool}
    (htimes : (times (pre ++ [.call clock key])).Pairwise (· ≤ ·))
    (hcall : (callStep f (run (callStep f) (init maxsize ttl) pre) (.call clock key)).1 =
      some (.ok value, evaluated)) :
    ∃ s t, clock.onGet ≤ t ∧ t ≤ clock.onPut ∧ t - ttl ≤ s ∧ s ≤ t ∧ f s key = .ok value ∧
      EvaluatedAt (pre ++ [.call clock key]) key s ∧ ∀ u, .cacheClear u ∈ pre → u ≤ s := by
  obtain ⟨hmax, httl'⟩ := limits_run f ttl hsize pre
  have hordered := htimes
  rw [times_concat, List.pairwise_append] at hordered
  obtain ⟨hreadings, -⟩ := clock_ordered hordered.2.1
  rcases call_value (hmax.symm ▸ hsize) hcall with ⟨s, hs, hfresh⟩ | hf
  · obtain ⟨hfs, heval⟩ := evaluatedAt_of_get? hsize pre hs
    have hle : s ≤ clock.onGet := heval.le fun u hu =>
      hordered.2.2 u hu clock.onGet (by simp [CallOp.times])
    rw [httl'] at hfresh
    exact ⟨s, clock.onGet, le_rfl, hreadings, by linarith, hle, hfs, heval.concat clock key,
      fun u hu => heval.clear_le hordered.1 hu⟩
  · have heval : EvaluatedAt (pre ++ [.call clock key]) key clock.onPut :=
      ⟨pre, clock, [], rfl, rfl, by simp⟩
    exact ⟨clock.onPut, clock.onPut, hreadings, le_rfl, by linarith, le_rfl, hf, heval,
      fun u hu => heval.clear_le htimes (List.mem_append_left _ hu)⟩

/-- Two evaluations of one key in a run, with neither a clear nor an eviction of the key between
them, are more than `ttl` apart. -/
theorem evaluations_apart (hsize : 1 ≤ maxsize) {pre mid : List (CallOp κ)}
    {clock clock' : CacheClock} {key : κ} {value : Option ν} {answer : Except PyExc (Option ν)}
    (htimes : (times (pre ++ .call clock key :: mid ++ [.call clock' key])).Pairwise (· ≤ ·))
    (hfirst : (callStep f (run (callStep f) (init maxsize ttl) pre) (.call clock key)).1 =
      some (.ok value, true))
    (hsecond : (callStep f (run (callStep f) (init maxsize ttl) (pre ++ .call clock key :: mid))
      (.call clock' key)).1 = some (answer, true))
    (hmid : ∀ m op, m ++ [op] <+: mid → (∀ u, op ≠ .cacheClear u) ∧
      ¬ op.Evicts f (run (callStep f) (init maxsize ttl) (pre ++ .call clock key :: m)) key) :
    ttl < clock'.onPut - clock.onPut := by
  obtain ⟨hmax, httl⟩ := limits_run f ttl hsize (pre ++ [.call clock key])
  have hsize' := hmax.symm ▸ hsize
  -- the first call has left its entry
  obtain ⟨hmax₀, -⟩ := limits_run f ttl hsize pre
  obtain ⟨hvalue, ⟨hentry, -⟩, -⟩ := call_evaluated (hmax₀.symm ▸ hsize) hfirst
  have hput : (run (callStep f) (init maxsize ttl) (pre ++ [.call clock key])).entries.get? key =
      some (clock.onPut, value) := by
    rw [run_concat]
    exact hentry value hvalue.symm
  have hsplit : ∀ m, run (callStep f) (init maxsize ttl) (pre ++ .call clock key :: m) =
      run (callStep f) (run (callStep f) (init maxsize ttl) (pre ++ [.call clock key])) m := by
    intro m
    rw [← run_append, List.append_assoc, List.singleton_append]
  rw [hsplit] at hsecond
  rw [times_concat, List.pairwise_append] at htimes
  obtain ⟨hget, hcheck⟩ := clock_ordered htimes.2.1
  rcases entry_or_late hsize' hput mid fun m op hm => hsplit m ▸ hmid m op hm with
    ⟨hkept, hmax', httl'⟩ | ⟨u, hu, hlate⟩
  · obtain ⟨-, -, hexpired⟩ := call_evaluated (hmax'.symm ▸ hsize') hsecond
    rw [httl', httl] at hexpired
    rcases hexpired _ hkept with hlate | hlate <;> dsimp only at hlate <;> linarith
  · have hbefore := htimes.2.2 u (by
      rw [times_append, List.mem_append]
      exact .inr (List.mem_append_right _ hu)) clock'.onPut (by simp [CallOp.times])
    rw [httl] at hlate
    linarith

/-- When the function raises, the call puts nothing. -/
theorem call_raised (hsize : 1 ≤ maxsize) {pre : List (CallOp κ)} {clock : CacheClock} {key : κ}
    {answer : Except PyExc (Option ν)} {e : PyExc}
    (hcall : (callStep f (run (callStep f) (init maxsize ttl) pre) (.call clock key)).1 =
      some (answer, true)) (hf : f clock.onPut key = .error e) :
    answer = .error e ∧ ∀ k entry,
      (callStep f (run (callStep f) (init maxsize ttl) pre) (.call clock key)).2.entries.get? k =
        some entry →
      (run (callStep f) (init maxsize ttl) pre).entries.get? k = some entry := by
  obtain ⟨hmax, -⟩ := limits_run f ttl hsize pre
  obtain ⟨rfl, ⟨-, hraised⟩, -⟩ := call_evaluated (hmax.symm ▸ hsize) hcall
  refine ⟨hf, fun k entry h => ?_⟩
  rw [callStep, hraised e hf] at h
  exact (get?_get.mp h).1

/-- **Calls of a cached function.** In every run at nondecreasing times, a call returns a value
unless it evaluates the function and that raises; what it returns is what the function had on its
key at a time at most `ttl` before, after the last clear; two evaluations of one key, with neither
a clear nor an eviction of the key between them, are more than `ttl` apart; and when the function
raises, nothing is put. -/
theorem calls_fresh (f : ℚ → κ → Except PyExc (Option ν)) (hsize : 1 ≤ maxsize) (httl : 0 ≤ ttl)
    (ops : List (CallOp κ)) (htimes : (times ops).Pairwise (· ≤ ·)) :
    (∀ pre clock key, ∃ answer evaluated,
      (callStep f (run (callStep f) (init maxsize ttl) pre) (.call clock key)).1 =
        some (answer, evaluated) ∧
      (evaluated = true → answer = f clock.onPut key) ∧
      (evaluated = false → ∃ value, answer = .ok value) ∧
      ∀ v, f clock.onPut key = .ok v → ∃ value, answer = .ok value) ∧
    (∀ pre clock key, pre ++ [.call clock key] <+: ops → ∀ value evaluated,
      (callStep f (run (callStep f) (init maxsize ttl) pre) (.call clock key)).1 =
        some (.ok value, evaluated) →
      ∃ s t, clock.onGet ≤ t ∧ t ≤ clock.onPut ∧ t - ttl ≤ s ∧ s ≤ t ∧ f s key = .ok value ∧
        EvaluatedAt (pre ++ [.call clock key]) key s ∧ ∀ u, .cacheClear u ∈ pre → u ≤ s) ∧
    (∀ pre clock mid clock' key, pre ++ .call clock key :: mid ++ [.call clock' key] <+: ops →
      ∀ value answer,
      (callStep f (run (callStep f) (init maxsize ttl) pre) (.call clock key)).1 =
        some (.ok value, true) →
      (callStep f (run (callStep f) (init maxsize ttl) (pre ++ .call clock key :: mid))
        (.call clock' key)).1 = some (answer, true) →
      (∀ m op, m ++ [op] <+: mid → (∀ u, op ≠ .cacheClear u) ∧
        ¬ op.Evicts f (run (callStep f) (init maxsize ttl) (pre ++ .call clock key :: m)) key) →
      ttl < clock'.onPut - clock.onPut) ∧
    ∀ pre clock key answer e,
      (callStep f (run (callStep f) (init maxsize ttl) pre) (.call clock key)).1 =
        some (answer, true) → f clock.onPut key = .error e →
      answer = .error e ∧ ∀ k entry,
        (callStep f (run (callStep f) (init maxsize ttl) pre) (.call clock key)).2.entries.get? k =
          some entry →
        (run (callStep f) (init maxsize ttl) pre).entries.get? k = some entry := by
  have hbefore : ∀ {ops'}, ops' <+: ops → (times ops').Pairwise (· ≤ ·) :=
    fun h => htimes.sublist (times_mono h).sublist
  refine ⟨?_, ?_, ?_, ?_⟩
  · intro pre clock key
    obtain ⟨hmax, -⟩ := limits_run f ttl hsize pre
    obtain ⟨hgiven, hcached⟩ := call_answers (hmax.symm ▸ hsize) clock (f clock.onPut) key
    refine ⟨_, _, rfl, hgiven, hcached, fun v hv => ?_⟩
    cases hevaluated : ((run (callStep f) (init maxsize ttl) pre).call clock
      (f clock.onPut) key).2.1 with
    | true => exact ⟨v, (hgiven hevaluated).trans hv⟩
    | false => exact hcached hevaluated
  · intro pre clock key hpre value evaluated hcall
    exact call_fresh hsize httl (hbefore hpre) hcall
  · intro pre clock mid clock' key hpre value answer hfirst hsecond hmid
    exact evaluations_apart hsize (hbefore hpre) hfirst hsecond hmid
  · intro pre clock key answer e hcall hf
    exact call_raised hsize hcall hf

/-- What is read of a profile at a time: the time, until the file is gone. -/
private def readUntilGone (t : ℚ) (_ : String) : Except PyExc (Option ℚ) :=
  if t < 20 then .ok (some t) else .error ⟨.fileNotFoundError, "gone"⟩

/-- Calls for one profile at these times. -/
private def webCalls (ts : List ℚ) : List (CallOp String) := ts.map fun t => .call ⟨t, t, t⟩ "web"

/-- A profile that is read, answered from the cache, read again after it has expired and read once
more when its file is gone. -/
theorem calls_fresh_expired :
    let state := fun ts => run (callStep readUntilGone) (init 1 10) (webCalls ts)
    let answer := fun ts t => (callStep readUntilGone (state ts) (.call ⟨t, t, t⟩ "web")).1
    answer [] 0 = some (.ok (some 0), true) ∧
      (answer [0] 1 = some (.ok (some 0), false) ∧
        ∃ s t : ℚ, 1 ≤ t ∧ t ≤ 1 ∧ t - 10 ≤ s ∧ s ≤ t ∧ readUntilGone s "web" = .ok (some 0) ∧
          EvaluatedAt (webCalls [0, 1]) "web" s ∧ ∀ u, .cacheClear u ∈ webCalls [0] → u ≤ s) ∧
      (answer [0, 1] 12 = some (.ok (some 12), true) ∧ (10 : ℚ) < 12 - 0) ∧
      answer [0, 1, 12] 30 = some (.error ⟨.fileNotFoundError, "gone"⟩, true) ∧
      ∀ k entry, (state [0, 1, 12, 30]).entries.get? k = some entry →
        (state [0, 1, 12]).entries.get? k = some entry := by
  intro state answer
  have htimes : (times (webCalls [0, 1, 12, 30])).Pairwise (· ≤ ·) := by decide +kernel
  obtain ⟨-, hfresh, hapart, hraised⟩ := calls_fresh readUntilGone
    (le_refl 1) (show (0 : ℚ) ≤ 10 by decide +kernel) _ htimes
  refine ⟨by decide +kernel, ⟨by decide +kernel, ?_⟩, ⟨by decide +kernel, ?_⟩,
    by decide +kernel, ?_⟩
  · exact hfresh (webCalls [0]) ⟨1, 1, 1⟩ "web" ⟨webCalls [12, 30], rfl⟩ (some 0) false
      (by decide +kernel)
  · refine hapart [] ⟨0, 0, 0⟩ (webCalls [1]) ⟨12, 12, 12⟩ "web" ⟨webCalls [30], rfl⟩ (some 0)
      (.ok (some 12)) (by decide +kernel) (by decide +kernel) fun m op hm => ?_
    obtain ⟨rfl, hop⟩ : m = [] ∧ op = .call ⟨1, 1, 1⟩ "web" := by
      cases m with
      | nil => simpa [webCalls] using hm
      | cons => simp [webCalls] at hm
    rw [hop]
    exact ⟨fun u h => (by cases h), fun h => h.1 rfl⟩
  · exact (hraised (webCalls [0, 1, 12]) ⟨30, 30, 30⟩ "web" (.error ⟨.fileNotFoundError, "gone"⟩)
      ⟨.fileNotFoundError, "gone"⟩ (by decide +kernel) (by decide +kernel)).2

end TTLCache

end TftpOS
