import TftpOS.CachedCalls
import TftpOS.Lib.Interleaving

/-!
# Cached functions called by several threads

Calls of a function decorated with `ttl_cache` that run at the same time. A call takes the lock of
the cache for its `get`, for its second look at the entry and for its `put`, and evaluates the
function without it; other threads may do anything in between.

What a call finds in the cache has been evaluated, and was put there at most `ttl` before and not
dropped since, in every interleaving. That it was also evaluated after the last drop of its key
holds in all that may follow exactly if no call had a value to put at that time
(`calls_fresh_threads`). An evaluation reads what its value depends on at one instant.
-/

namespace TftpOS

open Lib

namespace CachedFunction

variable {κ ν : Type}

/-- Where a thread is. -/
inductive Task (κ ν : Type) where
  | idle
  /-- `get` has found nothing. -/
  | checking (key : κ)
  | evaluating (key : κ)
  /-- The function has returned. -/
  | storing (key : κ) (value : Option ν)

/-- What a thread does next, with its clock reading. -/
inductive Action (κ ν : Type) where
  | call (now : ℚ) (key : κ)
  | check (now : ℚ)
  | evaluate (result : Except PyExc (Option ν))
  | put (now : ℚ)
  | invalidate (key : κ)
  | invalidateMatching (predicate : κ → Bool)
  | cacheClear

/-- What is observed. -/
inductive Event (κ ν : Type) where
  /-- A call returns what it has found in the cache. -/
  | answered (now : ℚ) (key : κ) (value : Option ν)
  | evaluated (key : κ) (value : Option ν)
  /-- A call puts what it has evaluated, and returns it. -/
  | stored (now : ℚ) (key : κ) (value : Option ν)
  /-- The entries of some keys are dropped. -/
  | dropped (predicate : κ → Bool)

/-- What a step shows, and what it leaves. -/
structure Effect (κ ν : Type) where
  events : List (Event κ ν) := []
  cache : TTLCache κ ν
  task : Task κ ν

variable [DecidableEq κ]

/-- The keys whose entries an action drops. -/
def Action.drops : Action κ ν → κ → Bool
  | .invalidate key => fun k => decide (k = key)
  | .invalidateMatching predicate => predicate
  | .cacheClear => fun _ => true
  | _ => fun _ => false

/-- One step of a thread, between two acquisitions of the lock; a step that is not the next one does
nothing. -/
def act (c : TTLCache κ ν) : Task κ ν → Action κ ν → Effect κ ν
  | .idle, .call now key =>
    match c.get now key with
    | (some value, c) => { events := [.answered now key (some value)], cache := c, task := .idle }
    | (none, c) => { cache := c, task := .checking key }
  | .checking key, .check now =>
    match c.check now key with
    | some value => { events := [.answered now key value], cache := c, task := .idle }
    | none => { cache := c, task := .evaluating key }
  | .evaluating key, .evaluate (.ok value) =>
    { events := [.evaluated key value], cache := c, task := .storing key value }
  -- what the function raises leaves the call
  | .evaluating _, .evaluate (.error _) => { cache := c, task := .idle }
  | .storing key value, .put now =>
    match c.put now key value with
    | (.ok (), c) => { events := [.stored now key value], cache := c, task := .idle }
    | (.error _, c) => { cache := c, task := .idle }
  | .idle, .invalidate key =>
    { events := [.dropped fun k => decide (k = key)], cache := (c.invalidate key).2, task := .idle }
  | .idle, .invalidateMatching predicate =>
    { events := [.dropped predicate], cache := (c.invalidateMatching predicate).2, task := .idle }
  | .idle, .cacheClear =>
    { events := [.dropped fun _ => true], cache := c.clear, task := .idle }
  | task, _ => { cache := c, task }

/-- Threads and their cache. -/
abbrev Threads (κ ν : Type) := Clients ℕ (TTLCache κ ν) (Task κ ν)

/-- A decorated function that nobody has called. -/
def start (maxsize : ℕ) (ttl : ℚ) : Threads κ ν := ⟨.init maxsize ttl, fun _ => .idle⟩

def client (c : TTLCache κ ν) (task : Task κ ν) (a : Action κ ν) : TTLCache κ ν × Task κ ν :=
  ((act c task a).cache, (act c task a).task)

def step (s : Threads κ ν) (e : ℕ × Action κ ν) : List (Event κ ν) × Threads κ ν :=
  ((act s.shared (s.locals e.1) e.2).events, (interleave client s e).2)

/-- What is observed in a run. -/
def trace (s : Threads κ ν) (schedule : List (ℕ × Action κ ν)) : List (Event κ ν) :=
  (outputs step s schedule).flatten

/-! ### Freshness -/

/-- The last that is known of a key: a value was evaluated and then put at the time `s`, and no drop
of the key has followed. -/
def Stands (key : κ) (log : List (Event κ ν)) (s : ℚ) (value : Option ν) : Prop :=
  ∃ pre post, log = pre ++ .stored s key value :: post ∧ .evaluated key value ∈ pre ∧
    ∀ p, .dropped p ∈ post → p key = false

/-- Every answer for a key was evaluated, and put at most `ttl` before and not dropped since. -/
def Fresh (ttl : ℚ) (key : κ) (log : List (Event κ ν)) : Prop :=
  ∀ pre now value post, log = pre ++ .answered now key value :: post →
    ∃ s, now - s ≤ ttl ∧ Stands key pre s value

/-- What a step does for a key. -/
structure Follows (c : TTLCache κ ν) (task : Task κ ν) (key : κ) (e : Effect κ ν) : Prop where
  /-- An entry was there and has not been dropped, or has been put. -/
  entry : ∀ s value, e.cache.entries.get? key = some (s, value) →
    (c.entries.get? key = some (s, value) ∧ ∀ p, .dropped p ∈ e.events → p key = false) ∨
      e.events = [.stored s key value] ∧ task = .storing key value
  storing : ∀ value, e.task = .storing key value →
    task = .storing key value ∨ .evaluated key value ∈ e.events
  /-- An answer is an entry that has not expired. -/
  answer : ∀ now value, .answered now key value ∈ e.events →
    e.events = [.answered now key value] ∧
      ∃ s, c.entries.get? key = some (s, value) ∧ now - s ≤ c.ttl

section

variable {c : TTLCache κ ν} {task : Task κ ν} {a : Action κ ν} {key : κ} {maxsize : ℕ} {ttl : ℚ}

/-- A step that does not touch the entries and shows nothing. -/
theorem follows_of_quiet {c' : TTLCache κ ν} {task' : Task κ ν}
    (hentries : ∀ s value, c'.entries.get? key = some (s, value) →
      c.entries.get? key = some (s, value))
    (htask : ∀ value, task' = .storing key value → task = .storing key value) :
    Follows c task key { cache := c', task := task' } where
  entry s value h := .inl ⟨hentries s value h, by simp⟩
  storing value h := .inl (htask value h)
  answer now value h := by simp at h

/-- A step that drops the entries of some keys. -/
theorem follows_of_drop {c' : TTLCache κ ν} {p : κ → Bool}
    (hentries : ∀ s value, c'.entries.get? key = some (s, value) →
      c.entries.get? key = some (s, value) ∧ p key = false) :
    Follows c .idle key { events := [.dropped p], cache := c', task := .idle } where
  entry s value h := by
    obtain ⟨hbefore, hp⟩ := hentries s value h
    refine .inl ⟨hbefore, fun p' hp' => ?_⟩
    simp only [List.mem_singleton, Event.dropped.injEq] at hp'
    rw [hp', hp]
  storing value h := by simp at h
  answer now value h := by simp at h

/-- A step that answers from the cache. -/
theorem follows_of_answer {c' : TTLCache κ ν} {now : ℚ} {key' : κ} {value : Option ν}
    (hentries : ∀ s value, c'.entries.get? key = some (s, value) →
      c.entries.get? key = some (s, value))
    (hfound : ∃ s, c.entries.get? key' = some (s, value) ∧ now - s ≤ c.ttl) :
    Follows c task key
      { events := [.answered now key' value], cache := c', task := .idle } where
  entry s value h := .inl ⟨hentries s value h, by simp⟩
  storing value h := by simp at h
  answer now' value' h := by
    simp only [List.mem_singleton, Event.answered.injEq] at h
    obtain ⟨rfl, rfl, rfl⟩ := h
    exact ⟨rfl, hfound⟩

/-- A drop, as an operation on the cache that undoes the entries of the keys. -/
theorem follows_of_op (op : TTLCache.Op κ ν) (hsize : 0 < c.maxsize) {p : κ → Bool}
    (hput : ∀ now key value, op ≠ .put now key value) (hundoes : p key = true → op.Undoes c key) :
    Follows c .idle key
      { events := [.dropped p], cache := (TTLCache.step c op).2, task := .idle } := by
  refine follows_of_drop fun s value h => ?_
  rcases TTLCache.get?_step hsize h with rfl | ⟨hbefore, hstays⟩
  · exact absurd rfl (hput _ _ _)
  · exact ⟨hbefore, Bool.eq_false_iff.mpr fun hp => hstays (hundoes hp)⟩

theorem follows_call (now : ℚ) (key' : κ) :
    Follows c .idle key (act c .idle (.call now key')) := by
  have hentries : ∀ s value, (c.get now key').2.entries.get? key = some (s, value) →
      c.entries.get? key = some (s, value) := fun s value h => (TTLCache.get?_get.mp h).1
  rw [act]
  rcases hget : c.get now key' with ⟨found, c'⟩
  rw [hget] at hentries
  cases found with
  | none => exact follows_of_quiet hentries (by simp)
  | some value =>
    exact follows_of_answer hentries (TTLCache.get_fst_eq_some_iff.mp (congrArg Prod.fst hget))

theorem follows_check (now : ℚ) (key' : κ) :
    Follows c (.checking key') key (act c (.checking key') (.check now)) := by
  rw [act]
  rcases hcheck : c.check now key' with _ | value
  · exact follows_of_quiet (fun _ _ h => h) (by simp)
  · obtain ⟨s, hs, hfresh⟩ := TTLCache.check_eq_some_iff.mp hcheck
    exact follows_of_answer (fun _ _ h => h) ⟨s, hs, hfresh⟩

theorem follows_evaluate (result : Except PyExc (Option ν)) (key' : κ) :
    Follows c (.evaluating key') key (act c (.evaluating key') (.evaluate result)) := by
  cases result with
  | error e => exact follows_of_quiet (fun _ _ h => h) (by simp)
  | ok value =>
    refine ⟨fun s value' h => .inl ⟨h, by simp [act]⟩, fun value' h => .inr ?_, by simp [act]⟩
    simp only [act, Task.storing.injEq] at h
    obtain ⟨rfl, rfl⟩ := h
    exact List.mem_singleton_self _

theorem act_put (hsize : 0 < c.maxsize) (now : ℚ) (key : κ) (value : Option ν) :
    act c (.storing key value) (.put now) =
      { events := [.stored now key value], cache := (c.put now key value).2, task := .idle } := by
  have hok := TTLCache.put_fst hsize now key value
  rw [act]
  rcases hc' : c.put now key value with ⟨result, c'⟩
  rw [hc'] at hok
  dsimp only at hok
  rw [hok]

theorem follows_put (hsize : 0 < c.maxsize) (now : ℚ) (key' : κ) (value : Option ν) :
    Follows c (.storing key' value) key (act c (.storing key' value) (.put now)) := by
  rw [act_put hsize]
  refine ⟨fun s value' h => ?_, by simp, by simp⟩
  dsimp only at h
  rw [TTLCache.get?_put hsize] at h
  split_ifs at h with hkey
  · obtain ⟨rfl, rfl⟩ := Prod.mk.inj (Option.some.inj h)
    right
    rw [hkey]
    exact ⟨rfl, rfl⟩
  · exact .inl ⟨h, by simp⟩

/-- **One step.** -/
theorem follows_act (hsize : 0 < c.maxsize) (key : κ) (task : Task κ ν) (a : Action κ ν) :
    Follows c task key (act c task a) := by
  -- a step that is not the next one of the thread
  have hself : Follows c task key { cache := c, task } :=
    follows_of_quiet (fun _ _ h => h) fun _ h => h
  cases a with
  | call now key' =>
    cases task with
    | idle => exact follows_call now key'
    | _ => exact hself
  | check now =>
    cases task with
    | checking key' => exact follows_check now key'
    | _ => exact hself
  | evaluate result =>
    cases task with
    | evaluating key' => exact follows_evaluate result key'
    | _ => cases result <;> exact hself
  | put now =>
    cases task with
    | storing key' value => exact follows_put hsize now key' value
    | _ => exact hself
  | invalidate key' =>
    cases task with
    | idle =>
      exact follows_of_op (.invalidate key') hsize (by simp) fun h =>
        (of_decide_eq_true h).symm
    | _ => exact hself
  | invalidateMatching predicate =>
    cases task with
    | idle => exact follows_of_op (.invalidateMatching predicate) hsize (by simp) fun h => h
    | _ => exact hself
  | cacheClear =>
    cases task with
    | idle => exact follows_of_op .clear hsize (by simp) fun _ => trivial
    | _ => exact hself

/-- A step keeps a cache within its limits. -/
theorem within_act (hsize : 0 < maxsize) (h : TTLCache.Within maxsize ttl c) (task : Task κ ν)
    (a : Action κ ν) : TTLCache.Within maxsize ttl (act c task a).cache := by
  have hget : ∀ now key, TTLCache.Within maxsize ttl (c.get now key).2 := fun now key =>
    h.step hsize (.get now key)
  have hput : ∀ now key value, TTLCache.Within maxsize ttl (c.put now key value).2 :=
    fun now key value => h.step hsize (.put now key value)
  cases a with
  | call now key =>
    cases task with
    | idle =>
      have hafter := hget now key
      rw [act]
      rcases hc' : c.get now key with ⟨_ | value, c'⟩
      · rw [hc'] at hafter
        exact hafter
      · rw [hc'] at hafter
        exact hafter
    | _ => exact h
  | check now =>
    cases task with
    | checking key =>
      rw [act]
      rcases c.check now key with _ | value
      · exact h
      · exact h
    | _ => exact h
  | evaluate result =>
    cases task with
    | evaluating key => cases result <;> exact h
    | _ => cases result <;> exact h
  | put now =>
    cases task with
    | storing key value =>
      have hafter := hput now key value
      rw [act]
      rcases hc' : c.put now key value with ⟨_ | _, c'⟩
      · rw [hc'] at hafter
        exact hafter
      · rw [hc'] at hafter
        exact hafter
    | _ => exact h
  | invalidate key =>
    cases task with
    | idle => exact h.step hsize (.invalidate key)
    | _ => exact h
  | invalidateMatching predicate =>
    cases task with
    | idle => exact h.step hsize (.invalidateMatching predicate)
    | _ => exact h
  | cacheClear =>
    cases task with
    | idle => exact h.step hsize .clear
    | _ => exact h

end

/-! ### Runs -/

section

variable {s : Threads κ ν} {maxsize : ℕ} {ttl : ℚ} {key : κ} {log : List (Event κ ν)}

@[simp]
theorem trace_cons (s : Threads κ ν) (e : ℕ × Action κ ν) (schedule : List (ℕ × Action κ ν)) :
    trace s (e :: schedule) =
      (act s.shared (s.locals e.1) e.2).events ++ trace (step s e).2 schedule := rfl

/-- What has happened accounts for the entry of a key, and for the values that calls are about to
put. -/
structure Accounted (maxsize : ℕ) (ttl : ℚ) (key : κ) (log : List (Event κ ν))
    (s : Threads κ ν) : Prop where
  within : TTLCache.Within maxsize ttl s.shared
  entry : ∀ time value, s.shared.entries.get? key = some (time, value) → Stands key log time value
  storing : ∀ i value, s.locals i = .storing key value → .evaluated key value ∈ log

/-- Where there is neither an entry nor a value to put, nothing needs an account. -/
theorem accounted_nil (hwithin : TTLCache.Within maxsize ttl s.shared)
    (hentry : s.shared.entries.get? key = none)
    (hstoring : ∀ i value, s.locals i ≠ .storing key value) :
    Accounted maxsize ttl key [] s where
  within := hwithin
  entry time value h := by
    rw [hentry] at h
    cases h
  storing i value h := absurd h (hstoring i value)

theorem Accounted.step (hsize : 0 < maxsize) (h : Accounted maxsize ttl key log s)
    (e : ℕ × Action κ ν) :
    Accounted maxsize ttl key (log ++ (act s.shared (s.locals e.1) e.2).events) (step s e).2 := by
  have hmax : 0 < s.shared.maxsize := h.within.maxsize_eq.symm ▸ hsize
  have hfollows := follows_act hmax key (s.locals e.1) e.2
  refine ⟨within_act hsize h.within _ _, fun time value hentry => ?_, fun i value hi => ?_⟩
  · rcases hfollows.entry time value hentry with ⟨hbefore, hkept⟩ | ⟨hevents, htask⟩
    · obtain ⟨pre, post, rfl, hevaluated, hdrops⟩ := h.entry time value hbefore
      refine ⟨pre, post ++ (act s.shared (s.locals e.1) e.2).events, by simp, hevaluated, ?_⟩
      intro p hp
      exact (List.mem_append.mp hp).elim (hdrops p) (hkept p)
    · exact ⟨log, [], by rw [hevents], h.storing e.1 value htask, by simp⟩
  · by_cases hself : i = e.1
    · subst hself
      rw [CachedFunction.step, interleave_locals_self] at hi
      rcases hfollows.storing value hi with hbefore | hevaluated
      · exact List.mem_append_left _ (h.storing e.1 value hbefore)
      · exact List.mem_append_right _ hevaluated
    · rw [CachedFunction.step, interleave_locals_of_ne hself] at hi
      exact List.mem_append_left _ (h.storing i value hi)

/-- **Runs** from an accounted state give fresh answers. -/
theorem Accounted.answers (hsize : 0 < maxsize) (h : Accounted maxsize ttl key log s)
    {schedule : List (ℕ × Action κ ν)} {pre post : List (Event κ ν)} {now : ℚ} {value : Option ν}
    (htrace : trace s schedule = pre ++ .answered now key value :: post) :
    ∃ time, now - time ≤ ttl ∧ Stands key (log ++ pre) time value := by
  induction schedule generalizing s log pre with
  | nil => exact absurd htrace (by simp [trace])
  | cons e schedule ih =>
    have hmax : 0 < s.shared.maxsize := h.within.maxsize_eq.symm ▸ hsize
    have hfollows := follows_act hmax key (s.locals e.1) e.2
    have hlater : ∀ {pre'}, trace (CachedFunction.step s e).2 schedule =
        pre' ++ .answered now key value :: post → ∃ time, now - time ≤ ttl ∧
          Stands key (log ++ ((act s.shared (s.locals e.1) e.2).events ++ pre')) time value := by
      intro pre' htrace'
      have hrest := ih (h.step hsize e) htrace'
      rwa [List.append_assoc] at hrest
    rw [trace_cons, List.append_eq_append_iff] at htrace
    rcases htrace with ⟨pre', rfl, htrace'⟩ | ⟨es, hevents, htrace'⟩
    · exact hlater htrace'
    · cases es with
      | nil =>
        rw [List.append_nil] at hevents
        have hrest := @hlater [] htrace'.symm
        rwa [List.append_nil, hevents] at hrest
      | cons e' es =>
        -- the step itself answers, from an entry that was there before
        obtain ⟨rfl, -⟩ := List.cons.inj htrace'
        obtain ⟨hone, time, hentry, hfresh⟩ :=
          hfollows.answer now value (by rw [hevents]; simp)
        rw [hone, eq_comm, List.append_eq_singleton_iff] at hevents
        obtain ⟨rfl, -⟩ | ⟨-, hnil⟩ := hevents
        · rw [List.append_nil]
          exact ⟨time, h.within.ttl_eq ▸ hfresh, h.entry time value hentry⟩
        · cases hnil

theorem Accounted.fresh (hsize : 0 < maxsize) (h : Accounted maxsize ttl key [] s)
    (schedule : List (ℕ × Action κ ν)) : Fresh ttl key (trace s schedule) := by
  intro pre now value post htrace
  exact h.answers hsize htrace

theorem within_threads (ttl : ℚ) (hsize : 0 < maxsize) (schedule : List (ℕ × Action κ ν)) :
    TTLCache.Within maxsize ttl (run step (start maxsize ttl) schedule).shared :=
  run_invariant (P := fun s : Threads κ ν => TTLCache.Within maxsize ttl s.shared)
    (fun _ e (_ : True) h => within_act hsize h _ e.2) TTLCache.within_init fun _ _ => trivial

/-- After its drop a key has no entry. -/
theorem get?_drop (hsize : 0 < s.shared.maxsize) {i : ℕ} (hidle : s.locals i = .idle)
    {a : Action κ ν} (ha : a.drops key = true) :
    (step s (i, a)).2.shared.entries.get? key = none := by
  rw [step, interleave_shared, client, hidle]
  refine Option.eq_none_iff_forall_ne_some.mpr fun ⟨time, value⟩ hentry => ?_
  rcases (follows_act hsize key .idle a).entry time value hentry with ⟨-, hkept⟩ | ⟨-, htask⟩
  · have hdropped : Event.dropped a.drops ∈ (act s.shared .idle a).events := by
      cases a with
      | invalidate key' => exact List.mem_singleton_self _
      | invalidateMatching predicate => exact List.mem_singleton_self _
      | cacheClear => exact List.mem_singleton_self _
      | _ => simp [Action.drops] at ha
    rw [hkept _ hdropped] at ha
    cases ha
  · cases htask

/-- A drop by an idle thread leaves every thread where it is. -/
theorem locals_drop {i : ℕ} (hidle : s.locals i = .idle) {a : Action κ ν}
    (ha : a.drops key = true) (j : ℕ) : (step s (i, a)).2.locals j = s.locals j := by
  by_cases hj : j = i
  · subst hj
    rw [step, interleave_locals_self, client, hidle]
    cases a with
    | invalidate key' => rfl
    | invalidateMatching predicate => rfl
    | cacheClear => rfl
    | _ => simp [Action.drops] at ha
  · rw [step, interleave_locals_of_ne hj]

/-- A call that finds an entry returns it at its first or, for `None`, at its second look. -/
theorem events_call {c : TTLCache κ ν} (httl : 0 ≤ c.ttl) {value : Option ν}
    (hentry : c.entries.get? key = some (0, value)) :
    (act c .idle (.call 0 key)).events ++
      (act (act c .idle (.call 0 key)).cache (act c .idle (.call 0 key)).task (.check 0)).events =
        [.answered 0 key value] := by
  have hkept : (c.get 0 key).2.entries.get? key = some (0, value) :=
    TTLCache.get?_get.mpr ⟨hentry, fun h => by simp [httl.not_gt] at h⟩
  have hgetttl := TTLCache.get_ttl (c := c) 0 key
  rw [act]
  rcases hget : c.get 0 key with ⟨found, c'⟩
  rw [hget] at hkept hgetttl
  cases found with
  | some value' =>
    obtain ⟨_, hvalue, -⟩ := TTLCache.get_fst_eq_some_iff.mp (congrArg Prod.fst hget)
    rw [hentry] at hvalue
    cases hvalue
    rfl
  | none =>
    have hcheck : c'.check 0 key = some value :=
      TTLCache.check_eq_some_iff.mpr ⟨0, hkept, by rw [sub_zero, hgetttl]; exact httl⟩
    dsimp only
    rw [act, hcheck]
    rfl

/-- A thread that puts a value and then calls the function for its key. -/
theorem trace_put_call (hsize : 0 < s.shared.maxsize) (httl : 0 ≤ s.shared.ttl) {j : ℕ}
    {value : Option ν} (hj : s.locals j = .storing key value) :
    trace s [(j, .put 0), (j, .call 0 key), (j, .check 0)] =
      [.stored 0 key value, .answered 0 key value] := by
  have hentry : (s.shared.put 0 key value).2.entries.get? key = some (0, value) := by
    rw [TTLCache.get?_put hsize, if_pos rfl]
  have hlimits : 0 ≤ (s.shared.put 0 key value).2.ttl := by
    rcases h : s.shared.evicted key with _ | old
    · rw [TTLCache.put_of_evicted_none hsize h]
      exact httl
    · rw [TTLCache.put_of_evicted h]
      exact httl
  have hcall := events_call hlimits hentry
  have hshared : (step s (j, .put 0)).2.shared = (s.shared.put 0 key value).2 := by
    rw [step, interleave_shared, client, hj, act_put hsize]
  have hlocal : (step s (j, .put 0)).2.locals j = .idle := by
    rw [step, interleave_locals_self, client, hj, act_put hsize]
  rw [trace_cons, hj, act_put hsize, trace_cons, trace_cons, hshared, hlocal, step]
  dsimp only
  rw [interleave_shared, interleave_locals_self, client, hshared, hlocal, trace, outputs_nil,
    List.flatten_nil, List.append_nil, hcall]
  rfl

end

/-- **Answers are fresh** in every interleaving: each was evaluated, and put at most `ttl` before
and not dropped since. After a drop of a key, all later answers for it have been evaluated after
the drop, whatever follows, exactly if no call had a value for the key to put. -/
theorem calls_fresh_threads (maxsize : ℕ) (ttl : ℚ) (hsize : 0 < maxsize) (httl : 0 ≤ ttl)
    (schedule : List (ℕ × Action κ ν)) :
    (∀ key, Fresh ttl key (trace (start maxsize ttl) schedule)) ∧
      ∀ i a key, (run step (start maxsize ttl) schedule).locals i = .idle → a.drops key = true →
        ((∀ later, Fresh ttl key
            (trace (run step (start maxsize ttl) (schedule ++ [(i, a)])) later)) ↔
          ∀ j value, (run step (start maxsize ttl) schedule).locals j ≠ .storing key value) := by
  constructor
  · intro key
    exact (accounted_nil TTLCache.within_init rfl fun i value h => by cases h).fresh hsize schedule
  · intro i a key hidle ha
    have hwithin := within_threads ttl hsize (schedule ++ [(i, a)])
    have hbefore := within_threads ttl hsize schedule
    rw [run_concat] at hwithin ⊢
    generalize run step (start maxsize ttl) schedule = s at hwithin hbefore hidle ⊢
    have hlocals := locals_drop hidle ha
    constructor
    · intro hfresh j value hj
      have htrace := trace_put_call (hwithin.maxsize_eq.symm ▸ hsize)
        (hwithin.ttl_eq.symm ▸ httl) ((hlocals j).trans hj)
      -- the value was evaluated before the drop
      obtain ⟨time, -, pre, post, hlog, hevaluated, -⟩ :=
        hfresh _ [.stored 0 key value] 0 value [] htrace
      cases pre with
      | nil => cases hevaluated
      | cons e pre => simp at hlog
    · intro hnone later
      refine (accounted_nil hwithin (get?_drop (hbefore.maxsize_eq.symm ▸ hsize) hidle ha)
        fun j value hj => ?_).fresh hsize later
      exact hnone j value ((hlocals j).symm.trans hj)

/-- A thread has loaded a file and not put it yet. -/
private def loading : List (ℕ × Action String String) :=
  [(0, .call 0 "lab.toml"), (0, .check 0), (0, .evaluate (.ok (some "lab")))]

/-- When another thread clears the cache meanwhile, what was loaded before comes back. -/
theorem calls_fresh_threads_loading :
    (0 < 128 ∧ (0 : ℚ) ≤ 300) ∧ ¬ ∀ later, Fresh 300 "lab.toml"
      (trace (run step (start 128 300) (loading ++ [(1, .cacheClear)])) later) := by
  have hthreads := (calls_fresh_threads 128 300 (by decide) (by decide) loading).2 1 .cacheClear
    "lab.toml" rfl rfl
  refine ⟨⟨by decide, by decide⟩, fun h => ?_⟩
  exact hthreads.mp h 0 (some "lab") rfl

end CachedFunction

end TftpOS
