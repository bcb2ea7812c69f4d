import Mathlib.Algebra.Ring.Nat
import Mathlib.Data.List.Perm.Basic
import Mathlib.Data.List.Nodup
import Mathlib.Order.WellFounded
import TftpOS.Lib.Ledger
import TftpOS.Lib.Run

/-!
# Pools of workers

Jobs that are handed to a pool of workers or done by the thread that has them, several at a time.
`Work` says how a job is done, step by step. A `WorkerPool` numbers the jobs as they come, keeps
those that wait for a worker in a queue, and has a thread for each job that is being done; what
the steps do goes into one trace, in the order of the steps, whichever thread makes them.

`WorkerPool.Sound` is what holds after any operations in any order: every job is in one place,
no more than `limit` workers are busy, and what the trace has of a job is what its steps do when
nothing comes between them. As long as a job is left, some thread can go on or a worker can take
a job (`WorkerPool.exists_canTurn`), and with jobs that end the pool comes to rest
(`WorkerPool.length_turns_le`).
-/

namespace Lib

variable {τ π α ρ : Type*}

/-! ### Work -/

/-- How jobs are done: where a job starts, and what a step does and leads to, a place to go on
from or a result. -/
structure Work (τ π α ρ : Type*) where
  start : τ → π
  step : π → List α × (π ⊕ ρ)

namespace Work

variable (w : Work τ π α ρ)

/-- Steps from one place to another, with what they do. -/
inductive Reaches (p : π) : List α → π → Prop
  | refl : Reaches p [] p
  | step {as bs : List α} {q r : π} (h : Reaches p as q) (hstep : w.step q = (bs, .inl r)) :
      Reaches p (as ++ bs) r

/-- Steps from a place to a result, with what they do. -/
inductive Finishes : π → List α → ρ → Prop
  | last {p : π} {as : List α} {r : ρ} (hstep : w.step p = (as, .inr r)) : Finishes p as r
  | more {p q : π} {as bs : List α} {r : ρ} (hstep : w.step p = (as, .inl q))
      (h : Finishes q bs r) : Finishes p (as ++ bs) r

variable {w} {p q : π} {as bs : List α} {r r' : ρ}

theorem Reaches.finishes (h : w.Reaches p as q) (hq : w.Finishes q bs r) :
    w.Finishes p (as ++ bs) r := by
  induction h generalizing bs with
  | refl => exact hq
  | step _ hstep ih =>
    rw [List.append_assoc]
    exact ih (.more hstep hq)

theorem Finishes.unique (h : w.Finishes p as r) (h' : w.Finishes p bs r') : as = bs ∧ r = r' := by
  induction h generalizing bs with
  | last hstep =>
    cases h' with
    | last hstep' =>
      obtain ⟨rfl, hr⟩ := Prod.mk.inj (hstep.symm.trans hstep')
      exact ⟨rfl, Sum.inr.inj hr⟩
    | more hstep' =>
      cases (Prod.mk.inj (hstep.symm.trans hstep')).2
  | more hstep _ ih =>
    cases h' with
    | last hstep' => cases (Prod.mk.inj (hstep.symm.trans hstep')).2
    | more hstep' h' =>
      obtain ⟨rfl, hq⟩ := Prod.mk.inj (hstep.symm.trans hstep')
      obtain rfl := Sum.inl.inj hq
      obtain ⟨rfl, rfl⟩ := ih h'
      exact ⟨rfl, rfl⟩

/-- What is done on the way is the beginning of what is done in all. -/
theorem Reaches.prefix_of_finishes (h : w.Reaches p as q) (hq : ∃ cs s, w.Finishes q cs s)
    (hp : w.Finishes p bs r) : as <+: bs := by
  obtain ⟨cs, s, hs⟩ := hq
  obtain ⟨rfl, -⟩ := (h.finishes hs).unique hp
  exact List.prefix_append as cs

/-- Work whose steps come closer to a result ends. -/
theorem exists_finishes {size : π → ℕ} (hsize : ∀ p as q, w.step p = (as, .inl q) → size q < size p)
    (p : π) : ∃ as r, w.Finishes p as r := by
  induction hn : size p using Nat.strongRecOn generalizing p with
  | _ n ih =>
    rcases hstep : w.step p with ⟨as, q | r⟩
    · obtain ⟨bs, r, h⟩ := ih (size q) (hn ▸ hsize p as q hstep) q rfl
      exact ⟨_, r, .more hstep h⟩
    · exact ⟨as, r, .last hstep⟩

end Work

/-! ### Pools -/

/-- A job and its number. -/
abbrev Ticket (τ : Type*) := τ × ℕ

/-- A thread at a job, with the jobs that it does after it. -/
structure WorkerThread (τ π : Type*) where
  ticket : Ticket τ
  progress : π
  todo : List (Ticket τ)
  /-- Whether the thread is one of the pool's, or that of a caller. -/
  worker : Bool

def WorkerThread.tickets (t : WorkerThread τ π) : List (Ticket τ) := t.ticket :: t.todo

/-- A job that has ended. -/
structure Finished (τ ρ : Type*) where
  ticket : Ticket τ
  result : ρ
  worker : Bool

/-- A pool of workers. -/
structure WorkerPool (τ π α ρ : Type*) where
  /-- How many workers there may be. -/
  limit : ℕ
  /-- The jobs that have come, each numbered by its place. -/
  accepted : List τ := []
  queue : List (Ticket τ) := []
  threads : List (WorkerThread τ π) := []
  /-- What has been done, each time with the number of the job. -/
  trace : List (ℕ × α) := []
  finished : List (Finished τ ρ) := []
  /-- Whether the pool has been shut down. -/
  closed : Bool := false

namespace WorkerPool

variable (w : Work τ π α ρ) (pool : WorkerPool τ π α ρ)

/-- What has been done of the job with a number. -/
def actionsOf (n : ℕ) : List α := trail some n pool.trace

/-- A job is handed to the pool, which refuses it once it is shut down. -/
def submit (job : τ) : Option (WorkerPool τ π α ρ) :=
  if pool.closed then none
  else some { pool with
    accepted := pool.accepted ++ [job]
    queue := pool.queue ++ [(job, pool.accepted.length)] }

/-- A thread from its next jobs on. -/
def threadOf (worker : Bool) : List (Ticket τ) → List (WorkerThread τ π)
  | [] => []
  | ticket :: todo => [⟨ticket, w.start ticket.1, todo, worker⟩]

/-- A caller does jobs itself, one after the other. -/
def call (jobs : List τ) : WorkerPool τ π α ρ :=
  { pool with
    accepted := pool.accepted ++ jobs
    threads := pool.threads ++ threadOf w false (jobs.zipIdx pool.accepted.length) }

def busy : ℕ := pool.threads.countP WorkerThread.worker

/-- A worker that is free takes the oldest job of the queue. -/
def take : WorkerPool τ π α ρ :=
  match pool.queue with
  | [] => pool
  | ticket :: queue =>
    if pool.busy < pool.limit then
      { pool with queue := queue, threads := pool.threads ++ threadOf w true [ticket] }
    else pool

/-- The threads with others in the place of one. -/
def replaceAt {β : Type*} (l : List β) (k : ℕ) (new : List β) : List β :=
  l.take k ++ new ++ l.drop (k + 1)

/-- A thread makes a step, and goes on with its next job after the last one. -/
def advance (k : ℕ) : WorkerPool τ π α ρ :=
  match pool.threads[k]? with
  | none => pool
  | some t =>
    let (actions, next) := w.step t.progress
    let trace := pool.trace ++ actions.map (Prod.mk t.ticket.2)
    match next with
    | .inl progress =>
      { pool with trace, threads := replaceAt pool.threads k [{ t with progress }] }
    | .inr result =>
      { pool with
        trace
        threads := replaceAt pool.threads k (threadOf w t.worker t.todo)
        finished := pool.finished ++ [⟨t.ticket, result, t.worker⟩] }

def shutdown : WorkerPool τ π α ρ := { pool with closed := true }

/-! ### What holds of a pool -/

/-- The jobs that are waiting or being done. -/
def unfinished : List (Ticket τ) := pool.queue ++ pool.threads.flatMap WorkerThread.tickets

/-- The jobs in all places. -/
def tickets : List (Ticket τ) := pool.unfinished ++ pool.finished.map Finished.ticket

/-- What holds of a pool after any operations. -/
structure Sound : Prop where
  /-- Every job is in one place. -/
  tickets : pool.tickets.Perm pool.accepted.zipIdx
  busy : pool.busy ≤ pool.limit
  /-- A thread has done the steps of its job so far. -/
  running : ∀ t ∈ pool.threads,
    w.Reaches (w.start t.ticket.1) (pool.actionsOf t.ticket.2) t.progress
  finished : ∀ f ∈ pool.finished,
    w.Finishes (w.start f.ticket.1) (pool.actionsOf f.ticket.2) f.result
  /-- Nothing has been done of other jobs. -/
  untouched : ∀ n, (∀ t ∈ pool.threads, t.ticket.2 ≠ n) →
    (∀ f ∈ pool.finished, f.ticket.2 ≠ n) → pool.actionsOf n = []

variable {w pool}

theorem exists_split {β : Type*} {l : List β} {k : ℕ} {b : β} (h : l[k]? = some b) (new : List β) :
    ∃ pre post, l = pre ++ b :: post ∧ replaceAt l k new = pre ++ new ++ post := by
  obtain ⟨hk, rfl⟩ := List.getElem?_eq_some_iff.mp h
  exact ⟨l.take k, l.drop (k + 1), by simp, rfl⟩

theorem threadOf_tickets (worker : Bool) (todo : List (Ticket τ)) :
    (threadOf w worker todo).flatMap WorkerThread.tickets = todo := by
  cases todo with
  | nil => rfl
  | cons ticket todo => simp [threadOf, WorkerThread.tickets]

theorem mem_threadOf {worker : Bool} {todo : List (Ticket τ)} {t : WorkerThread τ π}
    (h : t ∈ threadOf w worker todo) :
    t.ticket ∈ todo ∧ t.progress = w.start t.ticket.1 ∧ t.worker = worker := by
  cases todo with
  | nil => cases h
  | cons ticket todo =>
    obtain rfl := List.mem_singleton.mp h
    exact ⟨List.mem_cons_self .., rfl, rfl⟩

/-- A number is that of one job. -/
theorem Sound.number_not_mem (h : pool.Sound w) {x : Ticket τ} {l l' : List (Ticket τ)}
    (hsplit : pool.tickets = l ++ x :: l') : x.2 ∉ (l ++ l').map Prod.snd := by
  have hnodup : (pool.tickets.map Prod.snd).Nodup := by
    rw [(h.tickets.map Prod.snd).nodup_iff, List.zipIdx_map_snd]
    exact List.nodup_range'
  rw [hsplit, List.map_append, List.map_cons, List.nodup_middle, List.nodup_cons] at hnodup
  rw [List.map_append]
  exact hnodup.1

/-- A job is found under its number. -/
theorem Sound.getElem?_accepted (h : pool.Sound w) {x : Ticket τ} (hx : x ∈ pool.tickets) :
    pool.accepted[x.2]? = some x.1 :=
  List.mem_zipIdx_iff_getElem?.mp (h.tickets.mem_iff.mp hx)

theorem Sound.number_lt (h : pool.Sound w) {x : Ticket τ} (hx : x ∈ pool.tickets) :
    x.2 < pool.accepted.length :=
  (List.getElem?_eq_some_iff.mp (h.getElem?_accepted hx)).1

theorem ticket_mem_unfinished {t : WorkerThread τ π} (ht : t ∈ pool.threads) :
    t.ticket ∈ pool.unfinished :=
  List.mem_append_right _ (List.mem_flatMap.mpr ⟨t, ht, List.mem_cons_self ..⟩)

theorem ticket_mem_tickets {f : Finished τ ρ} (hf : f ∈ pool.finished) :
    f.ticket ∈ pool.tickets :=
  List.mem_append_right _ (List.mem_map_of_mem hf)

/-- Nothing has been done of a job that is not among those begun. -/
theorem Sound.actionsOf_eq_nil (h : pool.Sound w) {x : Ticket τ} {l l' : List (Ticket τ)}
    (hsplit : pool.tickets = l ++ x :: l') (hthreads : ∀ t ∈ pool.threads, t.ticket ∈ l ++ l')
    (hfinished : ∀ f ∈ pool.finished, f.ticket ∈ l ++ l') : pool.actionsOf x.2 = [] := by
  have hnot := h.number_not_mem hsplit
  refine h.untouched _ (fun t ht heq => hnot ?_) fun f hf heq => hnot ?_
  · exact heq ▸ List.mem_map_of_mem (hthreads t ht)
  · exact heq ▸ List.mem_map_of_mem (hfinished f hf)

theorem Sound.actionsOf_of_le (h : pool.Sound w) {n : ℕ} (hn : pool.accepted.length ≤ n) :
    pool.actionsOf n = [] := by
  refine h.untouched n (fun t ht heq => ?_) fun f hf heq => ?_
  · have := h.number_lt (List.mem_append_left _ (ticket_mem_unfinished ht))
    omega
  · have := h.number_lt (ticket_mem_tickets hf)
    omega

/-- The pool before any job. -/
theorem sound_new (limit : ℕ) : ({ limit } : WorkerPool τ π α ρ).Sound w where
  tickets := .refl _
  busy := Nat.zero_le _
  running t ht := by cases ht
  finished f hf := by cases hf
  untouched _ _ _ := rfl

theorem Sound.submit (h : pool.Sound w) {job : τ} {pool' : WorkerPool τ π α ρ}
    (hsubmit : pool.submit job = some pool') : pool'.Sound w := by
  rw [WorkerPool.submit] at hsubmit
  split_ifs at hsubmit
  obtain rfl := Option.some.inj hsubmit
  refine ⟨?_, h.busy, h.running, h.finished, h.untouched⟩
  rw [List.zipIdx_append, Nat.zero_add]
  refine .trans ?_ (h.tickets.append_right _)
  simp only [WorkerPool.tickets, unfinished, List.append_assoc]
  refine List.Perm.append_left _ ?_
  rw [← List.append_assoc (List.flatMap _ _)]
  exact List.perm_append_comm

theorem Sound.shutdown (h : pool.Sound w) : pool.shutdown.Sound w :=
  ⟨h.tickets, h.busy, h.running, h.finished, h.untouched⟩

theorem Sound.call (h : pool.Sound w) (jobs : List τ) : (pool.call w jobs).Sound w where
  tickets := by
    rw [WorkerPool.call, List.zipIdx_append, Nat.zero_add]
    refine .trans ?_ (h.tickets.append_right _)
    simp only [WorkerPool.tickets, unfinished, List.flatMap_append, threadOf_tickets,
      List.append_assoc]
    exact (List.perm_append_comm.append_left _).append_left _
  busy := by
    have hcallers : (threadOf w false (jobs.zipIdx pool.accepted.length)).countP
        WorkerThread.worker = 0 := by
      rw [List.countP_eq_zero]
      intro t ht
      rw [(mem_threadOf ht).2.2]
      exact Bool.false_ne_true
    rw [WorkerPool.busy, WorkerPool.call, List.countP_append, hcallers]
    exact h.busy
  running t ht := by
    rcases List.mem_append.mp ht with ht | ht
    · exact h.running t ht
    · obtain ⟨hmem, hstart, -⟩ := mem_threadOf ht
      have hnew : pool.accepted.length ≤ t.ticket.2 :=
        (List.mem_zipIdx hmem).1
      rw [hstart, show (pool.call w jobs).actionsOf t.ticket.2 = [] from h.actionsOf_of_le hnew]
      exact .refl
  finished := h.finished
  untouched n hthreads hfinished :=
    h.untouched n (fun t ht => hthreads t (List.mem_append_left _ ht)) hfinished


/-- A worker takes the oldest job where there is one and a worker is free. -/
theorem take_cases (w : Work τ π α ρ) (pool : WorkerPool τ π α ρ) :
    (pool.take w = pool ∧ (pool.queue = [] ∨ pool.limit ≤ pool.busy)) ∨
      ∃ ticket queue, pool.queue = ticket :: queue ∧ pool.busy < pool.limit ∧
        pool.take w = { pool with
          queue := queue
          threads := pool.threads ++ [⟨ticket, w.start ticket.1, [], true⟩] } := by
  rw [WorkerPool.take]
  rcases hqueue : pool.queue with _ | ⟨ticket, queue⟩
  · exact .inl ⟨rfl, .inl rfl⟩
  · by_cases hbusy : pool.busy < pool.limit
    · exact .inr ⟨ticket, queue, rfl, hbusy, if_pos hbusy⟩
    · exact .inl ⟨if_neg hbusy, .inr (Nat.not_lt.mp hbusy)⟩

theorem Sound.take (h : pool.Sound w) : (pool.take w).Sound w := by
  rcases take_cases w pool with ⟨heq, -⟩ | ⟨ticket, queue, hqueue, hbusy, heq⟩
  · rwa [heq]
  rw [heq]
  have hsplit : pool.tickets = [] ++ ticket ::
      (queue ++ pool.threads.flatMap WorkerThread.tickets ++
        pool.finished.map Finished.ticket) := by
    rw [WorkerPool.tickets, unfinished, hqueue]
    rfl
  constructor
  · refine .trans ?_ h.tickets
    rw [hsplit]
    simp only [WorkerPool.tickets, unfinished, List.flatMap_append, List.append_assoc,
      List.nil_append, List.flatMap_singleton, WorkerThread.tickets, List.singleton_append]
    rw [← List.append_assoc queue, ← List.append_assoc queue]
    exact List.perm_middle
  · rw [WorkerPool.busy, List.countP_append]
    exact hbusy
  · intro t ht
    rcases List.mem_append.mp ht with ht | ht
    · exact h.running t ht
    · obtain rfl := List.mem_singleton.mp ht
      have hnone : pool.actionsOf ticket.2 = [] := by
        refine h.actionsOf_eq_nil hsplit (fun t ht => ?_) fun f hf => ?_
        · refine List.mem_append_right _ (List.mem_append_left _ (List.mem_append_right _ ?_))
          exact List.mem_flatMap.mpr ⟨t, ht, List.mem_cons_self ..⟩
        · exact List.mem_append_right _ (List.mem_append_right _ (List.mem_map_of_mem hf))
      exact hnone ▸ .refl
  · exact h.finished
  · intro n hthreads hfinished
    exact h.untouched n (fun t ht => hthreads t (List.mem_append_left _ ht)) hfinished

/-- What one more step does to what has been done of the jobs. -/
theorem trail_append_actions (trace : List (ℕ × α)) (actions : List α) (m n : ℕ) :
    trail some n (trace ++ actions.map (Prod.mk m)) =
      trail some n trace ++ if m = n then actions else [] := by
  rw [trail_append]
  congr 1
  rw [trail, List.filterMap_map]
  split_ifs with hmn
  · rw [← hmn]
    exact (List.filterMap_congr fun a _ => by simp [markOn]).trans List.filterMap_some
  · exact List.filterMap_eq_nil_iff.mpr fun a _ => by simp [markOn, hmn]

/-- A thread that is there goes on with its job, or ends it. -/
theorem advance_cases (w : Work τ π α ρ) (pool : WorkerPool τ π α ρ) (k : ℕ) :
    (pool.advance w k = pool ∧ pool.threads.length ≤ k) ∨
      ∃ pre t post actions, pool.threads = pre ++ t :: post ∧
        ((∃ q, w.step t.progress = (actions, .inl q) ∧ pool.advance w k = { pool with
            trace := pool.trace ++ actions.map (Prod.mk t.ticket.2)
            threads := pre ++ { t with progress := q } :: post }) ∨
          ∃ r, w.step t.progress = (actions, .inr r) ∧ pool.advance w k = { pool with
            trace := pool.trace ++ actions.map (Prod.mk t.ticket.2)
            threads := pre ++ threadOf w t.worker t.todo ++ post
            finished := pool.finished ++ [⟨t.ticket, r, t.worker⟩] }) := by
  rw [WorkerPool.advance]
  rcases hk : pool.threads[k]? with _ | t
  · exact .inl ⟨rfl, List.getElem?_eq_none_iff.mp hk⟩
  · refine .inr ?_
    rcases hstep : w.step t.progress with ⟨actions, q | r⟩
    · obtain ⟨pre, post, hsplit, hreplace⟩ := exists_split hk [{ t with progress := q }]
      refine ⟨pre, t, post, actions, hsplit, .inl ⟨q, hstep, ?_⟩⟩
      simp only [hstep, hreplace, List.append_assoc, List.singleton_append]
    · obtain ⟨pre, post, hsplit, hreplace⟩ := exists_split hk (threadOf w t.worker t.todo)
      refine ⟨pre, t, post, actions, hsplit, .inr ⟨r, hstep, ?_⟩⟩
      simp only [hstep, hreplace]

section

variable {pre post : List (WorkerThread τ π)} {t : WorkerThread τ π}

/-- The jobs of the other threads, and those that are in other places. -/
theorem tickets_of_split (hthreads : pool.threads = pre ++ t :: post) :
    pool.tickets = (pool.queue ++ pre.flatMap WorkerThread.tickets) ++ t.ticket ::
      (t.todo ++ post.flatMap WorkerThread.tickets ++ pool.finished.map Finished.ticket) := by
  simp [WorkerPool.tickets, unfinished, hthreads, WorkerThread.tickets]

/-- The number of a job that is being done is that of no other. -/
theorem Sound.number_ne (h : pool.Sound w) (hthreads : pool.threads = pre ++ t :: post) :
    (∀ u ∈ pre ++ post, u.ticket.2 ≠ t.ticket.2) ∧ (∀ u ∈ t.todo, u.2 ≠ t.ticket.2) ∧
      ∀ f ∈ pool.finished, f.ticket.2 ≠ t.ticket.2 := by
  have hnot := h.number_not_mem (tickets_of_split hthreads)
  simp only [List.map_append, List.mem_append, not_or] at hnot
  obtain ⟨⟨-, hpre⟩, ⟨htodo, hpost⟩, hfinished⟩ := hnot
  refine ⟨fun u hu heq => ?_, fun u hu heq => htodo (heq ▸ List.mem_map_of_mem hu),
    fun f hf heq => hfinished (heq ▸ List.mem_map_of_mem (List.mem_map_of_mem hf))⟩
  have hself : u.ticket ∈ u.tickets := List.mem_cons_self ..
  rcases List.mem_append.mp hu with hu | hu
  · exact hpre (heq ▸ List.mem_map_of_mem (List.mem_flatMap.mpr ⟨u, hu, hself⟩))
  · exact hpost (heq ▸ List.mem_map_of_mem (List.mem_flatMap.mpr ⟨u, hu, hself⟩))

/-- Nothing has been done of the jobs that a thread does later. -/
theorem Sound.actionsOf_todo (h : pool.Sound w) (hthreads : pool.threads = pre ++ t :: post)
    {x : Ticket τ} (hx : x ∈ t.todo) : pool.actionsOf x.2 = [] := by
  obtain ⟨before, after, htodo⟩ := List.append_of_mem hx
  have hsplit := tickets_of_split hthreads
  rw [htodo] at hsplit
  have hsplit' : pool.tickets =
      (pool.queue ++ pre.flatMap WorkerThread.tickets ++ t.ticket :: before) ++ x ::
        (after ++ post.flatMap WorkerThread.tickets ++ pool.finished.map Finished.ticket) := by
    rw [hsplit]
    simp
  refine h.actionsOf_eq_nil hsplit' (fun u hu => ?_) fun f hf => ?_
  · have hself : u.ticket ∈ u.tickets := List.mem_cons_self ..
    rw [hthreads] at hu
    rcases List.mem_append.mp hu with hu | hu
    · have := List.mem_flatMap.mpr ⟨u, hu, hself⟩
      simp [this]
    · rcases List.mem_cons.mp hu with rfl | hu
      · simp
      · have := List.mem_flatMap.mpr ⟨u, hu, hself⟩
        simp [this]
  · have := List.mem_map_of_mem (f := Finished.ticket) hf
    simp [this]

/-- A step of one thread: other threads, and jobs that have ended, take its place. -/
theorem Sound.replace (h : pool.Sound w) (hthreads : pool.threads = pre ++ t :: post)
    {actions : List α} {new : List (WorkerThread τ π)} {ended : List (Finished τ ρ)}
    (htickets : (new.flatMap WorkerThread.tickets ++ ended.map Finished.ticket).Perm t.tickets)
    (hbusy : new.countP WorkerThread.worker ≤ if t.worker = true then 1 else 0)
    (hnew : ∀ u ∈ new, w.Reaches (w.start u.ticket.1)
      (pool.actionsOf u.ticket.2 ++ if t.ticket.2 = u.ticket.2 then actions else []) u.progress)
    (hended : ∀ f ∈ ended, w.Finishes (w.start f.ticket.1)
      (pool.actionsOf f.ticket.2 ++ if t.ticket.2 = f.ticket.2 then actions else []) f.result)
    (hself : (∃ u ∈ new, u.ticket = t.ticket) ∨ ∃ f ∈ ended, f.ticket = t.ticket) :
    Sound w { pool with
      trace := pool.trace ++ actions.map (Prod.mk t.ticket.2)
      threads := pre ++ new ++ post
      finished := pool.finished ++ ended } := by
  obtain ⟨hothers, -, hbefore⟩ := h.number_ne hthreads
  have hsub : ∀ u ∈ pre ++ post, u ∈ pool.threads := fun u hu =>
    hthreads ▸ List.Sublist.subset (by simp) hu
  constructor
  · refine .trans ?_ h.tickets
    classical
    rw [List.perm_iff_count] at htickets ⊢
    intro x
    have hcount := htickets x
    simp only [WorkerPool.tickets, unfinished, hthreads, List.flatMap_append, List.flatMap_cons,
      List.map_append, List.count_append] at hcount ⊢
    omega
  · have hpool := h.busy
    rw [WorkerPool.busy, hthreads, List.countP_append, List.countP_cons] at hpool
    rw [WorkerPool.busy, List.countP_append, List.countP_append]
    dsimp only
    omega
  · intro u hu
    rw [actionsOf, trail_append_actions]
    simp only [List.mem_append] at hu
    rcases hu with (hu | hu) | hu
    · have hu := List.mem_append_left post hu
      rw [if_neg (hothers u hu).symm, List.append_nil]
      exact h.running u (hsub u hu)
    · exact hnew u hu
    · have hu := List.mem_append_right pre hu
      rw [if_neg (hothers u hu).symm, List.append_nil]
      exact h.running u (hsub u hu)
  · intro f hf
    rw [actionsOf, trail_append_actions]
    rcases List.mem_append.mp hf with hf | hf
    · rw [if_neg (hbefore f hf).symm, List.append_nil]
      exact h.finished f hf
    · exact hended f hf
  · intro n hn hfinished
    have hne : t.ticket.2 ≠ n := by
      rcases hself with ⟨u, hu, heq⟩ | ⟨f, hf, heq⟩
      · exact heq ▸ hn u (List.mem_append_left _ (List.mem_append_right _ hu))
      · exact heq ▸ hfinished f (List.mem_append_right _ hf)
    rw [actionsOf, trail_append_actions, if_neg hne, List.append_nil]
    refine h.untouched n (fun u hu => ?_) fun f hf => hfinished f (List.mem_append_left _ hf)
    rw [hthreads, List.mem_append, List.mem_cons] at hu
    rcases hu with hu | rfl | hu
    · exact hn u (List.mem_append_left _ (List.mem_append_left _ hu))
    · exact hne
    · exact hn u (List.mem_append_right _ hu)

end

theorem Sound.advance (h : pool.Sound w) (k : ℕ) : (pool.advance w k).Sound w := by
  rcases advance_cases w pool k with ⟨heq, -⟩ | ⟨pre, t, post, actions, hthreads, hcases⟩
  · rwa [heq]
  have hrunning := h.running t (hthreads ▸ List.mem_append_right _ (List.mem_cons_self ..))
  rcases hcases with ⟨q, hstep, heq⟩ | ⟨r, hstep, heq⟩
  · -- the thread goes on with its job
    have hnew : ∀ u ∈ [({ t with progress := q } : WorkerThread τ π)],
        w.Reaches (w.start u.ticket.1)
          (pool.actionsOf u.ticket.2 ++ if t.ticket.2 = u.ticket.2 then actions else [])
          u.progress := by
      intro u hu
      obtain rfl := List.mem_singleton.mp hu
      rw [if_pos rfl]
      exact hrunning.step hstep
    have hended : ∀ f ∈ ([] : List (Finished τ ρ)), w.Finishes (w.start f.ticket.1)
        (pool.actionsOf f.ticket.2 ++ if t.ticket.2 = f.ticket.2 then actions else [])
        f.result := fun f hf => by cases hf
    have hsound := h.replace hthreads (by simp [WorkerThread.tickets])
      (by rw [List.countP_singleton]) hnew hended (.inl ⟨_, List.mem_singleton_self _, rfl⟩)
    rw [List.append_nil, List.append_assoc, List.singleton_append] at hsound
    rwa [heq]
  · -- the job has ended, and the thread goes on with its next one
    rw [heq]
    refine h.replace hthreads ?_ ?_ (fun u hu => ?_) (fun f hf => ?_)
      (.inr ⟨_, List.mem_singleton_self _, rfl⟩)
    · rw [threadOf_tickets]
      exact List.perm_append_singleton _ _
    · cases t.todo with
      | nil => exact Nat.zero_le _
      | cons x todo => rw [threadOf, List.countP_singleton]
    · obtain ⟨hu, hstart, -⟩ := mem_threadOf hu
      rw [if_neg ((h.number_ne hthreads).2.1 _ hu).symm, List.append_nil, hstart,
        h.actionsOf_todo hthreads hu]
      exact .refl
    · obtain rfl := List.mem_singleton.mp hf
      rw [if_pos rfl]
      exact hrunning.finishes (.last hstep)

/-- What has been done of a job is the beginning of what its steps do one after the other, and is
all of it once the job has ended. -/
theorem Sound.prefix_of_finishes (h : pool.Sound w) (hends : ∀ p, ∃ as r, w.Finishes p as r)
    {n : ℕ} {job : τ} (hjob : pool.accepted[n]? = some job) {as : List α} {r : ρ}
    (hw : w.Finishes (w.start job) as r) :
    pool.actionsOf n <+: as ∧
      ∀ f ∈ pool.finished, f.ticket.2 = n → pool.actionsOf n = as ∧ f.result = r := by
  have hfinished : ∀ f ∈ pool.finished, f.ticket.2 = n →
      pool.actionsOf n = as ∧ f.result = r := by
    rintro f hf rfl
    have hfound := h.getElem?_accepted (ticket_mem_tickets hf)
    obtain rfl := Option.some.inj (hjob.symm.trans hfound)
    exact (h.finished f hf).unique hw
  refine ⟨?_, hfinished⟩
  by_cases hthread : ∃ t ∈ pool.threads, t.ticket.2 = n
  · obtain ⟨t, ht, rfl⟩ := hthread
    have hfound := h.getElem?_accepted (List.mem_append_left _ (ticket_mem_unfinished ht))
    obtain rfl := Option.some.inj (hjob.symm.trans hfound)
    exact (h.running t ht).prefix_of_finishes (hends _) hw
  by_cases hend : ∃ f ∈ pool.finished, f.ticket.2 = n
  · obtain ⟨f, hf, heq⟩ := hend
    exact (hfinished f hf heq).1 ▸ List.prefix_rfl
  · rw [h.untouched n (fun t ht heq => hthread ⟨t, ht, heq⟩) fun f hf heq => hend ⟨f, hf, heq⟩]
    exact List.nil_prefix

/-! ### The order of the jobs -/

/-- How many jobs of the pool with a smaller number have not ended. -/
def ahead (pool : WorkerPool τ π α ρ) (n : ℕ) : ℕ :=
  pool.queue.countP (fun x => x.2 < n) +
    pool.threads.countP fun t => t.worker && decide (t.ticket.2 < n)

/-- The workers take the jobs in their order. -/
structure Ordered (pool : WorkerPool τ π α ρ) : Prop where
  queue : pool.queue.Pairwise fun x y => x.2 < y.2
  below : ∀ x ∈ pool.queue, x.2 < pool.accepted.length
  workers : ∀ t ∈ pool.threads, t.worker = true →
    t.todo = [] ∧ ∀ x ∈ pool.queue, t.ticket.2 < x.2
  finished : ∀ f ∈ pool.finished, f.worker = true →
    (∀ x ∈ pool.queue, f.ticket.2 < x.2) ∧ pool.ahead f.ticket.2 < pool.limit

theorem ordered_new (limit : ℕ) : ({ limit } : WorkerPool τ π α ρ).Ordered where
  queue := .nil
  below x hx := by cases hx
  workers t ht := by cases ht
  finished f hf := by cases hf

theorem Ordered.shutdown (h : pool.Ordered) : pool.shutdown.Ordered :=
  ⟨h.queue, h.below, h.workers, h.finished⟩

theorem countP_before_le (threads : List (WorkerThread τ π)) (n : ℕ) :
    threads.countP (fun t => t.worker && decide (t.ticket.2 < n)) ≤
      threads.countP WorkerThread.worker :=
  List.countP_mono_left fun _ _ ht => (Bool.and_eq_true _ _ ▸ ht).1

/-- The queue has no job that is ahead of one with a smaller number. -/
theorem queue_countP_eq_zero {queue : List (Ticket τ)} {n : ℕ} (h : ∀ x ∈ queue, n < x.2) :
    queue.countP (fun x => x.2 < n) = 0 := by
  rw [List.countP_eq_zero]
  intro x hx
  have := h x hx
  simp only [decide_eq_true_eq]
  omega

theorem Ordered.submit (hsound : pool.Sound w) (h : pool.Ordered) {job : τ}
    {pool' : WorkerPool τ π α ρ} (hsubmit : pool.submit job = some pool') : pool'.Ordered := by
  rw [WorkerPool.submit] at hsubmit
  split_ifs at hsubmit
  obtain rfl := Option.some.inj hsubmit
  have hlast : ∀ {x : Ticket τ}, x ∈ pool.tickets →
      ∀ y ∈ pool.queue ++ [(job, pool.accepted.length)], y ∈ pool.queue ∨ x.2 < y.2 := by
    intro x hx y hy
    rcases List.mem_append.mp hy with hy | hy
    · exact .inl hy
    · obtain rfl := List.mem_singleton.mp hy
      exact .inr (hsound.number_lt hx)
  constructor
  · refine List.pairwise_append.mpr ⟨h.queue, List.pairwise_singleton _ _, fun x hx y hy => ?_⟩
    obtain rfl := List.mem_singleton.mp hy
    exact h.below x hx
  · intro x hx
    rw [List.length_append, List.length_singleton]
    rcases List.mem_append.mp hx with hx | hx
    · exact (h.below x hx).trans (Nat.lt_succ_self _)
    · obtain rfl := List.mem_singleton.mp hx
      exact Nat.lt_succ_self _
  · intro t ht hworker
    obtain ⟨htodo, hbefore⟩ := h.workers t ht hworker
    refine ⟨htodo, fun x hx => ?_⟩
    exact (hlast (List.mem_append_left _ (ticket_mem_unfinished ht)) x hx).elim (hbefore x) id
  · intro f hf hworker
    obtain ⟨hbefore, hahead⟩ := h.finished f hf hworker
    have hnew : ∀ x ∈ pool.queue ++ [(job, pool.accepted.length)], f.ticket.2 < x.2 :=
      fun x hx => (hlast (ticket_mem_tickets hf) x hx).elim (hbefore x) id
    refine ⟨hnew, ?_⟩
    rw [ahead, queue_countP_eq_zero hbefore] at hahead
    rw [ahead, queue_countP_eq_zero hnew]
    exact hahead

theorem Ordered.call (h : pool.Ordered) (jobs : List τ) : (pool.call w jobs).Ordered where
  queue := h.queue
  below x hx := by
    refine (h.below x hx).trans_le ?_
    rw [WorkerPool.call, List.length_append]
    exact Nat.le_add_right _ _
  workers t ht hworker := by
    rcases List.mem_append.mp ht with ht | ht
    · exact h.workers t ht hworker
    · rw [(mem_threadOf ht).2.2] at hworker
      cases hworker
  finished f hf hworker := by
    obtain ⟨hbefore, hahead⟩ := h.finished f hf hworker
    refine ⟨hbefore, ?_⟩
    have hcallers : (threadOf w false (jobs.zipIdx pool.accepted.length)).countP
        (fun t => t.worker && decide (t.ticket.2 < f.ticket.2)) = 0 := by
      rw [List.countP_eq_zero]
      intro t ht
      rw [(mem_threadOf ht).2.2]
      exact Bool.false_ne_true
    rw [ahead, WorkerPool.call, List.countP_append, hcallers]
    exact hahead

theorem Ordered.take (h : pool.Ordered) : (pool.take w).Ordered := by
  rcases take_cases w pool with ⟨heq, -⟩ | ⟨ticket, queue, hqueue, -, heq⟩
  · rwa [heq]
  rw [heq]
  have hpairwise := h.queue
  rw [hqueue, List.pairwise_cons] at hpairwise
  have hmem : ∀ x ∈ queue, x ∈ pool.queue := fun x hx => hqueue ▸ List.mem_cons_of_mem _ hx
  constructor
  · exact hpairwise.2
  · exact fun x hx => h.below x (hmem x hx)
  · intro t ht hworker
    rcases List.mem_append.mp ht with ht | ht
    · obtain ⟨htodo, hbefore⟩ := h.workers t ht hworker
      exact ⟨htodo, fun x hx => hbefore x (hmem x hx)⟩
    · obtain rfl := List.mem_singleton.mp ht
      exact ⟨rfl, hpairwise.1⟩
  · intro f hf hworker
    obtain ⟨hbefore, hahead⟩ := h.finished f hf hworker
    have hlater : f.ticket.2 < ticket.2 := hbefore ticket (hqueue ▸ List.mem_cons_self ..)
    have hrest : ∀ x ∈ queue, f.ticket.2 < x.2 := fun x hx => hbefore x (hmem x hx)
    refine ⟨hrest, ?_⟩
    rw [ahead, queue_countP_eq_zero hbefore] at hahead
    have hnot : ¬ ticket.2 < f.ticket.2 := by omega
    rw [ahead, queue_countP_eq_zero hrest, List.countP_append, List.countP_singleton]
    simpa [hnot] using hahead

theorem Ordered.advance (hsound : pool.Sound w) (h : pool.Ordered) (k : ℕ) :
    (pool.advance w k).Ordered := by
  rcases advance_cases w pool k with ⟨heq, -⟩ | ⟨pre, t, post, actions, hthreads, hcases⟩
  · rwa [heq]
  have ht : t ∈ pool.threads := hthreads ▸ List.mem_append_right _ (List.mem_cons_self ..)
  have hsub : ∀ u, u ∈ pre ∨ u ∈ post → u ∈ pool.threads := by
    intro u hu
    rw [hthreads, List.mem_append, List.mem_cons]
    exact hu.imp id .inr
  rcases hcases with ⟨q, hstep, heq⟩ | ⟨r, hstep, heq⟩
  · -- the same jobs are in the same places
    rw [heq]
    refine ⟨h.queue, h.below, fun u hu hworker => ?_, fun f hf hworker => ?_⟩
    · simp only [List.mem_append, List.mem_cons] at hu
      rcases hu with hu | rfl | hu
      · exact h.workers u (hsub u (.inl hu)) hworker
      · exact h.workers t ht hworker
      · exact h.workers u (hsub u (.inr hu)) hworker
    · obtain ⟨hbefore, hahead⟩ := h.finished f hf hworker
      refine ⟨hbefore, ?_⟩
      rw [ahead, hthreads, List.countP_append, List.countP_cons] at hahead
      rw [ahead, List.countP_append, List.countP_cons]
      exact hahead
  · -- one job has ended, and no worker has begun another one
    rw [heq]
    have hnone : ∀ n, (threadOf w t.worker t.todo).countP
        (fun u => u.worker && decide (u.ticket.2 < n)) = 0 := by
      intro n
      rw [List.countP_eq_zero]
      intro u hu hcount
      obtain ⟨hu, -, hworker⟩ := mem_threadOf hu
      rw [hworker, Bool.and_eq_true] at hcount
      rw [(h.workers t ht hcount.1).1] at hu
      cases hu
    refine ⟨h.queue, h.below, fun u hu hworker => ?_, fun f hf hworker => ?_⟩
    · simp only [List.mem_append] at hu
      rcases hu with (hu | hu) | hu
      · exact h.workers u (hsub u (.inl hu)) hworker
      · obtain ⟨hu, -, hsame⟩ := mem_threadOf hu
        rw [(h.workers t ht (hsame ▸ hworker)).1] at hu
        cases hu
      · exact h.workers u (hsub u (.inr hu)) hworker
    · rcases List.mem_append.mp hf with hf | hf
      · obtain ⟨hbefore, hahead⟩ := h.finished f hf hworker
        refine ⟨hbefore, ?_⟩
        rw [ahead, hthreads, List.countP_append, List.countP_cons] at hahead
        rw [ahead, List.countP_append, List.countP_append, hnone]
        dsimp only
        omega
      · -- the workers that are busy with jobs before it are not the one that has ended it
        obtain rfl := List.mem_singleton.mp hf
        have hbefore := (h.workers t ht hworker).2
        refine ⟨hbefore, ?_⟩
        have hbusy := hsound.busy
        rw [WorkerPool.busy, hthreads, List.countP_append, List.countP_cons,
          if_pos hworker] at hbusy
        have hpre := countP_before_le pre t.ticket.2
        have hpost := countP_before_le post t.ticket.2
        rw [ahead, queue_countP_eq_zero hbefore, List.countP_append, List.countP_append, hnone]
        dsimp only
        omega

/-- A job that a worker has begun has fewer than `limit` jobs of the pool ahead of it. -/
theorem Ordered.ahead_lt (hsound : pool.Sound w) (h : pool.Ordered) {t : WorkerThread τ π}
    (ht : t ∈ pool.threads) (hworker : t.worker = true) : pool.ahead t.ticket.2 < pool.limit := by
  obtain ⟨pre, post, hthreads⟩ := List.append_of_mem ht
  have hbusy := hsound.busy
  rw [WorkerPool.busy, hthreads, List.countP_append, List.countP_cons, if_pos hworker] at hbusy
  have hself : ¬ (t.worker && decide (t.ticket.2 < t.ticket.2)) = true := by simp
  have hpre := countP_before_le pre t.ticket.2
  have hpost := countP_before_le post t.ticket.2
  rw [ahead, queue_countP_eq_zero (h.workers t ht hworker).2, hthreads, List.countP_append,
    List.countP_cons, if_neg hself]
  omega

/-- All jobs are done by workers. -/
structure Pooled (pool : WorkerPool τ π α ρ) : Prop where
  threads : ∀ t ∈ pool.threads, t.worker = true
  finished : ∀ f ∈ pool.finished, f.worker = true

theorem pooled_new (limit : ℕ) : ({ limit } : WorkerPool τ π α ρ).Pooled where
  threads t ht := by cases ht
  finished f hf := by cases hf

theorem Pooled.submit (h : pool.Pooled) {job : τ} {pool' : WorkerPool τ π α ρ}
    (hsubmit : pool.submit job = some pool') : pool'.Pooled := by
  rw [WorkerPool.submit] at hsubmit
  split_ifs at hsubmit
  obtain rfl := Option.some.inj hsubmit
  exact ⟨h.threads, h.finished⟩

theorem Pooled.take (h : pool.Pooled) : (pool.take w).Pooled := by
  rcases take_cases w pool with ⟨heq, -⟩ | ⟨ticket, queue, -, -, heq⟩
  · rwa [heq]
  rw [heq]
  refine ⟨fun t ht => ?_, h.finished⟩
  rcases List.mem_append.mp ht with ht | ht
  · exact h.threads t ht
  · obtain rfl := List.mem_singleton.mp ht
    rfl

theorem Pooled.advance (h : pool.Pooled) (k : ℕ) : (pool.advance w k).Pooled := by
  rcases advance_cases w pool k with ⟨heq, -⟩ | ⟨pre, t, post, actions, hthreads, hcases⟩
  · rwa [heq]
  have hbefore := h.threads
  simp only [hthreads, List.mem_append, List.mem_cons] at hbefore
  have hworker := hbefore t (.inr (.inl rfl))
  rcases hcases with ⟨q, -, heq⟩ | ⟨r, -, heq⟩
  · rw [heq]
    refine ⟨fun u hu => ?_, h.finished⟩
    simp only [List.mem_append, List.mem_cons] at hu
    rcases hu with hu | rfl | hu
    · exact hbefore u (.inl hu)
    · exact hworker
    · exact hbefore u (.inr (.inr hu))
  · rw [heq]
    refine ⟨fun u hu => ?_, fun f hf => ?_⟩
    · simp only [List.mem_append] at hu
      rcases hu with (hu | hu) | hu
      · exact hbefore u (.inl hu)
      · exact (mem_threadOf hu).2.2.trans hworker
      · exact hbefore u (.inr (.inr hu))
    · rcases List.mem_append.mp hf with hf | hf
      · exact h.finished f hf
      · obtain rfl := List.mem_singleton.mp hf
        exact hworker

/-- Where all jobs are done by workers and none is ahead of one, the jobs before it have ended. -/
theorem Pooled.finished_of_ahead (h : pool.Pooled) (hsound : pool.Sound w) (hordered : pool.Ordered)
    {n : ℕ} (hn : pool.ahead n = 0) {m : ℕ} (hm : m < n) {job : τ}
    (hjob : pool.accepted[m]? = some job) : ∃ f ∈ pool.finished, f.ticket = (job, m) := by
  have hticket : (job, m) ∈ pool.tickets :=
    hsound.tickets.mem_iff.mpr (List.mem_zipIdx_iff_getElem?.mpr hjob)
  rw [ahead, Nat.add_eq_zero_iff, List.countP_eq_zero, List.countP_eq_zero] at hn
  rcases List.mem_append.mp hticket with hmem | hmem
  · rcases List.mem_append.mp hmem with hmem | hmem
    · exact absurd (decide_eq_true hm) (hn.1 _ hmem)
    · obtain ⟨t, ht, hmem⟩ := List.mem_flatMap.mp hmem
      have hworker := h.threads t ht
      rw [WorkerThread.tickets, (hordered.workers t ht hworker).1, List.mem_singleton] at hmem
      refine absurd ?_ (hn.2 t ht)
      rw [hworker, ← hmem]
      exact decide_eq_true hm
  · obtain ⟨f, hf, heq⟩ := List.mem_map.mp hmem
    exact ⟨f, hf, heq⟩

/-! ### Coming to rest -/

/-- What moves a pool on: a worker takes a job, or a thread makes a step. -/
inductive Turn where
  | take
  | advance (k : ℕ)

def turn (w : Work τ π α ρ) (pool : WorkerPool τ π α ρ) : Turn → WorkerPool τ π α ρ
  | .take => pool.take w
  | .advance k => pool.advance w k

/-- A worker and a job are there, or a thread. -/
def CanTurn (pool : WorkerPool τ π α ρ) : Turn → Prop
  | .take => pool.queue ≠ [] ∧ pool.busy < pool.limit
  | .advance k => k < pool.threads.length

/-- No job is left. -/
def Idle (pool : WorkerPool τ π α ρ) : Prop := pool.queue = [] ∧ pool.threads = []

/-- As long as a job is left, the pool can go on. -/
theorem exists_canTurn (hlimit : 0 < pool.limit) (hidle : ¬ pool.Idle) :
    ∃ t, pool.CanTurn t := by
  by_cases hthreads : pool.threads = []
  · refine ⟨.take, fun hqueue => hidle ⟨hqueue, hthreads⟩, ?_⟩
    rwa [WorkerPool.busy, hthreads, List.countP_nil]
  · exact ⟨.advance 0, List.length_pos_iff.mpr hthreads⟩

section

variable (w) (size : π → ℕ)

/-- The turns that a thread can still take, at most. -/
def threadLeft (t : WorkerThread τ π) : ℕ :=
  size t.progress + 1 + (t.todo.map fun x => size (w.start x.1) + 1).sum

/-- The turns that a pool can still take, at most. -/
def left (pool : WorkerPool τ π α ρ) : ℕ :=
  (pool.queue.map fun x => size (w.start x.1) + 2).sum +
    (pool.threads.map (threadLeft w size)).sum

end

variable {size : π → ℕ}

theorem left_turn_lt (hsize : ∀ p as q, w.step p = (as, .inl q) → size q < size p) {t : Turn}
    (hcan : pool.CanTurn t) : (pool.turn w t).left w size < pool.left w size := by
  cases t with
  | take =>
    obtain ⟨hne, hbusy⟩ := hcan
    rcases take_cases w pool with ⟨-, hstuck⟩ | ⟨ticket, queue, hqueue, -, heq⟩
    · exact absurd hstuck (not_or.mpr ⟨hne, Nat.not_le.mpr hbusy⟩)
    · rw [turn, heq, left, left, hqueue]
      simp only [List.map_cons, List.sum_cons, List.map_append, List.sum_append, threadLeft,
        List.map_nil, List.sum_nil]
      omega
  | advance k =>
    rcases advance_cases w pool k with ⟨-, hle⟩ | ⟨pre, u, post, actions, hthreads, hcases⟩
    · exact absurd hcan (Nat.not_lt.mpr hle)
    rcases hcases with ⟨q, hstep, heq⟩ | ⟨r, hstep, heq⟩
    · have hlt := hsize _ _ _ hstep
      rw [turn, heq, left, left, hthreads]
      simp only [List.map_cons, List.sum_cons, List.map_append, List.sum_append, threadLeft]
      omega
    · have hnext : ((threadOf w u.worker u.todo).map (threadLeft w size)).sum =
          (u.todo.map fun x => size (w.start x.1) + 1).sum := by
        cases u.todo with
        | nil => rfl
        | cons x todo => simp [threadOf, threadLeft]
      rw [turn, heq, left, left, hthreads]
      simp only [List.map_cons, List.sum_cons, List.map_append, List.sum_append, hnext]
      rw [threadLeft]
      omega

/-- **Coming to rest**: only so many turns can be taken, and where none can be taken any more, no
job is left. -/
theorem length_turns_le (hsize : ∀ p as q, w.step p = (as, .inl q) → size q < size p)
    {turns : List Turn}
    (hturns : ∀ pre t, pre ++ [t] <+: turns → (pre.foldl (turn w) pool).CanTurn t) :
    turns.length + (turns.foldl (turn w) pool).left w size ≤ pool.left w size := by
  induction turns generalizing pool with
  | nil => simp
  | cons t turns ih =>
    rw [forall_steps_cons (P := fun pre t => (pre.foldl (turn w) pool).CanTurn t)] at hturns
    have hrest := ih hturns.2
    have hlt := left_turn_lt hsize hturns.1
    rw [List.length_cons, List.foldl_cons]
    rw [List.foldl_nil] at hlt
    omega

end WorkerPool

end Lib
