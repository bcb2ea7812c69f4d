import TftpOS.ConsoleProxies

/-!
# What is read from a console

The other direction of the proxies in `ConsoleProxies`. What comes in on a connection is read in
order and once, whichever calls read it (`receives_spec`). An empty answer means that the other end
has closed the connection, or that `close` was called for it, as long as one call reads at a time:
of two that overlap, one may be woken by data that the other has taken.
-/

namespace TftpOS

open Lib

namespace ConsoleProxy

variable {p : ConsoleProxy} {c : ℕ} {task : Task} {a : Action} {s : Clients ℕ ConsoleProxy Task}

/-- What has come in on a connection. -/
def arrivedOn (c : ℕ) : List Event → List UInt8
  | [] => []
  | .arrived c' data :: es => (if c' = c then data else []) ++ arrivedOn c es
  | _ :: es => arrivedOn c es

/-- What has been read from a connection. -/
def receivedOn (c : ℕ) : List Event → List UInt8
  | [] => []
  | .received c' _ data :: es => (if c' = c then data else []) ++ receivedOn c es
  | _ :: es => receivedOn c es

/-- What has come in on a connection and has not been read. -/
def pending (p : ConsoleProxy) (c : ℕ) : List UInt8 :=
  (p.connections[c]?.map Connection.incoming).getD []

/-- A `close` has been called for a connection. -/
def Wiring.Closes (w : Wiring) (c : ℕ) : Prop :=
  ∃ line, w.lines[c]? = some line ∧ line.closed = true

/-- In a trace, a `close` has been called while the proxy held a connection. -/
def ClosedIn (config : ConsoleConfig) (c : ℕ) (log : List Event) : Prop :=
  (log.foldl (Wiring.apply config) ⟨[], none⟩).Closes c

/-- No call starts to read while another one waits for data. -/
def OneReader (s : Clients ℕ ConsoleProxy Task) (schedule : List (ℕ × Action)) : Prop :=
  ∀ pre i n, pre ++ [(i, .call (.receive n))] <+: schedule →
    ∀ j c n' w, (run step s pre).locals j ≠ .reading c n' w

/-! ### Conservation -/

theorem arrivedOn_append (c : ℕ) (es es' : List Event) :
    arrivedOn c (es ++ es') = arrivedOn c es ++ arrivedOn c es' := by
  induction es with
  | nil => rfl
  | cons e es ih => cases e <;> simp [arrivedOn, ih]

theorem receivedOn_append (c : ℕ) (es es' : List Event) :
    receivedOn c (es ++ es') = receivedOn c es ++ receivedOn c es' := by
  induction es with
  | nil => rfl
  | cons e es ih => cases e <;> simp [receivedOn, ih]

theorem getElem?_onConnection (f : Connection → Connection) (k : ℕ) :
    (p.onConnection c f).connections[k]? =
      if c = k then p.connections[k]?.map f else p.connections[k]? := by
  rw [onConnection, List.getElem?_modify]
  by_cases hk : c = k
  · simp [hk]
  · simp [hk]

/-- What happens to a connection but for its data. -/
theorem pending_onConnection {f : Connection → Connection}
    (hf : ∀ conn, (f conn).incoming = conn.incoming) (k : ℕ) :
    (p.onConnection c f).pending k = p.pending k := by
  rw [pending, pending, getElem?_onConnection]
  split_ifs
  · cases p.connections[k]? with
    | none => rfl
    | some conn => exact hf conn
  · rfl

/-- Nothing is made up and nothing is lost in a step. -/
def Conserves (p : ConsoleProxy) (e : Effect) : Prop :=
  ∀ k, p.pending k ++ arrivedOn k e.events = receivedOn k e.events ++ e.proxy.pending k

theorem conserves_of_pending {e : Effect} (hpending : ∀ k, e.proxy.pending k = p.pending k)
    (harrived : ∀ k, arrivedOn k e.events = []) (hreceived : ∀ k, receivedOn k e.events = []) :
    Conserves p e := fun k => by
  rw [harrived, hreceived, hpending, List.append_nil, List.nil_append]

theorem conserves_take {q : ConsoleProxy} {conn conn' : Connection}
    (hq : ∀ k, q.pending k = p.pending k) (hconn : q.connections[c]? = some conn')
    (hsame : conn'.incoming = conn.incoming) (n : ℕ) :
    Conserves p (q.take c n conn) := by
  intro k
  rw [← hq]
  by_cases hk : c = k
  · subst hk
    simp [take, arrivedOn, receivedOn, pending, getElem?_onConnection, hconn, hsame]
  · simp [take, arrivedOn, receivedOn, pending, getElem?_onConnection, hk]

theorem conserves_self (task : Task) : Conserves p { proxy := p, task } :=
  conserves_of_pending (fun _ => rfl) (fun _ => rfl) fun _ => rfl

theorem conserves_read {conn : Connection} (hconn : p.connections[c]? = some conn) (n : ℕ) :
    Conserves p (p.read c n conn) := by
  rw [read]
  split_ifs
  · exact conserves_self _
  · intro k
    simp [arrivedOn, receivedOn]
  · exact conserves_self _
  · exact conserves_of_pending (pending_onConnection fun _ => rfl) (fun _ => rfl) fun _ => rfl
  · exact conserves_take (fun _ => rfl) hconn rfl n

theorem conserves_start (call : Call) : Conserves p (p.start call) := by
  cases call with
  | connect => exact conserves_self _
  | close =>
    rw [start]
    split
    · exact conserves_of_pending (pending_onConnection fun _ => rfl) (fun _ => rfl) fun _ => rfl
    · exact conserves_of_pending (fun _ => rfl) (fun _ => rfl) fun _ => rfl
  | send data =>
    rw [start]
    split
    · exact conserves_of_pending (pending_onConnection fun _ => rfl) (fun _ => rfl) fun _ => rfl
    · exact conserves_of_pending (fun _ => rfl) (fun _ => rfl) fun _ => rfl
  | receive n =>
    rw [start]
    split
    · exact conserves_self _
    · split
      · exact conserves_self _
      · next conn hconn => exact conserves_read hconn n

theorem pending_opened (k : ℕ) : p.opened.pending k = p.pending k := by
  rw [pending, pending, opened, List.getElem?_append]
  split_ifs with hlt
  · rfl
  · rw [List.getElem?_eq_none (not_lt.mp hlt)]
    cases k - p.connections.length <;> rfl

/-- **Conservation**: what a step of a call reads from a connection was there or comes with the
step, in that order, and the rest stays there. -/
theorem conserves_act (task : Task) (a : Action) : Conserves p (p.act task a) := by
  cases a with
  | arrive c data =>
    rw [act_arrive]
    split_ifs with hskip
    · exact conserves_self _
    · intro k
      rw [not_or, not_le] at hskip
      by_cases hk : c = k
      · subst hk
        simp [arrivedOn, receivedOn, pending, getElem?_onConnection, Connection.wake,
          List.getElem?_eq_getElem hskip.2]
      · simp [arrivedOn, receivedOn, pending, getElem?_onConnection, hk]
  | finish c =>
    rw [act_finish]
    split_ifs
    · exact conserves_self _
    · exact conserves_of_pending (pending_onConnection fun _ => rfl) (fun _ => rfl) fun _ => rfl
  | shut c =>
    rw [act_shut]
    refine conserves_of_pending (pending_onConnection fun conn => ?_) (fun _ => rfl) fun _ => rfl
    rw [Connection.shut]
    split_ifs <;> rfl
  | lose c =>
    rw [act_lose]
    exact conserves_of_pending (pending_onConnection fun _ => rfl) (fun _ => rfl) fun _ => rfl
  | call call =>
    cases task with
    | idle => exact conserves_start call
    | _ => exact conserves_self _
  | proceed =>
    cases task with
    | connecting => exact conserves_of_pending pending_opened (fun _ => rfl) fun _ => rfl
    | closing => exact conserves_of_pending (fun _ => rfl) (fun _ => rfl) fun _ => rfl
    | reading c n w =>
      rw [act]
      split
      · exact conserves_self _
      · next conn hconn =>
        split_ifs
        · have hpending := pending_onConnection (p := p) (c := c)
            (f := fun conn => { conn with waiter := none }) fun _ => rfl
          refine conserves_take hpending ?_ (rfl : { conn with waiter := none }.incoming = _) n
          rw [getElem?_onConnection, if_pos rfl, hconn]
          rfl
        · exact conserves_self _
    | _ => exact conserves_self _
  | raise =>
    cases task with
    | closing => exact conserves_of_pending (fun _ => rfl) (fun _ => rfl) fun _ => rfl
    | reading c n w =>
      exact conserves_of_pending (pending_onConnection fun _ => rfl) (fun _ => rfl) fun _ => rfl
    | _ => exact conserves_self _
  | cancel =>
    cases task with
    | reading c n w =>
      exact conserves_of_pending (pending_onConnection fun _ => rfl) (fun _ => rfl) fun _ => rfl
    | _ => exact conserves_self _

theorem pending_run (schedule : List (ℕ × Action)) (k : ℕ) :
    s.shared.pending k ++ arrivedOn k (trace s schedule) =
      receivedOn k (trace s schedule) ++ (run step s schedule).shared.pending k := by
  induction schedule generalizing s with
  | nil => rw [run_nil]; simp [trace, arrivedOn, receivedOn]
  | cons e schedule ih =>
    have hstep := conserves_act (p := s.shared) (s.locals e.1) e.2 k
    rw [trace_cons, arrivedOn_append, receivedOn_append, ← List.append_assoc, hstep,
      List.append_assoc, List.append_assoc, run_cons]
    exact congrArg _ (ih (s := (step s e).2))

/-! ### Empty answers -/

/-- The waits of a connection are numbered from its first one on. -/
def Numbered (conn : Connection) : Prop :=
  ∀ w, w ∈ conn.woken ∨ conn.waiter = some w → w < conn.waits

def Tidy (p : ConsoleProxy) : Prop :=
  ∀ (c : ℕ) (conn : Connection), p.connections[c]? = some conn → Numbered conn

/-- A call whose wait is over finds data or the end. -/
def Found (p : ConsoleProxy) (task : Task) : Prop :=
  ∀ c n w conn, task = .reading c n w → p.connections[c]? = some conn → w ∈ conn.woken →
    conn.incoming ≠ [] ∨ conn.eof = true

/-- A connection, and what it becomes: where a wait is over that was not, something has come. -/
def Comes (conn conn' : Connection) : Prop :=
  ∀ w ∈ conn'.woken, (w ∈ conn.woken ∧ conn.incoming = conn'.incoming ∧ conn.eof = conn'.eof) ∨
    conn'.incoming ≠ [] ∨ conn'.eof = true

def Grows (p q : ConsoleProxy) : Prop :=
  ∀ (c : ℕ) (conn' : Connection), q.connections[c]? = some conn' → conn'.woken = [] ∨
    ∃ conn, p.connections[c]? = some conn ∧ Comes conn conn'

/-- Nothing more comes on the connection. -/
def Eof (p : ConsoleProxy) (c : ℕ) : Prop :=
  ∃ conn, p.connections[c]? = some conn ∧ conn.eof = true

theorem Found.grows {q : ConsoleProxy} (h : Found p task) (hgrows : Grows p q) : Found q task := by
  intro c n w conn' htask hconn' hw
  rcases hgrows c conn' hconn' with hnone | ⟨conn, hconn, hcomes⟩
  · rw [hnone] at hw
    cases hw
  · rcases hcomes w hw with ⟨hw', hincoming, heof⟩ | hcome
    · rw [← hincoming, ← heof]
      exact h c n w conn htask hconn hw'
    · exact hcome

/-- What a step of a call does for those that wait. -/
structure Serves (p : ConsoleProxy) (task : Task) (a : Action) (e : Effect) : Prop where
  tidy : p.Tidy → e.proxy.Tidy
  /-- Only a call that reads takes what has come. -/
  grows : Grows p e.proxy ∨ (∃ c n w, task = .reading c n w) ∨ ∃ n, a = .call (.receive n)
  /-- Only a call of `receive` begins to wait, and then nothing has come. -/
  waits : ∀ c n w, e.task = .reading c n w → task = e.task ∧ Grows p e.proxy ∨
    (∃ n, a = .call (.receive n)) ∧ (p.Tidy → Found e.proxy e.task)
  /-- An answer is empty at the end of what comes. -/
  empty : Found p task → ∀ c n, .received c n [] ∈ e.events → n = 0 ∨ p.Eof c
  eof : ∀ c, e.proxy.Eof c → p.Eof c ∨ .finished c ∈ e.events ∨ p.wiring.Closes c

variable {e : Effect}

theorem grows_of_eq {q : ConsoleProxy} (h : q.connections = p.connections) : Grows p q :=
  fun _ conn hconn => .inr ⟨conn, h ▸ hconn, fun _ hw => .inl ⟨hw, rfl, rfl⟩⟩

/-- A step that leaves the connections as they are. -/
theorem serves_of_eq (hconns : e.proxy.connections = p.connections)
    (htask : ∀ c n w, e.task = .reading c n w → task = e.task)
    (hevents : ∀ c n, .received c n [] ∈ e.events → n = 0) : Serves p task a e where
  tidy h c conn hconn := h c conn (hconns ▸ hconn)
  grows := .inl (grows_of_eq hconns)
  waits c n w h := .inl ⟨htask c n w h, grows_of_eq hconns⟩
  empty _ c n h := .inl (hevents c n h)
  eof c h := .inl (by rwa [Eof, hconns] at h)

theorem closes_wiring {conn : Connection} (hconn : p.connections[c]? = some conn)
    (hclosed : conn.closed = true) : p.wiring.Closes c :=
  ⟨lineOf conn, by rw [wiring, List.getElem?_map, hconn]; rfl, hclosed⟩

/-- A step that changes one connection, and takes nothing. -/
theorem serves_onConnection {f : Connection → Connection} {events : List Event} {task' : Task}
    (hnumbered : ∀ conn, Numbered conn → Numbered (f conn)) (hcomes : ∀ conn, Comes conn (f conn))
    (heof : ∀ conn, (f conn).eof = conn.eof ∨ .finished c ∈ events ∨ conn.closed = true)
    (htask : ∀ c n w, task' = .reading c n w → task = task')
    (hevents : ∀ c n, .received c n [] ∉ events) :
    Serves p task a ⟨events, p.onConnection c f, task'⟩ := by
  have hgrows : Grows p (p.onConnection c f) := by
    intro k conn' hconn'
    rw [getElem?_onConnection] at hconn'
    split_ifs at hconn'
    · obtain ⟨conn, hconn, rfl⟩ := Option.map_eq_some_iff.mp hconn'
      exact .inr ⟨conn, hconn, hcomes conn⟩
    · exact .inr ⟨conn', hconn', fun _ hw => .inl ⟨hw, rfl, rfl⟩⟩
  refine ⟨fun h k conn' hconn' => ?_, .inl hgrows, fun k n w h => .inl ⟨htask k n w h, hgrows⟩,
    fun _ k n h => absurd h (hevents k n), fun k ⟨conn', hconn', hend⟩ => ?_⟩
  · rw [getElem?_onConnection] at hconn'
    split_ifs at hconn'
    · obtain ⟨conn, hconn, rfl⟩ := Option.map_eq_some_iff.mp hconn'
      exact hnumbered conn (h k conn hconn)
    · exact h k conn' hconn'
  · rw [getElem?_onConnection] at hconn'
    split_ifs at hconn' with hk
    · obtain ⟨conn, hconn, rfl⟩ := Option.map_eq_some_iff.mp hconn'
      rcases heof conn with hsame | hfinished | hclosed
      · exact .inl ⟨conn, hconn, hsame ▸ hend⟩
      · exact .inr (.inl (hk ▸ hfinished))
      · exact .inr (.inr (closes_wiring hconn hclosed))
    · exact .inl ⟨conn', hconn', hend⟩

theorem onConnection_onConnection (f g : Connection → Connection) :
    (p.onConnection c f).onConnection c g = p.onConnection c (g ∘ f) := by
  rw [onConnection, onConnection, onConnection, List.modify_modify_eq]

/-- A step that takes what has come. -/
theorem serves_take {conn : Connection} {n : ℕ} {f : Connection → Connection}
    (hreads : (∃ c n w, task = .reading c n w) ∨ ∃ n, a = .call (.receive n))
    (hconn : p.connections[c]? = some conn)
    (hnumbered : ∀ conn, Numbered conn → Numbered (f conn))
    (heof : ∀ conn, (f conn).eof = conn.eof)
    (hfound : Found p task → conn.incoming ≠ [] ∨ conn.eof = true) {data : List UInt8} :
    Serves p task a ⟨[.received c n (conn.incoming.take n)], p.onConnection c f,
      .returned data⟩ := by
  refine ⟨fun h k conn' hconn' => ?_, .inr hreads, by simp,
    fun h k m hmem => ?_, fun k ⟨conn', hconn', hend⟩ => .inl ?_⟩
  · rw [getElem?_onConnection] at hconn'
    split_ifs at hconn'
    · obtain ⟨conn, hconn, rfl⟩ := Option.map_eq_some_iff.mp hconn'
      exact hnumbered conn (h k conn hconn)
    · exact h k conn' hconn'
  · have heq := List.mem_singleton.mp hmem
    rw [Event.received.injEq, eq_comm (a := []), List.take_eq_nil_iff] at heq
    obtain ⟨rfl, rfl, hzero | hnil⟩ := heq
    · exact .inl hzero
    · exact .inr ⟨conn, hconn, (hfound h).resolve_left (not_not_intro hnil)⟩
  · rw [getElem?_onConnection] at hconn'
    split_ifs at hconn'
    · obtain ⟨conn, hconn, rfl⟩ := Option.map_eq_some_iff.mp hconn'
      exact ⟨conn, hconn, heof conn ▸ hend⟩
    · exact ⟨conn', hconn', hend⟩

theorem serves_self (task : Task) (a : Action) : Serves p task a { proxy := p, task } :=
  serves_of_eq rfl (fun _ _ _ _ => rfl) (by simp)

theorem serves_over {task' : Task} (h : ∀ c n w, task' ≠ .reading c n w) :
    Serves p task a { proxy := p, task := task' } :=
  serves_of_eq rfl (fun c n w htask => absurd htask (h c n w)) (by simp)

theorem numbered_wake {conn : Connection} (h : Numbered conn) : Numbered conn.wake := by
  rintro w (hw | hw)
  · rcases List.mem_append.mp hw with hw | hw
    · exact h w (.inr (Option.mem_toList.mp hw))
    · exact h w (.inl hw)
  · cases hw

theorem serves_read {conn : Connection} (hconn : p.connections[c]? = some conn) (n m : ℕ) :
    Serves p .idle (.call (.receive m)) (p.read c n conn) := by
  rw [read]
  split_ifs with hbroken hzero hnone hwaiter
  · exact serves_over (by simp)
  · refine serves_of_eq rfl (by simp) fun k n' hmem => ?_
    have heq := List.mem_singleton.mp hmem
    rw [Event.received.injEq] at heq
    exact heq.2.1
  · exact serves_over (by simp)
  · have hnumbered : ∀ conn, Numbered conn →
        Numbered { conn with waits := conn.waits + 1, waiter := some conn.waits } := by
      rintro conn h w (hw | hw)
      · exact (h w (.inl hw)).trans (Nat.lt_succ_self _)
      · obtain rfl := Option.some.inj hw
        exact Nat.lt_succ_self _
    have hserves : Serves p (.reading c n conn.waits) (.call (.receive m))
        ⟨[], p.onConnection c fun conn =>
          { conn with waits := conn.waits + 1, waiter := some conn.waits },
          .reading c n conn.waits⟩ :=
      serves_onConnection hnumbered (fun conn w hw => .inl ⟨hw, rfl, rfl⟩)
        (fun _ => .inl rfl) (fun _ _ _ _ => rfl) (by simp)
    refine ⟨hserves.tidy, .inr (.inr ⟨m, rfl⟩), fun k n' w _ => .inr ⟨⟨m, rfl⟩, ?_⟩,
      by simp, hserves.eof⟩
    -- the wait has a number of its own
    rintro htidy k n' w conn' htask hconn' hw
    obtain ⟨rfl, rfl, rfl⟩ := Task.reading.inj htask
    rw [getElem?_onConnection, if_pos rfl, hconn] at hconn'
    cases hconn'
    exact absurd (htidy c conn hconn conn.waits (.inl hw)) (lt_irrefl _)
  · have hnumbered : ∀ conn, Numbered conn →
        Numbered { conn with incoming := conn.incoming.drop n } := fun conn h => h
    refine serves_take (.inr ⟨m, rfl⟩) hconn hnumbered (fun _ => rfl) fun _ => ?_
    rw [not_and_or, Bool.not_eq_false] at hnone
    exact hnone

theorem serves_start (call : Call) : Serves p .idle (.call call) (p.start call) := by
  have hclosed : ∀ conn, Numbered conn → Numbered { conn with closed := true } := fun conn h => h
  have hcloses : ∀ conn, Comes conn { conn with closed := true } := fun conn w hw =>
    .inl ⟨hw, rfl, rfl⟩
  have hwritten : ∀ data conn, Numbered conn →
      Numbered { conn with written := conn.written ++ data } := fun data conn h => h
  have hwrites : ∀ data conn, Comes conn { conn with written := conn.written ++ data } :=
    fun data conn w hw => .inl ⟨hw, rfl, rfl⟩
  cases call with
  | connect => exact serves_over (by simp)
  | close =>
    rw [start]
    split
    · exact serves_onConnection hclosed hcloses (fun _ => .inl rfl) (by simp) (by simp)
    · exact serves_of_eq rfl (by simp) (by simp)
  | send data =>
    rw [start]
    split
    · exact serves_onConnection (hwritten data) (hwrites data) (fun _ => .inl rfl) (by simp)
        (by simp)
    · exact serves_of_eq rfl (by simp) (by simp)
  | receive n =>
    rw [start]
    split
    · exact serves_over (by simp)
    · split
      · exact serves_over (by simp)
      · next conn hconn => exact serves_read hconn n n

theorem serves_opened : Serves p .connecting .proceed
    { events := [.opened], proxy := p.opened, task := .returned [] } := by
  have hconns : ∀ (k : ℕ) (conn : Connection), p.opened.connections[k]? = some conn →
      p.connections[k]? = some conn ∨
        conn = { host := p.config.host, port := p.config.port } := by
    intro k conn hconn
    rw [opened, List.getElem?_append] at hconn
    split_ifs at hconn
    · exact .inl hconn
    · cases hk : k - p.connections.length with
      | zero =>
        rw [hk] at hconn
        exact .inr (Option.some.inj hconn).symm
      | succ k' =>
        rw [hk] at hconn
        cases hconn
  refine ⟨fun h k conn hconn => ?_, .inl fun k conn hconn => ?_, by simp, fun _ k n h => ?_,
    fun k h => .inl ?_⟩
  · rcases hconns k conn hconn with hconn | rfl
    · exact h k conn hconn
    · rintro w (hw | hw)
      · cases hw
      · cases hw
  · rcases hconns k conn hconn with hconn | rfl
    · exact .inr ⟨conn, hconn, fun _ hw => .inl ⟨hw, rfl, rfl⟩⟩
    · exact .inl rfl
  · simp at h
  · obtain ⟨conn, hconn, hend⟩ := h
    rcases hconns k conn hconn with hconn | rfl
    · exact ⟨conn, hconn, hend⟩
    · cases hend

theorem numbered_unwait {conn : Connection} (h : Numbered conn) :
    Numbered { conn with waiter := none } := by
  rintro w (hw | hw)
  · exact h w (.inl hw)
  · cases hw

/-- A wait that is given up. -/
theorem serves_unwait : Serves p task a
    { proxy := p.onConnection c fun conn => { conn with waiter := none }, task := .raised } :=
  serves_onConnection (fun _ => numbered_unwait) (fun _ _ hw => .inl ⟨hw, rfl, rfl⟩)
    (fun _ => .inl rfl) (by simp) (by simp)

/-- **Waiting calls**: what any step of a call, or of the other end, does for those that wait. -/
theorem serves_act (task : Task) (a : Action) : Serves p task a (p.act task a) := by
  cases a with
  | arrive c data =>
    rw [act_arrive]
    split_ifs with hskip
    · exact serves_self _ _
    · refine serves_onConnection (fun _ h => numbered_wake h) (fun conn w _ => .inr (.inl ?_))
        (fun _ => .inl rfl) (fun _ _ _ _ => rfl) (by simp)
      exact List.append_ne_nil_of_right_ne_nil _ (not_or.mp hskip).1
  | finish c =>
    rw [act_finish]
    split_ifs
    · exact serves_self _ _
    · exact serves_onConnection (fun _ h => numbered_wake h) (fun _ _ _ => .inr (.inr rfl))
        (fun _ => .inr (.inl (List.mem_singleton_self _))) (fun _ _ _ _ => rfl) (by simp)
  | shut c =>
    rw [act_shut]
    refine serves_onConnection (fun conn h => ?_) (fun conn w hw => ?_) (fun conn => ?_)
      (fun _ _ _ _ => rfl) (by simp)
    · rw [Connection.shut]
      split_ifs
      · exact numbered_wake h
      · exact h
    · rw [Connection.shut] at hw ⊢
      split_ifs at hw ⊢
      · exact .inr (.inr rfl)
      · exact .inl ⟨hw, rfl, rfl⟩
    · rw [Connection.shut]
      split_ifs with hclosed
      · exact .inr (.inr hclosed)
      · exact .inl rfl
  | lose c =>
    rw [act_lose]
    exact serves_onConnection (fun _ => numbered_unwait) (fun _ _ hw => .inl ⟨hw, rfl, rfl⟩)
      (fun _ => .inl rfl) (fun _ _ _ _ => rfl) (by simp)
  | call call =>
    cases task with
    | idle => exact serves_start call
    | _ => exact serves_self _ _
  | proceed =>
    cases task with
    | connecting => exact serves_opened
    | closing =>
      rw [act]
      exact serves_of_eq rfl (by simp) (by simp)
    | draining => exact serves_over (by simp)
    | reading c n w =>
      rw [act]
      split
      · exact serves_over (by simp)
      · next conn hconn =>
        split_ifs with hw
        · have hnumbered : ∀ conn, Numbered conn → Numbered
              { conn with waiter := none, incoming := conn.incoming.drop n } :=
            fun _ h => numbered_unwait h
          rw [take, onConnection_onConnection]
          exact serves_take (.inl ⟨c, n, w, rfl⟩) hconn hnumbered (fun _ => rfl)
            fun h => h c n w conn rfl hconn hw
        · exact serves_self _ _
    | _ => exact serves_self _ _
  | raise =>
    cases task with
    | closing =>
      rw [act]
      exact serves_of_eq rfl (by simp) (by simp)
    | reading c n w => exact serves_unwait
    | connecting | draining => exact serves_over (by simp)
    | _ => exact serves_self _ _
  | cancel =>
    cases task with
    | reading c n w => exact serves_unwait
    | connecting | draining | closing => exact serves_over (by simp)
    | _ => exact serves_self _ _

/-- The calls that wait to read: at most one, and it finds something when its wait is over. -/
structure Served (s : Clients ℕ ConsoleProxy Task) : Prop where
  tidy : s.shared.Tidy
  alone : ∀ i j c n w c' n' w', s.locals i = .reading c n w → s.locals j = .reading c' n' w' → i = j
  found : ∀ i, s.shared.Found (s.locals i)

/-- A step keeps it, unless it starts to read beside another call. -/
theorem Served.step (h : Served s) {i : ℕ}
    (ha : ∀ n, a = .call (.receive n) → ∀ j c n' w, s.locals j ≠ .reading c n' w) :
    Served (step s (i, a)).2 := by
  have hserves := serves_act (p := s.shared) (s.locals i) a
  have hself : (ConsoleProxy.step s (i, a)).2.locals i = (s.shared.act (s.locals i) a).task :=
    interleave_locals_self i a
  have hother : ∀ {j}, j ≠ i → (ConsoleProxy.step s (i, a)).2.locals j = s.locals j := fun hj =>
    interleave_locals_of_ne hj a
  -- a call that waits after the step waited before it, or no other call waits
  have hwaits : ∀ {j c n w}, (ConsoleProxy.step s (i, a)).2.locals j = .reading c n w →
      s.locals j = .reading c n w ∨ j = i ∧ ∀ k c n w, s.locals k ≠ .reading c n w := by
    intro j c n w hj
    by_cases heq : j = i
    · subst heq
      rw [hself] at hj
      rcases hserves.waits c n w hj with ⟨hsame, -⟩ | ⟨⟨m, hm⟩, -⟩
      · exact .inl (hsame.trans hj)
      · exact .inr ⟨rfl, ha m hm⟩
    · exact .inl ((hother heq).symm.trans hj)
  refine ⟨hserves.tidy h.tidy, fun j k c n w c' n' w' hj hk => ?_, fun j => ?_⟩
  · rcases hwaits hj with hj' | ⟨rfl, hnone⟩
    · rcases hwaits hk with hk' | ⟨rfl, hnone⟩
      · exact h.alone j k c n w c' n' w' hj' hk'
      · exact absurd hj' (hnone j c n w)
    · rcases hwaits hk with hk' | ⟨rfl, -⟩
      · exact absurd hk' (hnone k c' n' w')
      · rfl
  · intro c n w conn hj
    have hfound : (s.shared.act (s.locals i) a).proxy.Found
        ((ConsoleProxy.step s (i, a)).2.locals j) := by
      by_cases heq : j = i
      · subst heq
        rw [hself] at hj ⊢
        rcases hserves.waits c n w hj with ⟨hsame, hgrows⟩ | ⟨-, hfresh⟩
        · exact hsame ▸ (h.found j).grows hgrows
        · exact hfresh h.tidy
      · rw [hother heq] at hj ⊢
        rcases hserves.grows with hgrows | ⟨c', n', w', hi⟩ | ⟨m, hm⟩
        · exact (h.found j).grows hgrows
        · exact absurd (h.alone j i c n w c' n' w' hj hi) heq
        · exact absurd hj (ha m hm j c n w)
    exact hfound c n w conn hj

theorem oneReader_cons {e : ℕ × Action} {schedule : List (ℕ × Action)} :
    OneReader s (e :: schedule) ↔
      (∀ n, e.2 = .call (.receive n) → ∀ j c n' w, s.locals j ≠ .reading c n' w) ∧
        OneReader (step s e).2 schedule := by
  constructor
  · refine fun h => ⟨fun n hn => ?_, fun pre i n hpre => ?_⟩
    · refine h [] e.1 n ?_
      rw [List.nil_append, ← hn]
      exact List.prefix_append [e] schedule
    · exact h (e :: pre) i n (List.prefix_cons_inj e |>.mpr hpre)
  · rintro ⟨hfirst, hrest⟩ pre i n hpre
    cases pre with
    | nil =>
      obtain rfl : (i, Action.call (.receive n)) = e := by simpa using hpre
      exact hfirst n rfl
    | cons e' pre =>
      obtain ⟨rfl, hpre'⟩ := List.cons_prefix_cons.mp hpre
      exact hrest pre i n hpre'

/-- What has been closed stays closed. -/
theorem Wiring.Closes.apply {w : Wiring} {config : ConsoleConfig} (h : w.Closes c) (e : Event) :
    (w.apply config e).Closes c := by
  obtain ⟨line, hline, hclosed⟩ := h
  have hheld : ∀ f : Line → Line, (∀ line, line.closed = true → (f line).closed = true) →
      (w.onHeld f).Closes c := by
    intro f hf
    rw [Wiring.Closes, Wiring.getElem?_onHeld]
    split_ifs
    · exact ⟨f line, by rw [hline]; rfl, hf line hclosed⟩
    · exact ⟨line, hline, hclosed⟩
  cases e with
  | opened =>
    refine ⟨line, ?_, hclosed⟩
    rw [Wiring.apply, List.getElem?_append_left (List.getElem?_eq_some_iff.mp hline).1]
    exact hline
  | closing => exact hheld _ fun _ _ => rfl
  | sent data => exact hheld _ fun _ h => h
  | ended | arrived | finished | received => exact ⟨line, hline, hclosed⟩

theorem Wiring.Closes.replay {w : Wiring} {config : ConsoleConfig} (h : w.Closes c)
    (log : List Event) : (log.foldl (Wiring.apply config) w).Closes c := by
  induction log generalizing w with
  | nil => exact h
  | cons e log ih => exact ih (h.apply e)

/-- An answer that is empty comes at the end, in a run with one reader at a time. -/
theorem eof_of_empty (h : Served s) (hheld : s.shared.reader = s.shared.writer)
    {schedule : List (ℕ × Action)} (hone : OneReader s schedule) {pre post : List Event} {c n : ℕ}
    (htrace : trace s schedule = pre ++ .received c n [] :: post) :
    n = 0 ∨ s.shared.Eof c ∨ .finished c ∈ pre ∨
      (pre.foldl (Wiring.apply s.shared.config) s.shared.wiring).Closes c := by
  induction schedule generalizing s pre with
  | nil => exact absurd htrace (by simp [trace])
  | cons e schedule ih =>
    obtain ⟨hfirst, hrest⟩ := oneReader_cons.mp hone
    have hserves := serves_act (p := s.shared) (s.locals e.1) e.2
    have hshown := shown_act hheld (s.locals e.1) e.2
    have hlater : ∀ {pre'}, trace (step s e).2 schedule = pre' ++ .received c n [] :: post →
        let log := (s.shared.act (s.locals e.1) e.2).events ++ pre'
        n = 0 ∨ s.shared.Eof c ∨ .finished c ∈ log ∨
          (log.foldl (Wiring.apply s.shared.config) s.shared.wiring).Closes c := by
      intro pre' htrace' log
      have hconfig : (step s e).2.shared.config = s.shared.config := hshown.config_eq
      have hwiring : (step s e).2.shared.wiring = _ := hshown.wiring_eq
      rcases ih (h.step hfirst) hshown.reader_eq hrest htrace' with
        hzero | heof | hfinished | hclosed
      · exact .inl hzero
      · rcases hserves.eof c heof with heof | hfinished | hclosed
        · exact .inr (.inl heof)
        · exact .inr (.inr (.inl (List.mem_append_left _ hfinished)))
        · exact .inr (.inr (.inr (hclosed.replay log)))
      · exact .inr (.inr (.inl (List.mem_append_right _ hfinished)))
      · rw [hconfig, hwiring, ← List.foldl_append] at hclosed
        exact .inr (.inr (.inr hclosed))
    rw [trace_cons, List.append_eq_append_iff] at htrace
    rcases htrace with ⟨pre', rfl, htrace'⟩ | ⟨es, hevents, htrace'⟩
    · exact hlater htrace'
    · cases es with
      | nil =>
        rw [List.append_nil] at hevents
        rw [← hevents, ← List.append_nil (ConsoleProxy.act ..).events]
        exact hlater htrace'.symm
      | cons e' es =>
        obtain ⟨rfl, -⟩ := List.cons.inj htrace'
        have hempty := hserves.empty (h.found e.1) c n (by rw [hevents]; simp)
        exact hempty.imp_right .inl

theorem served_idle (config : ConsoleConfig) : Served (idle config) where
  tidy _ _ hconn := nomatch hconn
  alone _ _ _ _ _ _ _ _ hi := nomatch hi
  found _ _ _ _ _ hi := nomatch hi

/-- A call that waits for data when this end is closed gets an empty answer too. -/
example : trace (idle ⟨.vnc, "lab", 5900⟩) [(0, .call .connect), (0, .proceed),
    (1, .call (.receive 4)), (2, .call .close), (3, .shut 0), (1, .proceed)] =
      [.opened, .closing, .received 0 4 []] := by decide

end ConsoleProxy

end TftpOS
