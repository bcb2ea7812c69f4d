import TftpOS.Console
import TftpOS.Lib.Interleaving

/-!
# Console proxies

`ConsoleProxy` and `SerialConsoleProxy` of `tftpos/console.py`, which differ in the consoles they
accept alone. Their methods are coroutines of one event loop: each call is a client of the proxy
that goes on from one `await` that suspends it to the next (`act`), in any order with the others,
and may be cancelled where it waits.

`connect` and `close` store and drop the connection once what they wait for is done, whatever was
stored in between. So a connection that is opened is lost, held by nobody before any `close` was
called for it, exactly when the next thing that happens to the proxy is another connection or the
end of an earlier `close` (`connections_kept_iff`).
-/

namespace TftpOS

open Lib

/-- A connection to a console, with the `StreamReader` on it. -/
structure Connection where
  host : String
  port : ℕ
  /-- What has been handed to its writer. -/
  written : List UInt8 := []
  /-- What has come and has not been read. -/
  incoming : List UInt8 := []
  /-- Nothing more comes: the other end has closed the connection, or it is shut at this end. -/
  eof : Bool := false
  /-- The connection is lost, and reads raise. -/
  broken : Bool := false
  /-- `close` has been called on this end. -/
  closed : Bool := false
  /-- How many reads have waited for data. -/
  waits : ℕ := 0
  /-- The wait that is over when something comes. -/
  waiter : Option ℕ := none
  /-- The waits that are over. -/
  woken : List ℕ := []

/-- What has come ends the wait for it. -/
def Connection.wake (conn : Connection) : Connection :=
  { conn with woken := conn.waiter.toList ++ conn.woken, waiter := none }

/-- Nothing more comes. -/
def Connection.feedEof (conn : Connection) : Connection := { conn.wake with eof := true }

/-- The end of a connection on which `close` was called feeds its reader the end as well. -/
def Connection.shut (conn : Connection) : Connection :=
  if conn.closed then conn.feedEof else conn

/-- `ConsoleProxy` and `SerialConsoleProxy`, with the connections they have opened. A reader and a
writer are known by the place of their connection. -/
structure ConsoleProxy where
  config : ConsoleConfig
  reader : Option ℕ := none
  writer : Option ℕ := none
  connections : List Connection := []

/-- The constructor of either class. -/
def ConsoleProxy.create (accepted : List ConsoleType) (requires : String)
    (config : ConsoleConfig) : Except PyExc ConsoleProxy :=
  if config.consoleType ∈ accepted then .ok { config }
  else .error ⟨.valueError, requires ++ ", got " ++ config.consoleType.value⟩

/-- `ConsoleProxy(config)`. -/
def consoleProxy : ConsoleConfig → Except PyExc ConsoleProxy :=
  ConsoleProxy.create [.vnc, .spice] "ConsoleProxy requires vnc or spice"

/-- `SerialConsoleProxy(config)`. -/
def serialConsoleProxy : ConsoleConfig → Except PyExc ConsoleProxy :=
  ConsoleProxy.create [.serial] "SerialConsoleProxy requires serial"

namespace ConsoleProxy

/-- A call of a method. -/
inductive Call where
  | connect
  | close
  | send (data : List UInt8)
  | receive (maxBytes : ℕ)

/-- How far a call is: before its start, at what it waits for, or over. -/
inductive Task where
  | idle
  | connecting
  | closing
  | draining
  | reading (connection maxBytes wait : ℕ)
  | returned (data : List UInt8)
  | raised

/-- What happens next: a call starts, or what it waits for is done or raises an `Exception`, or it
is cancelled there; or the other end of a connection sends something or closes, or a connection
on which `close` was called is shut, or one is lost. -/
inductive Action where
  | call (call : Call)
  | proceed
  | raise
  | cancel
  | arrive (connection : ℕ) (data : List UInt8)
  | finish (connection : ℕ)
  | shut (connection : ℕ)
  | lose (connection : ℕ)

/-- What is observed of a proxy and its connections. -/
inductive Event where
  | opened
  | closing
  | ended
  | sent (data : List UInt8)
  | arrived (connection : ℕ) (data : List UInt8)
  | finished (connection : ℕ)
  | received (connection maxBytes : ℕ) (data : List UInt8)
  deriving DecidableEq

/-- What a step of a call does. -/
structure Effect where
  events : List Event := []
  proxy : ConsoleProxy
  task : Task

/-- Something happens to a connection. -/
def onConnection (p : ConsoleProxy) (c : ℕ) (f : Connection → Connection) : ConsoleProxy :=
  { p with connections := p.connections.modify c f }

/-- What a read takes of what has come. -/
def take (p : ConsoleProxy) (c maxBytes : ℕ) (conn : Connection) : Effect where
  events := [.received c maxBytes (conn.incoming.take maxBytes)]
  proxy := p.onConnection c fun conn => { conn with incoming := conn.incoming.drop maxBytes }
  task := .returned (conn.incoming.take maxBytes)

/-- `StreamReader.read`, up to where it waits. -/
def read (p : ConsoleProxy) (c maxBytes : ℕ) (conn : Connection) : Effect :=
  if conn.broken then { proxy := p, task := .raised }
  else if maxBytes = 0 then { events := [.received c 0 []], proxy := p, task := .returned [] }
  else if conn.incoming = [] ∧ conn.eof = false then
    if conn.waiter.isSome then { proxy := p, task := .raised }
    else
      { proxy := p.onConnection c fun conn =>
          { conn with waits := conn.waits + 1, waiter := some conn.waits }
        task := .reading c maxBytes conn.waits }
  else p.take c maxBytes conn

/-- The start of a call. -/
def start (p : ConsoleProxy) : Call → Effect
  | .connect => { proxy := p, task := .connecting }
  | .close =>
    match p.writer with
    | some c =>
      { events := [.closing]
        proxy := p.onConnection c fun conn => { conn with closed := true }
        task := .closing }
    | none => { events := [.closing], proxy := p, task := .returned [] }
  | .send data =>
    match p.writer with
    | some c =>
      { events := [.sent data]
        proxy := p.onConnection c fun conn => { conn with written := conn.written ++ data }
        task := .draining }
    | none => { events := [.sent data], proxy := p, task := .returned [] }
  | .receive maxBytes =>
    match p.reader with
    | none => { proxy := p, task := .returned [] }
    | some c =>
      match p.connections[c]? with
      | none => { proxy := p, task := .returned [] }
      | some conn => p.read c maxBytes conn

/-- `connect`, once there is a connection. -/
def opened (p : ConsoleProxy) : ConsoleProxy :=
  { p with
    reader := some p.connections.length
    writer := some p.connections.length
    connections := p.connections ++ [{ host := p.config.host, port := p.config.port }] }

/-- What happens next. What does not apply changes nothing. -/
def act (p : ConsoleProxy) : Task → Action → Effect
  | .idle, .call call => p.start call
  | .connecting, .proceed =>
    { events := [.opened], proxy := p.opened, task := .returned [] }
  | .closing, .proceed | .closing, .raise =>
    { events := [.ended], proxy := { p with reader := none, writer := none }, task := .returned [] }
  | .draining, .proceed => { proxy := p, task := .returned [] }
  | .reading c maxBytes wait, .proceed =>
    match p.connections[c]? with
    | none => { proxy := p, task := .raised }
    | some conn =>
      if wait ∈ conn.woken then
        (p.onConnection c fun conn => { conn with waiter := none }).take c maxBytes conn
      else { proxy := p, task := .reading c maxBytes wait }
  | .reading c _ _, .raise | .reading c _ _, .cancel =>
    { proxy := p.onConnection c fun conn => { conn with waiter := none }, task := .raised }
  | .connecting, .raise | .connecting, .cancel | .closing, .cancel | .draining, .raise
  | .draining, .cancel => { proxy := p, task := .raised }
  | task, .arrive c data =>
    if data = [] ∨ p.connections.length ≤ c then { proxy := p, task }
    else
      { events := [.arrived c data]
        proxy := p.onConnection c fun conn =>
          { conn.wake with incoming := conn.incoming ++ data }
        task }
  | task, .finish c =>
    if p.connections.length ≤ c then { proxy := p, task }
    else
      { events := [.finished c]
        proxy := p.onConnection c Connection.feedEof
        task }
  | task, .shut c => { proxy := p.onConnection c Connection.shut, task }
  | task, .lose c =>
    { proxy := p.onConnection c fun conn => { conn with broken := true, waiter := none }, task }
  | task, _ => { proxy := p, task }

/-! What happens to a connection is the same to every call. -/

theorem act_arrive (p : ConsoleProxy) (task : Task) (c : ℕ) (data : List UInt8) :
    p.act task (.arrive c data) =
      if data = [] ∨ p.connections.length ≤ c then { proxy := p, task } else
        { events := [.arrived c data]
          proxy := p.onConnection c fun conn =>
            { conn.wake with incoming := conn.incoming ++ data }
          task } := by
  cases task <;> rfl

theorem act_finish (p : ConsoleProxy) (task : Task) (c : ℕ) :
    p.act task (.finish c) =
      if p.connections.length ≤ c then { proxy := p, task } else
        { events := [.finished c]
          proxy := p.onConnection c Connection.feedEof
          task } := by
  cases task <;> rfl

theorem act_shut (p : ConsoleProxy) (task : Task) (c : ℕ) :
    p.act task (.shut c) = { proxy := p.onConnection c Connection.shut, task } := by
  cases task <;> rfl

theorem act_lose (p : ConsoleProxy) (task : Task) (c : ℕ) :
    p.act task (.lose c) = { proxy := p.onConnection c fun conn =>
      { conn with broken := true, waiter := none }, task } := by
  cases task <;> rfl

/-! ### Runs -/

/-- Calls that have not started, on a new proxy. -/
def idle (config : ConsoleConfig) : Clients ℕ ConsoleProxy Task := ⟨{ config }, fun _ => .idle⟩

/-- Each configuration is for one of the two classes. -/
theorem create_iff (config : ConsoleConfig) :
    (consoleProxy config = .ok (idle config).shared ↔ config.consoleType ≠ .serial) ∧
      (serialConsoleProxy config = .ok (idle config).shared ↔ config.consoleType = .serial) := by
  rw [consoleProxy, serialConsoleProxy, create, create]
  cases config.consoleType <;> simp [idle]

/-- One call goes on. -/
def client (p : ConsoleProxy) (task : Task) (a : Action) : ConsoleProxy × Task :=
  ((p.act task a).proxy, (p.act task a).task)

def step (s : Clients ℕ ConsoleProxy Task) (e : ℕ × Action) :
    List Event × Clients ℕ ConsoleProxy Task :=
  ((s.shared.act (s.locals e.1) e.2).events, (interleave client s e).2)

/-- What is observed in a run. -/
def trace (s : Clients ℕ ConsoleProxy Task) (schedule : List (ℕ × Action)) : List Event :=
  (outputs step s schedule).flatten

/-- A connection on which `close` was never called is held by the proxy. -/
def Kept (p : ConsoleProxy) : Prop :=
  ∀ c conn, p.connections[c]? = some conn → conn.closed = false → p.writer = some c

/-- The events in the life of connections. -/
def Event.isLifecycle : Event → Bool
  | .opened | .closing | .ended => true
  | _ => false

/-- What is sent until the connection is replaced or dropped. -/
def spoken : List Event → List UInt8
  | [] => []
  | .opened :: _ | .ended :: _ => []
  | .sent data :: es => data ++ spoken es
  | _ :: es => spoken es

/-- What is sent on each connection. -/
def sessions : List Event → List (List UInt8)
  | [] => []
  | .opened :: es => spoken es :: sessions es
  | _ :: es => sessions es

/-! ### The connections of a trace -/

/-- What is known of a connection but for what comes in. -/
structure Line where
  host : String
  port : ℕ
  written : List UInt8 := []
  closed : Bool := false

/-- The connections of a proxy, and the one it holds. -/
structure Wiring where
  lines : List Line
  held : Option ℕ

namespace Wiring

variable {config : ConsoleConfig} {w : Wiring} {log : List Event}

/-- Something happens to the connection that is held. -/
def onHeld (w : Wiring) (f : Line → Line) : Wiring :=
  { w with lines := w.held.elim w.lines fun c => w.lines.modify c f }

/-- What an event does to the connections. -/
def apply (config : ConsoleConfig) (w : Wiring) : Event → Wiring
  | .opened =>
    ⟨w.lines ++ [{ host := config.host, port := config.port }], some w.lines.length⟩
  | .closing => w.onHeld fun line => { line with closed := true }
  | .ended => { w with held := none }
  | .sent data => w.onHeld fun line => { line with written := line.written ++ data }
  | _ => w

def Kept (w : Wiring) : Prop :=
  ∀ c line, w.lines[c]? = some line → line.closed = false → w.held = some c

/-- The connection that is held is open. -/
def HoldsOpen (w : Wiring) : Prop :=
  ∃ c line, w.held = some c ∧ w.lines[c]? = some line ∧ line.closed = false

/-- A connection is open and not held. -/
def Lost (w : Wiring) : Prop :=
  ∃ c line, w.lines[c]? = some line ∧ line.closed = false ∧ w.held ≠ some c

/-- An open connection that is held is the only one that can be open. -/
theorem Kept.closed_of_not_holdsOpen (hkept : w.Kept) (hnot : ¬ w.HoldsOpen) {c : ℕ} {line : Line}
    (hline : w.lines[c]? = some line) : line.closed = true := by
  by_contra hopen
  rw [Bool.not_eq_true] at hopen
  exact hnot ⟨c, line, hkept c line hline hopen, hline, hopen⟩

theorem not_kept_iff : ¬ w.Kept ↔ w.Lost := by
  simp only [Kept, Lost, not_forall, exists_prop]

theorem getElem?_onHeld (f : Line → Line) (c : ℕ) :
    (w.onHeld f).lines[c]? = if w.held = some c then w.lines[c]?.map f else w.lines[c]? := by
  rw [onHeld]
  cases w.held with
  | none => simp
  | some c' =>
    rw [Option.elim_some, List.getElem?_modify]
    by_cases hc : c' = c
    · simp [hc]
    · simp [hc]

/-- A lost connection stays lost. -/
theorem Lost.apply (h : w.Lost) (e : Event) : (w.apply config e).Lost := by
  obtain ⟨c, line, hline, hopen, hheld⟩ := h
  have hlt : c < w.lines.length := (List.getElem?_eq_some_iff.mp hline).1
  cases e with
  | opened =>
    refine ⟨c, line, ?_, hopen, fun h => hlt.ne (Option.some.inj h).symm⟩
    rw [Wiring.apply, List.getElem?_append_left hlt]
    exact hline
  | ended => exact ⟨c, line, hline, hopen, nofun⟩
  | closing | sent =>
    refine ⟨c, line, ?_, hopen, hheld⟩
    rw [Wiring.apply, getElem?_onHeld, if_neg hheld]
    exact hline
  | _ => exact ⟨c, line, hline, hopen, hheld⟩

theorem Lost.replay (h : w.Lost) (log : List Event) :
    (log.foldl (Wiring.apply config) w).Lost := by
  induction log generalizing w with
  | nil => exact h
  | cons e log ih => exact ih (h.apply e)

/-- What comes after a connection has to be a `close`. -/
def Follows (a b : Event) : Prop := a = .opened → b = .closing

theorem isChain_cons_of_ne {a : Event} {l : List Event} (h : a ≠ .opened) :
    (a :: l).IsChain Follows ↔ l.IsChain Follows := by
  cases l with
  | nil => simp
  | cons b l => simp [List.isChain_cons_cons, Follows, h]

theorem Kept.opened (hkept : w.Kept) (hnot : ¬ w.HoldsOpen) :
    (w.apply config .opened).Kept ∧ (w.apply config .opened).HoldsOpen := by
  constructor
  · intro c line hline hopen
    rw [apply, List.getElem?_append] at hline
    split_ifs at hline with hlt
    · rw [hkept.closed_of_not_holdsOpen hnot hline] at hopen
      cases hopen
    · have hzero : c - w.lines.length = 0 := by
        by_contra hne
        obtain ⟨k, hk⟩ := Nat.exists_eq_succ_of_ne_zero hne
        rw [hk] at hline
        cases hline
      exact congrArg some (by omega)
  · exact ⟨w.lines.length, { host := config.host, port := config.port }, rfl,
      List.getElem?_concat_length, rfl⟩

theorem lost_opened (h : w.HoldsOpen) : (w.apply config .opened).Lost := by
  obtain ⟨c, line, hheld, hline, hopen⟩ := h
  have hlt : c < w.lines.length := (List.getElem?_eq_some_iff.mp hline).1
  refine ⟨c, line, ?_, hopen, fun h => hlt.ne (Option.some.inj h).symm⟩
  rw [apply, List.getElem?_append_left hlt]
  exact hline

theorem Kept.closing (hkept : w.Kept) :
    (w.apply config .closing).Kept ∧ ¬ (w.apply config .closing).HoldsOpen := by
  constructor
  · intro c line hline hopen
    rw [apply, getElem?_onHeld] at hline
    split_ifs at hline with hheld
    · exact hheld
    · exact hkept c line hline hopen
  · rintro ⟨c, line, hheld, hline, hopen⟩
    rw [apply, getElem?_onHeld, if_pos (show w.held = some c from hheld),
      Option.map_eq_some_iff] at hline
    obtain ⟨line', -, rfl⟩ := hline
    cases hopen

theorem Kept.ended (hkept : w.Kept) (hnot : ¬ w.HoldsOpen) :
    (w.apply config .ended).Kept ∧ ¬ (w.apply config .ended).HoldsOpen := by
  refine ⟨fun c line hline hopen => ?_, fun ⟨c, line, hheld, hline, hopen⟩ => nomatch hheld⟩
  rw [hkept.closed_of_not_holdsOpen hnot hline] at hopen
  cases hopen

theorem lost_ended (h : w.HoldsOpen) : (w.apply config .ended).Lost := by
  obtain ⟨c, line, -, hline, hopen⟩ := h
  exact ⟨c, line, hline, hopen, nofun⟩

/-- What is not in the life of a connection leaves the connections open or closed as they are. -/
theorem apply_of_not_isLifecycle {e : Event} (h : e.isLifecycle = false) :
    ((w.apply config e).Kept ↔ w.Kept) ∧ ((w.apply config e).HoldsOpen ↔ w.HoldsOpen) := by
  cases e with
  | opened => cases h
  | closing => cases h
  | ended => cases h
  | sent data =>
    have hline : ∀ c : ℕ, (∃ line : Line, (w.apply config (.sent data)).lines[c]? = some line ∧
        line.closed = false) ↔ ∃ line : Line, w.lines[c]? = some line ∧ line.closed = false := by
      intro c
      rw [apply, getElem?_onHeld]
      split_ifs
      · simp
      · rfl
    constructor
    · have hiff : ∀ w : Wiring, w.Kept ↔ ∀ c : ℕ, (∃ line : Line, w.lines[c]? = some line ∧
          line.closed = false) → w.held = some c := by
        simp [Kept]
      rw [hiff, hiff]
      exact forall_congr' fun c => imp_congr_left (hline c)
    · have hiff : ∀ w : Wiring, w.HoldsOpen ↔ ∃ c : ℕ, w.held = some c ∧ ∃ line : Line,
          w.lines[c]? = some line ∧ line.closed = false := by
        simp [HoldsOpen]
      rw [hiff, hiff]
      exact exists_congr fun c => and_congr_right fun _ => hline c
  | arrived => exact ⟨Iff.rfl, Iff.rfl⟩
  | finished => exact ⟨Iff.rfl, Iff.rfl⟩
  | received => exact ⟨Iff.rfl, Iff.rfl⟩

/-- No connection of a trace is lost exactly when none is replaced or dropped before it is
closed. -/
theorem kept_replay_iff (hkept : w.Kept) (log : List Event) :
    (w.HoldsOpen → ((log.foldl (apply config) w).Kept ↔
      (.opened :: log.filter Event.isLifecycle).IsChain Follows)) ∧
    (¬ w.HoldsOpen → ((log.foldl (apply config) w).Kept ↔
      (log.filter Event.isLifecycle).IsChain Follows)) := by
  induction log generalizing w with
  | nil => simp [hkept]
  | cons e log ih =>
    rw [List.foldl_cons]
    by_cases hlife : e.isLifecycle = true
    · rw [List.filter_cons_of_pos hlife]
      cases e with
      | opened =>
        refine ⟨fun hopen => ?_, fun hnot => (ih (hkept.opened hnot).1).1 (hkept.opened hnot).2⟩
        refine iff_of_false (not_kept_iff.mpr ((lost_opened hopen).replay log)) fun hchain => ?_
        cases (List.isChain_cons_cons.mp hchain).1 rfl
      | closing =>
        obtain ⟨hkept', hnot⟩ : (w.apply config .closing).Kept ∧
            ¬ (w.apply config .closing).HoldsOpen := hkept.closing
        have hnext := (ih hkept').2 hnot
        have htail : (Event.closing :: log.filter Event.isLifecycle).IsChain Follows ↔
            (log.filter Event.isLifecycle).IsChain Follows := isChain_cons_of_ne (by decide)
        rw [hnext, List.isChain_cons_cons, htail]
        exact ⟨fun _ => (and_iff_right fun _ => rfl).symm, fun _ => Iff.rfl⟩
      | ended =>
        refine ⟨fun hopen => ?_, fun hnot => ?_⟩
        · refine iff_of_false (not_kept_iff.mpr ((lost_ended hopen).replay log))
            fun hchain => ?_
          cases (List.isChain_cons_cons.mp hchain).1 rfl
        · have htail : (Event.ended :: log.filter Event.isLifecycle).IsChain Follows ↔
              (log.filter Event.isLifecycle).IsChain Follows := isChain_cons_of_ne (by decide)
          rw [htail]
          exact (ih (hkept.ended hnot).1).2 (hkept.ended hnot).2
      | sent | arrived | finished | received => cases hlife
    · rw [Bool.not_eq_true] at hlife
      obtain ⟨hkept', hholds⟩ : ((w.apply config e).Kept ↔ w.Kept) ∧
          ((w.apply config e).HoldsOpen ↔ w.HoldsOpen) := apply_of_not_isLifecycle hlife
      rw [List.filter_cons_of_neg (by simp [hlife]), ← hholds]
      exact ih (hkept'.mpr hkept)

/-- What has been sent, and some more on the connection that is held. -/
def attach (w : Wiring) (data : List UInt8) : List (List UInt8) :=
  w.held.elim (w.lines.map Line.written) fun c => (w.lines.map Line.written).modify c (· ++ data)

theorem map_modify {f : Line → Line} {g : List UInt8 → List UInt8}
    (h : ∀ line, (f line).written = g line.written) (lines : List Line) (c : ℕ) :
    (lines.modify c f).map Line.written = (lines.map Line.written).modify c g := by
  induction lines generalizing c with
  | nil => simp
  | cons line lines ih =>
    cases c with
    | zero => simp [h]
    | succ c => simp [ih]

theorem modify_concat (ws : List (List UInt8)) (f : List UInt8 → List UInt8) (v : List UInt8) :
    (ws ++ [v]).modify ws.length f = ws ++ [f v] := by
  induction ws with
  | nil => rfl
  | cons w ws ih => rw [List.cons_append, List.length_cons, List.modify_succ_cons, ih]; rfl

theorem attach_nil : w.attach [] = w.lines.map Line.written := by
  rw [attach]
  cases w.held with
  | none => rfl
  | some c =>
    have hid : (fun v : List UInt8 => v ++ []) = id := funext List.append_nil
    rw [Option.elim_some, hid, List.modify_id]

theorem attach_sent (data more : List UInt8) :
    (w.apply config (.sent data)).attach more = w.attach (data ++ more) := by
  rw [apply, attach, attach, onHeld]
  cases w.held with
  | none => rfl
  | some c =>
    simp only [Option.elim_some]
    rw [map_modify (g := (· ++ data)) fun _ => rfl, List.modify_modify_eq]
    exact congrArg _ (funext fun v => List.append_assoc v data more)

theorem attach_closing (more : List UInt8) :
    (w.apply config .closing).attach more = w.attach more := by
  rw [apply, attach, attach, onHeld]
  cases w.held with
  | none => rfl
  | some c =>
    have hsame := map_modify (f := fun line => { line with closed := true }) (g := id)
      (fun _ => rfl) w.lines c
    simp only [Option.elim_some]
    rw [hsame, List.modify_id]

theorem attach_opened (more : List UInt8) :
    (w.apply config .opened).attach more = w.lines.map Line.written ++ [more] := by
  rw [apply, attach, Option.elim_some, List.map_append, ← List.length_map (f := Line.written),
    List.map_singleton, modify_concat, List.nil_append]

/-- What has been sent on each connection of a trace. -/
theorem written_replay (log : List Event) :
    (log.foldl (apply config) w).lines.map Line.written =
      w.attach (spoken log) ++ sessions log := by
  induction log generalizing w with
  | nil => rw [spoken, sessions, attach_nil, List.append_nil, List.foldl_nil]
  | cons e log ih =>
    rw [List.foldl_cons, ih]
    cases e with
    | opened => rw [attach_opened, spoken, sessions, attach_nil, List.append_assoc]; rfl
    | ended => rw [spoken, attach_nil]; rfl
    | sent data => rw [attach_sent]; rfl
    | closing => rw [attach_closing]; rfl
    | arrived | finished | received => rfl

/-- All connections go to the same place. -/
def Peers (config : ConsoleConfig) (w : Wiring) : Prop :=
  ∀ line ∈ w.lines, line.host = config.host ∧ line.port = config.port

theorem Peers.onHeld (h : w.Peers config) {f : Line → Line}
    (hf : ∀ line, (f line).host = line.host ∧ (f line).port = line.port) :
    (w.onHeld f).Peers config := by
  intro line hline
  obtain ⟨c, hc⟩ := List.mem_iff_getElem?.mp hline
  rw [getElem?_onHeld] at hc
  split_ifs at hc
  · obtain ⟨line', hline', rfl⟩ := Option.map_eq_some_iff.mp hc
    rw [(hf line').1, (hf line').2]
    exact h line' (List.mem_of_getElem? hline')
  · exact h line (List.mem_of_getElem? hc)

theorem Peers.replay (h : w.Peers config) (log : List Event) :
    (log.foldl (apply config) w).Peers config := by
  induction log generalizing w with
  | nil => exact h
  | cons e log ih =>
    refine ih ?_
    cases e with
    | opened =>
      intro line hline
      rcases List.mem_append.mp hline with hline | hline
      · exact h line hline
      · obtain rfl := List.mem_singleton.mp hline
        exact ⟨rfl, rfl⟩
    | closing => exact h.onHeld fun _ => ⟨rfl, rfl⟩
    | sent data => exact h.onHeld fun _ => ⟨rfl, rfl⟩
    | ended | arrived | finished | received => exact h

end Wiring

/-! ### The connections of a proxy -/

/-- A connection but for what comes in. -/
def lineOf (conn : Connection) : Line := ⟨conn.host, conn.port, conn.written, conn.closed⟩

def wiring (p : ConsoleProxy) : Wiring := ⟨p.connections.map lineOf, p.writer⟩

variable {p : ConsoleProxy} {c : ℕ} {f : Connection → Connection}

theorem map_lineOf_modify {g : Line → Line} (h : ∀ conn, lineOf (f conn) = g (lineOf conn))
    (conns : List Connection) : (conns.modify c f).map lineOf = (conns.map lineOf).modify c g := by
  induction conns generalizing c with
  | nil => simp
  | cons conn conns ih =>
    cases c with
    | zero => simp [h]
    | succ c => simp [ih]

/-- What happens to the incoming side of a connection. -/
theorem wiring_onConnection (h : ∀ conn, lineOf (f conn) = lineOf conn) :
    (p.onConnection c f).wiring = p.wiring := by
  rw [wiring, wiring, onConnection, map_lineOf_modify (g := id) h, List.modify_id]

/-- What happens to the connection that is held. -/
theorem wiring_onHeld {g : Line → Line} (h : ∀ conn, lineOf (f conn) = g (lineOf conn))
    (hw : p.writer = some c) : (p.onConnection c f).wiring = p.wiring.onHeld g := by
  rw [wiring, wiring, onConnection, map_lineOf_modify h, Wiring.onHeld, hw, Option.elim_some]

/-- What a step makes of the connections is what its events say. -/
structure Shown (p : ConsoleProxy) (e : Effect) : Prop where
  wiring_eq : e.proxy.wiring = e.events.foldl (Wiring.apply p.config) p.wiring
  config_eq : e.proxy.config = p.config
  reader_eq : e.proxy.reader = e.proxy.writer

theorem shown_take {q : ConsoleProxy} (hq : q.wiring = p.wiring) (hconfig : q.config = p.config)
    (hreader : q.reader = q.writer) (c maxBytes : ℕ) (conn : Connection) :
    Shown p (q.take c maxBytes conn) := by
  refine ⟨(wiring_onConnection ?_).trans hq, hconfig, hreader⟩
  exact fun _ => rfl

variable (h : p.reader = p.writer)

include h

theorem shown_self (task : Task) : Shown p { proxy := p, task } := ⟨rfl, rfl, h⟩

theorem shown_start (call : Call) : Shown p (p.start call) := by
  cases call with
  | connect => exact shown_self h _
  | close =>
    rw [start]
    split
    case h_1 c hw => exact ⟨wiring_onHeld (fun _ => rfl) hw, rfl, h⟩
    case h_2 hw =>
      refine ⟨?_, rfl, h⟩
      rw [List.foldl_cons, List.foldl_nil, Wiring.apply, Wiring.onHeld, wiring, hw]
      rfl
  | send data =>
    rw [start]
    split
    case h_1 c hw => exact ⟨wiring_onHeld (fun _ => rfl) hw, rfl, h⟩
    case h_2 hw =>
      refine ⟨?_, rfl, h⟩
      rw [List.foldl_cons, List.foldl_nil, Wiring.apply, Wiring.onHeld, wiring, hw]
      rfl
  | receive maxBytes =>
    rw [start]
    split
    · exact shown_self h _
    · split
      · exact shown_self h _
      · rw [read]
        split_ifs
        · exact shown_self h _
        · exact ⟨rfl, rfl, h⟩
        · exact shown_self h _
        · exact ⟨wiring_onConnection fun _ => rfl, rfl, h⟩
        · exact shown_take rfl rfl h _ _ _

/-- **Connections and events**: a step of any call, and of the other end, changes the connections
as its events say. -/
theorem shown_act (task : Task) (a : Action) : Shown p (p.act task a) := by
  cases a with
  | arrive c data =>
    rw [act_arrive]
    split_ifs
    · exact shown_self h _
    · exact ⟨wiring_onConnection fun _ => rfl, rfl, h⟩
  | finish c =>
    rw [act_finish]
    split_ifs
    · exact shown_self h _
    · exact ⟨wiring_onConnection fun _ => rfl, rfl, h⟩
  | shut c =>
    rw [act_shut]
    refine ⟨wiring_onConnection fun conn => ?_, rfl, h⟩
    rw [Connection.shut]
    split_ifs <;> rfl
  | lose c =>
    rw [act_lose]
    exact ⟨wiring_onConnection fun _ => rfl, rfl, h⟩
  | call call =>
    cases task with
    | idle => exact shown_start h call
    | _ => exact shown_self h _
  | proceed =>
    cases task with
    | connecting => exact ⟨by simp [wiring, opened, act, Wiring.apply, lineOf], rfl, rfl⟩
    | closing => exact ⟨rfl, rfl, rfl⟩
    | reading c maxBytes wait =>
      rw [act]
      split
      · exact shown_self h _
      · split_ifs
        · refine shown_take (wiring_onConnection ?_) rfl h _ _ _
          exact fun _ => rfl
        · exact shown_self h _
    | _ => exact shown_self h _
  | raise =>
    cases task with
    | closing => exact ⟨rfl, rfl, rfl⟩
    | reading c maxBytes wait => exact ⟨wiring_onConnection fun _ => rfl, rfl, h⟩
    | _ => exact shown_self h _
  | cancel =>
    cases task with
    | reading c maxBytes wait => exact ⟨wiring_onConnection fun _ => rfl, rfl, h⟩
    | _ => exact shown_self h _

omit h

@[simp]
theorem trace_cons (s : Clients ℕ ConsoleProxy Task) (e : ℕ × Action)
    (schedule : List (ℕ × Action)) :
    trace s (e :: schedule) =
      (s.shared.act (s.locals e.1) e.2).events ++ trace (step s e).2 schedule := rfl

/-- The connections after a run are those of its trace. -/
theorem wiring_run {s : Clients ℕ ConsoleProxy Task} (h : s.shared.reader = s.shared.writer)
    (schedule : List (ℕ × Action)) :
    (run step s schedule).shared.wiring =
      (trace s schedule).foldl (Wiring.apply s.shared.config) s.shared.wiring := by
  induction schedule generalizing s with
  | nil => rfl
  | cons e schedule ih =>
    have hstep := shown_act h (s.locals e.1) e.2
    have hconfig : (step s e).2.shared.config = s.shared.config := hstep.config_eq
    have hwiring : (step s e).2.shared.wiring = _ := hstep.wiring_eq
    rw [run_cons, ih hstep.reader_eq, trace_cons, List.foldl_append, hconfig, hwiring]

theorem kept_wiring_iff : p.wiring.Kept ↔ p.Kept := by
  constructor
  · intro h c conn hconn hopen
    exact h c (lineOf conn) (by rw [wiring, List.getElem?_map, hconn]; rfl) hopen
  · intro h c line hline hopen
    rw [wiring, List.getElem?_map, Option.map_eq_some_iff] at hline
    obtain ⟨conn, hconn, rfl⟩ := hline
    exact h c conn hconn hopen

/-- **The connections of a proxy**: whatever calls of its methods are made, in whatever order they
go on, fail or are cancelled, every connection goes to the console of the configuration, its writer
has been handed what was sent while the proxy held it, in that order, and at the end it is held or
`close` was called for it, unless it was replaced by another connection, or dropped at the end of an
earlier `close`, before a `close` was called for it. -/
theorem connections_kept_iff (config : ConsoleConfig) (schedule : List (ℕ × Action)) :
    ((run step (idle config) schedule).shared.Kept ↔
      ((trace (idle config) schedule).filter Event.isLifecycle).IsChain
        fun a b => a = .opened → b = .closing) ∧
    (run step (idle config) schedule).shared.connections.map Connection.written =
      sessions (trace (idle config) schedule) ∧
    ∀ conn ∈ (run step (idle config) schedule).shared.connections,
      conn.host = config.host ∧ conn.port = config.port := by
  have hwiring := wiring_run (s := idle config) rfl schedule
  have hstart : (idle config).shared.wiring = ⟨[], none⟩ := rfl
  have hconfig : (idle config).shared.config = config := rfl
  rw [hconfig, hstart] at hwiring
  refine ⟨?_, ?_, fun conn hconn => ?_⟩
  · have hkept : (⟨[], none⟩ : Wiring).Kept := fun c line hline => nomatch hline
    have hnot : ¬ (⟨[], none⟩ : Wiring).HoldsOpen := fun ⟨c, line, hheld, _⟩ => nomatch hheld
    rw [← kept_wiring_iff, hwiring]
    exact (Wiring.kept_replay_iff hkept _).2 hnot
  · have hwritten := congrArg (fun w => w.lines.map Line.written) hwiring
    simp only [wiring, List.map_map] at hwritten
    rw [Wiring.written_replay] at hwritten
    exact hwritten
  · have hnone : (⟨[], none⟩ : Wiring).Peers config := fun line hline => nomatch hline
    have hpeers := hnone.replay (trace (idle config) schedule)
    rw [← hwiring] at hpeers
    exact hpeers (lineOf conn) (List.mem_map_of_mem hconn)

end ConsoleProxy

end TftpOS
