import Mathlib.Data.List.DropRight
import TftpOS.Lib.Except
import TftpOS.Lib.Run
import TftpOS.Python.Json
import TftpOS.Python.Text

/-!
# The audit log

`AuditLogger` of `tftpos/audit.py`: its log lines, and the ring buffer that `query` filters. An
entry is one dict in which the details of an event are stored over the type, the time and the id
of the event. So a query answers from what was logged exactly as long as no details have these
keys (`audit_faithful_iff`).
-/

namespace TftpOS

open Lib

/-- The number a value is to a comparison, if it is one. -/
def Value.asNumber {ι : Type} : Value ι → Option ℚ
  | .bool b => some (if b then 1 else 0)
  | .int n => some n
  | .float q => some q
  | _ => none

/-- `sub in s` for two strings. -/
def containsText (s sub : String) : Bool := decide (sub.toList <:+: s.toList)

/-- The fields of `AuditConfig` that decide what is kept. -/
structure AuditConfig where
  enabled : Bool := true
  bufferSize : ℕ := 1000

/-- An entry of the log. -/
abbrev AuditEntry := Dict String Json

/-- `_make_entry`; `now` and `id` are what the clock and `uuid4().hex[:16]` give. -/
def makeEntry (now : ℚ) (id eventType : String) (details : Dict String Json)
    (clientIp : Option String) : AuditEntry :=
  let entry : AuditEntry := (((∅ : Dict _ _).set "timestamp" (.float now)).set "event_id"
    (.str id)).set "event_type" (.str eventType)
  let entry := match clientIp with
    | some clientIp => entry.set "client_ip" (.str clientIp)
    | none => entry
  entry.update details

/-- `AuditLogger`. -/
structure AuditLogger (json : JsonText) where
  config : AuditConfig
  /-- The lines given to the handlers. -/
  lines : List json.Text := []
  /-- The ring buffer, newest entry last. -/
  buffer : List AuditEntry := []

/-- A call of `log`. The details come with a MAC that is a string, if with any. -/
structure LogCall where
  now : ℚ
  id : String
  eventType : String
  details : Option (Dict String Json) := none
  clientIp : Option String := none
  mac_text : ∀ v, (details.getD ∅).get? "mac" = some v → ∃ s, v = .str s

/-- The filters of a query. -/
structure AuditFilter where
  mac : Option String := none
  eventType : Option String := none
  since : Option ℚ := none

/-- The entry a call makes; details that are not given are empty. -/
def LogCall.entry (call : LogCall) : AuditEntry :=
  makeEntry call.now call.id call.eventType (call.details.getD ∅) call.clientIp

namespace AuditLogger

variable {json : JsonText}

/-- `AuditLogger.__init__`. -/
def init (config : AuditConfig) : AuditLogger json where
  config := config

/-- `log`. -/
def log (logger : AuditLogger json) (call : LogCall) : AuditEntry × AuditLogger json :=
  if !logger.config.enabled then (∅, logger)
  else
    (call.entry, { logger with
      lines := logger.lines ++ [json.dumps none (.dict call.entry.entries)]
      -- a deque with a maximal length drops from its other end
      buffer := (logger.buffer ++ [call.entry]).rtake logger.config.bufferSize })

/-- The test of the filter by MAC. -/
def macMatches (py : StrLib) (mac : String) (entry : AuditEntry) : Except PyExc Bool :=
  match (entry.get? "mac").getD (.str "") with
  | .str s => .ok (containsText (py.lower s) (py.lower mac))
  | _ => .error ⟨.attributeError, "no attribute 'lower'"⟩

/-- The test of the filter by type. -/
def typeMatches (eventType : String) (entry : AuditEntry) : Except PyExc Bool :=
  .ok ((entry.get? "event_type").bind Value.asStr = some eventType)

/-- The test of the filter by time. -/
def sinceMatches (since : ℚ) (entry : AuditEntry) : Except PyExc Bool :=
  match ((entry.get? "timestamp").getD (.int 0)).asNumber with
  | some timestamp => .ok (decide (since ≤ timestamp))
  | none => .error ⟨.typeError, "'>=' not supported"⟩

/-- A filter of a query, which is applied if it is given. -/
def applyFilter {α : Type} (matcher : α → AuditEntry → Except PyExc Bool) (value : Option α)
    (entries : List AuditEntry) : Except PyExc (List AuditEntry) :=
  match value with
  | some value => filterExcept (matcher value) entries
  | none => .ok entries

/-- `query`. -/
def query (py : StrLib) (logger : AuditLogger json) (f : AuditFilter) (limit : ℕ) :
    Except PyExc (List AuditEntry) := do
  let entries ← applyFilter (macMatches py) f.mac logger.buffer
  let entries ← applyFilter typeMatches f.eventType entries
  let entries ← applyFilter sinceMatches f.since entries
  return entries.reverse.take limit

end AuditLogger

/-! ### What was logged -/

namespace LogCall

variable (call : LogCall)

/-- The MAC in the details of a call, empty if there is none. -/
def mac : String := (((call.details.getD ∅).get? "mac").bind Value.asStr).getD ""

/-- The call passes a filter, by its own type and time and the MAC of its details. -/
def passes (py : StrLib) (f : AuditFilter) : Bool :=
  f.mac.all (fun mac => containsText (py.lower call.mac) (py.lower mac)) &&
  f.eventType.all (fun eventType => decide (call.eventType = eventType)) &&
  f.since.all fun since => decide (since ≤ call.now)

/-- An entry has the type, the time and the id of a call. -/
def Identifies (entry : AuditEntry) : Prop :=
  entry.get? "event_type" = some (.str call.eventType) ∧
  entry.get? "event_id" = some (.str call.id) ∧
  (entry.get? "timestamp").bind Value.asNumber = some call.now

/-- The details do not have the type, the time or the id of the event, unless as it is. -/
def Harmless : Prop :=
  (∀ v, (call.details.getD ∅).get? "event_type" = some v → v = .str call.eventType) ∧
  (∀ v, (call.details.getD ∅).get? "event_id" = some v → v = .str call.id) ∧
  ∀ v, (call.details.getD ∅).get? "timestamp" = some v → v.asNumber = some call.now

variable {call}

/-- An entry is looked up in the details first. -/
theorem get?_entry (key : String) :
    call.entry.get? key = ((call.details.getD ∅).get? key).or
      (if key = "timestamp" then some (.float call.now)
      else if key = "event_id" then some (.str call.id)
      else if key = "event_type" then some (.str call.eventType)
      else if key = "client_ip" then call.clientIp.map .str
      else none) := by
  rw [entry, makeEntry.eq_def, Dict.get?_update]
  congr 1
  rcases call.clientIp with _ | clientIp
  · simp only [Dict.get?_set, Dict.get?_empty, Option.map_none]
    grind
  · simp only [Dict.get?_set, Dict.get?_empty, Option.map_some]
    grind

/-- An entry has the type, the time and the id of its event exactly if the details leave them. -/
theorem identifies_entry_iff : call.Identifies call.entry ↔ call.Harmless := by
  have hread : ∀ {o : Option Json} {d : Json} {P : Json → Prop}, P d →
      ((∃ v, o.or (some d) = some v ∧ P v) ↔ ∀ v, o = some v → P v) := by
    intro o d P hd
    rcases o with _ | v <;> simp [hd]
  have htype := @hread ((call.details.getD ∅).get? "event_type") (.str call.eventType)
    (· = .str call.eventType) rfl
  have hid := @hread ((call.details.getD ∅).get? "event_id") (.str call.id) (· = .str call.id) rfl
  have htime := @hread ((call.details.getD ∅).get? "timestamp") (.float call.now)
    (fun v => v.asNumber = some call.now) rfl
  rw [Identifies, Harmless, ← htype, ← hid, ← htime, get?_entry, get?_entry, get?_entry]
  simp

end LogCall

/-! ### Runs -/

namespace AuditLogger

variable {json : JsonText} {py : StrLib} {logger : AuditLogger json} {call : LogCall}

variable (json) in
/-- The logger after some calls. -/
def after (config : AuditConfig) (calls : List LogCall) : AuditLogger json :=
  run log (init config) calls

/-- The entries of the last calls among some, as many as the buffer holds, that pass a filter:
newest first, and not more than `limit`. -/
def expected (py : StrLib) (bufferSize : ℕ) (calls : List LogCall) (f : AuditFilter) (limit : ℕ) :
    List AuditEntry :=
  ((((calls.rtake bufferSize).filter (·.passes py f)).map LogCall.entry).reverse).take limit

variable (json) in
/-- The log is faithful on a run: every entry has the type, the time and the id of its event, and
every query answers from what was logged. -/
def Faithful (py : StrLib) (bufferSize : ℕ) (calls : List LogCall) : Prop :=
  List.Forall₂ LogCall.Identifies calls
      (outputs log (init ⟨true, bufferSize⟩ : AuditLogger json) calls) ∧
  ∀ f limit, (after json ⟨true, bufferSize⟩ calls).query py f limit =
    .ok (expected py bufferSize calls f limit)

/-- What a bounded log keeps after one more entry. -/
private theorem rtake_rtake_concat {α : Type} (l : List α) (a : α) (n : ℕ) :
    (l.rtake n ++ [a]).rtake n = (l ++ [a]).rtake n := by
  cases n with
  | zero => simp
  | succ n =>
    rw [List.rtake_concat_succ, List.rtake_concat_succ]
    congr 1
    rw [List.rtake_eq_reverse_take_reverse, List.rtake_eq_reverse_take_reverse,
      List.rtake_eq_reverse_take_reverse, List.reverse_reverse, List.take_take,
      Nat.min_eq_left n.le_succ]

private theorem map_rtake {α β : Type} (f : α → β) (l : List α) (n : ℕ) :
    (l.rtake n).map f = (l.map f).rtake n := by
  rw [List.rtake, List.rtake, List.map_drop, List.length_map]

theorem log_of_enabled (h : logger.config.enabled = true) :
    logger.log call = (call.entry, { logger with
      lines := logger.lines ++ [json.dumps none (.dict call.entry.entries)]
      buffer := (logger.buffer ++ [call.entry]).rtake logger.config.bufferSize }) := by
  rw [log, h]
  rfl

/-- The buffer holds the entries of the last calls. -/
theorem after_spec (bufferSize : ℕ) (calls : List LogCall) :
    (after json ⟨true, bufferSize⟩ calls).config = ⟨true, bufferSize⟩ ∧
      (after json ⟨true, bufferSize⟩ calls).buffer =
        (calls.map LogCall.entry).rtake bufferSize := by
  refine run_induction (P := fun calls (logger : AuditLogger json) =>
    logger.config = ⟨true, bufferSize⟩ ∧
      logger.buffer = (calls.map LogCall.entry).rtake bufferSize) ⟨rfl, by simp [init]⟩ ?_ calls
  rintro calls call ⟨hconfig, hbuffer⟩
  rw [log_of_enabled (by rw [hconfig])]
  refine ⟨hconfig, ?_⟩
  dsimp only
  rw [hconfig, hbuffer, rtake_rtake_concat, List.map_append, List.map_singleton]

/-- Every call returns its entry. -/
theorem outputs_log (calls : List LogCall) (h : logger.config.enabled = true) :
    outputs log logger calls = calls.map LogCall.entry := by
  induction calls generalizing logger with
  | nil => rfl
  | cons call calls ih =>
    rw [outputs_cons, log_of_enabled h, List.map_cons, ih]
    exact h

/-! ### Queries -/

/-- The MAC of an entry is that of the details of its call. -/
theorem macMatches_entry (mac : String) :
    macMatches py mac call.entry = .ok (containsText (py.lower call.mac) (py.lower mac)) := by
  rw [macMatches, LogCall.get?_entry, LogCall.mac]
  rcases hmac : (call.details.getD ∅).get? "mac" with _ | v
  · rfl
  · obtain ⟨s, rfl⟩ := call.mac_text v hmac
    rfl

theorem typeMatches_entry (h : call.Harmless) (eventType : String) :
    typeMatches eventType call.entry = .ok (decide (call.eventType = eventType)) := by
  rw [typeMatches, (LogCall.identifies_entry_iff.mpr h).1]
  simp [Value.asStr]

theorem sinceMatches_entry (h : call.Harmless) (since : ℚ) :
    sinceMatches since call.entry = .ok (decide (since ≤ call.now)) := by
  obtain ⟨-, -, htime⟩ := LogCall.identifies_entry_iff.mpr h
  obtain ⟨v, hv, hnumber⟩ := Option.bind_eq_some_iff.mp htime
  rw [sinceMatches, hv, Option.getD_some, hnumber]

/-- A filter on the entries of calls. -/
theorem applyFilter_map {α : Type} {matcher : α → AuditEntry → Except PyExc Bool}
    {p : α → LogCall → Bool} {calls : List LogCall}
    (h : ∀ a, ∀ call ∈ calls, matcher a call.entry = .ok (p a call)) (value : Option α) :
    applyFilter matcher value (calls.map LogCall.entry) =
      .ok ((calls.filter fun call => value.all fun a => p a call).map LogCall.entry) := by
  cases value with
  | none => simp [applyFilter]
  | some a => exact filterExcept_map (h a)

/-- A query of the entries of harmless calls filters the calls. -/
theorem query_of_harmless {calls : List LogCall}
    (hbuffer : logger.buffer = calls.map LogCall.entry) (h : ∀ call ∈ calls, call.Harmless)
    (f : AuditFilter) (limit : ℕ) :
    logger.query py f limit =
      .ok ((((calls.filter (·.passes py f)).map LogCall.entry).reverse).take limit) := by
  have hpasses : calls.filter (·.passes py f) =
      ((calls.filter fun call => f.mac.all fun mac =>
        containsText (py.lower call.mac) (py.lower mac)).filter fun call =>
          f.eventType.all fun eventType => decide (call.eventType = eventType)).filter fun call =>
            f.since.all fun since => decide (since ≤ call.now) := by
    rw [List.filter_filter, List.filter_filter]
    refine List.filter_congr fun call _ => ?_
    rw [LogCall.passes]
    ac_rfl
  -- the filters in their order, each on what the one before left
  rw [query, hbuffer, applyFilter_map fun mac call _ => macMatches_entry mac, ok_bind,
    applyFilter_map fun eventType call hcall =>
      typeMatches_entry (h call (List.mem_of_mem_filter hcall)) eventType, ok_bind,
    applyFilter_map fun since call hcall =>
      sinceMatches_entry (h call (List.mem_of_mem_filter (List.mem_of_mem_filter hcall))) since,
    ok_bind, hpasses]
  rfl

/-- **The audit log is faithful** on a run exactly where no details have a type, a time or an id
other than that of their event. -/
theorem audit_faithful_iff (json : JsonText) (py : StrLib) (bufferSize : ℕ)
    (calls : List LogCall) :
    Faithful json py bufferSize calls ↔ ∀ call ∈ calls, call.Harmless := by
  have hentries : List.Forall₂ LogCall.Identifies calls (calls.map LogCall.entry) ↔
      ∀ call ∈ calls, call.Harmless := by
    rw [List.forall₂_map_right_iff, List.forall₂_same]
    exact forall₂_congr fun call _ => LogCall.identifies_entry_iff
  rw [Faithful, outputs_log calls rfl, hentries]
  refine and_iff_left_of_imp fun h f limit => ?_
  obtain ⟨-, hbuffer⟩ := @after_spec json bufferSize calls
  rw [← map_rtake] at hbuffer
  refine query_of_harmless hbuffer (fun call hcall => h call ?_) f limit
  exact List.mem_of_mem_drop hcall

end AuditLogger

/-- A call whose details have a type. -/
def forgedCall : LogCall where
  now := 1
  id := "00"
  eventType := "auth_failure"
  details := some ((∅ : Dict String Json).set "event_type" (.str "auth_success"))
  mac_text := by
    intro v h
    cases h

/-- The event is found under the type in its details, and not under its own. -/
theorem forged_type :
    (AuditLogger.after .parsed ⟨true, 10⟩ [forgedCall]).query .ascii
      { eventType := some "auth_failure" } 100 = .ok [] ∧
    ¬ AuditLogger.Faithful .parsed .ascii 10 [forgedCall] := by
  have hquery : (AuditLogger.after .parsed ⟨true, 10⟩ [forgedCall]).query .ascii
      { eventType := some "auth_failure" } 100 = .ok [] := rfl
  refine ⟨hquery, fun h => ?_⟩
  have hexpected := hquery.symm.trans (h.2 { eventType := some "auth_failure" } 100)
  have hlength := congrArg (fun r => r.toOption.map List.length) hexpected
  revert hlength
  decide +kernel

end TftpOS
