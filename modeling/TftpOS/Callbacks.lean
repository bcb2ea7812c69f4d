import TftpOS.State

/-!
# Callbacks that transition

The callbacks of `ProvisionTracker` run inside `register` and `transition`, on the record that
the tracker holds, so a callback may call `transition` again before the callbacks after it have
run. `State` models callbacks that only return or raise; here a callback is a `Listener`, whose
`Reaction` may perform transitions of its record and go on with what they return or raise.

A `Traced` tracker also keeps a log: an event for each entry of a history, for each call of a
callback and for each exception that leaves one. A callback may depend on everything logged
before its call, so it may keep a state of its own.

For callbacks that perform no transition this is `ProvisionTracker.transition` again
(`Traced.transition_plain`).
-/

namespace TftpOS

open Lib

/-- What a callback does once it is called. After a transition it goes on with what the call
returned or raised and with its record, as the record is then. -/
inductive Reaction where
  | returns
  | raises (e : PyExc)
  | transitions (newState : ProvisionState) (errorMessage : Option String)
      (next : Except PyExc ProvisionRecord → ProvisionRecord → Reaction)

/-- What happens to a tracker. An entry is named by its place in the log. -/
inductive TrackerEvent where
  /-- A state is appended to the history of the record under a key, which `fresh` says is a
  new record; `saved` says whether the backend took it. -/
  | entered (key : String) (state : ProvisionState) (fresh saved : Bool)
  /-- The callback at a position of the list for the entry's state is called, with a record
  that is in the state `current`. -/
  | invoked (entry position : ℕ) (current : ProvisionState)
  /-- The callback at that position raises. -/
  | raised (entry position : ℕ)
  | cleared
  deriving DecidableEq

/-- A callback: what it does depends on its record and on what happened before. -/
abbrev Listener := List TrackerEvent → ProvisionRecord → Reaction

/-- The field `_callbacks`. -/
abbrev Listeners := ProvisionState → List Listener

/-- `on_state_change`. -/
def onStateChange (listeners : Listeners) (state : ProvisionState) (callback : Listener) :
    Listeners :=
  fun s => if s = state then listeners s ++ [callback] else listeners s

/-- A tracker, with the log of what happened to it. -/
structure Traced (σ : Type) where
  tracker : ProvisionTracker σ
  log : List TrackerEvent

namespace Traced

variable {σ : Type} [StorageBackend σ]

/-- A call of `transition`, as a callback can make it. -/
abbrev Transition (σ : Type) :=
  String → ProvisionState → Option String → Traced σ → Except PyExc ProvisionRecord × Traced σ

/-- Add an event to the log. -/
def note (w : Traced σ) (event : TrackerEvent) : Traced σ := { w with log := w.log ++ [event] }

/-- The record a caller holds, as it is now: the tracker changes its records in place. -/
def shared (w : Traced σ) (key : String) (record : ProvisionRecord) : ProvisionRecord :=
  (w.tracker.records.get? key).getD record

/-- Run what a callback does. -/
def react (nested : Transition σ) (key : String) (record : ProvisionRecord) :
    Reaction → Traced σ → Except PyExc Unit × Traced σ
  | .returns, w => (.ok (), w)
  | .raises e, w => (.error e, w)
  | .transitions newState errorMessage next, w =>
    let called := nested record.mac newState errorMessage w
    react nested key record (next called.1 (called.2.shared key record)) called.2

/-- `_fire_callbacks`, from a position on: the loop ends at the first callback that raises. -/
def fireCallbacks (nested : Transition σ) (key : String) (record : ProvisionRecord)
    (entry : ℕ) : ℕ → List Listener → Traced σ → Except PyExc Unit × Traced σ
  | _, [], w => (.ok (), w)
  | position, cb :: cbs, w =>
    let now := w.shared key record
    let w := w.note (.invoked entry position now.state)
    match react nested key now (cb w.log now) w with
    | (.error e, w) => (.error e, w.note (.raised entry position))
    | (.ok (), w) => fireCallbacks nested key record entry (position + 1) cbs w

/-- What `register` and `transition` do with the record they have updated: store it, save it and
fire the callbacks of its state. The record returned is the one the tracker holds. -/
def enter (nested : Transition σ) (listeners : Listeners) (w : Traced σ) (key : String)
    (record : ProvisionRecord) (fresh : Bool) : Except PyExc ProvisionRecord × Traced σ :=
  match w.tracker.update key record with
  | (.error e, t) => (.error e, ⟨t, w.log ++ [.entered key record.state fresh false]⟩)
  | (.ok (), t) =>
    let fired := fireCallbacks nested key record w.log.length 0 (listeners record.state)
      ⟨t, w.log ++ [.entered key record.state fresh true]⟩
    (fired.1.map fun _ => fired.2.shared key record, fired.2)

/-- `register`. -/
def register (nested : Transition σ) (py : StrLib) (listeners : Listeners) (now : ℚ)
    (mac profile osFamily osVersion : String) (w : Traced σ) :
    Except PyExc ProvisionRecord × Traced σ :=
  w.enter nested listeners (py.lower mac) (.fresh mac profile osFamily osVersion now) true

/-- `transition`. -/
def transition (nested : Transition σ) (py : StrLib) (listeners : Listeners) (now : ℚ)
    (mac : String) (newState : ProvisionState) (errorMessage : Option String) (w : Traced σ) :
    Except PyExc ProvisionRecord × Traced σ :=
  match w.tracker.records.get? (py.lower mac) with
  | none => (.error (ProvisionTracker.noRecord mac), w)
  | some record =>
    w.enter nested listeners (py.lower mac) (record.enter newState now errorMessage) false

/-- `transition`, when the interpreter takes `depth` more calls inside each other. The clock
is read at the place the entry gets in the log. -/
def transitionAt (py : StrLib) (listeners : Listeners) (clock : ℕ → ℚ) : ℕ → Transition σ
  | 0 => fun _ _ _ w => (.error ⟨.runtimeError, "maximum recursion depth exceeded"⟩, w)
  | depth + 1 => fun mac newState errorMessage w =>
    w.transition (transitionAt py listeners clock depth) py listeners (clock w.log.length) mac
      newState errorMessage

/-- A call on the tracker from outside a callback. -/
def step (py : StrLib) (listeners : Listeners) (clock : ℕ → ℚ) (depth : ℕ) (w : Traced σ) :
    ProvisionTracker.Op → Except PyExc (Option ProvisionRecord) × Traced σ
  | .register now mac profile osFamily osVersion =>
    (w.register (transitionAt py listeners clock depth) py listeners now mac profile osFamily
      osVersion).map (·.map some) id
  | .transition now mac newState errorMessage =>
    (w.transition (transitionAt py listeners clock depth) py listeners now mac newState
      errorMessage).map (·.map some) id
  | .clear => (w.tracker.step py .clear).map id fun t => ⟨t, w.log ++ [.cleared]⟩
  -- the netboot flag is not part of a history
  | .enableNetboot mac => (w.tracker.step py (.enableNetboot mac)).map id fun t => ⟨t, w.log⟩
  | .disableNetboot mac => (w.tracker.step py (.disableNetboot mac)).map id fun t => ⟨t, w.log⟩

/-! ### Callbacks that perform no transition -/

/-- A callback that returns or raises. -/
def plain (cb : Callback) : Listener := fun _ record =>
  match cb record with
  | .ok () => .returns
  | .error e => .raises e

variable {py : StrLib} (nested : Transition σ)

omit [StorageBackend σ] in
/-- Calls of plain callbacks leave the tracker alone and raise what the callbacks raise. -/
theorem fireCallbacks_plain {key : String} {record : ProvisionRecord} (entry : ℕ)
    (cbs : List Callback) (position : ℕ) (w : Traced σ)
    (hrecord : w.tracker.records.get? key = some record) :
    (fireCallbacks nested key record entry position (cbs.map plain) w).1 =
        cbs.forM (fun cb => cb record) ∧
      (fireCallbacks nested key record entry position (cbs.map plain) w).2.tracker =
        w.tracker := by
  induction cbs generalizing position w with
  | nil => exact ⟨rfl, rfl⟩
  | cons cb cbs ih =>
    have hshared : w.shared key record = record := by simp [shared, hrecord]
    rw [List.map_cons, fireCallbacks, hshared, plain, List.forM_eq_forM, List.forM_cons]
    cases hcb : cb record with
    | error e => exact ⟨rfl, rfl⟩
    | ok u => exact ih (position + 1) (w.note (.invoked entry position record.state)) hrecord

theorem update_callbacks {t : ProvisionTracker σ} (key : String) (record : ProvisionRecord) :
    (t.update key record).2.callbacks = t.callbacks := by
  rw [ProvisionTracker.update, ProvisionTracker.persist]
  cases t.backend with
  | none => rfl
  | some b =>
    dsimp only
    cases StorageBackend.save b record <;> rfl

theorem enter_state (record : ProvisionRecord) (newState : ProvisionState) (now : ℚ)
    (errorMessage : Option String) :
    (record.enter newState now errorMessage).state = newState := rfl

/-- With callbacks that perform no transition, `transition` is that of the plain tracker. -/
theorem transition_plain {t : ProvisionTracker σ} {log : List TrackerEvent} (now : ℚ)
    (mac : String) (newState : ProvisionState) (errorMessage : Option String) :
    let traced := transition nested py (fun s => (t.callbacks s).map plain) now mac newState
      errorMessage ⟨t, log⟩
    traced.1 = (t.transition py now mac newState errorMessage).1 ∧
      traced.2.tracker = (t.transition py now mac newState errorMessage).2 := by
  dsimp only
  rw [transition, ProvisionTracker.transition]
  cases t.records.get? (py.lower mac) with
  | none => exact ⟨rfl, rfl⟩
  | some record =>
    dsimp only
    rw [enter]
    obtain ⟨saved, t', hupdate⟩ : ∃ saved t', t.update (py.lower mac)
        (record.enter newState now errorMessage) = (saved, t') := ⟨_, _, rfl⟩
    rw [hupdate]
    cases saved with
    | error e => exact ⟨rfl, rfl⟩
    | ok u =>
      have hrecords := t.update_records (py.lower mac) (record.enter newState now errorMessage)
      have hcallbacks := update_callbacks (t := t) (py.lower mac)
        (record.enter newState now errorMessage)
      rw [hupdate] at hrecords hcallbacks
      dsimp only at hrecords hcallbacks
      obtain ⟨hraised, hkept⟩ := fireCallbacks_plain nested log.length
        (t.callbacks newState) 0 ⟨t', log ++ [.entered (py.lower mac) newState false true]⟩
        (by rw [hrecords, Dict.get?_set_self])
      dsimp only
      refine ⟨?_, hkept⟩
      rw [ProvisionTracker.fireCallbacks, hcallbacks, enter_state, shared, hkept, hrecords,
        Dict.get?_set_self]
      exact congrArg _ hraised

end Traced

end TftpOS
