import TftpOS.Lib.Except
import TftpOS.Lib.Run
import TftpOS.Python.Text
import TftpOS.Python.Value

/-!
# Provisioning state tracking

`ProvisionTracker` of `tftpos/state.py`: records keyed by the lower-cased MAC, callbacks per
state, and an optional storage backend. Floats of `time.time()` are rationals, and every
operation that reads the clock carries its reading.

An operation first updates the records in memory, then saves to the backend, then fires the
callbacks; when one of the last two raises, the records stay updated. So the records evolve on
their own (`step_records`), and statements about them do not depend on the backend.
-/

namespace TftpOS

open Lib

/-- `ProvisionState`. -/
inductive ProvisionState where
  | registered
  | booting
  | installing
  | postInstall
  | complete
  | failed
  deriving DecidableEq

/-- The value of a state, as it is stored. -/
def ProvisionState.value : ProvisionState → String
  | .registered => "registered"
  | .booting => "booting"
  | .installing => "installing"
  | .postInstall => "post_install"
  | .complete => "complete"
  | .failed => "failed"

/-- `ProvisionRecord`. -/
structure ProvisionRecord where
  mac : String
  profile : String
  osFamily : String
  osVersion : String
  state : ProvisionState := .registered
  startedAt : Option ℚ := none
  updatedAt : Option ℚ := none
  completedAt : Option ℚ := none
  errorMessage : Option String := none
  history : List (ProvisionState × ℚ) := []
  netbootEnabled : Bool := true
  deriving DecidableEq

namespace ProvisionRecord

/-- The record `register` creates. -/
def fresh (mac profile osFamily osVersion : String) (now : ℚ) : ProvisionRecord where
  mac := mac
  profile := profile
  osFamily := osFamily
  osVersion := osVersion
  startedAt := some now
  updatedAt := some now
  history := [(.registered, now)]

/-- The field updates of `transition`. -/
def enter (record : ProvisionRecord) (newState : ProvisionState) (now : ℚ)
    (errorMessage : Option String) : ProvisionRecord :=
  { record with
    state := newState
    updatedAt := some now
    history := record.history ++ [(newState, now)]
    completedAt := if newState = .complete then some now else record.completedAt
    errorMessage := if (filled errorMessage).isSome then errorMessage else record.errorMessage }

/-- The field update of `enable_netboot` and `disable_netboot`. -/
def setNetboot (record : ProvisionRecord) (enabled : Bool) : ProvisionRecord :=
  { record with netbootEnabled := enabled }

end ProvisionRecord

/-- The interface `StorageBackend` of `tftpos/db.py`. An operation that raises leaves the
backend as it was. -/
class StorageBackend (σ : Type) where
  save : σ → ProvisionRecord → Except PyExc σ
  get : σ → String → Except PyExc (Option ProvisionRecord)
  listAll : σ → Except PyExc (List ProvisionRecord)
  delete : σ → String → Except PyExc (Bool × σ)
  clear : σ → Except PyExc σ

/-- The backend of a tracker built without one: it has no states. -/
instance : StorageBackend Empty where
  save b := b.elim
  get b := b.elim
  listAll b := b.elim
  delete b := b.elim
  clear b := b.elim

/-- A callback for a state change: it returns or raises. -/
abbrev Callback := ProvisionRecord → Except PyExc Unit

/-- `ProvisionTracker`. -/
structure ProvisionTracker (σ : Type) where
  backend : Option σ
  /-- The records, keyed by the lower-cased MAC. -/
  records : Dict String ProvisionRecord
  callbacks : ProvisionState → List Callback

namespace ProvisionTracker

variable {σ : Type} [StorageBackend σ]

/-- The loop of `ProvisionTracker.__init__` over the records loaded from the backend. -/
def load (py : StrLib) (loaded : List ProvisionRecord) : Dict String ProvisionRecord :=
  loaded.foldl (fun d rec => d.set (py.lower rec.mac) rec) ∅

/-- `ProvisionTracker.__init__`. -/
def init (py : StrLib) : Option σ → Except PyExc (ProvisionTracker σ)
  | none => .ok ⟨none, ∅, fun _ => []⟩
  | some b => (StorageBackend.listAll b).map fun loaded => ⟨some b, load py loaded, fun _ => []⟩

/-- `if self._backend is not None: self._backend.save(record)`. -/
def persist (t : ProvisionTracker σ) (record : ProvisionRecord) :
    Except PyExc (ProvisionTracker σ) :=
  match t.backend with
  | none => .ok t
  | some b => (StorageBackend.save b record).map fun b' => { t with backend := some b' }

/-- `_fire_callbacks`: stops at the first callback that raises. -/
def fireCallbacks (t : ProvisionTracker σ) (state : ProvisionState) (record : ProvisionRecord) :
    Except PyExc Unit :=
  (t.callbacks state).forM fun cb => cb record

/-- The exception for a MAC without a record. -/
def noRecord (mac : String) : PyExc := ⟨.valueError, "No provisioning record for " ++ mac⟩

/-- Store an updated record under its key, then save it. -/
def update (t : ProvisionTracker σ) (key : String) (record : ProvisionRecord) :
    Except PyExc Unit × ProvisionTracker σ :=
  -- the record in memory stays updated when the backend raises
  let t := { t with records := t.records.set key record }
  match t.persist record with
  | .error e => (.error e, t)
  | .ok t => (.ok (), t)

/-- `register`. -/
def register (py : StrLib) (t : ProvisionTracker σ) (now : ℚ)
    (mac profile osFamily osVersion : String) :
    Except PyExc ProvisionRecord × ProvisionTracker σ :=
  let record := ProvisionRecord.fresh mac profile osFamily osVersion now
  match t.update (py.lower mac) record with
  | (.error e, t) => (.error e, t)
  | (.ok (), t) => ((t.fireCallbacks .registered record).map fun _ => record, t)

/-- `transition`. -/
def transition (py : StrLib) (t : ProvisionTracker σ) (now : ℚ) (mac : String)
    (newState : ProvisionState) (errorMessage : Option String) :
    Except PyExc ProvisionRecord × ProvisionTracker σ :=
  match t.records.get? (py.lower mac) with
  | none => (.error (noRecord mac), t)
  | some record =>
    -- the source updates the fields without asking whether `newState` may follow
    let record := record.enter newState now errorMessage
    match t.update (py.lower mac) record with
    | (.error e, t) => (.error e, t)
    | (.ok (), t) => ((t.fireCallbacks newState record).map fun _ => record, t)

/-- `get`. -/
def get (py : StrLib) (t : ProvisionTracker σ) (mac : String) : Option ProvisionRecord :=
  t.records.get? (py.lower mac)

/-- `list_all`. -/
def listAll (t : ProvisionTracker σ) : List ProvisionRecord := t.records.values

/-- `is_netboot_enabled`: a MAC without a record counts as enabled. -/
def isNetbootEnabled (py : StrLib) (t : ProvisionTracker σ) (mac : String) : Bool :=
  match t.get py mac with
  | none => true
  | some record => record.netbootEnabled

/-- `enable_netboot` and `disable_netboot` differ in the flag they set. -/
def setNetboot (py : StrLib) (t : ProvisionTracker σ) (mac : String) (enabled : Bool) :
    Except PyExc ProvisionRecord × ProvisionTracker σ :=
  match t.get py mac with
  | none => (.error (noRecord mac), t)
  | some record =>
    let record := record.setNetboot enabled
    match t.update (py.lower mac) record with
    | (.error e, t) => (.error e, t)
    | (.ok (), t) => (.ok record, t)

/-- `disable_netboot`. -/
def disableNetboot (py : StrLib) (t : ProvisionTracker σ) (mac : String) :
    Except PyExc ProvisionRecord × ProvisionTracker σ :=
  t.setNetboot py mac false

/-- `enable_netboot`. -/
def enableNetboot (py : StrLib) (t : ProvisionTracker σ) (mac : String) :
    Except PyExc ProvisionRecord × ProvisionTracker σ :=
  t.setNetboot py mac true

/-- `clear`. -/
def clear (t : ProvisionTracker σ) : Except PyExc Unit × ProvisionTracker σ :=
  let t := { t with records := ∅ }
  match t.backend with
  | none => (.ok (), t)
  | some b =>
    match StorageBackend.clear b with
    | .error e => (.error e, t)
    | .ok b' => (.ok (), { t with backend := some b' })

/-- A call on the tracker, with the clock reading of the calls that take one. -/
inductive Op where
  | register (now : ℚ) (mac profile osFamily osVersion : String)
  | transition (now : ℚ) (mac : String) (newState : ProvisionState)
      (errorMessage : Option String)
  | enableNetboot (mac : String)
  | disableNetboot (mac : String)
  | clear

/-- One call: the record it returns, if any, or the exception it raises. -/
def step (py : StrLib) (t : ProvisionTracker σ) :
    Op → Except PyExc (Option ProvisionRecord) × ProvisionTracker σ
  | .register now mac profile osFamily osVersion =>
    (t.register py now mac profile osFamily osVersion).map (·.map some) id
  | .transition now mac newState errorMessage =>
    (t.transition py now mac newState errorMessage).map (·.map some) id
  | .enableNetboot mac => (t.enableNetboot py mac).map (·.map some) id
  | .disableNetboot mac => (t.disableNetboot py mac).map (·.map some) id
  | .clear => t.clear.map (·.map fun _ => none) id

/-! ### The records evolve on their own -/

/-- What a call does to the tracker. -/
inductive Effect where
  | nothing
  | write (key : String) (record : ProvisionRecord)
  | clear

/-- The effect of a call, read off the records before it. -/
def Op.effect (py : StrLib) (d : Dict String ProvisionRecord) : Op → Effect
  | .register now mac profile osFamily osVersion =>
    .write (py.lower mac) (.fresh mac profile osFamily osVersion now)
  | .transition now mac newState errorMessage =>
    match d.get? (py.lower mac) with
    | none => .nothing
    | some record => .write (py.lower mac) (record.enter newState now errorMessage)
  | .enableNetboot mac =>
    match d.get? (py.lower mac) with
    | none => .nothing
    | some record => .write (py.lower mac) (record.setNetboot true)
  | .disableNetboot mac =>
    match d.get? (py.lower mac) with
    | none => .nothing
    | some record => .write (py.lower mac) (record.setNetboot false)
  | .clear => .clear

/-- An effect on the records. -/
def Effect.onRecords (d : Dict String ProvisionRecord) : Effect → Dict String ProvisionRecord
  | .nothing => d
  | .write key record => d.set key record
  | .clear => ∅

/-- An effect on the whole tracker. -/
def Effect.onTracker (t : ProvisionTracker σ) : Effect → ProvisionTracker σ
  | .nothing => t
  | .write key record => (t.update key record).2
  | .clear => t.clear.2

variable {py : StrLib} {t : ProvisionTracker σ}

theorem register_snd (now : ℚ) (mac profile osFamily osVersion : String) :
    (t.register py now mac profile osFamily osVersion).2 =
      (t.update (py.lower mac) (.fresh mac profile osFamily osVersion now)).2 := by
  rw [register]
  split <;> next h => rw [h]

theorem transition_snd (now : ℚ) (mac : String) (newState : ProvisionState)
    (errorMessage : Option String) :
    (t.transition py now mac newState errorMessage).2 =
      ((Op.transition now mac newState errorMessage).effect py t.records).onTracker t := by
  rw [transition, Op.effect]
  split
  · rfl
  · dsimp only [Effect.onTracker]
    split <;> next h => rw [h]

theorem setNetboot_snd (mac : String) (enabled : Bool) :
    (t.setNetboot py mac enabled).2 =
      (match t.records.get? (py.lower mac) with
      | none => Effect.nothing
      | some record => .write (py.lower mac) (record.setNetboot enabled)).onTracker t := by
  rw [setNetboot, get]
  split
  · rfl
  · dsimp only [Effect.onTracker]
    split <;> next h => rw [h]

/-- **What a call does**, whatever it returns or raises. -/
theorem step_snd (op : Op) : (step py t op).2 = (op.effect py t.records).onTracker t := by
  cases op with
  | register now mac profile osFamily osVersion =>
    exact register_snd now mac profile osFamily osVersion
  | transition now mac newState errorMessage =>
    exact transition_snd now mac newState errorMessage
  | enableNetboot mac => exact setNetboot_snd mac true
  | disableNetboot mac => exact setNetboot_snd mac false
  | clear => rfl

theorem persist_records {record : ProvisionRecord} {t' : ProvisionTracker σ}
    (h : t.persist record = .ok t') : t'.records = t.records := by
  rw [persist] at h
  split at h
  · cases h
    rfl
  · next b _ =>
    obtain ⟨b', -, rfl⟩ := map_eq_ok_iff.mp h
    rfl

@[simp]
theorem update_records (key : String) (record : ProvisionRecord) :
    (t.update key record).2.records = t.records.set key record := by
  rw [update]
  split
  · rfl
  · next h => exact persist_records h

@[simp]
theorem clear_records : t.clear.2.records = ∅ := by
  rw [clear]
  split
  · rfl
  · split <;> rfl

/-- The records after a call do not depend on the backend or the callbacks, nor on whether one
of them raised. -/
theorem step_records (op : Op) :
    (step py t op).2.records = (op.effect py t.records).onRecords t.records := by
  rw [step_snd]
  cases op.effect py t.records with
  | nothing => rfl
  | write key record => exact update_records key record
  | clear => exact clear_records

end ProvisionTracker

end TftpOS
