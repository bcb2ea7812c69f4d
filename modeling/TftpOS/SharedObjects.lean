import TftpOS.SharedBackend

/-!
# Trackers on one in-memory backend

`MemoryBackend` stores the record objects that it is given and hands out the same objects. So a
record is a place in the list of the objects made so far, the backend and every tracker hold
places, and an update in place is seen wherever its object is held. An object that one tracker has
replaced, by registering its MAC again, is still held by the others, which store it back when they
next write it.

So the trackers do not share every record here either, and the transitions that have returned stay
in the stored histories under the condition that persistent backends need (`progress_kept_iff`).
-/

namespace TftpOS

open Lib
open scoped List

namespace ProvisionTracker

/-! ### Record objects -/

/-- The objects made so far, the places that the backend stores, and by key the transitions that
have returned since the last register or clear. -/
structure Memory where
  objects : List ProvisionRecord
  /-- `MemoryBackend._records`. -/
  stored : Dict String ℕ
  returned : String → List (ProvisionState × ℚ)

/-- A tracker whose records are objects. -/
structure ObjectTracker where
  records : Dict String ℕ
  callbacks : ProvisionState → List Callback

namespace Memory

/-- The object that a dictionary has under a key, with its place. -/
def find (m : Memory) (d : Dict String ℕ) (key : String) : Option (ℕ × ProvisionRecord) := do
  let place ← d.get? key
  let record ← m.objects[place]?
  return (place, record)

/-- A new object is made and saved. -/
def create (py : StrLib) (m : Memory) (record : ProvisionRecord) : Memory :=
  { m with
    objects := m.objects ++ [record]
    stored := m.stored.set (py.lower record.mac) m.objects.length }

/-- An object is updated in place and saved. -/
def write (py : StrLib) (m : Memory) (place : ℕ) (record : ProvisionRecord) : Memory :=
  { m with
    objects := m.objects.set place record
    stored := m.stored.set (py.lower record.mac) place }

/-- The loop of `ProvisionTracker.__init__` over the objects of the backend. -/
def load (py : StrLib) (m : Memory) : Dict String ℕ :=
  m.stored.values.foldl (fun d place =>
    match m.objects[place]? with
    | some record => d.set (py.lower record.mac) place
    | none => d) ∅

/-- A backend that was constructed and given these records. -/
def holding (py : StrLib) (saved : List ProvisionRecord) : Memory :=
  saved.foldl (create py) ⟨[], ∅, fun _ => []⟩

/-- The history that the backend returns for a MAC. -/
def history (py : StrLib) (m : Memory) (mac : String) : List (ProvisionState × ℚ) :=
  match m.find m.stored (py.lower mac) with
  | some (_, record) => record.history
  | none => []

/-- Every transition that has returned is in the stored history. -/
def Kept (py : StrLib) (m : Memory) : Prop :=
  ∀ mac, m.returned (py.lower mac) <+ m.history py mac

/-- A dictionary has objects under their MACs, lower-cased. -/
def Files (py : StrLib) (m : Memory) (d : Dict String ℕ) : Prop :=
  ∀ key place, d.get? key = some place → ∃ r, m.objects[place]? = some r ∧ py.lower r.mac = key

end Memory

namespace ObjectTracker

/-- `_fire_callbacks`. -/
def fireCallbacks (t : ObjectTracker) (state : ProvisionState) (record : ProvisionRecord) :
    Except PyExc Unit :=
  (t.callbacks state).forM fun cb => cb record

/-- `enable_netboot` and `disable_netboot`. -/
def setNetboot (py : StrLib) (m : Memory) (t : ObjectTracker) (mac : String) (enabled : Bool) :
    Except PyExc (Option ProvisionRecord) × Memory × ObjectTracker :=
  match m.find t.records (py.lower mac) with
  | none => (.error (noRecord mac), m, t)
  | some (place, record) =>
    let record := record.setNetboot enabled
    (.ok (some record), m.write py place record, t)

/-- One call. The backend's own methods raise nothing. -/
def step (py : StrLib) (m : Memory) (t : ObjectTracker) :
    Op → Except PyExc (Option ProvisionRecord) × Memory × ObjectTracker
  | .register now mac profile osFamily osVersion =>
    let record := ProvisionRecord.fresh mac profile osFamily osVersion now
    ((t.fireCallbacks .registered record).map fun _ => some record, m.create py record,
      { t with records := t.records.set (py.lower mac) m.objects.length })
  | .transition now mac newState errorMessage =>
    match m.find t.records (py.lower mac) with
    | none => (.error (noRecord mac), m, t)
    | some (place, record) =>
      let record := record.enter newState now errorMessage
      ((t.fireCallbacks newState record).map fun _ => some record, m.write py place record, t)
  | .enableNetboot mac => t.setNetboot py m mac true
  | .disableNetboot mac => t.setNetboot py m mac false
  | .clear => (.ok none, { m with stored := ∅ }, { t with records := ∅ })

/-- A client of the backend. -/
def client (py : StrLib) (m : Memory) (tracker : Option ObjectTracker) :
    Act → Memory × Option ObjectTracker
  | .construct => (m, some ⟨m.load py, fun _ => []⟩)
  | .onStateChange state callback =>
    (m, tracker.map fun t =>
      { t with callbacks := Function.update t.callbacks state (t.callbacks state ++ [callback]) })
  | .call op =>
    match tracker with
    | none => (m, none)
    | some t =>
      let result := step py m t op
      ({ result.2.1 with returned := op.returnedAfter py m.returned result.1 }, some result.2.2)

/-- If the call writes an object that it has not made, the object's history has all transitions that
have returned. Where a callback raises, so that the call does not return, it counts with the new
entry. -/
def CallUpToDate (py : StrLib) (m : Memory) (t : ObjectTracker) : Op → Prop
  | .transition now mac newState errorMessage => ∀ place r,
    m.find t.records (py.lower mac) = some (place, r) →
    if t.fireCallbacks newState (r.enter newState now errorMessage) = .ok () then
      m.returned (py.lower mac) <+ r.history
    else m.returned (py.lower mac) <+ r.history ++ [(newState, now)]
  | .enableNetboot mac => ∀ place r, m.find t.records (py.lower mac) = some (place, r) →
    m.returned (py.lower mac) <+ r.history
  | .disableNetboot mac => ∀ place r, m.find t.records (py.lower mac) = some (place, r) →
    m.returned (py.lower mac) <+ r.history
  | .register .. => True
  | .clear => True

/-- The same of a client's next step. -/
def UpToDate (py : StrLib) (m : Memory) (tracker : Option ObjectTracker) : Act → Prop
  | .call op => ∀ t, tracker = some t → t.CallUpToDate py m op
  | .construct => True
  | .onStateChange .. => True

end ObjectTracker

variable {py : StrLib} {m : Memory} {d : Dict String ℕ}

/-! ### Objects under their own MACs -/

namespace Memory

theorem find_eq_some_iff {key : String} {place : ℕ} {r : ProvisionRecord} :
    m.find d key = some (place, r) ↔ d.get? key = some place ∧ m.objects[place]? = some r := by
  simp only [find, Option.bind_eq_bind, Option.bind_eq_some_iff, Option.pure_def,
    Option.some.injEq, Prod.mk.injEq]
  constructor
  · rintro ⟨_, hplace, _, hr, rfl, rfl⟩
    exact ⟨hplace, hr⟩
  · rintro ⟨hplace, hr⟩
    exact ⟨place, hplace, r, hr, rfl, rfl⟩

/-- Whatever a dictionary files is found. -/
theorem Files.find_eq_none (h : m.Files py d) {key : String} (hnone : m.find d key = none) :
    d.get? key = none := by
  refine Option.eq_none_iff_forall_not_mem.mpr fun place hplace => ?_
  obtain ⟨r, hr, -⟩ := h key place hplace
  rw [find_eq_some_iff.mpr ⟨hplace, hr⟩] at hnone
  cases hnone

theorem Files.of_find (h : m.Files py d) {key : String} {place : ℕ} {r : ProvisionRecord}
    (hfind : m.find d key = some (place, r)) :
    m.objects[place]? = some r ∧ py.lower r.mac = key := by
  obtain ⟨hplace, hr⟩ := find_eq_some_iff.mp hfind
  obtain ⟨r', hr', hkey⟩ := h key place hplace
  obtain rfl := Option.some.inj (hr.symm.trans hr')
  exact ⟨hr, hkey⟩

/-- More objects, and objects updated without changing their MACs, stay filed. -/
theorem Files.mono {m' : Memory} (h : m.Files py d)
    (hmac : ∀ (place : ℕ) (r : ProvisionRecord), m.objects[place]? = some r →
      ∃ r', m'.objects[place]? = some r' ∧ r'.mac = r.mac) : m'.Files py d := by
  intro key place hplace
  obtain ⟨r, hr, rfl⟩ := h key place hplace
  obtain ⟨r', hr', hmac'⟩ := hmac place r hr
  exact ⟨r', hr', by rw [hmac']⟩

theorem files_empty : m.Files py ∅ := fun _ _ h => by cases h

/-- One more object is filed. -/
theorem Files.set (h : m.Files py d) {place : ℕ} {r : ProvisionRecord}
    (hr : m.objects[place]? = some r) : m.Files py (d.set (py.lower r.mac) place) := by
  intro key place' hplace'
  rw [Dict.get?_set] at hplace'
  split_ifs at hplace' with hkey
  · cases hplace'
    exact ⟨r, hr, hkey.symm⟩
  · exact h key place' hplace'

/-- A tracker files what it loads. -/
theorem files_load (py : StrLib) (m : Memory) : m.Files py (m.load py) := by
  rw [load]
  refine List.foldlRecOn _ _ files_empty fun d hd place _ => ?_
  split
  · next r hr => exact hd.set hr
  · exact hd

/-- The objects after one more. -/
theorem getElem?_create {place : ℕ} {r r' : ProvisionRecord} (h : m.objects[place]? = some r) :
    (m.create py r').objects[place]? = some r := by
  obtain ⟨hlt, -⟩ := List.getElem?_eq_some_iff.mp h
  rw [create, List.getElem?_append_left hlt, h]

theorem getElem?_create_length (r : ProvisionRecord) :
    (m.create py r).objects[m.objects.length]? = some r := by
  simp [create]

/-- The objects after an update of one. -/
theorem getElem?_write {place : ℕ} {old : ProvisionRecord} (hold : m.objects[place]? = some old)
    (r : ProvisionRecord) (place' : ℕ) :
    (m.write py place r).objects[place']? =
      if place' = place then some r else m.objects[place']? := by
  obtain ⟨hlt, -⟩ := List.getElem?_eq_some_iff.mp hold
  rw [write, List.getElem?_set]
  split_ifs with h h' h'
  · rfl
  · exact absurd h.symm h'
  · exact absurd h'.symm h
  · rfl

theorem Files.create (h : m.Files py d) (r : ProvisionRecord) : (m.create py r).Files py d :=
  h.mono fun _ old hold => ⟨old, getElem?_create hold, rfl⟩

theorem Files.write (h : m.Files py d) {place : ℕ} {old r : ProvisionRecord}
    (hold : m.objects[place]? = some old) (hmac : r.mac = old.mac) :
    (m.write py place r).Files py d := by
  refine h.mono fun place' r' hr' => ?_
  rw [getElem?_write hold]
  split_ifs with hplace
  · subst hplace
    obtain rfl := Option.some.inj (hold.symm.trans hr')
    exact ⟨r, rfl, hmac⟩
  · exact ⟨r', hr', rfl⟩

/-! ### What the backend returns -/

/-- A new object is stored under its MAC, and everything else stays. -/
theorem find_create (h : m.Files py m.stored) (r : ProvisionRecord) (key : String) :
    (m.create py r).find (m.create py r).stored key =
      if key = py.lower r.mac then some (m.objects.length, r) else m.find m.stored key := by
  have hstored : (m.create py r).stored.get? key =
      if key = py.lower r.mac then some m.objects.length else m.stored.get? key := Dict.get?_set
  split_ifs at hstored ⊢ with hkey
  · exact find_eq_some_iff.mpr ⟨hstored, getElem?_create_length r⟩
  · rcases hfind : m.find m.stored key with _ | ⟨place, r'⟩
    · rw [find, hstored, h.find_eq_none hfind]
      rfl
    · obtain ⟨hplace, hr'⟩ := find_eq_some_iff.mp hfind
      exact find_eq_some_iff.mpr ⟨hstored.trans hplace, getElem?_create hr'⟩

/-- An object that is written is stored under its MAC, and everything else stays. -/
theorem find_write (h : m.Files py m.stored) {place : ℕ} {old r : ProvisionRecord}
    (hold : m.objects[place]? = some old) (hmac : r.mac = old.mac) (key : String) :
    (m.write py place r).find (m.write py place r).stored key =
      if key = py.lower r.mac then some (place, r) else m.find m.stored key := by
  have hstored : (m.write py place r).stored.get? key =
      if key = py.lower r.mac then some place else m.stored.get? key := Dict.get?_set
  split_ifs at hstored ⊢ with hkey
  · exact find_eq_some_iff.mpr ⟨hstored, (getElem?_write hold r place).trans (if_pos rfl)⟩
  · rcases hfind : m.find m.stored key with _ | ⟨place', r'⟩
    · rw [find, hstored, h.find_eq_none hfind]
      rfl
    · obtain ⟨hplace', hr'⟩ := find_eq_some_iff.mp hfind
      -- the object stored under another key is another object
      have hne : place' ≠ place := by
        rintro rfl
        obtain ⟨r'', hr'', hkey'⟩ := h _ _ hplace'
        obtain rfl := Option.some.inj (hold.symm.trans hr'')
        exact hkey (by rw [hmac, hkey'])
      exact find_eq_some_iff.mpr ⟨hstored.trans hplace',
        (getElem?_write hold r place').trans ((if_neg hne).trans hr')⟩

theorem history_create (h : m.Files py m.stored) (r : ProvisionRecord) (mac : String) :
    (m.create py r).history py mac =
      if py.lower mac = py.lower r.mac then r.history else m.history py mac := by
  rw [history, find_create h]
  split_ifs <;> rfl

theorem history_write (h : m.Files py m.stored) {place : ℕ} {old r : ProvisionRecord}
    (hold : m.objects[place]? = some old) (hmac : r.mac = old.mac) (mac : String) :
    (m.write py place r).history py mac =
      if py.lower mac = py.lower r.mac then r.history else m.history py mac := by
  rw [history, find_write h hold hmac]
  split_ifs <;> rfl

end Memory

namespace ObjectTracker

variable {t : ObjectTracker}

/-! ### One step -/

/-- An object that is updated in place and saved keeps what has returned exactly when its history
has it. -/
theorem kept_write_iff (h : m.Kept py) (hfiled : m.Files py m.stored) {mac : String} {place : ℕ}
    {old : ProvisionRecord} (hold : m.objects[place]? = some old)
    (hkey : py.lower old.mac = py.lower mac) (r : ProvisionRecord) (hmac : r.mac = old.mac)
    {returned : String → List (ProvisionState × ℚ)}
    (hframe : ∀ key, key ≠ py.lower mac → returned key = m.returned key) :
    Memory.Kept py { m.write py place r with returned := returned } ↔
      returned (py.lower mac) <+ r.history := by
  have hwrite : ∀ mac',
      Memory.history py { m.write py place r with returned := returned } mac' =
        if py.lower mac' = py.lower mac then r.history else m.history py mac' := by
    intro mac'
    rw [← hkey, ← hmac]
    exact Memory.history_write hfiled hold hmac mac'
  exact ProvisionTracker.kept_write_iff h hwrite hframe

/-- A condition on the object that was found. -/
private theorem forall_found_iff {place : ℕ} {r : ProvisionRecord} (P : ProvisionRecord → Prop) :
    (∀ place' r', some (place, r) = some (place', r') → P r') ↔ P r :=
  ⟨fun hall => hall place r rfl, fun hP _ _ hr => by cases hr; exact hP⟩

/-- A netboot call keeps what has returned exactly when its object's history has it. -/
theorem kept_setNetboot_iff (h : m.Kept py) (hfiled : m.Files py m.stored)
    (ht : m.Files py t.records) (mac : String) (enabled : Bool) :
    Memory.Kept py { (t.setNetboot py m mac enabled).2.1 with returned := m.returned } ↔
      ∀ place r, m.find t.records (py.lower mac) = some (place, r) →
        m.returned (py.lower mac) <+ r.history := by
  rw [setNetboot]
  rcases hfind : m.find t.records (py.lower mac) with _ | ⟨place, r⟩
  · exact iff_of_true h fun place r hr => by cases hr
  · obtain ⟨hr, hkey⟩ := ht.of_find hfind
    rw [forall_found_iff fun r => m.returned (py.lower mac) <+ r.history]
    exact kept_write_iff h hfiled hr hkey (r.setNetboot enabled) rfl fun _ _ => rfl

/-- A transition keeps what has returned exactly when its object's history has it. -/
theorem kept_transition_iff (h : m.Kept py) (hfiled : m.Files py m.stored)
    (ht : m.Files py t.records) (now : ℚ) (mac : String) (newState : ProvisionState)
    (errorMessage : Option String) :
    Memory.Kept py (client py m (some t) (.call (.transition now mac newState errorMessage))).1 ↔
      t.CallUpToDate py m (.transition now mac newState errorMessage) := by
  rw [client, step, CallUpToDate]
  rcases hfind : m.find t.records (py.lower mac) with _ | ⟨place, r⟩
  · exact iff_of_true h fun place r hr => by cases hr
  · obtain ⟨hr, hkey⟩ := ht.of_find hfind
    rw [forall_found_iff fun r => if t.fireCallbacks newState (r.enter newState now errorMessage) =
      .ok () then m.returned (py.lower mac) <+ r.history
      else m.returned (py.lower mac) <+ r.history ++ [(newState, now)]]
    dsimp only
    rcases t.fireCallbacks newState (r.enter newState now errorMessage) with e | ⟨⟨⟩⟩
    · rw [if_neg (by simp)]
      exact kept_write_iff h hfiled hr hkey (r.enter newState now errorMessage) rfl fun _ _ => rfl
    · rw [if_pos rfl]
      refine (kept_write_iff h hfiled hr hkey (r.enter newState now errorMessage) rfl
        fun key hne => ?_).trans ?_
      · exact Function.update_of_ne hne _ _
      · simp only [Except.map, Op.returnedAfter, Function.update_self, ProvisionRecord.enter]
        exact List.append_sublist_append_right _

/-- Registering a record overwrites nothing that it does not withdraw. -/
theorem kept_register (h : m.Kept py) (hfiled : m.Files py m.stored) (now : ℚ)
    (mac profile osFamily osVersion : String) : Memory.Kept py
      (client py m (some t) (.call (.register now mac profile osFamily osVersion))).1 := by
  have hcreate : ∀ mac', (client py m (some t)
      (.call (.register now mac profile osFamily osVersion))).1.history py mac' =
        if py.lower mac' = py.lower mac then [(.registered, now)] else m.history py mac' :=
    Memory.history_create hfiled (.fresh mac profile osFamily osVersion now)
  refine (ProvisionTracker.kept_write_iff h hcreate fun key hkey => ?_).mpr ?_
  · exact Function.update_of_ne hkey _ _
  · simp only [client, Op.returnedAfter, Function.update_self]
    exact List.nil_sublist _

theorem kept_clear (m : Memory) (t : ObjectTracker) :
    Memory.Kept py (client py m (some t) (.call .clear)).1 :=
  fun _ => List.nil_sublist _

/-- A step keeps what has returned exactly when its client is up to date. -/
theorem kept_client_iff (h : m.Kept py) (hfiled : m.Files py m.stored)
    {tracker : Option ObjectTracker} (ht : ∀ t, tracker = some t → m.Files py t.records) (a : Act) :
    (client py m tracker a).1.Kept py ↔ UpToDate py m tracker a := by
  cases a with
  | construct => exact iff_of_true h trivial
  | onStateChange state callback => exact iff_of_true h trivial
  | call op =>
    cases tracker with
    | none => exact iff_of_true h fun t ht => by cases ht
    | some t =>
      have hcall : UpToDate py m (some t) (.call op) ↔ t.CallUpToDate py m op :=
        ⟨fun hall => hall t rfl, fun hone t' ht' => Option.some.inj ht' ▸ hone⟩
      rw [hcall]
      have hrecords := ht t rfl
      cases op with
      | register now mac profile osFamily osVersion =>
        exact iff_of_true (kept_register h hfiled now mac profile osFamily osVersion) trivial
      | transition now mac newState errorMessage =>
        exact kept_transition_iff h hfiled hrecords now mac newState errorMessage
      | enableNetboot mac => exact kept_setNetboot_iff h hfiled hrecords mac true
      | disableNetboot mac => exact kept_setNetboot_iff h hfiled hrecords mac false
      | clear => exact iff_of_true (kept_clear m t) trivial

/-! ### Every interleaving -/

/-- After a step of a client, which leaves `m'` and its tracker, whatever was filed is filed, and so
is what the backend and the tracker hold now. -/
structure KeepsFiled (py : StrLib) (m m' : Memory) (tracker : Option ObjectTracker) : Prop where
  frame : ∀ d, m.Files py d → m'.Files py d
  stored : m'.Files py m'.stored
  records : ∀ t, tracker = some t → m'.Files py t.records

theorem keepsFiled_self (hfiled : m.Files py m.stored) (ht : m.Files py t.records) :
    KeepsFiled py m m (some t) :=
  ⟨fun _ hd => hd, hfiled, fun _ ht' => Option.some.inj ht' ▸ ht⟩

/-- An update in place that does not change the MAC. -/
theorem keepsFiled_write (hfiled : m.Files py m.stored) (ht : m.Files py t.records) {place : ℕ}
    {old r : ProvisionRecord} (hold : m.objects[place]? = some old) (hmac : r.mac = old.mac) :
    KeepsFiled py m (m.write py place r) (some t) where
  frame _ hd := hd.write hold hmac
  stored := (hfiled.write hold hmac).set ((Memory.getElem?_write hold r place).trans (if_pos rfl))
  records t' ht' := by
    cases ht'
    exact ht.write hold hmac

theorem keepsFiled_setNetboot (hfiled : m.Files py m.stored) (ht : m.Files py t.records)
    (mac : String) (enabled : Bool) :
    KeepsFiled py m (t.setNetboot py m mac enabled).2.1
      (some (t.setNetboot py m mac enabled).2.2) := by
  rw [setNetboot]
  rcases hfind : m.find t.records (py.lower mac) with _ | ⟨place, r⟩
  · exact keepsFiled_self hfiled ht
  · exact keepsFiled_write hfiled ht (ht.of_find hfind).1 rfl

theorem keepsFiled_step (hfiled : m.Files py m.stored) (ht : m.Files py t.records) (op : Op) :
    KeepsFiled py m (step py m t op).2.1 (some (step py m t op).2.2) := by
  cases op with
  | register now mac profile osFamily osVersion =>
    have hnew : (m.create py (.fresh mac profile osFamily osVersion now)).objects[
        m.objects.length]? = some (.fresh mac profile osFamily osVersion now) :=
      Memory.getElem?_create_length _
    refine ⟨fun d hd => hd.create _, (hfiled.create _).set hnew, fun t' ht' => ?_⟩
    cases ht'
    exact (ht.create _).set hnew
  | transition now mac newState errorMessage =>
    rw [step]
    rcases hfind : m.find t.records (py.lower mac) with _ | ⟨place, r⟩
    · exact keepsFiled_self hfiled ht
    · exact keepsFiled_write hfiled ht (ht.of_find hfind).1 rfl
  | enableNetboot mac => exact keepsFiled_setNetboot hfiled ht mac true
  | disableNetboot mac => exact keepsFiled_setNetboot hfiled ht mac false
  | clear =>
    refine ⟨fun d hd => hd, Memory.files_empty, fun t' ht' => ?_⟩
    cases ht'
    exact Memory.files_empty

theorem keepsFiled_client (hfiled : m.Files py m.stored) {tracker : Option ObjectTracker}
    (ht : ∀ t, tracker = some t → m.Files py t.records) (a : Act) :
    KeepsFiled py m (client py m tracker a).1 (client py m tracker a).2 := by
  cases a with
  | construct =>
    refine ⟨fun d hd => hd, hfiled, fun t' ht' => ?_⟩
    cases ht'
    exact Memory.files_load py m
  | onStateChange state callback =>
    refine ⟨fun d hd => hd, hfiled, fun t' ht' => ?_⟩
    obtain ⟨t, htracker, rfl⟩ := Option.map_eq_some_iff.mp ht'
    exact ht t htracker
  | call op =>
    cases tracker with
    | none => exact ⟨fun d hd => hd, hfiled, ht⟩
    | some t =>
      obtain ⟨hframe, hstored, hrecords⟩ := keepsFiled_step hfiled (ht t rfl) op
      exact ⟨hframe, hstored, hrecords⟩

end ObjectTracker

/-- The backend and every tracker hold their objects under their MACs. -/
def ObjectsFiled (py : StrLib) {κ : Type} (c : Clients κ Memory (Option ObjectTracker)) : Prop :=
  c.shared.Files py c.shared.stored ∧ ∀ i t, c.locals i = some t → c.shared.Files py t.records

variable {κ : Type} [DecidableEq κ]

theorem ObjectsFiled.interleave {c : Clients κ Memory (Option ObjectTracker)}
    (h : ObjectsFiled py c) (e : κ × Act) :
    ObjectsFiled py (interleave (ObjectTracker.client py) c e).2 := by
  obtain ⟨i, a⟩ := e
  have hclient := ObjectTracker.keepsFiled_client h.1 (h.2 i) a
  refine ⟨hclient.stored, fun j t hj => ?_⟩
  by_cases hji : j = i
  · subst hji
    rw [interleave_locals_self] at hj
    exact hclient.records t hj
  · rw [interleave_locals_of_ne hji] at hj
    exact hclient.frame _ (h.2 j t hj)

/-- A backend that was given records holds them under their MACs. -/
theorem files_holding (py : StrLib) (saved : List ProvisionRecord) :
    (Memory.holding py saved).Files py (Memory.holding py saved).stored := by
  refine List.foldlRecOn (motive := fun m : Memory => m.Files py m.stored) _ _
    Memory.files_empty fun m hm r _ => ?_
  exact (hm.create r).set (Memory.getElem?_create_length r)

/-- No transition has returned before the first tracker is constructed. -/
theorem returned_holding (py : StrLib) (saved : List ProvisionRecord) (key : String) :
    (Memory.holding py saved).returned key = [] :=
  List.foldlRecOn (motive := fun m : Memory => m.returned key = []) _ _ rfl fun _ hm _ _ => hm

/-- From an in-memory backend that was given some records, what has returned is kept throughout an
interleaving exactly when every client that writes is up to date. -/
def ObjectProgressKept (py : StrLib) (κ : Type) [DecidableEq κ] (saved : List ProvisionRecord) :
    Prop :=
  ∀ events : List (κ × Act),
    (∀ pre, pre <+: events →
      (run (interleave (ObjectTracker.client py)) ⟨.holding py saved, fun _ => none⟩
        pre).shared.Kept py) ↔
    ∀ pre e, pre ++ [e] <+: events →
      ObjectTracker.UpToDate py
        (run (interleave (ObjectTracker.client py)) ⟨.holding py saved, fun _ => none⟩ pre).shared
        ((run (interleave (ObjectTracker.client py)) ⟨.holding py saved, fun _ => none⟩
          pre).locals e.1) e.2

/-- Whatever records the backend was given. -/
theorem objectProgressKept (saved : List ProvisionRecord) : ObjectProgressKept py κ saved := by
  intro events
  have hinv : ∀ (c : Clients κ Memory (Option ObjectTracker)) (e : κ × Act), ObjectsFiled py c →
      ObjectsFiled py (interleave (ObjectTracker.client py) c e).2 := fun _ e h => h.interleave e
  have hkept : ∀ (c : Clients κ Memory (Option ObjectTracker)) (e : κ × Act), ObjectsFiled py c →
      c.shared.Kept py → ((interleave (ObjectTracker.client py) c e).2.shared.Kept py ↔
        ObjectTracker.UpToDate py c.shared (c.locals e.1) e.2) :=
    fun c e hfiled h => ObjectTracker.kept_client_iff h hfiled.1 (hfiled.2 e.1) e.2
  refine forall_run_iff hinv hkept ⟨files_holding py saved, fun _ _ h => by cases h⟩ ?_ events
  intro mac
  rw [returned_holding]
  exact List.nil_sublist _

/-- Two nodes that hold one object report into one history. -/
example : (run (interleave (ObjectTracker.client .ascii))
    (⟨.holding .ascii [], fun _ => none⟩ : Clients Bool Memory _)
    [(false, .construct), (false, .call (.register 1 "aa:01" "web" "debian" "12")),
      (true, .construct), (false, .call (.transition 2 "aa:01" .booting none)),
      (true, .call (.transition 3 "aa:01" .failed (some "disk")))]).shared.history .ascii "aa:01" =
    [(.registered, 1), (.booting, 2), (.failed, 3)] := by
  decide +kernel

/-! ### All backends -/

/-- **Trackers on one backend.** Whatever records a backend holds at first, through every
interleaving of the calls of any trackers constructed on it, the transitions that have returned stay
in the stored histories exactly when every tracker that writes a record has them in its copy: in
its own copy where the backend is persistent, in the object that it holds where the backend is
`MemoryBackend`. -/
theorem progress_kept_iff (py : StrLib) (json : JsonText) (κ : Type) [DecidableEq κ] :
    (∀ b : JSONBackend py json, ProgressKept py κ b) ∧
      (∀ b : SQLAlchemyBackend py json, ProgressKept py κ b) ∧
      ∀ saved : List ProvisionRecord, ObjectProgressKept py κ saved :=
  ⟨progressKept_of_storesHistory (JSONBackend.storesHistory py json),
    progressKept_of_storesHistory (SQLAlchemyBackend.storesHistory py json),
    objectProgressKept⟩

/-- Two nodes that have loaded one record: when each reports a transition of it, the second report
drops the first. -/
theorem second_node_drops_transition :
    ¬ Store.Kept .ascii (run (interleave (client .ascii))
      (⟨⟨⟨∅, fun _ _ h => by cases h⟩, fun _ => []⟩, fun _ => none⟩ :
        Clients Bool (Store (SQLAlchemyBackend .ascii .parsed)) _)
      [(false, .construct), (false, .call (.register 1 "aa:01" "web" "debian" "12")),
        (true, .construct), (false, .call (.transition 2 "aa:01" .booting none)),
        (true, .call (.transition 3 "aa:01" .failed (some "disk")))]).shared := by
  intro h
  have hsub := h "aa:01"
  revert hsub
  decide +kernel

end ProvisionTracker

end TftpOS
