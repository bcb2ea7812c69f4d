import Mathlib.Tactic.FinCases
import TftpOS.Db

/-!
# The tracker and its backend

A tracker keeps its records twice, in memory and in its backend. Both stand for one abstract
map from lower-cased MACs to records whose `mac` field is lower-cased (`RecordMap`):
`LawfulBackend` says what a backend must do for that, and both persistent backends do it. The
operations of the tracker move the abstract map on its own terms (`RecordMap.after`), so a
tracker that is built again on the same backend stands for the same map, then and after every
further run (`restart_observably_equal`).
-/

namespace TftpOS

open Lib

/-- The record with its MAC lower-cased. -/
def canonical (py : StrLib) (record : ProvisionRecord) : ProvisionRecord :=
  { record with mac := py.lower record.mac }

/-- A map from lower-cased MACs to records. -/
abbrev RecordMap := String → Option ProvisionRecord

namespace RecordMap

/-- Update the record stored under a key, if there is one. -/
def modify (m : RecordMap) (key : String) (f : ProvisionRecord → ProvisionRecord) : RecordMap :=
  Function.update m key ((m key).map f)

open ProvisionTracker in
/-- What a call on the tracker means for the map. -/
def after (py : StrLib) (m : RecordMap) : Op → RecordMap
  | .register now mac profile osFamily osVersion =>
    Function.update m (py.lower mac)
      (some (canonical py (.fresh mac profile osFamily osVersion now)))
  | .transition now mac newState errorMessage =>
    m.modify (py.lower mac) (·.enter newState now errorMessage)
  | .enableNetboot mac => m.modify (py.lower mac) (·.setNetboot true)
  | .disableNetboot mac => m.modify (py.lower mac) (·.setNetboot false)
  | .clear => fun _ => none

/-- The map that a dictionary of records stands for. -/
def ofRecords (py : StrLib) (d : Dict String ProvisionRecord) : RecordMap :=
  fun key => (d.get? key).map (canonical py)

variable {py : StrLib} {d : Dict String ProvisionRecord}

theorem ofRecords_set (key : String) (r : ProvisionRecord) :
    ofRecords py (d.set key r) = Function.update (ofRecords py d) key (some (canonical py r)) := by
  funext key'
  by_cases h : key' = key
  · subst h
    simp [ofRecords]
  · simp [ofRecords, h, Dict.get?_set_of_ne h]

theorem ofRecords_del (key : String) :
    ofRecords py (d.del key) = Function.update (ofRecords py d) key none := by
  funext key'
  by_cases h : key' = key
  · subst h
    simp [ofRecords, Dict.get?_del]
  · simp [ofRecords, h, Dict.get?_del]

/-- The values of the map are the records of the dictionary, their MACs lower-cased. -/
theorem mem_canonical_iff {r : ProvisionRecord} :
    r ∈ d.values.map (canonical py) ↔ ∃ key, ofRecords py d key = some r := by
  simp only [List.mem_map, Dict.mem_values_iff, ofRecords, Option.map_eq_some_iff]
  constructor
  · rintro ⟨a, ⟨key, hkey⟩, ha⟩
    exact ⟨key, a, hkey, ha⟩
  · rintro ⟨key, a, hkey, ha⟩
    exact ⟨a, ⟨key, hkey⟩, ha⟩

open ProvisionTracker in
private theorem ofRecords_modify {mac : String} {f : ProvisionRecord → ProvisionRecord}
    (hf : ∀ r, canonical py (f r) = f (canonical py r)) :
    ofRecords py ((match d.get? (py.lower mac) with
      | none => Effect.nothing
      | some record => .write (py.lower mac) (f record)).onRecords d) =
      (ofRecords py d).modify (py.lower mac) f := by
  split
  · next h => simp [modify, ofRecords, h, Effect.onRecords]
  · next r h => simp [modify, Effect.onRecords, ofRecords_set, ofRecords, h, hf]

/-- The records in memory refine the map: each call moves both alike. -/
theorem ofRecords_step (op : ProvisionTracker.Op) :
    ofRecords py ((op.effect py d).onRecords d) = (ofRecords py d).after py op := by
  cases op with
  | register now mac profile osFamily osVersion => exact ofRecords_set _ _
  | transition now mac newState errorMessage => exact ofRecords_modify fun _ => rfl
  | enableNetboot mac => exact ofRecords_modify fun _ => rfl
  | disableNetboot mac => exact ofRecords_modify fun _ => rfl
  | clear => rfl

end RecordMap

/-- A backend that acts as a map keyed by lower-cased MACs. -/
structure LawfulBackend (py : StrLib) (σ : Type) [StorageBackend σ] where
  /-- The backend holds the records of the map. -/
  Holds : σ → RecordMap → Prop
  holds_of_listAll : ∀ {b : σ}, StorageBackend.listAll b = .ok [] → Holds b fun _ => none
  save : ∀ {b : σ} {m : RecordMap} {r : ProvisionRecord}, Holds b m → IsAscii r.mac →
    ∃ b', StorageBackend.save b r = .ok b' ∧
      Holds b' (Function.update m (py.lower r.mac) (some (canonical py r)))
  clear : ∀ {b : σ} {m : RecordMap}, Holds b m →
    ∃ b', StorageBackend.clear b = .ok b' ∧ Holds b' fun _ => none
  listAll : ∀ {b : σ} {m : RecordMap}, Holds b m →
    ∃ l, StorageBackend.listAll b = .ok l ∧
      (∀ r ∈ l, m (py.lower r.mac) = some (canonical py r)) ∧
      ∀ key, (m key).isSome → ∃ r ∈ l, py.lower r.mac = key

/-! ### The two persistent backends are lawful -/

/-- The records of a dictionary have ASCII MACs and are stored under them, lower-cased. -/
def Keyed (py : StrLib) (d : Dict String ProvisionRecord) : Prop :=
  ∀ key r, d.get? key = some r → py.lower r.mac = key ∧ IsAscii r.mac

section

variable {py : StrLib} {d : Dict String ProvisionRecord}

theorem keyed_empty : Keyed py ∅ := fun _ _ h => by cases h

theorem Keyed.set (hd : Keyed py d) {key : String} {r : ProvisionRecord}
    (hr : py.lower r.mac = key ∧ IsAscii r.mac) : Keyed py (d.set key r) := by
  intro key' r' h
  rw [Dict.get?_set] at h
  split_ifs at h with hkey
  · rw [← Option.some.inj h, hkey]
    exact hr
  · exact hd key' r' h

theorem Keyed.ofRecords_lower (hd : Keyed py d) {r : ProvisionRecord} (hr : r ∈ d.values) :
    RecordMap.ofRecords py d (py.lower r.mac) = some (canonical py r) := by
  obtain ⟨key, hkey⟩ := Dict.mem_values_iff.mp hr
  rw [RecordMap.ofRecords, (hd key r hkey).1, hkey, Option.map_some]

theorem Keyed.exists_of_isSome (hd : Keyed py d) {key : String}
    (h : (RecordMap.ofRecords py d key).isSome) :
    ∃ r ∈ d.values, py.lower r.mac = key ∧ IsAscii r.mac := by
  obtain ⟨r', hr'⟩ := Option.isSome_iff_exists.mp h
  obtain ⟨r, hr, -⟩ := Option.map_eq_some_iff.mp hr'
  exact ⟨r, Dict.mem_values_iff.mpr ⟨key, hr⟩, hd key r hr⟩

end

/-- The JSON backend holds a map when its file is the document of a dictionary that stands for
the map. -/
def JSONBackend.lawful (py : StrLib) (json : JsonText) :
    LawfulBackend py (JSONBackend py json) where
  Holds b m := ∃ d : Dict String ProvisionRecord,
    b.load.IsDictOf (d.mapValues fun _ r => recordToDict r) ∧ Keyed py d ∧
    RecordMap.ofRecords py d = m
  holds_of_listAll {b} h := by
    obtain ⟨data, hdata, hvalues⟩ := bind_eq_ok_iff.mp h
    have hempty : data = ∅ := Dict.eq_empty_of_values (mapM_eq_ok_nil_iff.mp hvalues)
    refine ⟨∅, ?_, keyed_empty, rfl⟩
    rw [hempty] at hdata
    exact Value.asDict_eq_ok_iff.mp hdata
  save {b m r} := by
    rintro ⟨d, hload, hd, rfl⟩ hascii
    refine ⟨_, bind_eq_ok_iff.mpr ⟨_, Value.asDict_eq_ok_iff.mpr hload, rfl⟩,
      d.set (py.lower r.mac) r, ?_, hd.set ⟨rfl, hascii⟩, RecordMap.ofRecords_set _ _⟩
    rw [Dict.mapValues_set]
    exact JSONBackend.load_dump _
  clear _ := ⟨_, rfl, ∅, JSONBackend.load_dump ∅, keyed_empty, rfl⟩
  listAll {b m} := by
    rintro ⟨d, hload, hd, rfl⟩
    refine ⟨d.values, bind_eq_ok_iff.mpr ⟨_, Value.asDict_eq_ok_iff.mpr hload, ?_⟩,
      fun r hr => hd.ofRecords_lower hr, fun key hsome => ?_⟩
    · rw [Dict.values_mapValues]
      exact mapM_decode_encode dictToRecord_recordToDict d.values
    · obtain ⟨r, hr, hkey, -⟩ := hd.exists_of_isSome hsome
      exact ⟨r, hr, hkey⟩

/-- A listing of the rows written from a dictionary: its records, newest first. -/
theorem SQLAlchemyBackend.listAll_eq {py : StrLib} {json : JsonText}
    {b : SQLAlchemyBackend py json} {d : Dict String ProvisionRecord}
    (hrows : b.rows = d.mapValues fun _ r => .fromProvisionRecord py r) :
    b.listAll = .ok ((sortOn (fun r => newestFirst r.updatedAt) d.values).map (canonical py)) := by
  have hrow : ∀ r ∈ sortOn (fun r => newestFirst r.updatedAt) d.values,
      ProvisionRow.toProvisionRecord (.fromProvisionRecord py r : ProvisionRow json) =
        .ok (canonical py r) := fun r _ =>
    ProvisionRow.toProvisionRecord_fromProvisionRecord py r
  rw [← mapM_map_eq_ok hrow, listAll, hrows, Dict.values_mapValues, sortOn_map]
  rfl

/-- The SQLAlchemy backend holds a map when its rows are those of a dictionary that stands for
the map. -/
def SQLAlchemyBackend.lawful (py : StrLib) (json : JsonText) :
    LawfulBackend py (SQLAlchemyBackend py json) where
  Holds b m := ∃ d : Dict String ProvisionRecord,
    b.rows = d.mapValues (fun _ r => .fromProvisionRecord py r) ∧ Keyed py d ∧
    RecordMap.ofRecords py d = m
  holds_of_listAll {b} h := by
    refine ⟨∅, ?_, keyed_empty, rfl⟩
    have hsorted := mapM_eq_ok_nil_iff.mp h
    have hvalues : b.rows.values = [] := by
      rw [← List.nil_perm, ← hsorted]
      exact perm_sortOn _ _
    rw [Dict.eq_empty_of_values hvalues]
    rfl
  save {b m r} := by
    rintro ⟨d, hrows, hd, rfl⟩ hascii
    refine ⟨_, b.save_eq r, d.set (py.lower r.mac) r, ?_, hd.set ⟨rfl, hascii⟩,
      RecordMap.ofRecords_set _ _⟩
    rw [Dict.mapValues_set, ← hrows]
    rfl
  clear _ := ⟨_, rfl, ∅, rfl, keyed_empty, rfl⟩
  listAll {b m} := by
    rintro ⟨d, hrows, hd, rfl⟩
    refine ⟨_, SQLAlchemyBackend.listAll_eq hrows, fun r hr => ?_, fun key hsome => ?_⟩
    · -- the rows carry the lower-cased MAC, which lower-cases to the same key
      obtain ⟨r, hmem, rfl⟩ := List.mem_map.mp hr
      rw [mem_sortOn] at hmem
      obtain ⟨key, hkey⟩ := Dict.mem_values_iff.mp hmem
      have hlower := py.lower_lower (hd key r hkey).2
      have hmac : (canonical py r).mac = py.lower r.mac := rfl
      rw [hmac, hlower, hd.ofRecords_lower hmem, canonical, canonical, hlower]
    · obtain ⟨r, hr, hkey, hascii⟩ := hd.exists_of_isSome hsome
      exact ⟨canonical py r, List.mem_map_of_mem (mem_sortOn.mpr hr),
        (py.lower_lower hascii).trans hkey⟩

namespace ProvisionTracker

variable {σ : Type} {py : StrLib} {t : ProvisionTracker σ}

/-! ### What a tracker answers -/

/-- Two trackers answer every query alike, up to the letter case of the `mac` field of the
records they return. -/
structure ObsEq (py : StrLib) (t t' : ProvisionTracker σ) : Prop where
  get : ∀ mac, (t.get py mac).map (canonical py) = (t'.get py mac).map (canonical py)
  isNetbootEnabled : ∀ mac, t.isNetbootEnabled py mac = t'.isNetbootEnabled py mac
  listAll : ∀ r, r ∈ t.listAll.map (canonical py) ↔ r ∈ t'.listAll.map (canonical py)

theorem isNetbootEnabled_eq (mac : String) :
    t.isNetbootEnabled py mac =
      (RecordMap.ofRecords py t.records (py.lower mac)).elim true (·.netbootEnabled) := by
  rw [isNetbootEnabled, RecordMap.ofRecords, get]
  split <;> next h => rw [h]; rfl

theorem mem_listAll_iff {r : ProvisionRecord} :
    r ∈ t.listAll.map (canonical py) ↔ ∃ key, RecordMap.ofRecords py t.records key = some r :=
  RecordMap.mem_canonical_iff

/-- What a tracker answers depends on the map it stands for alone. -/
theorem obsEq_of_ofRecords_eq {t' : ProvisionTracker σ}
    (h : RecordMap.ofRecords py t.records = RecordMap.ofRecords py t'.records) :
    ObsEq py t t' where
  get mac := congrFun h (py.lower mac)
  isNetbootEnabled mac := by rw [isNetbootEnabled_eq, isNetbootEnabled_eq, h]
  listAll r := by rw [mem_listAll_iff, mem_listAll_iff, h]

variable [StorageBackend σ] {L : LawfulBackend py σ}

/-! ### Memory and backend stay coupled -/

/-- The MAC a call names. -/
def Op.mac? : Op → Option String
  | .register _ mac _ _ _ => some mac
  | .transition _ mac _ _ => some mac
  | .enableNetboot mac => some mac
  | .disableNetboot mac => some mac
  | .clear => none

/-- The MAC a call names is ASCII. -/
def Op.AsciiMac (op : Op) : Prop := ∀ mac, op.mac? = some mac → IsAscii mac

/-- The tracker has a backend, and the two hold the same records. -/
structure Coupled (L : LawfulBackend py σ) (t : ProvisionTracker σ) : Prop where
  holds : ∃ b, t.backend = some b ∧ L.Holds b (.ofRecords py t.records)
  keyed : Keyed py t.records

/-- A record that a call writes is written under its own MAC. -/
private theorem keyed_of_effect {d : Dict String ProvisionRecord} (hd : Keyed py d) {op : Op}
    (hop : op.AsciiMac) {key : String} {r : ProvisionRecord}
    (h : op.effect py d = .write key r) : py.lower r.mac = key ∧ IsAscii r.mac := by
  cases op with
  | register now mac profile osFamily osVersion =>
    cases h
    exact ⟨rfl, hop mac rfl⟩
  | transition | enableNetboot | disableNetboot =>
    rw [Op.effect] at h
    split at h
    · cases h
    · next old hold =>
      cases h
      exact hd _ old hold
  | clear => cases h

private theorem Coupled.update (h : Coupled L t) {key : String} {r : ProvisionRecord}
    (hr : py.lower r.mac = key ∧ IsAscii r.mac) : Coupled L (t.update key r).2 := by
  obtain ⟨b, hb, hholds⟩ := h.holds
  obtain ⟨b', hsave, hholds'⟩ := L.save hholds hr.2
  have hupdate : (t.update key r).2 = { t with
      records := t.records.set key r, backend := some b' } := by
    simp [ProvisionTracker.update, persist, hb, hsave, Except.map]
  rw [hupdate]
  refine ⟨⟨b', rfl, ?_⟩, h.keyed.set hr⟩
  rw [RecordMap.ofRecords_set, ← hr.1]
  exact hholds'

private theorem Coupled.clear (h : Coupled L t) : Coupled L t.clear.2 := by
  obtain ⟨b, hb, hholds⟩ := h.holds
  obtain ⟨b', hclear, hholds'⟩ := L.clear hholds
  have heq : t.clear.2 = { t with records := ∅, backend := some b' } := by
    simp [ProvisionTracker.clear, hb, hclear]
  rw [heq]
  exact ⟨⟨b', rfl, hholds'⟩, keyed_empty⟩

/-- One call keeps memory and backend coupled. -/
theorem Coupled.step (h : Coupled L t) {op : Op} (hop : op.AsciiMac) :
    Coupled L (step py t op).2 := by
  rw [step_snd]
  cases heffect : op.effect py t.records with
  | nothing => exact h
  | write key r => exact h.update (keyed_of_effect h.keyed hop heffect)
  | clear => exact h.clear

/-! ### Restart -/

/-- The dictionary built by `__init__` holds the loaded records under their lower-cased MACs. -/
theorem get?_load {l : List ProvisionRecord} {key : String} {r : ProvisionRecord}
    (h : (load py l).get? key = some r) : r ∈ l ∧ py.lower r.mac = key := by
  induction l using List.reverseRecOn with
  | nil => cases h
  | append_singleton l last ih =>
    rw [load, List.foldl_concat, Dict.get?_set] at h
    split_ifs at h with hkey
    · obtain rfl := Option.some.inj h
      exact ⟨by simp, hkey.symm⟩
    · obtain ⟨hr, hmac⟩ := ih h
      exact ⟨List.mem_append_left _ hr, hmac⟩

theorem isSome_get?_load {l : List ProvisionRecord} {r : ProvisionRecord} (hr : r ∈ l) :
    ((load py l).get? (py.lower r.mac)).isSome := by
  induction l using List.reverseRecOn with
  | nil => cases hr
  | append_singleton l last ih =>
    rw [load, List.foldl_concat, Dict.get?_set]
    split_ifs with hkey
    · rfl
    · refine ih ((List.mem_append.mp hr).resolve_right fun hlast => hkey ?_)
      rw [List.mem_singleton.mp hlast]

/-- A tracker built on a backend holds the backend's map. -/
theorem init_of_holds {b : σ} {m : RecordMap} (h : L.Holds b m) :
    ∃ t', init py (some b) = .ok t' ∧ RecordMap.ofRecords py t'.records = m := by
  obtain ⟨l, hl, hmem, hall⟩ := L.listAll h
  have hinit : init py (some b) = .ok ⟨some b, load py l, fun _ => []⟩ := by
    rw [init, hl]
    rfl
  refine ⟨_, hinit, ?_⟩
  funext key
  rw [RecordMap.ofRecords]
  -- a key is loaded exactly when the backend lists a record for it
  rcases hget : (load py l).get? key with _ | r
  · rcases hm : m key with _ | r
    · rfl
    · have hkept : (m key).isSome := by
        rw [hm]
        rfl
      obtain ⟨r', hr', rfl⟩ := hall key hkept
      have hsome : ((load py l).get? (py.lower r'.mac)).isSome := isSome_get?_load hr'
      rw [hget] at hsome
      cases hsome
  · obtain ⟨hr, rfl⟩ := get?_load hget
    exact (hmem r hr).symm

/-- A tracker on this backend can be rebuilt after any run, and the new tracker is equal to the
old one, then and after every further run. -/
def RestartEqual (py : StrLib) (b : σ) : Prop :=
  ∃ t, init py (some b) = .ok t ∧ ∀ ops : List Op, (∀ op ∈ ops, op.AsciiMac) →
    ∃ b' t', (run (step py) t ops).backend = some b' ∧ init py (some b') = .ok t' ∧
      ∀ ops' : List Op, ObsEq py (run (step py) (run (step py) t ops) ops') (run (step py) t' ops')

/-- Restarting on a lawful backend. -/
theorem restartEqual_of_lawful (L : LawfulBackend py σ) {b : σ}
    (hempty : StorageBackend.listAll b = .ok []) : RestartEqual py b := by
  have hinit : init py (some b) = .ok ⟨some b, ∅, fun _ => []⟩ := by
    rw [init, hempty]
    rfl
  refine ⟨_, hinit, fun ops hops => ?_⟩
  have hstep : ∀ (t : ProvisionTracker σ) op, Op.AsciiMac op → Coupled L t →
      Coupled L (step py t op).2 := fun _ _ hop h => h.step hop
  have hstart : Coupled L (⟨some b, ∅, fun _ => []⟩ : ProvisionTracker σ) :=
    ⟨⟨b, rfl, L.holds_of_listAll hempty⟩, keyed_empty⟩
  have hcoupled : Coupled L (run (step py) ⟨some b, ∅, fun _ => []⟩ ops) :=
    run_invariant hstep hstart hops
  obtain ⟨b', hb', hholds⟩ := hcoupled.holds
  obtain ⟨t', ht', hmap⟩ := init_of_holds hholds
  refine ⟨b', t', hb', ht', fun ops' => obsEq_of_ofRecords_eq ?_⟩
  -- From here on both trackers see the same calls, and neither reads its backend again.
  have hsim : ∀ (s s' : ProvisionTracker σ) op, True →
      RecordMap.ofRecords py s.records = RecordMap.ofRecords py s'.records →
      RecordMap.ofRecords py (step py s op).2.records =
        RecordMap.ofRecords py (step py s' op).2.records := by
    intro s s' op _ h
    rw [step_records, step_records, RecordMap.ofRecords_step, RecordMap.ofRecords_step, h]
  exact run_simulates hsim hmap.symm fun _ _ => trivial

/-- **Restart.** On either persistent backend, empty at the start, a tracker built anew after
any run of calls with ASCII MACs is observationally equal to the old one, and stays so under
every further run. -/
theorem restart_observably_equal (py : StrLib) (json : JsonText) :
    (∀ b : JSONBackend py json, b.listAll = .ok [] → RestartEqual py b) ∧
      ∀ b : SQLAlchemyBackend py json, b.listAll = .ok [] → RestartEqual py b :=
  ⟨fun _ h => restartEqual_of_lawful (JSONBackend.lawful py json) h,
    fun _ h => restartEqual_of_lawful (SQLAlchemyBackend.lawful py json) h⟩

/-- A restart of the JSON store after a host was registered and booted. -/
theorem restart_observably_equal_booting :
    ∃ t b t', init .ascii (some (⟨none⟩ : JSONBackend .ascii .parsed)) = .ok t ∧
      (run (step .ascii) t [.register 1 "AA:01" "web" "debian" "12",
        .transition 2 "aa:01" .booting none]).backend = some b ∧
      init .ascii (some b) = .ok t' ∧
      ∀ ops, ObsEq .ascii (run (step .ascii) (run (step .ascii) t
        [.register 1 "AA:01" "web" "debian" "12", .transition 2 "aa:01" .booting none]) ops)
        (run (step .ascii) t' ops) := by
  obtain ⟨t, ht, h⟩ := (restart_observably_equal .ascii .parsed).1 ⟨none⟩ rfl
  have hops : ∀ op ∈ ([.register 1 "AA:01" "web" "debian" "12",
      .transition 2 "aa:01" .booting none] : List Op), op.AsciiMac := by
    intro op hop mac hmac
    fin_cases hop <;> cases hmac <;> decide
  obtain ⟨b, t', hb, ht', heq⟩ := h _ hops
  exact ⟨t, b, t', ht, hb, ht', heq⟩

end ProvisionTracker

end TftpOS
