import TftpOS.Lib.FiniteMap
import TftpOS.Persistence

/-!
# The backends agree

`MemoryBackend` of `tftpos/db.py`, and the three backends as machines that answer `save`, `get`,
`list_all`, `delete` and `clear`. What they are for is one finite map from lower-cased MACs to
records (`RecordStore`): a backend that starts empty returns what the map returns, call by call,
up to the letter case of the `mac` field and the order of a listing (`backends_refine_map`).
-/

namespace TftpOS

open Lib

/-! ### In-memory backend -/

/-- `MemoryBackend`. -/
structure MemoryBackend (py : StrLib) where
  records : Dict String ProvisionRecord

namespace MemoryBackend

variable {py : StrLib}

/-- `save`. -/
def save (b : MemoryBackend py) (record : ProvisionRecord) : Except PyExc (MemoryBackend py) :=
  .ok ⟨b.records.set (py.lower record.mac) record⟩

/-- `get`. -/
def get (b : MemoryBackend py) (mac : String) : Except PyExc (Option ProvisionRecord) :=
  .ok (b.records.get? (py.lower mac))

/-- `list_all`. -/
def listAll (b : MemoryBackend py) : Except PyExc (List ProvisionRecord) := .ok b.records.values

/-- `delete`: it pops the key and asks whether there was a record. -/
def delete (b : MemoryBackend py) (mac : String) : Except PyExc (Bool × MemoryBackend py) :=
  .ok ((b.records.get? (py.lower mac)).isSome, ⟨b.records.del (py.lower mac)⟩)

/-- `clear`. -/
def clear (_ : MemoryBackend py) : Except PyExc (MemoryBackend py) := .ok ⟨∅⟩

instance : StorageBackend (MemoryBackend py) := ⟨save, get, listAll, delete, clear⟩

end MemoryBackend

/-! ### Backends as machines -/

namespace StorageBackend

/-- A call on a backend. -/
inductive Op where
  | save (record : ProvisionRecord)
  | get (mac : String)
  | listAll
  | delete (mac : String)
  | clear

/-- What a call returns. -/
inductive Reply where
  | done
  | found (record : Option ProvisionRecord)
  | listed (records : List ProvisionRecord)
  | deleted (existed : Bool)

/-- One call; a backend that raises stays as it is. -/
def step {σ : Type} [StorageBackend σ] (b : σ) : Op → Except PyExc Reply × σ
  | .save record =>
    match save b record with
    | .error e => (.error e, b)
    | .ok b' => (.ok .done, b')
  | .get mac => ((get b mac).map .found, b)
  | .listAll => ((listAll b).map .listed, b)
  | .delete mac =>
    match delete b mac with
    | .error e => (.error e, b)
    | .ok (existed, b') => (.ok (.deleted existed), b')
  | .clear =>
    match clear b with
    | .error e => (.error e, b)
    | .ok b' => (.ok .done, b')

/-- The MAC a call names, of a record or as an argument, is ASCII. -/
def Op.AsciiMac : Op → Prop
  | .save record => IsAscii record.mac
  | .get mac => IsAscii mac
  | .delete mac => IsAscii mac
  | .listAll | .clear => True

/-- A reply up to the letter case of MACs and the order of a listing. -/
inductive Observation where
  | done
  | found (record : Option ProvisionRecord)
  | listed (records : Multiset ProvisionRecord)
  | deleted (existed : Bool)

/-- What is observed of a reply. -/
def Reply.observe (py : StrLib) : Reply → Observation
  | .done => .done
  | .found record => .found (record.map (canonical py))
  | .listed records => .listed (records.map (canonical py))
  | .deleted existed => .deleted existed

end StorageBackend

open StorageBackend (Op Observation)

/-! ### One finite map -/

/-- A finite map from lower-cased MACs to records. -/
abbrev RecordStore := Finmap fun _ : String => ProvisionRecord

/-- What a call means for the map. -/
def RecordStore.step (py : StrLib) (m : RecordStore) : Op → Observation × RecordStore
  | .save record => (.done, m.insert (py.lower record.mac) (canonical py record))
  | .get mac => (.found (m.lookup (py.lower mac)), m)
  | .listAll => (.listed (m.entries.map Sigma.snd), m)
  | .delete mac => (.deleted (m.lookup (py.lower mac)).isSome, m.erase (py.lower mac))
  | .clear => (.done, ∅)

/-- A backend all of whose calls act on the map it holds. -/
structure MapBackend (py : StrLib) (σ : Type) [StorageBackend σ] extends LawfulBackend py σ where
  get : ∀ {b : σ} {m : RecordMap} (mac : String), Holds b m →
    ∃ o, StorageBackend.get b mac = .ok o ∧ o.map (canonical py) = m (py.lower mac)
  delete : ∀ {b : σ} {m : RecordMap} (mac : String), Holds b m →
    ∃ b', StorageBackend.delete b mac = .ok ((m (py.lower mac)).isSome, b') ∧
      Holds b' (Function.update m (py.lower mac) none)
  mem_listAll : ∀ {b : σ} {m : RecordMap} {l : List ProvisionRecord}, Holds b m →
    StorageBackend.listAll b = .ok l →
      (l.map (canonical py)).Nodup ∧ ∀ r, r ∈ l.map (canonical py) ↔ ∃ key, m key = some r

/-! ### The three backends hold the map -/

section

variable {py : StrLib} {json : JsonText} {d : Dict String ProvisionRecord}

theorem Keyed.del (hd : Keyed py d) (key : String) : Keyed py (d.del key) := by
  intro key' r h
  rw [Dict.get?_del] at h
  split_ifs at h
  exact hd key' r h

/-- The records of a dictionary differ up to letter case: their MACs do. -/
theorem Keyed.nodup_canonical (hd : Keyed py d) : (d.values.map (canonical py)).Nodup := by
  have hkeys : d.values.map (fun r => py.lower r.mac) = d.keys := by
    rw [Dict.values, Dict.keys, List.map_map]
    refine List.map_congr_left fun e he => ?_
    exact (hd e.1 e.2 (Dict.get?_eq_some_iff.mpr he)).1
  refine List.Nodup.of_map (·.mac) ?_
  have hnodup : d.keys.Nodup := d.nodup
  rw [← hkeys] at hnodup
  simpa [canonical, Function.comp_def] using hnodup

/-- Up to letter case, a dictionary and its canonical copy are the same records. -/
theorem Keyed.canonical_canonical (hd : Keyed py d) :
    (d.values.map (canonical py)).map (canonical py) = d.values.map (canonical py) := by
  rw [List.map_map]
  refine List.map_congr_left fun r hr => ?_
  obtain ⟨key, hkey⟩ := Dict.mem_values_iff.mp hr
  have hlower := py.lower_lower (hd key r hkey).2
  simp [canonical, hlower]

end

/-- The memory backend holds the map its dictionary stands for. -/
def MemoryBackend.acts (py : StrLib) : MapBackend py (MemoryBackend py) where
  Holds b m := Keyed py b.records ∧ RecordMap.ofRecords py b.records = m
  holds_of_listAll {b} h := by
    rw [Dict.eq_empty_of_values (Except.ok.inj h)]
    exact ⟨keyed_empty, rfl⟩
  save {b m r} := by
    rintro ⟨hd, rfl⟩ hascii
    exact ⟨_, rfl, hd.set ⟨rfl, hascii⟩, RecordMap.ofRecords_set _ _⟩
  clear _ := ⟨_, rfl, keyed_empty, rfl⟩
  listAll {b m} := by
    rintro ⟨hd, rfl⟩
    refine ⟨_, rfl, fun r hr => hd.ofRecords_lower hr, fun key hsome => ?_⟩
    obtain ⟨r, hr, hkey, -⟩ := hd.exists_of_isSome hsome
    exact ⟨r, hr, hkey⟩
  get {b m} mac := by
    rintro ⟨hd, rfl⟩
    exact ⟨_, rfl, rfl⟩
  delete {b m} mac := by
    rintro ⟨hd, rfl⟩
    refine ⟨⟨b.records.del (py.lower mac)⟩, ?_, hd.del _, RecordMap.ofRecords_del _⟩
    rw [RecordMap.ofRecords, Option.isSome_map]
    rfl
  mem_listAll {b m l} := by
    rintro ⟨hd, rfl⟩ hl
    obtain rfl : b.records.values = l := Except.ok.inj hl
    exact ⟨hd.nodup_canonical, fun _ => RecordMap.mem_canonical_iff⟩

/-- Every call on the JSON backend acts on the map of its document. -/
def JSONBackend.acts (py : StrLib) (json : JsonText) : MapBackend py (JSONBackend py json) where
  toLawfulBackend := JSONBackend.lawful py json
  get {b m} mac := by
    rintro ⟨d, hload, hd, rfl⟩
    refine ⟨d.get? (py.lower mac), (JSONBackend.get_of_isDictOf hload mac).trans ?_, rfl⟩
    rw [Dict.get?_mapValues]
    rcases hget : d.get? (py.lower mac) with _ | r
    · rfl
    · exact congrArg (Except.map some) (dictToRecord_recordToDict r)
  delete {b m} mac := by
    rintro ⟨d, hload, hd, rfl⟩
    rw [← RecordMap.ofRecords_del]
    have hsome : (RecordMap.ofRecords py d (py.lower mac)).isSome =
        (d.mapValues fun _ r => recordToDict r).contains (py.lower mac) := by
      simp [Dict.contains_eq_isSome, RecordMap.ofRecords, Dict.get?_mapValues]
    rw [hsome]
    have hdelete := JSONBackend.delete_of_isDictOf hload mac
    by_cases hmem : (d.mapValues fun _ r => recordToDict r).contains (py.lower mac) = true
    · refine ⟨JSONBackend.dump ((d.mapValues fun _ r => recordToDict r).del (py.lower mac)),
        hdelete.trans ?_, d.del (py.lower mac), ?_, hd.del _, rfl⟩
      · rw [if_pos hmem, hmem]
      · rw [Dict.mapValues_del]
        exact JSONBackend.load_dump _
    · -- nothing is stored under the key, so the file stays as it is
      have hnone : d.get? (py.lower mac) = none := by
        simpa [Dict.contains_eq_isSome, Dict.get?_mapValues] using hmem
      refine ⟨b, hdelete.trans ?_, d, hload, hd, ?_⟩
      · rw [if_neg hmem, Bool.eq_false_iff.mpr hmem]
      · rw [Dict.del_of_get?_eq_none hnone]
  mem_listAll {b m l} := by
    rintro ⟨d, hload, hd, rfl⟩ hl
    obtain ⟨data, hdata, hl⟩ := bind_eq_ok_iff.mp hl
    obtain rfl := Except.ok.inj ((Value.asDict_eq_ok_iff.mpr hload).symm.trans hdata)
    rw [Dict.values_mapValues, mapM_decode_encode dictToRecord_recordToDict] at hl
    obtain rfl : d.values = l := Except.ok.inj hl
    exact ⟨hd.nodup_canonical, fun _ => RecordMap.mem_canonical_iff⟩

/-- Every call on the SQLAlchemy backend acts on the map of its rows. -/
def SQLAlchemyBackend.acts (py : StrLib) (json : JsonText) :
    MapBackend py (SQLAlchemyBackend py json) where
  toLawfulBackend := SQLAlchemyBackend.lawful py json
  get {b m} mac := by
    rintro ⟨d, hrows, hd, rfl⟩
    show ∃ o, SQLAlchemyBackend.get b mac = .ok o ∧ _
    rw [SQLAlchemyBackend.get, hrows, Dict.get?_mapValues, RecordMap.ofRecords]
    rcases hget : d.get? (py.lower mac) with _ | r
    · exact ⟨none, rfl, rfl⟩
    · have hlower := py.lower_lower (hd _ r hget).2
      refine ⟨some (canonical py r), ?_, by simp [canonical, hlower]⟩
      simp only [Option.map_some, ProvisionRow.toProvisionRecord_fromProvisionRecord]
      rfl
  delete {b m} mac := by
    rintro ⟨d, hrows, hd, rfl⟩
    rw [← RecordMap.ofRecords_del]
    show ∃ b', SQLAlchemyBackend.delete b mac = _ ∧ _
    rw [SQLAlchemyBackend.delete]
    have hget : b.rows.get? (py.lower mac) =
        (d.get? (py.lower mac)).map (.fromProvisionRecord py) := by
      rw [hrows, Dict.get?_mapValues]
    split
    · next hnone =>
      rw [hget, Option.map_eq_none_iff] at hnone
      refine ⟨b, by simp [RecordMap.ofRecords, hnone], d, hrows, hd, ?_⟩
      rw [Dict.del_of_get?_eq_none hnone]
    · next row hsome =>
      obtain ⟨r, hr, -⟩ := Option.map_eq_some_iff.mp (hget.symm.trans hsome)
      refine ⟨_, by simp [RecordMap.ofRecords, hr]; rfl, d.del (py.lower mac), ?_, hd.del _, rfl⟩
      rw [Dict.mapValues_del, ← hrows]
  mem_listAll {b m l} := by
    rintro ⟨d, hrows, hd, rfl⟩ hl
    obtain rfl := Except.ok.inj ((SQLAlchemyBackend.listAll_eq hrows).symm.trans hl)
    have hperm : (((sortOn (fun r => SQLAlchemyBackend.newestFirst r.updatedAt) d.values).map
        (canonical py)).map (canonical py)).Perm (d.values.map (canonical py)) := by
      rw [← hd.canonical_canonical]
      exact ((perm_sortOn _ _).map _).map _
    refine ⟨hperm.nodup_iff.mpr hd.nodup_canonical, fun r => ?_⟩
    rw [hperm.mem_iff]
    exact RecordMap.mem_canonical_iff

/-! ### Refinement -/

section

variable {py : StrLib} {σ : Type} [StorageBackend σ] {L : MapBackend py σ} {b : σ} {m : RecordStore}

/-- The backend holds the finite map, whose records tell their keys. -/
structure Refines (L : MapBackend py σ) (b : σ) (m : RecordStore) : Prop where
  holds : L.Holds b fun key => m.lookup key
  keyed : ∀ key r, m.lookup key = some r → r.mac = key

private theorem keyed_insert (h : ∀ key r, m.lookup key = some r → r.mac = key)
    (record : ProvisionRecord) :
    ∀ key r, (m.insert (py.lower record.mac) (canonical py record)).lookup key = some r →
      r.mac = key := by
  intro key r hr
  by_cases hkey : key = py.lower record.mac
  · subst hkey
    rw [Finmap.lookup_insert] at hr
    rw [← Option.some.inj hr]
    rfl
  · rw [Finmap.lookup_insert_of_ne _ hkey] at hr
    exact h key r hr

private theorem keyed_erase (h : ∀ key r, m.lookup key = some r → r.mac = key) (mac : String) :
    ∀ key r, (m.erase mac).lookup key = some r → r.mac = key := by
  intro key r hr
  by_cases hkey : key = mac
  · subst hkey
    rw [Finmap.lookup_erase] at hr
    cases hr
  · rw [Finmap.lookup_erase_ne hkey] at hr
    exact h key r hr

/-- One call: the backend returns what the map returns, and holds the map after it. -/
theorem Refines.step (h : Refines L b m) {op : Op} (hop : op.AsciiMac) :
    (StorageBackend.step b op).1.map (·.observe py) = .ok (m.step py op).1 ∧
      Refines L (StorageBackend.step b op).2 (m.step py op).2 := by
  cases op with
  | save record =>
    obtain ⟨b', hsave, hholds⟩ := L.save h.holds hop
    rw [← lookup_insert_eq_update] at hholds
    rw [StorageBackend.step, hsave]
    exact ⟨rfl, hholds, keyed_insert h.keyed record⟩
  | get mac =>
    obtain ⟨o, hget, ho⟩ := L.get mac h.holds
    refine ⟨?_, h⟩
    rw [StorageBackend.step, hget, RecordStore.step, ← ho]
    rfl
  | listAll =>
    obtain ⟨l, hl, -⟩ := L.listAll h.holds
    obtain ⟨hnodup, hmem⟩ := L.mem_listAll h.holds hl
    refine ⟨?_, h⟩
    have hvalues : (l.map (canonical py) : Multiset ProvisionRecord) = m.entries.map Sigma.snd := by
      have hnodup' := nodup_values h.keyed
      refine (Multiset.Nodup.ext (Multiset.coe_nodup.mpr hnodup) hnodup').mpr fun r => ?_
      rw [mem_values_iff_lookup]
      exact hmem r
    rw [StorageBackend.step, hl, RecordStore.step, ← hvalues]
    rfl
  | delete mac =>
    obtain ⟨b', hdelete, hholds⟩ := L.delete mac h.holds
    rw [← lookup_erase_eq_update] at hholds
    rw [StorageBackend.step, hdelete]
    exact ⟨rfl, hholds, keyed_erase h.keyed _⟩
  | clear =>
    obtain ⟨b', hclear, hholds⟩ := L.clear h.holds
    rw [StorageBackend.step, hclear]
    exact ⟨rfl, hholds, fun key r hr => by cases hr⟩

/-- What the calls of a run return, as a caller observes it. -/
def observed (py : StrLib) (b : σ) (ops : List Op) : List (Except PyExc Observation) :=
  (outputs StorageBackend.step b ops).map fun reply => reply.map (·.observe py)

/-- A backend that starts empty returns what the empty map returns. -/
theorem observed_eq_map (L : MapBackend py σ) (hempty : StorageBackend.listAll b = .ok [])
    {ops : List Op} (hops : ∀ op ∈ ops, op.AsciiMac) :
    observed py b ops = (outputs (RecordStore.step py) ∅ ops).map .ok := by
  have hstart : Refines L b ∅ := ⟨L.holds_of_listAll hempty, fun key r hr => by cases hr⟩
  have hstep : ∀ (b : σ) (m : RecordStore) (op : Op), op.AsciiMac → Refines L b m →
      (StorageBackend.step b op).1.map (·.observe py) = .ok (m.step py op).1 ∧
        Refines L (StorageBackend.step b op).2 (m.step py op).2 := fun _ _ _ hop h => h.step hop
  exact outputs_simulates hstep hstart hops

end

/-- **The backends agree.** Started empty, the three backends return the same on every run of
calls with ASCII MACs, up to the letter case of the `mac` field and the order of a listing: what
one finite map keyed by the lower-cased MAC returns. -/
theorem backends_refine_map (py : StrLib) (json : JsonText) {memory : MemoryBackend py}
    {file : JSONBackend py json} {table : SQLAlchemyBackend py json}
    (hmemory : memory.listAll = .ok []) (hfile : file.listAll = .ok [])
    (htable : table.listAll = .ok []) {ops : List Op} (hops : ∀ op ∈ ops, op.AsciiMac) :
    observed py memory ops = observed py file ops ∧ observed py file ops = observed py table ops ∧
      observed py table ops = (outputs (RecordStore.step py) ∅ ops).map .ok := by
  have hm := observed_eq_map (MemoryBackend.acts py) hmemory hops
  have hf := observed_eq_map (JSONBackend.acts py json) hfile hops
  have ht := observed_eq_map (SQLAlchemyBackend.acts py json) htable hops
  exact ⟨hm.trans hf.symm, hf.trans ht.symm, ht⟩

/-- A record of the lab. -/
private def labRecord (mac profile : String) : ProvisionRecord where
  mac := mac
  profile := profile
  osFamily := "debian"
  osVersion := "12"

/-- A record is saved in one spelling of its MAC, updated in another, and deleted. -/
theorem backends_refine_map_spellings :
    observed .ascii (⟨∅⟩ : MemoryBackend .ascii) [.save (labRecord "AA" "web"),
        .save (labRecord "aa" "db"), .listAll, .delete "Aa", .get "aa"] =
      observed .ascii (⟨none⟩ : JSONBackend .ascii .parsed) [.save (labRecord "AA" "web"),
        .save (labRecord "aa" "db"), .listAll, .delete "Aa", .get "aa"] := by
  let table : SQLAlchemyBackend .ascii .parsed := ⟨∅, fun _ _ h => by cases h⟩
  have htable : table.listAll = .ok [] := rfl
  refine (backends_refine_map .ascii .parsed rfl rfl htable ?_).1
  intro op hop
  fin_cases hop <;> simp only [StorageBackend.Op.AsciiMac] <;> decide

end TftpOS
