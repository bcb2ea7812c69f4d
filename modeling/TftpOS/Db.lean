import Mathlib.Algebra.Order.Ring.Rat
import Mathlib.Order.WithBot
import TftpOS.Lib.Except
import TftpOS.Python.Json
import TftpOS.State

/-!
# Storage backends

The codecs of `tftpos/db.py` and its two persistent backends. `JSONBackend` is the text of its
file, absent before the first write; every operation reads and writes the whole document.
`SQLAlchemyBackend` is a row store keyed by primary key, whose rows hold the history as JSON
text.
-/

namespace TftpOS

open Lib

/-- `ProvisionState(value)`. -/
def ProvisionState.ofValue : Json → Except PyExc ProvisionState
  | .str "registered" => .ok .registered
  | .str "booting" => .ok .booting
  | .str "installing" => .ok .installing
  | .str "post_install" => .ok .postInstall
  | .str "complete" => .ok .complete
  | .str "failed" => .ok .failed
  | _ => .error ⟨.valueError, "not a valid ProvisionState"⟩

@[simp]
theorem ProvisionState.ofValue_value (s : ProvisionState) : ofValue (.str s.value) = .ok s := by
  cases s <;> rfl

/-! ### Serialisation helpers -/

/-- The list of `{"state", "timestamp"}` dicts of a history. -/
def historyToJson (history : List (ProvisionState × ℚ)) : Json :=
  .list (history.map fun e => .dict [("state", .str e.1.value), ("timestamp", .float e.2)])

/-- The history read back from such a list. -/
def historyOfJson (data : Json) : Except PyExc (List (ProvisionState × ℚ)) := do
  (← data.iter).mapM fun h => do
    let state ← ProvisionState.ofValue (← h.item "state")
    let timestamp ← (← h.item "timestamp").toFloat
    return (state, timestamp)

/-- `_record_to_dict`. -/
def recordToDict (record : ProvisionRecord) : Json :=
  .dict [
    ("mac", .str record.mac),
    ("profile", .str record.profile),
    ("os_family", .str record.osFamily),
    ("os_version", .str record.osVersion),
    ("state", .str record.state.value),
    ("started_at", .ofFloatOption record.startedAt),
    ("updated_at", .ofFloatOption record.updatedAt),
    ("completed_at", .ofFloatOption record.completedAt),
    ("error_message", .ofTextOption record.errorMessage),
    ("history", historyToJson record.history),
    ("netboot_enabled", .bool record.netbootEnabled)]

/-- `ProvisionRecord.to_dict`. -/
def ProvisionRecord.toDict (record : ProvisionRecord) : Json :=
  .dict [
    ("mac", .str record.mac),
    ("profile", .str record.profile),
    ("os_family", .str record.osFamily),
    ("os_version", .str record.osVersion),
    ("state", .str record.state.value),
    ("started_at", .ofFloatOption record.startedAt),
    ("updated_at", .ofFloatOption record.updatedAt),
    ("completed_at", .ofFloatOption record.completedAt),
    ("error_message", .ofTextOption record.errorMessage),
    ("history", .list (record.history.map fun e =>
      .dict [("state", .str e.1.value), ("timestamp", .float e.2)])),
    ("netboot_enabled", .bool record.netbootEnabled)]

/-- `_dict_to_record`. -/
def dictToRecord (d : Json) : Except PyExc ProvisionRecord := do
  let history ← historyOfJson (← d.getItem "history" (.list []))
  return {
    mac := ← (← d.item "mac").toText
    profile := ← (← d.item "profile").toText
    osFamily := ← (← d.item "os_family").toText
    osVersion := ← (← d.item "os_version").toText
    state := ← ProvisionState.ofValue (← d.item "state")
    startedAt := ← (← d.getItem "started_at" .null).toFloatOption
    updatedAt := ← (← d.getItem "updated_at" .null).toFloatOption
    completedAt := ← (← d.getItem "completed_at" .null).toFloatOption
    errorMessage := ← (← d.getItem "error_message" .null).toTextOption
    history := history
    netbootEnabled := ← (← d.getItem "netboot_enabled" (.bool true)).toBool }

/-- Reading a stored history gives the history back. -/
theorem historyOfJson_historyToJson (history : List (ProvisionState × ℚ)) :
    historyOfJson (historyToJson history) = .ok history := by
  rw [historyOfJson, historyToJson, Value.iter]
  refine mapM_decode_encode (fun e => ?_) history
  simp [Value.item, Value.lookup, Dict.ofEntries, Dict.get?_set]

/-- Reading a stored record gives the record back. -/
theorem dictToRecord_recordToDict (record : ProvisionRecord) :
    dictToRecord (recordToDict record) = .ok record := by
  simp [dictToRecord, recordToDict, Value.item, Value.getItem, Value.lookup, Dict.ofEntries,
    Dict.get?_set, historyOfJson_historyToJson]

/-! ### JSON file backend

A document that is no dict is read all the same; what raises is its use as one. -/

/-- The message of a subscript. -/
private def badSubscript : PyExc := ⟨.typeError, "list indices must be integers or slices, not str"⟩

/-- `data[key] = entry`. -/
def noItemAssignment : Json → PyExc
  | .list _ => badSubscript
  | v => ⟨.typeError, "'" ++ v.typeName Empty.elim ++ "' object does not support item assignment"⟩

/-- `del data[key]`. -/
def noItemDeletion : Json → PyExc
  | .list _ => badSubscript
  | v => ⟨.typeError, "'" ++ v.typeName Empty.elim ++ "' object doesn't support item deletion"⟩

/-- `data.name`. -/
def noAttribute (name : String) (v : Json) : PyExc :=
  ⟨.attributeError,
    "'" ++ v.typeName Empty.elim ++ "' object has no attribute '" ++ name ++ "'"⟩

/-- `key in data`. -/
def hasMember (key : String) : Json → Except PyExc Bool
  | .dict kvs => .ok (Value.lookup key kvs).isSome
  | .list xs => .ok (xs.any fun x => x.asStr = some key)
  | .str s => .ok (decide (key.toList <:+: s.toList))
  | v => .error ⟨.typeError, "argument of type '" ++ v.typeName Empty.elim ++ "' is not iterable"⟩

/-- `JSONBackend`: the text of its file, if the file exists. -/
structure JSONBackend (py : StrLib) (json : JsonText) where
  file : Option json.Text

namespace JSONBackend

variable {py : StrLib} {json : JsonText}

/-- `_load`. A file that does not parse is logged and reads as empty. -/
def load (b : JSONBackend py json) : Json :=
  match b.file with
  | none => .dict []
  | some text =>
    if json.isBlank text then .dict []
    else
      match json.loads text with
      -- the exception is caught and logged
      | none => .dict []
      | some data => data

/-- `_dump`. -/
def dump (data : Dict String Json) : JSONBackend py json :=
  ⟨some (json.dumps (some 2) (.dict data.entries))⟩

/-- `save`. -/
def save (b : JSONBackend py json) (record : ProvisionRecord) :
    Except PyExc (JSONBackend py json) := do
  let data ← b.load.asDict noItemAssignment
  return dump (data.set (py.lower record.mac) (recordToDict record))

/-- `get`. -/
def get (b : JSONBackend py json) (mac : String) : Except PyExc (Option ProvisionRecord) := do
  let data ← b.load.asDict (noAttribute "get")
  match data.get? (py.lower mac) with
  -- `data.get(key)` answers `None` for a missing key and for a stored null
  | none | some .null => return none
  | some entry => return some (← dictToRecord entry)

/-- `list_all`. -/
def listAll (b : JSONBackend py json) : Except PyExc (List ProvisionRecord) := do
  let data ← b.load.asDict (noAttribute "values")
  data.values.mapM dictToRecord

/-- `delete`. -/
def delete (b : JSONBackend py json) (mac : String) :
    Except PyExc (Bool × JSONBackend py json) := do
  match b.load with
  | .dict kvs =>
    let data := Dict.ofEntries kvs
    if data.contains (py.lower mac) then return (true, dump (data.del (py.lower mac)))
    else return (false, b)
  | data =>
    -- nothing can be deleted from a list or a text that has the key as an item or a part
    if ← hasMember (py.lower mac) data then throw (noItemDeletion data)
    else return (false, b)

/-- `clear`. -/
def clear (_ : JSONBackend py json) : Except PyExc (JSONBackend py json) := .ok (dump ∅)

instance : StorageBackend (JSONBackend py json) := ⟨save, get, listAll, delete, clear⟩

/-- A document that was written is read back. -/
theorem load_dump (data : Dict String Json) :
    (dump data : JSONBackend py json).load.IsDictOf data := by
  rw [load, dump]
  simp only [json.isBlank_dumps, json.loads_dumps]
  exact Value.isDictOf_entries data

/-- What a backend answers and leaves when its document is a dict. -/
theorem get_of_isDictOf {b : JSONBackend py json} {data : Dict String Json}
    (h : b.load.IsDictOf data) (mac : String) :
    b.get mac = match data.get? (py.lower mac) with
      | none | some .null => .ok none
      | some entry => (dictToRecord entry).map some := by
  rw [get, Value.asDict_eq_ok_iff.mpr h]
  rfl

theorem delete_of_isDictOf {b : JSONBackend py json} {data : Dict String Json}
    (h : b.load.IsDictOf data) (mac : String) :
    b.delete mac = .ok (if data.contains (py.lower mac) then
      (true, dump (data.del (py.lower mac))) else (false, b)) := by
  obtain ⟨kvs, hload, rfl⟩ := h
  rw [delete, hload]
  dsimp only
  split_ifs <;> rfl

end JSONBackend

/-! ### SQLAlchemy backend -/

/-- `ProvisionRow`: a row of the table `provisions`. -/
structure ProvisionRow (json : JsonText) where
  mac : String
  profile : String
  osFamily : String
  osVersion : String
  state : String
  startedAt : Option ℚ
  updatedAt : Option ℚ
  completedAt : Option ℚ
  errorMessage : Option String
  history : json.Text
  netbootEnabled : Bool

namespace ProvisionRow

variable {json : JsonText}

/-- `to_provision_record`. -/
def toProvisionRecord (row : ProvisionRow json) : Except PyExc ProvisionRecord := do
  let historyData ←
    if json.isEmpty row.history then .ok (.list [])
    else
      match json.loads row.history with
      | none => .error ⟨.valueError, "JSONDecodeError"⟩
      | some data => .ok data
  let history ← historyOfJson historyData
  return {
    mac := row.mac
    profile := row.profile
    osFamily := row.osFamily
    osVersion := row.osVersion
    state := ← ProvisionState.ofValue (.str row.state)
    startedAt := row.startedAt
    updatedAt := row.updatedAt
    completedAt := row.completedAt
    errorMessage := row.errorMessage
    history := history
    netbootEnabled := row.netbootEnabled }

/-- `from_provision_record`. -/
def fromProvisionRecord (py : StrLib) (record : ProvisionRecord) : ProvisionRow json where
  mac := py.lower record.mac
  profile := record.profile
  osFamily := record.osFamily
  osVersion := record.osVersion
  state := record.state.value
  startedAt := record.startedAt
  updatedAt := record.updatedAt
  completedAt := record.completedAt
  errorMessage := record.errorMessage
  history := json.dumps none (historyToJson record.history)
  netbootEnabled := record.netbootEnabled

/-- The field-by-field update of an existing row in `SQLAlchemyBackend.save`. -/
def assign (row : ProvisionRow json) (record : ProvisionRecord) : ProvisionRow json :=
  { row with
    profile := record.profile
    osFamily := record.osFamily
    osVersion := record.osVersion
    state := record.state.value
    startedAt := record.startedAt
    updatedAt := record.updatedAt
    completedAt := record.completedAt
    errorMessage := record.errorMessage
    history := json.dumps none (historyToJson record.history)
    netbootEnabled := record.netbootEnabled }

/-- Reading a row written from a record gives the record, its MAC lower-cased. -/
theorem toProvisionRecord_fromProvisionRecord (py : StrLib) (record : ProvisionRecord) :
    (fromProvisionRecord py record : ProvisionRow json).toProvisionRecord =
      .ok { record with mac := py.lower record.mac } := by
  simp [toProvisionRecord, fromProvisionRecord, json.isEmpty_dumps, json.loads_dumps,
    historyOfJson_historyToJson]

/-- Updating the row of a record's key writes the row that an insert would have written. -/
theorem assign_eq_fromProvisionRecord {py : StrLib} {row : ProvisionRow json}
    {record : ProvisionRecord} (h : row.mac = py.lower record.mac) :
    row.assign record = fromProvisionRecord py record := by
  rw [assign, fromProvisionRecord, h]

end ProvisionRow

/-- `SQLAlchemyBackend`: the rows of its table by primary key. -/
structure SQLAlchemyBackend (py : StrLib) (json : JsonText) where
  rows : Dict String (ProvisionRow json)
  /-- A row is stored under its own primary key. -/
  keyed : ∀ key row, rows.get? key = some row → row.mac = key

namespace SQLAlchemyBackend

variable {py : StrLib} {json : JsonText}

/-- The store after a row was written under its primary key. -/
def put (b : SQLAlchemyBackend py json) (row : ProvisionRow json) : SQLAlchemyBackend py json where
  rows := b.rows.set row.mac row
  keyed key row' h := by
    rw [Dict.get?_set] at h
    split_ifs at h with hkey
    · obtain rfl : row = row' := Option.some.inj h
      exact hkey.symm
    · exact b.keyed key row' h

/-- `save`. -/
def save (b : SQLAlchemyBackend py json) (record : ProvisionRecord) :
    Except PyExc (SQLAlchemyBackend py json) :=
  match b.rows.get? (py.lower record.mac) with
  | some row => .ok (b.put (row.assign record))
  | none => .ok (b.put (.fromProvisionRecord py record))

/-- `get`. -/
def get (b : SQLAlchemyBackend py json) (mac : String) : Except PyExc (Option ProvisionRecord) :=
  match b.rows.get? (py.lower mac) with
  | none => .ok none
  | some row => row.toProvisionRecord.map some

/-- The order of `ORDER BY updated_at DESC`: missing values come last. -/
def newestFirst (updatedAt : Option ℚ) : (WithBot ℚ)ᵒᵈ := OrderDual.toDual updatedAt

/-- `list_all`. -/
def listAll (b : SQLAlchemyBackend py json) : Except PyExc (List ProvisionRecord) :=
  (sortOn (fun row => newestFirst row.updatedAt) b.rows.values).mapM
    ProvisionRow.toProvisionRecord

/-- `delete`. -/
def delete (b : SQLAlchemyBackend py json) (mac : String) :
    Except PyExc (Bool × SQLAlchemyBackend py json) :=
  match b.rows.get? (py.lower mac) with
  | none => .ok (false, b)
  | some _ => .ok (true, {
      rows := b.rows.del (py.lower mac)
      keyed key row h := by
        rw [Dict.get?_del] at h
        split_ifs at h
        exact b.keyed key row h })

/-- `clear`. -/
def clear (_ : SQLAlchemyBackend py json) : Except PyExc (SQLAlchemyBackend py json) :=
  .ok ⟨∅, fun _ _ h => by cases h⟩

instance : StorageBackend (SQLAlchemyBackend py json) := ⟨save, get, listAll, delete, clear⟩

/-- The insert and the update branch of `save` write the same row. -/
theorem save_eq (b : SQLAlchemyBackend py json) (record : ProvisionRecord) :
    b.save record = .ok (b.put (.fromProvisionRecord py record)) := by
  rw [save]
  split
  · next row h => rw [ProvisionRow.assign_eq_fromProvisionRecord (b.keyed _ row h)]
  · rfl

@[simp]
theorem rows_put (b : SQLAlchemyBackend py json) (row : ProvisionRow json) :
    (b.put row).rows = b.rows.set row.mac row := rfl

end SQLAlchemyBackend

/-- **The encodings of a record agree**: both dicts are the same and read back, a row reads back
with its MAC lower-cased, and a save leaves the row of the record under its key, with all other
rows as they were, whether there was a row before or not. -/
theorem record_encodings (py : StrLib) (json : JsonText) (record : ProvisionRecord) :
    dictToRecord (recordToDict record) = .ok record ∧
    record.toDict = recordToDict record ∧
    (ProvisionRow.fromProvisionRecord py record : ProvisionRow json).toProvisionRecord =
      .ok { record with mac := py.lower record.mac } ∧
    ∀ b : SQLAlchemyBackend py json, ∃ b', b.save record = .ok b' ∧
      b'.rows.get? (py.lower record.mac) = some (.fromProvisionRecord py record) ∧
      ∀ key ≠ py.lower record.mac, b'.rows.get? key = b.rows.get? key := by
  refine ⟨dictToRecord_recordToDict record, rfl,
    ProvisionRow.toProvisionRecord_fromProvisionRecord py record, fun b => ?_⟩
  refine ⟨_, b.save_eq record, ?_, fun key hkey => ?_⟩
  · rw [SQLAlchemyBackend.rows_put]
    exact Dict.get?_set_self
  · rw [SQLAlchemyBackend.rows_put]
    exact Dict.get?_set_of_ne hkey

end TftpOS
