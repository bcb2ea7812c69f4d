import TftpOS.Lib.Tolerant
import TftpOS.Db

/-!
# Migration of a JSON file

`migrate_json_to_sqlite`. The entries of the file are arbitrary JSON, and `_dict_to_record` copies
their fields without a check; the types in `Untyped` are those of the storage backends with the
fields that a JSON value can reach left as JSON. What the columns of the database make of such a
value is not decided here: `Columns` is what SQLAlchemy and SQLite do with it.

The loop of the migration catches `KeyError` and `ValueError` only. `migrate_iff` says for which
documents that is enough.
-/

namespace TftpOS

open Lib

/-- Python's `==` for the values of columns: numbers of different types may be equal. -/
def Value.number? {ι : Type} : Value ι → Option ℚ
  | .bool b => some (if b then 1 else 0)
  | .int n => some n
  | .float q => some q
  | _ => none

/-- Values that are `==`. -/
def Value.PyEq {ι : Type} (v w : Value ι) : Prop :=
  v = w ∨ ∃ q, v.number? = some q ∧ w.number? = some q

@[simp]
theorem Value.PyEq.refl {ι : Type} (v : Value ι) : v.PyEq v := .inl rfl

/-- The types of the columns of `ProvisionRow`. -/
inductive ColumnType where
  /-- `String`, not nullable. -/
  | string
  /-- `Text`, nullable. -/
  | text
  /-- `Float`, nullable. -/
  | float
  /-- `Boolean`, not nullable. -/
  | boolean

/-- What `except (KeyError, ValueError)` catches. -/
def PyExc.isMalformed (e : PyExc) : Bool := e.cls = .keyError ∨ e.cls = .valueError

/-- What SQLAlchemy and SQLite do with the values of a row: `store type old v` is the value that is
read back after `v` was written over `old` (`none` in a new row), or what the commit raises.
Values of the type of the column are kept, and no refusal is a `KeyError` or a `ValueError`. -/
structure Columns where
  store : ColumnType → (old : Option Json) → Json → Except PyExc Json
  store_string : ∀ old s, store .string old (.str s) = .ok (.str s)
  store_text : ∀ old s, store .text old (.str s) = .ok (.str s)
  store_text_null : ∀ old, store .text old .null = .ok .null
  store_float : ∀ old q, store .float old (.float q) = .ok (.float q)
  store_float_null : ∀ old, store .float old .null = .ok .null
  store_boolean : ∀ old b, store .boolean old (.bool b) = .ok (.bool b)
  store_error : ∀ type old v e, store type old v = .error e → e.isMalformed = false

namespace Untyped

/-- `ProvisionRecord`, with the fields as `_dict_to_record` copies them. -/
structure ProvisionRecord where
  mac : Json
  profile : Json
  osFamily : Json
  osVersion : Json
  state : ProvisionState
  startedAt : Json
  updatedAt : Json
  completedAt : Json
  errorMessage : Json
  history : List (ProvisionState × Json)
  netbootEnabled : Json

/-- The list of `{"state", "timestamp"}` dicts of a history. -/
def historyToJson (history : List (ProvisionState × Json)) : Json :=
  .list (history.map fun e => .dict [("state", .str e.1.value), ("timestamp", e.2)])

/-- An item of such a list. -/
def historyItem (h : Json) : Except PyExc (ProvisionState × Json) := do
  let state ← ProvisionState.ofValue (← h.item "state")
  return (state, ← h.item "timestamp")

/-- The history read back from such a list. -/
def historyOfJson (data : Json) : Except PyExc (List (ProvisionState × Json)) := do
  (← data.iter).mapM historyItem

/-- `_dict_to_record`. -/
def dictToRecord (d : Json) : Except PyExc ProvisionRecord := do
  let history ← historyOfJson (← d.getItem "history" (.list []))
  return {
    mac := ← d.item "mac"
    profile := ← d.item "profile"
    osFamily := ← d.item "os_family"
    osVersion := ← d.item "os_version"
    state := ← ProvisionState.ofValue (← d.item "state")
    startedAt := ← d.getItem "started_at" .null
    updatedAt := ← d.getItem "updated_at" .null
    completedAt := ← d.getItem "completed_at" .null
    errorMessage := ← d.getItem "error_message" .null
    history := history
    netbootEnabled := ← d.getItem "netboot_enabled" (.bool true) }

/-- `record.mac.lower()`. -/
def lowerMac (py : StrLib) (record : ProvisionRecord) : Except PyExc String :=
  match record.mac with
  | .str mac => .ok (py.lower mac)
  | _ => .error ⟨.attributeError, "no attribute 'lower'"⟩

/-- `ProvisionRow`. -/
structure ProvisionRow (json : JsonText) where
  mac : String
  profile : Json
  osFamily : Json
  osVersion : Json
  state : String
  startedAt : Json
  updatedAt : Json
  completedAt : Json
  errorMessage : Json
  history : json.Text
  netbootEnabled : Json

namespace ProvisionRow

variable {json : JsonText}

/-- `to_provision_record`. -/
def toProvisionRecord (row : ProvisionRow json) : Except PyExc ProvisionRecord := do
  let historyData ←
    if json.isEmpty row.history then .ok (.list [])
    else
      match json.loads row.history with
      | none => .error ⟨.valueError, "JSONDecodeError"⟩
      | some data => .ok data
  let history ← historyOfJson historyData
  return {
    mac := .str row.mac
    profile := row.profile
    osFamily := row.osFamily
    osVersion := row.osVersion
    state := ← ProvisionState.ofValue (.str row.state)
    startedAt := row.startedAt
    updatedAt := row.updatedAt
    completedAt := row.completedAt
    errorMessage := row.errorMessage
    history := history
    netbootEnabled := .bool row.netbootEnabled.truthy }

/-- `from_provision_record`. -/
def fromProvisionRecord (py : StrLib) (record : ProvisionRecord) :
    Except PyExc (ProvisionRow json) := do
  return {
    mac := ← lowerMac py record
    profile := record.profile
    osFamily := record.osFamily
    osVersion := record.osVersion
    state := record.state.value
    startedAt := record.startedAt
    updatedAt := record.updatedAt
    completedAt := record.completedAt
    errorMessage := record.errorMessage
    history := json.dumps none (historyToJson record.history)
    netbootEnabled := record.netbootEnabled }

/-- The field-by-field update of an existing row in `SQLAlchemyBackend.save`. -/
def assign (row : ProvisionRow json) (record : ProvisionRecord) : ProvisionRow json :=
  { row with
    profile := record.profile
    osFamily := record.osFamily
    osVersion := record.osVersion
    state := record.state.value
    startedAt := record.startedAt
    updatedAt := record.updatedAt
    completedAt := record.completedAt
    errorMessage := record.errorMessage
    history := json.dumps none (historyToJson record.history)
    netbootEnabled := record.netbootEnabled }

/-- What the columns hold after a row was committed over an old one. -/
def commit (columns : Columns) (old : Option (ProvisionRow json)) (row : ProvisionRow json) :
    Except PyExc (ProvisionRow json) := do
  return { row with
    profile := ← columns.store .string (old.map (·.profile)) row.profile
    osFamily := ← columns.store .string (old.map (·.osFamily)) row.osFamily
    osVersion := ← columns.store .string (old.map (·.osVersion)) row.osVersion
    startedAt := ← columns.store .float (old.map (·.startedAt)) row.startedAt
    updatedAt := ← columns.store .float (old.map (·.updatedAt)) row.updatedAt
    completedAt := ← columns.store .float (old.map (·.completedAt)) row.completedAt
    errorMessage := ← columns.store .text (old.map (·.errorMessage)) row.errorMessage
    netbootEnabled := ← columns.store .boolean (old.map (·.netbootEnabled)) row.netbootEnabled }

end ProvisionRow

/-- `SQLAlchemyBackend`: the rows of its table by primary key. -/
structure SQLAlchemyBackend (py : StrLib) (json : JsonText) where
  rows : Dict String (ProvisionRow json)
  /-- A row is stored under its own primary key. -/
  keyed : ∀ key row, rows.get? key = some row → row.mac = key

namespace SQLAlchemyBackend

variable {py : StrLib} {json : JsonText}

/-- The store after a row was written under its primary key. -/
def put (b : SQLAlchemyBackend py json) (row : ProvisionRow json) : SQLAlchemyBackend py json where
  rows := b.rows.set row.mac row
  keyed key row' h := by
    rw [Dict.get?_set] at h
    split_ifs at h with hkey
    · obtain rfl : row = row' := Option.some.inj h
      exact hkey.symm
    · exact b.keyed key row' h

/-- The database without rows. -/
def empty : SQLAlchemyBackend py json := ⟨∅, fun _ _ h => by cases h⟩

/-- `save`. -/
def save (columns : Columns) (b : SQLAlchemyBackend py json) (record : ProvisionRecord) :
    Except PyExc (SQLAlchemyBackend py json) := do
  match b.rows.get? (← lowerMac py record) with
  | some row => return b.put (← (row.assign record).commit columns (some row))
  | none => return b.put (← (← ProvisionRow.fromProvisionRecord py record).commit columns none)

/-- `get`. -/
def get (b : SQLAlchemyBackend py json) (mac : String) : Except PyExc (Option ProvisionRecord) :=
  match b.rows.get? (py.lower mac) with
  | none => .ok none
  | some row => row.toProvisionRecord.map some

end SQLAlchemyBackend

/-! ### The migration -/

/-- The records of a document: it might be a flat dict keyed by MAC, or a list. -/
def recordsOf : Json → Option (List Json)
  | .list records => some records
  | .dict kvs => some (Dict.ofEntries kvs).values
  | _ => none

variable {py : StrLib} {json : JsonText}

/-- The body of the loop of `migrate_json_to_sqlite`. -/
def migrateEntry (columns : Columns) (b : SQLAlchemyBackend py json) (entry : Json) :
    Except PyExc (SQLAlchemyBackend py json) := do
  b.save columns (← dictToRecord entry)

/-- `migrate_json_to_sqlite`: what it returns, and the database after it. `file` is the text of
the JSON file, if the file exists. -/
def migrateJsonToSqlite (columns : Columns) (jsonPath : String) (file : Option json.Text)
    (b : SQLAlchemyBackend py json) : Except PyExc ℕ × SQLAlchemyBackend py json :=
  match file with
  | none => (.error ⟨.fileNotFoundError, "State file not found: " ++ jsonPath⟩, b)
  | some text =>
    match if json.isBlank text then some (.dict []) else json.loads text with
    | none => (.error ⟨.valueError, "JSONDecodeError"⟩, b)
    | some raw =>
      match recordsOf raw with
      | none => (.error ⟨.valueError, "Unexpected JSON structure in " ++ jsonPath⟩, b)
      | some records => attemptAll (migrateEntry columns) PyExc.isMalformed b 0 records

/-! ### Entries that decode -/

/-- The only exceptions that a computation raises are those that the loop catches. -/
def Skippable {α : Type} (x : Except PyExc α) : Prop := ∀ e, x = .error e → e.isMalformed = true

/-- The loop catches no exception that a computation raises. -/
def Unskippable {α : Type} (x : Except PyExc α) : Prop :=
  ∀ e, x = .error e → e.isMalformed = false

section Exceptions

variable {α β : Type}

@[simp]
theorem skippable_ok (a : α) : Skippable (.ok a) := fun _ h => by cases h

@[simp]
theorem skippable_error {e : PyExc} :
    Skippable (.error e : Except PyExc α) ↔ e.isMalformed = true :=
  ⟨fun h => h e rfl, fun h _ he => by cases he; exact h⟩

theorem skippable_bind_iff {x : Except PyExc α} {f : α → Except PyExc β} :
    Skippable (x >>= f) ↔ Skippable x ∧ ∀ a, x = .ok a → Skippable (f a) := by
  cases x with
  | error e => simp
  | ok a => simp

@[simp]
theorem unskippable_ok (a : α) : Unskippable (.ok a) := fun _ h => by cases h

theorem Unskippable.bind {x : Except PyExc α} {f : α → Except PyExc β} (hx : Unskippable x)
    (hf : ∀ a, Unskippable (f a)) : Unskippable (x >>= f) := by
  intro e he
  rcases bind_eq_error_iff.mp he with herr | ⟨a, -, herr⟩
  · exact hx e herr
  · exact hf a e herr

end Exceptions

theorem skippable_item_iff {v : Json} {key : String} :
    Skippable (v.item key) ↔ v.isDict = true := by
  cases v with
  | dict kvs =>
    rw [Value.item]
    split <;> simp [Value.isDict, PyExc.isMalformed]
  | _ => simp [Value.item, Value.isDict, PyExc.isMalformed]

theorem skippable_getItem_iff {v default : Json} {key : String} :
    Skippable (v.getItem key default) ↔ v.isDict = true := by
  cases v <;> simp [Value.getItem, Value.isDict, PyExc.isMalformed]

theorem ofValue_eq_ok_iff {v : Json} {s : ProvisionState} :
    ProvisionState.ofValue v = .ok s ↔ v = .str s.value := by
  constructor
  · intro h
    rw [ProvisionState.ofValue.eq_def] at h
    split at h <;> cases h <;> rfl
  · rintro rfl
    exact ProvisionState.ofValue_value s

theorem skippable_ofValue (v : Json) : Skippable (ProvisionState.ofValue v) := by
  intro e h
  rw [ProvisionState.ofValue.eq_def] at h
  split at h <;> cases h
  rfl

/-- A value is a dict with a state and a timestamp. -/
def IsHistoryItem : Json → Prop
  | .dict kvs => (∃ s : ProvisionState, Value.lookup "state" kvs = some (.str s.value)) ∧
      ∃ t, Value.lookup "timestamp" kvs = some t
  | _ => False

/-- The items of a history up to the first that is no history item, and this one too, are
dicts. -/
def ReadableItems : List Json → Prop
  | [] => True
  | x :: xs => x.isDict = true ∧ (IsHistoryItem x → ReadableItems xs)

/-- A history that `_dict_to_record` can iterate over: a list of readable items, or an empty
string or dict. -/
def ReadableHistory : Json → Prop
  | .list xs => ReadableItems xs
  | .str s => s = ""
  | .dict kvs => (Dict.ofEntries kvs).keys = []
  | _ => False

/-- An entry that is a dict whose history, if it has one, can be read. -/
def Readable : Json → Prop
  | .dict kvs => ReadableHistory ((Value.lookup "history" kvs).getD (.list []))
  | _ => False

theorem skippable_historyItem_iff {v : Json} : Skippable (historyItem v) ↔ v.isDict = true := by
  rw [historyItem, skippable_bind_iff, skippable_item_iff]
  refine and_iff_left_of_imp fun hdict a _ => ?_
  rw [skippable_bind_iff]
  refine ⟨skippable_ofValue a, fun s _ => ?_⟩
  rw [skippable_bind_iff, skippable_item_iff]
  exact ⟨hdict, fun t _ => skippable_ok _⟩

theorem exists_historyItem_iff {v : Json} : (∃ r, historyItem v = .ok r) ↔ IsHistoryItem v := by
  cases v with
  | dict kvs =>
    simp only [historyItem, bind_eq_ok_iff, ofValue_eq_ok_iff, Value.item, IsHistoryItem]
    constructor
    · rintro ⟨r, a, ha, s, rfl, t, ht, -⟩
      constructor
      · exact ⟨s, by split at ha <;> grind⟩
      · exact ⟨t, by split at ht <;> grind⟩
    · rintro ⟨⟨s, hs⟩, t, ht⟩
      exact ⟨(s, t), .str s.value, by rw [hs], s, rfl, t, by rw [ht], rfl⟩
  | _ => simp [historyItem, Value.item, IsHistoryItem]

theorem skippable_mapM_historyItem_iff {xs : List Json} :
    Skippable (xs.mapM historyItem) ↔ ReadableItems xs := by
  induction xs with
  | nil => simp [ReadableItems]
  | cons x xs ih =>
    rw [List.mapM_cons, skippable_bind_iff, skippable_historyItem_iff, ReadableItems,
      ← exists_historyItem_iff]
    refine and_congr_right fun _ => ?_
    rw [forall_exists_index]
    refine forall_congr' fun r => imp_congr_right fun _ => ?_
    rw [skippable_bind_iff, ih]
    exact and_iff_left fun _ _ => skippable_ok _

/-- Strings are no history items, so only the empty list of strings can be read. -/
theorem readableItems_map_str_iff {α : Type} {f : α → String} {as : List α} :
    ReadableItems (as.map fun a => .str (f a)) ↔ as = [] := by
  cases as <;> simp [ReadableItems, Value.isDict]

theorem skippable_historyOfJson_iff {v : Json} :
    Skippable (historyOfJson v) ↔ ReadableHistory v := by
  have hiter : ∀ xs, v.iter = .ok xs → (Skippable (historyOfJson v) ↔ ReadableItems xs) := by
    intro xs hxs
    rw [historyOfJson, hxs, ok_bind, skippable_mapM_historyItem_iff]
  cases v with
  | list xs => exact hiter xs rfl
  | str s => exact (hiter _ rfl).trans (readableItems_map_str_iff.trans (by simp [ReadableHistory]))
  | dict kvs => exact (hiter _ rfl).trans readableItems_map_str_iff
  | _ => simp [historyOfJson, Value.iter, ReadableHistory, PyExc.isMalformed]

/-- **When decoding an entry raises nothing else** than a `KeyError` or a `ValueError`. -/
theorem skippable_dictToRecord_iff {entry : Json} :
    Skippable (dictToRecord entry) ↔ Readable entry := by
  cases entry with
  | dict kvs =>
    rw [dictToRecord, Value.getItem, ok_bind, skippable_bind_iff, skippable_historyOfJson_iff]
    refine and_iff_left fun history _ => ?_
    simp [skippable_bind_iff, skippable_item_iff, skippable_getItem_iff, skippable_ofValue,
      Value.isDict]
  | _ => simp [dictToRecord, Value.getItem, Readable, PyExc.isMalformed]

/-! ### Records that are stored -/

namespace ProvisionRecord

/-- The text fields are strings; the error message may be missing. -/
def hasTexts (r : ProvisionRecord) : Bool :=
  r.mac.toText.isOk && r.profile.toText.isOk && r.osFamily.toText.isOk && r.osVersion.toText.isOk &&
    r.errorMessage.toTextOption.isOk

/-- The key of the row of a record. -/
def key? (py : StrLib) (r : ProvisionRecord) : Option String := r.mac.asStr.map py.lower

/-- Records that are `==`. -/
structure Same (r r' : ProvisionRecord) : Prop where
  mac : r.mac.PyEq r'.mac
  profile : r.profile.PyEq r'.profile
  osFamily : r.osFamily.PyEq r'.osFamily
  osVersion : r.osVersion.PyEq r'.osVersion
  state : r.state = r'.state
  startedAt : r.startedAt.PyEq r'.startedAt
  updatedAt : r.updatedAt.PyEq r'.updatedAt
  completedAt : r.completedAt.PyEq r'.completedAt
  errorMessage : r.errorMessage.PyEq r'.errorMessage
  history : r.history = r'.history
  netbootEnabled : r.netbootEnabled.PyEq r'.netbootEnabled

end ProvisionRecord

/-- A column takes a value. -/
def Accepts (columns : Columns) (type : ColumnType) (old : Option Json) (v : Json) : Prop :=
  ∃ w, columns.store type old v = .ok w

/-- A column takes a value, and what is read back satisfies `P`. -/
def Keeps (columns : Columns) (type : ColumnType) (old : Option Json) (v : Json)
    (P : Json → Prop) : Prop :=
  ∃ w, columns.store type old v = .ok w ∧ P w

/-- The columns take the fields of a record that are no text. -/
structure AcceptsRecord (columns : Columns) (old : Option (ProvisionRow json))
    (r : ProvisionRecord) : Prop where
  startedAt : Accepts columns .float (old.map (·.startedAt)) r.startedAt
  updatedAt : Accepts columns .float (old.map (·.updatedAt)) r.updatedAt
  completedAt : Accepts columns .float (old.map (·.completedAt)) r.completedAt
  netbootEnabled : Accepts columns .boolean (old.map (·.netbootEnabled)) r.netbootEnabled

/-- The columns take the fields of a record that are no text, and what is read back is `==`. -/
structure KeepsRecord (columns : Columns) (old : Option (ProvisionRow json))
    (r : ProvisionRecord) : Prop where
  startedAt : Keeps columns .float (old.map (·.startedAt)) r.startedAt (·.PyEq r.startedAt)
  updatedAt : Keeps columns .float (old.map (·.updatedAt)) r.updatedAt (·.PyEq r.updatedAt)
  completedAt : Keeps columns .float (old.map (·.completedAt)) r.completedAt
    (·.PyEq r.completedAt)
  netbootEnabled : Keeps columns .boolean (old.map (·.netbootEnabled)) r.netbootEnabled
    fun w => (Value.bool w.truthy).PyEq r.netbootEnabled

/-- The record that an entry decodes to, if it does and its text fields are strings. -/
def goodRecord (entry : Json) : Option ProvisionRecord :=
  match dictToRecord entry with
  | .ok r => if r.hasTexts then some r else none
  | .error _ => none

theorem goodRecord_eq_some_iff {entry : Json} {r : ProvisionRecord} :
    goodRecord entry = some r ↔ dictToRecord entry = .ok r ∧ r.hasTexts = true := by
  rw [goodRecord]
  split
  · next r' h =>
    split_ifs with htexts
    · simp only [Option.some.injEq, h, Except.ok.injEq]
      exact ⟨fun heq => ⟨heq, heq ▸ htexts⟩, fun heq => heq.1⟩
    · simp only [h, Except.ok.injEq, false_iff]
      rintro ⟨rfl, h'⟩
      exact htexts h'
  · next e h => simp [h]

/-- The row of a record. -/
def rowOf (mac : String) (r : ProvisionRecord) : ProvisionRow json where
  mac := mac
  profile := r.profile
  osFamily := r.osFamily
  osVersion := r.osVersion
  state := r.state.value
  startedAt := r.startedAt
  updatedAt := r.updatedAt
  completedAt := r.completedAt
  errorMessage := r.errorMessage
  history := json.dumps none (historyToJson r.history)
  netbootEnabled := r.netbootEnabled

theorem ofText_of_isOk {v : Json} (h : v.toText.isOk = true) : ∃ s, v = .str s := by
  cases v with
  | str s => exact ⟨s, rfl⟩
  | _ => cases h

theorem mac_of_hasTexts {r : ProvisionRecord} (h : r.hasTexts = true) :
    ∃ mac, r.mac = .str mac := by
  simp only [ProvisionRecord.hasTexts, Bool.and_eq_true] at h
  exact ofText_of_isOk h.1.1.1.1

/-- **The commit** of a record with text fields, column by column. -/
theorem commit_rowOf_eq_ok_iff {columns : Columns} {old : Option (ProvisionRow json)}
    {mac : String} {r : ProvisionRecord} (h : r.hasTexts = true) {row : ProvisionRow json} :
    (rowOf mac r).commit columns old = .ok row ↔ ∃ s u c n,
      columns.store .float (old.map (·.startedAt)) r.startedAt = .ok s ∧
      columns.store .float (old.map (·.updatedAt)) r.updatedAt = .ok u ∧
      columns.store .float (old.map (·.completedAt)) r.completedAt = .ok c ∧
      columns.store .boolean (old.map (·.netbootEnabled)) r.netbootEnabled = .ok n ∧
      row = { rowOf mac r with
        startedAt := s, updatedAt := u, completedAt := c, netbootEnabled := n } := by
  simp only [ProvisionRecord.hasTexts, Bool.and_eq_true] at h
  obtain ⟨⟨⟨⟨-, hprofile⟩, hfamily⟩, hversion⟩, herror⟩ := h
  obtain ⟨profile, hprofile⟩ := ofText_of_isOk hprofile
  obtain ⟨family, hfamily⟩ := ofText_of_isOk hfamily
  obtain ⟨version, hversion⟩ := ofText_of_isOk hversion
  have herror : ∀ old, columns.store .text old r.errorMessage = .ok r.errorMessage := by
    intro old
    cases hv : r.errorMessage with
    | null => exact columns.store_text_null old
    | str s => exact columns.store_text old s
    | _ => rw [hv] at herror; cases herror
  simp only [ProvisionRow.commit, rowOf, hprofile, hfamily, hversion, herror,
    columns.store_string, ok_bind, bind_eq_ok_iff, pure_eq_ok, Except.ok.injEq]
  constructor
  · rintro ⟨s, hs, u, hu, c, hc, n, hn, rfl⟩
    exact ⟨s, u, c, n, hs, hu, hc, hn, rfl⟩
  · rintro ⟨s, u, c, n, hs, hu, hc, hn, rfl⟩
    exact ⟨s, hs, u, hu, c, hc, n, hn, rfl⟩

theorem historyOfJson_historyToJson (history : List (ProvisionState × Json)) :
    historyOfJson (historyToJson history) = .ok history := by
  rw [historyOfJson, historyToJson, Value.iter]
  refine mapM_decode_encode (fun e => ?_) history
  simp [historyItem, Value.item, Value.lookup, Dict.ofEntries, Dict.get?_set]

namespace SQLAlchemyBackend

variable {columns : Columns} {b : SQLAlchemyBackend py json} {r : ProvisionRecord} {mac : String}

/-- The row of a record before it is saved. -/
def oldRow (b : SQLAlchemyBackend py json) (r : ProvisionRecord) : Option (ProvisionRow json) :=
  (r.key? py).bind b.rows.get?

/-- The insert and the update branch of `save` commit the same row. -/
theorem save_eq (hmac : r.mac = .str mac) : b.save columns r =
    ((rowOf (py.lower mac) r).commit columns (b.oldRow r)).map b.put := by
  have hmap : ∀ x : Except PyExc (ProvisionRow json),
      (x >>= fun row => pure (b.put row)) = x.map b.put := by
    intro x
    cases x <;> rfl
  have hold : b.oldRow r = b.rows.get? (py.lower mac) := by
    rw [oldRow, ProvisionRecord.key?, hmac]
    rfl
  rw [hold, save, lowerMac, hmac]
  dsimp only [ok_bind]
  split
  · next row hrow =>
    have hassign : row.assign r = rowOf (py.lower mac) r := by
      rw [ProvisionRow.assign, b.keyed _ row hrow]
      rfl
    rw [hassign, hmap, hrow]
  · next hrow =>
    have hfrom : ProvisionRow.fromProvisionRecord py r =
        .ok (rowOf (py.lower mac) r : ProvisionRow json) := by
      rw [ProvisionRow.fromProvisionRecord, lowerMac, hmac]
      rfl
    rw [hfrom, ok_bind, hmap, hrow]

theorem unskippable_commit (old : Option (ProvisionRow json)) (row : ProvisionRow json) :
    Unskippable (row.commit columns old) := by
  have hstore : ∀ type old v, Unskippable (columns.store type old v) :=
    fun type old v e => columns.store_error type old v e
  rw [ProvisionRow.commit]
  exact (hstore _ _ _).bind fun _ => (hstore _ _ _).bind fun _ => (hstore _ _ _).bind fun _ =>
    (hstore _ _ _).bind fun _ => (hstore _ _ _).bind fun _ => (hstore _ _ _).bind fun _ =>
    (hstore _ _ _).bind fun _ => (hstore _ _ _).bind fun _ => unskippable_ok _

/-- Whatever a save raises ends the migration. -/
theorem unskippable_save (r : ProvisionRecord) : Unskippable (b.save columns r) := by
  have hlower : Unskippable (lowerMac py r) := by
    rw [lowerMac]
    split
    · exact unskippable_ok _
    · intro e h
      cases h
      rfl
  rw [save]
  refine hlower.bind fun mac => ?_
  split
  · exact (unskippable_commit _ _).bind fun _ => unskippable_ok _
  · exact (hlower.bind fun _ => unskippable_ok _).bind fun _ =>
      (unskippable_commit _ _).bind fun _ => unskippable_ok _

/-- A record with text fields is saved if and only if the columns take its other fields. -/
theorem exists_save_iff (h : r.hasTexts = true) :
    (∃ b', b.save columns r = .ok b') ↔ AcceptsRecord columns (b.oldRow r) r := by
  obtain ⟨mac, hmac⟩ := mac_of_hasTexts h
  simp only [save_eq hmac, map_eq_ok_iff, commit_rowOf_eq_ok_iff h]
  constructor
  · rintro ⟨_, _, ⟨s, u, c, n, hs, hu, hc, hn, -⟩, -⟩
    exact ⟨⟨s, hs⟩, ⟨u, hu⟩, ⟨c, hc⟩, ⟨n, hn⟩⟩
  · rintro ⟨⟨s, hs⟩, ⟨u, hu⟩, ⟨c, hc⟩, ⟨n, hn⟩⟩
    exact ⟨_, _, ⟨s, u, c, n, hs, hu, hc, hn, rfl⟩, rfl⟩

/-- The database holds a record under its lower-cased MAC. -/
def Holds (b : SQLAlchemyBackend py json) (key : String) (r : ProvisionRecord) : Prop :=
  ∃ row r', b.rows.get? key = some row ∧ row.toProvisionRecord = .ok r' ∧
    r'.Same { r with mac := .str key }

/-- The row of a record, as committed and read back. -/
theorem toProvisionRecord_rowOf (key : String) (s u c n : Json) :
    ({ rowOf key r with
      startedAt := s, updatedAt := u, completedAt := c, netbootEnabled := n } :
        ProvisionRow json).toProvisionRecord = .ok { r with
          mac := .str key, startedAt := s, updatedAt := u, completedAt := c,
          netbootEnabled := .bool n.truthy } := by
  simp [ProvisionRow.toProvisionRecord, rowOf, json.isEmpty_dumps, json.loads_dumps,
    historyOfJson_historyToJson]

/-- A record that was saved is read back if and only if the columns keep its fields. -/
theorem holds_of_save_iff (h : r.hasTexts = true) {b' : SQLAlchemyBackend py json}
    (hsave : b.save columns r = .ok b') {key : String} (hkey : r.key? py = some key) :
    b'.Holds key r ↔ KeepsRecord columns (b.oldRow r) r := by
  obtain ⟨mac, hmac⟩ := mac_of_hasTexts h
  obtain rfl : py.lower mac = key := by
    rw [ProvisionRecord.key?, hmac] at hkey
    exact Option.some.inj hkey
  rw [save_eq hmac] at hsave
  obtain ⟨row, hcommit, rfl⟩ := map_eq_ok_iff.mp hsave
  obtain ⟨s, u, c, n, hs, hu, hc, hn, rfl⟩ := (commit_rowOf_eq_ok_iff h).mp hcommit
  have hget : (b.put { rowOf (py.lower mac) r with
      startedAt := s, updatedAt := u, completedAt := c, netbootEnabled := n }).rows.get?
        (py.lower mac) = some { rowOf (py.lower mac) r with
          startedAt := s, updatedAt := u, completedAt := c, netbootEnabled := n } :=
    Dict.get?_set_self
  constructor
  · rintro ⟨row, r', hrow, hr', hsame⟩
    rw [hget] at hrow
    obtain rfl := Option.some.inj hrow
    rw [toProvisionRecord_rowOf] at hr'
    obtain rfl := Except.ok.inj hr'
    exact ⟨⟨s, hs, hsame.startedAt⟩, ⟨u, hu, hsame.updatedAt⟩, ⟨c, hc, hsame.completedAt⟩,
      ⟨n, hn, hsame.netbootEnabled⟩⟩
  · rintro ⟨⟨s', hs', heqs⟩, ⟨u', hu', hequ⟩, ⟨c', hc', heqc⟩, ⟨n', hn', heqn⟩⟩
    rw [hs] at hs'
    rw [hu] at hu'
    rw [hc] at hc'
    rw [hn] at hn'
    cases hs'
    cases hu'
    cases hc'
    cases hn'
    exact ⟨_, _, hget, toProvisionRecord_rowOf .., by constructor <;> first | assumption | simp⟩

/-- A save changes no other row. -/
theorem get?_of_save (h : r.hasTexts = true) {b' : SQLAlchemyBackend py json}
    (hsave : b.save columns r = .ok b') {key : String} (hkey : r.key? py ≠ some key) :
    b'.rows.get? key = b.rows.get? key := by
  obtain ⟨mac, hmac⟩ := mac_of_hasTexts h
  rw [save_eq hmac] at hsave
  obtain ⟨row, hcommit, rfl⟩ := map_eq_ok_iff.mp hsave
  obtain ⟨s, u, c, n, -, -, -, -, rfl⟩ := (commit_rowOf_eq_ok_iff h).mp hcommit
  refine Dict.get?_set_of_ne fun heq => hkey ?_
  rw [ProvisionRecord.key?, hmac, heq]
  rfl

end SQLAlchemyBackend

/-! ### Typed records -/

/-- A typed record as one whose fields are JSON. -/
def ofRecord (r : TftpOS.ProvisionRecord) : ProvisionRecord where
  mac := .str r.mac
  profile := .str r.profile
  osFamily := .str r.osFamily
  osVersion := .str r.osVersion
  state := r.state
  startedAt := .ofFloatOption r.startedAt
  updatedAt := .ofFloatOption r.updatedAt
  completedAt := .ofFloatOption r.completedAt
  errorMessage := .ofTextOption r.errorMessage
  history := r.history.map fun e => (e.1, .float e.2)
  netbootEnabled := .bool r.netbootEnabled

/-- A typed row as one whose columns hold JSON. -/
def ofRow (row : TftpOS.ProvisionRow json) : ProvisionRow json where
  mac := row.mac
  profile := .str row.profile
  osFamily := .str row.osFamily
  osVersion := .str row.osVersion
  state := row.state
  startedAt := .ofFloatOption row.startedAt
  updatedAt := .ofFloatOption row.updatedAt
  completedAt := .ofFloatOption row.completedAt
  errorMessage := .ofTextOption row.errorMessage
  history := row.history
  netbootEnabled := .bool row.netbootEnabled

theorem historyToJson_ofRecord (r : TftpOS.ProvisionRecord) :
    historyToJson (ofRecord r).history = TftpOS.historyToJson r.history := by
  rw [historyToJson, TftpOS.historyToJson, ofRecord, List.map_map]
  rfl

/-- What a typed record was written to decodes to the record. -/
theorem dictToRecord_recordToDict (r : TftpOS.ProvisionRecord) :
    dictToRecord (recordToDict r) = .ok (ofRecord r) := by
  have hhistory : historyOfJson (TftpOS.historyToJson r.history) = .ok (ofRecord r).history := by
    rw [← historyToJson_ofRecord, historyOfJson_historyToJson]
  simp [dictToRecord, recordToDict, Value.item, Value.getItem, Value.lookup, Dict.ofEntries,
    Dict.get?_set, hhistory, ofRecord]

theorem hasTexts_ofRecord (r : TftpOS.ProvisionRecord) : (ofRecord r).hasTexts = true := by
  simp only [ProvisionRecord.hasTexts, ofRecord, Value.toText_str, Value.toTextOption_ofTextOption]
  rfl

theorem store_ofFloatOption (columns : Columns) (old : Option Json) (o : Option ℚ) :
    columns.store .float old (.ofFloatOption o) = .ok (.ofFloatOption o) := by
  cases o with
  | none => exact columns.store_float_null old
  | some q => exact columns.store_float old q

/-- The columns keep a typed record. -/
theorem keepsRecord_ofRecord (columns : Columns) (old : Option (ProvisionRow json))
    (r : TftpOS.ProvisionRecord) : KeepsRecord columns old (ofRecord r) where
  startedAt := ⟨_, store_ofFloatOption columns _ _, .refl _⟩
  updatedAt := ⟨_, store_ofFloatOption columns _ _, .refl _⟩
  completedAt := ⟨_, store_ofFloatOption columns _ _, .refl _⟩
  netbootEnabled := ⟨_, columns.store_boolean _ _, .refl _⟩

theorem KeepsRecord.accepts {columns : Columns} {old : Option (ProvisionRow json)}
    {r : ProvisionRecord} (h : KeepsRecord columns old r) : AcceptsRecord columns old r where
  startedAt := h.startedAt.imp fun _ => And.left
  updatedAt := h.updatedAt.imp fun _ => And.left
  completedAt := h.completedAt.imp fun _ => And.left
  netbootEnabled := h.netbootEnabled.imp fun _ => And.left

/-- The rows of a typed database. -/
def Represents (b : TftpOS.SQLAlchemyBackend py json) (b' : SQLAlchemyBackend py json) : Prop :=
  ∀ key, b'.rows.get? key = (b.rows.get? key).map ofRow

/-- **Typed records are saved as the typed backend saves them.** -/
theorem Represents.save {b : TftpOS.SQLAlchemyBackend py json} {b' : SQLAlchemyBackend py json}
    (h : Represents b b') (columns : Columns) (r : TftpOS.ProvisionRecord) :
    ∃ b₁ b₁', b.save r = .ok b₁ ∧ b'.save columns (ofRecord r) = .ok b₁' ∧ Represents b₁ b₁' := by
  have hrow : (rowOf (py.lower r.mac) (ofRecord r) : ProvisionRow json) =
      ofRow (.fromProvisionRecord py r) := by
    rw [rowOf, historyToJson_ofRecord]
    rfl
  have hcommit : (rowOf (py.lower r.mac) (ofRecord r)).commit columns (b'.oldRow (ofRecord r)) =
      .ok (rowOf (py.lower r.mac) (ofRecord r)) :=
    (commit_rowOf_eq_ok_iff (hasTexts_ofRecord r)).mpr ⟨_, _, _, _, store_ofFloatOption columns _ _,
      store_ofFloatOption columns _ _, store_ofFloatOption columns _ _, columns.store_boolean _ _,
      rfl⟩
  refine ⟨_, _, b.save_eq r, by rw [SQLAlchemyBackend.save_eq rfl, hcommit]; rfl, fun key => ?_⟩
  rw [SQLAlchemyBackend.put, TftpOS.SQLAlchemyBackend.put, Dict.get?_set, Dict.get?_set, h key,
    hrow, apply_ite (Option.map ofRow)]
  rfl

/-! ### Runs of the migration -/

section Runs

variable {columns : Columns} {b : SQLAlchemyBackend py json} {entry : Json} {entries : List Json}

/-- The last record with a key among those that entries decode to. -/
def lastRecord (py : StrLib) (key : String) (entries : List Json) : Option ProvisionRecord :=
  ((entries.filterMap goodRecord).filter fun r => r.key? py = some key).getLast?

theorem lastRecord_cons (key : String) : lastRecord py key (entry :: entries) =
    (lastRecord py key entries).or
      ((goodRecord entry).filter fun r => r.key? py = some key) := by
  rw [lastRecord, lastRecord, List.filterMap_cons]
  cases goodRecord entry with
  | none =>
    dsimp only
    rw [Option.filter_none, Option.or_none]
  | some r =>
    dsimp only
    rw [List.filter_cons, Option.filter_some]
    split
    · rw [List.getLast?_cons]
      cases List.getLast? _ <;> rfl
    · rw [Option.or_none]

theorem lastRecord_cons_eq_some_iff {key : String} {r : ProvisionRecord} :
    lastRecord py key (entry :: entries) = some r ↔ lastRecord py key entries = some r ∨
      lastRecord py key entries = none ∧ goodRecord entry = some r ∧ r.key? py = some key := by
  rw [lastRecord_cons, Option.or_eq_some_iff, Option.filter_eq_some_iff, decide_eq_true_eq]

theorem lastRecord_cons_eq_none_iff {key : String} :
    lastRecord py key (entry :: entries) = none ↔ lastRecord py key entries = none ∧
      ∀ r, goodRecord entry = some r → r.key? py ≠ some key := by
  rw [lastRecord_cons, Option.or_eq_none_iff, Option.filter_eq_none_iff]
  simp only [decide_eq_true_eq]

theorem exists_lower_of_lastRecord {key : String} {r : ProvisionRecord}
    (h : lastRecord py key entries = some r) : ∃ mac, py.lower mac = key := by
  have hkey := of_decide_eq_true (List.mem_filter.mp (List.mem_of_getLast? h)).2
  obtain ⟨mac, -, hmac⟩ := Option.map_eq_some_iff.mp hkey
  exact ⟨mac, hmac⟩

/-- **A step of the migration is as it should be** if and only if the entry can be read and, when
it decodes, has text fields and other fields that the columns take. -/
theorem handled_iff : Handled (migrateEntry columns) PyExc.isMalformed
    (fun entry => (goodRecord entry).isSome) b entry ↔
      Readable entry ∧ ∀ r, dictToRecord entry = .ok r →
        r.hasTexts = true ∧ AcceptsRecord columns (b.oldRow r) r := by
  rw [Handled, migrateEntry, ← skippable_dictToRecord_iff]
  cases hentry : dictToRecord entry with
  | error e => simp [goodRecord, hentry]
  | ok r =>
    simp only [ok_bind, skippable_ok, true_and, Except.ok.injEq, forall_eq']
    by_cases htexts : r.hasTexts = true
    · simp [goodRecord, hentry, htexts, SQLAlchemyBackend.exists_save_iff]
    · have hcaught : ¬ ∃ e, b.save columns r = .error e ∧ e.isMalformed = true := by
        rintro ⟨e, he, hcaught⟩
        rw [SQLAlchemyBackend.unskippable_save r e he] at hcaught
        cases hcaught
      simp [goodRecord, hentry, htexts, hcaught]

/-- What goes wrong with a good record, the loop does not catch. -/
theorem not_isMalformed_of_good (b : SQLAlchemyBackend py json) (entry : Json) (e : PyExc)
    (hgood : (goodRecord entry).isSome = true) (h : migrateEntry columns b entry = .error e) :
    e.isMalformed = false := by
  obtain ⟨r, hr⟩ := Option.isSome_iff_exists.mp hgood
  rw [migrateEntry, (goodRecord_eq_some_iff.mp hr).1] at h
  exact SQLAlchemyBackend.unskippable_save r e h

/-- An entry that can be read and is no record leaves the database as it was. -/
theorem after_eq_self (hreadable : Handled (migrateEntry columns) PyExc.isMalformed
    (fun entry => (goodRecord entry).isSome) b entry) (hbad : goodRecord entry = none) :
    after (migrateEntry columns) b entry = b := by
  rw [Handled, hbad] at hreadable
  obtain ⟨e, he, -⟩ := hreadable
  exact after_of_error he

/-- A record is saved by the step of its entry. -/
theorem save_of_handled (hhandled : Handled (migrateEntry columns) PyExc.isMalformed
    (fun entry => (goodRecord entry).isSome) b entry) {r : ProvisionRecord}
    (hgood : goodRecord entry = some r) :
    b.save columns r = .ok (after (migrateEntry columns) b entry) := by
  rw [Handled, hgood] at hhandled
  obtain ⟨b', hb'⟩ := hhandled
  rw [after_of_ok hb']
  rw [migrateEntry, (goodRecord_eq_some_iff.mp hgood).1] at hb'
  exact hb'

/-- An entry that is no record with a key leaves the row of that key alone. -/
theorem get?_after_of_ne (hhandled : Handled (migrateEntry columns) PyExc.isMalformed
    (fun entry => (goodRecord entry).isSome) b entry) {key : String}
    (hkey : ∀ r, goodRecord entry = some r → r.key? py ≠ some key) :
    (after (migrateEntry columns) b entry).rows.get? key = b.rows.get? key := by
  cases hgood : goodRecord entry with
  | none => rw [after_eq_self hhandled hgood]
  | some r =>
    exact SQLAlchemyBackend.get?_of_save (goodRecord_eq_some_iff.mp hgood).2
      (save_of_handled hhandled hgood) (hkey r hgood)

/-- What the migration of entries leaves in the database, when every step is as it should be: the
rows of other MACs as they were, and the records that the columns keep for the last entry of each
MAC. -/
theorem holds_foldl_iff
    (h : Along (migrateEntry columns) (fun b entry _ => Handled (migrateEntry columns)
      PyExc.isMalformed (fun entry => (goodRecord entry).isSome) b entry) b entries) :
    (∀ key, lastRecord py key entries = none →
      (entries.foldl (after (migrateEntry columns)) b).rows.get? key = b.rows.get? key) ∧
    ((∀ key r, lastRecord py key entries = some r →
      (entries.foldl (after (migrateEntry columns)) b).Holds key r) ↔
      Along (migrateEntry columns) (fun b entry later => ∀ r key, goodRecord entry = some r →
        r.key? py = some key → lastRecord py key later = none →
          KeepsRecord columns (b.oldRow r) r) b entries) := by
  induction entries generalizing b with
  | nil => simp [lastRecord, Along]
  | cons entry entries ih =>
    obtain ⟨hentry, hentries⟩ := h
    obtain ⟨hothers, hlast⟩ := ih hentries
    -- a record of this entry is the last one with its key when no later entry has the key
    have hstep : ∀ key r, goodRecord entry = some r → r.key? py = some key →
        lastRecord py key entries = none →
        ((entries.foldl (after (migrateEntry columns)) (after (migrateEntry columns) b entry)).Holds
          key r ↔ KeepsRecord columns (b.oldRow r) r) := by
      intro key r hgood hkey hlater
      rw [SQLAlchemyBackend.Holds, hothers key hlater]
      exact SQLAlchemyBackend.holds_of_save_iff (goodRecord_eq_some_iff.mp hgood).2
        (save_of_handled hentry hgood) hkey
    refine ⟨fun key hkey => ?_, ?_⟩
    · rw [lastRecord_cons_eq_none_iff] at hkey
      rw [List.foldl_cons, hothers key hkey.1, get?_after_of_ne hentry hkey.2]
    · rw [List.foldl_cons, Along, ← hlast]
      constructor
      · intro hall
        refine ⟨fun r key hgood hkey hlater => ?_, fun key r hr =>
          hall key r (lastRecord_cons_eq_some_iff.mpr (.inl hr))⟩
        exact (hstep key r hgood hkey hlater).mp
          (hall key r (lastRecord_cons_eq_some_iff.mpr (.inr ⟨hlater, hgood, hkey⟩)))
      · rintro ⟨hkeeps, hall⟩ key r hr
        rcases lastRecord_cons_eq_some_iff.mp hr with hr | ⟨hlater, hgood, hkey⟩
        · exact hall key r hr
        · exact (hstep key r hgood hkey hlater).mpr (hkeeps r key hgood hkey hlater)

/-- What the migration should do with the entries of a document: count the entries that decode to
a record with text fields, and leave for each MAC the last of these records. -/
structure Migrated (entries : List Json) (result : Except PyExc ℕ × SQLAlchemyBackend py json) :
    Prop where
  count : result.1 = .ok (entries.countP fun entry => (goodRecord entry).isSome)
  absent : ∀ mac, lastRecord py (py.lower mac) entries = none → result.2.get mac = .ok none
  stored : ∀ mac r, lastRecord py (py.lower mac) entries = some r →
    ∃ r', result.2.get mac = .ok (some r') ∧ r'.Same { r with mac := .str (py.lower mac) }

/-- What an entry has to satisfy, in the database before it and with the entries after it. -/
structure Migratable (columns : Columns) (b : SQLAlchemyBackend py json) (entry : Json)
    (later : List Json) : Prop where
  /-- It is a dict whose history, if it has one, can be read. -/
  readable : Readable entry
  /-- If it decodes, its text fields are strings, and the columns take its other fields. -/
  accepted : ∀ r, dictToRecord entry = .ok r →
    r.hasTexts = true ∧ AcceptsRecord columns (b.oldRow r) r
  /-- The columns keep the other fields, unless a later entry replaces the record. -/
  kept : ∀ r key, goodRecord entry = some r → r.key? py = some key →
    lastRecord py key later = none → KeepsRecord columns (b.oldRow r) r

theorem migratable_iff {later : List Json} : Migratable columns b entry later ↔
    Handled (migrateEntry columns) PyExc.isMalformed (fun entry => (goodRecord entry).isSome) b
      entry ∧ ∀ r key, goodRecord entry = some r → r.key? py = some key →
        lastRecord py key later = none → KeepsRecord columns (b.oldRow r) r := by
  rw [handled_iff]
  exact ⟨fun h => ⟨⟨h.readable, h.accepted⟩, h.kept⟩, fun h => ⟨h.1.1, h.1.2, h.2⟩⟩

/-- Looking a MAC up, in terms of the rows. -/
theorem get_eq_iff {mac : String} {r : ProvisionRecord} :
    (∃ r', b.get mac = .ok (some r') ∧ r'.Same { r with mac := .str (py.lower mac) }) ↔
      b.Holds (py.lower mac) r := by
  rw [SQLAlchemyBackend.get, SQLAlchemyBackend.Holds]
  cases b.rows.get? (py.lower mac) with
  | none => simp
  | some row => simp [map_eq_ok_iff]

/-- **When the migration does what it should.** For a document that is a list or an object of
entries, migrating it into the empty database counts the good records and leaves the last one of
each MAC, if and only if every entry can be read, every entry that decodes has text fields and
other fields that the columns take, and the columns keep those of the last record of each MAC. -/
theorem migrate_iff (py : StrLib) (json : JsonText) (columns : Columns) (jsonPath : String)
    (text : json.Text) (raw : Json) (htext : json.loads text = some raw)
    (hblank : json.isBlank text = false) (entries : List Json)
    (hentries : recordsOf raw = some entries) :
    Migrated entries (migrateJsonToSqlite columns jsonPath (some text)
        (.empty : SQLAlchemyBackend py json)) ↔
      Along (migrateEntry columns) (Migratable columns) (.empty : SQLAlchemyBackend py json)
        entries := by
  have hrun : migrateJsonToSqlite columns jsonPath (some text)
      (.empty : SQLAlchemyBackend py json) =
        attemptAll (migrateEntry columns) PyExc.isMalformed .empty 0 entries := by
    simp [migrateJsonToSqlite, hblank, htext, hentries]
  have hcount : (attemptAll (migrateEntry columns) PyExc.isMalformed
      (.empty : SQLAlchemyBackend py json) 0 entries).1 =
        .ok (0 + entries.countP fun entry => (goodRecord entry).isSome) ↔
      Along _ _ _ entries := attemptAll_eq_ok_iff not_isMalformed_of_good
  rw [Nat.zero_add] at hcount
  rw [Along.iff_congr (fun _ _ _ => migratable_iff), Along.and_iff, ← hcount, hrun]
  constructor
  · rintro ⟨hok, -, hstored⟩
    refine ⟨hok, ?_⟩
    have hhandled := hcount.mp hok
    rw [attemptAll_state hhandled] at hstored
    rw [← (holds_foldl_iff hhandled).2]
    intro key r hr
    obtain ⟨mac, rfl⟩ := exists_lower_of_lastRecord hr
    rw [← get_eq_iff]
    exact hstored mac r hr
  · rintro ⟨hok, hkeeps⟩
    have hhandled := hcount.mp hok
    obtain ⟨hothers, hlast⟩ := holds_foldl_iff hhandled
    refine ⟨hok, fun mac hmac => ?_, fun mac r hr => ?_⟩
    · rw [attemptAll_state hhandled, SQLAlchemyBackend.get, hothers _ hmac]
      rfl
    · rw [attemptAll_state hhandled, get_eq_iff]
      exact hlast.mpr hkeeps _ _ hr

/-- An entry that is a typed record is stored. -/
theorem migratable_ofRecord {r : TftpOS.ProvisionRecord} {later : List Json}
    (h : dictToRecord entry = .ok (ofRecord r)) : Migratable columns b entry later where
  readable := skippable_dictToRecord_iff.mp (h ▸ skippable_ok _)
  accepted r' hr' := by
    rw [h] at hr'
    obtain rfl := Except.ok.inj hr'
    exact ⟨hasTexts_ofRecord r, (keepsRecord_ofRecord columns _ r).accepts⟩
  kept r' key hr' _ _ := by
    rw [goodRecord_eq_some_iff, h] at hr'
    obtain rfl := Except.ok.inj hr'.1
    exact keepsRecord_ofRecord columns _ r

/-- An entry that does not decode for a reason that the loop catches is skipped. -/
theorem migratable_of_malformed {e : PyExc} {later : List Json}
    (h : dictToRecord entry = .error e) (he : e.isMalformed = true) :
    Migratable columns b entry later where
  readable := by
    rw [← skippable_dictToRecord_iff, h]
    exact skippable_error.mpr he
  accepted r hr := by
    rw [h] at hr
    cases hr
  kept r _ hr _ _ := by
    rw [goodRecord_eq_some_iff, h] at hr
    cases hr.1

end Runs

/-- Columns that keep the values of their types and refuse all others. -/
private def strictColumns : Columns where
  store
    | .string, _, .str s => .ok (.str s)
    | .text, _, .str s => .ok (.str s)
    | .text, _, .null => .ok .null
    | .float, _, .float q => .ok (.float q)
    | .float, _, .null => .ok .null
    | .boolean, _, .bool b => .ok (.bool b)
    | _, _, _ => .error ⟨.typeError, "type is not supported"⟩
  store_string _ _ := rfl
  store_text _ _ := rfl
  store_text_null _ := rfl
  store_float _ _ := rfl
  store_float_null _ := rfl
  store_boolean _ _ := rfl
  store_error type old v e h := by
    split at h <;> cases h
    rfl

/-- The entry of a host. -/
private def fedora : Json :=
  recordToDict
    { mac := "aa:bb:cc:dd:ee:ff", profile := "p1", osFamily := "fedora", osVersion := "41" }

/-- A record and an entry that is none. -/
private def mixed : Json :=
  .dict [("good", fedora), ("bad", .dict [("not_a_real_field", .str "whoops")])]

/-- The record is stored, and the other entry is skipped. -/
theorem migrate_mixed :
    Migrated [fedora, .dict [("not_a_real_field", .str "whoops")]]
      (migrateJsonToSqlite strictColumns "state.json" (some (some mixed))
        (.empty : SQLAlchemyBackend .ascii .parsed)) :=
  (migrate_iff .ascii .parsed strictColumns "state.json" (some mixed) mixed rfl rfl _
    rfl).mpr ⟨migratable_ofRecord (dictToRecord_recordToDict _),
      migratable_of_malformed rfl rfl, trivial⟩

/-- An entry that is a number ends the migration, and the record after it is not stored. -/
theorem migrate_number_aborts :
    let result := migrateJsonToSqlite strictColumns "state.json"
      (some (some (.list [.int 42, fedora]))) (.empty : SQLAlchemyBackend .ascii .parsed)
    result.1 = .error ⟨.attributeError, "no attribute 'get'"⟩ ∧
      result.2.get "aa:bb:cc:dd:ee:ff" = .ok none ∧ ¬ Migrated [.int 42, fedora] result := by
  refine ⟨rfl, rfl, fun h => ?_⟩
  have hcount := h.count
  cases hcount

end Untyped

end TftpOS
