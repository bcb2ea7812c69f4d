import Mathlib.Algebra.Order.Ring.Rat
import Mathlib.Data.String.Basic
import TftpOS.Lib.Except
import TftpOS.Lib.Run
import TftpOS.Python.Json

/-!
# API keys

`ApiKeyStore` of `tftpos/auth.py`: the text of its key file, absent before the first key. The
file maps the hash of a raw key to an entry and is written with sorted keys, so the stored
entries are met in the order of their hashes. `sha256` is the hexadecimal digest of SHA-256 on
the UTF-8 encoding. The random part of a new key is an argument of `createKey`.

Every operation reads and rewrites the whole file; on the entries it acts as `keysAfter`
(`step_read`).
-/

namespace TftpOS

open Lib

/-- `Role`. -/
inductive Role where
  | viewer
  | operator
  | admin
  deriving DecidableEq

/-- The value of a role, as it is stored. -/
def Role.value : Role → String
  | .viewer => "viewer"
  | .operator => "operator"
  | .admin => "admin"

/-- `Role(value)`. -/
def Role.ofValue : Json → Except PyExc Role
  | .str "viewer" => .ok .viewer
  | .str "operator" => .ok .operator
  | .str "admin" => .ok .admin
  | _ => .error ⟨.valueError, "not a valid Role"⟩

@[simp]
theorem Role.ofValue_value (r : Role) : ofValue (.str r.value) = .ok r := by
  cases r <;> rfl

/-- `ApiKey`. -/
structure ApiKey where
  keyHash : String
  name : String
  role : Role
  createdAt : ℚ
  lastUsedAt : Option ℚ := none
  enabled : Bool := true
  deriving DecidableEq

/-- The entries of a key file, by hash. -/
abbrev Keys := Dict String ApiKey

/-- `ApiKeyStore`: the text of the key file, if it exists. -/
structure ApiKeyStore (json : JsonText) where
  file : Option json.Text

namespace ApiKeyStore

variable {json : JsonText} (sha256 : String → String)

/-- The stored form of a key; `sort_keys` orders its fields. -/
def entryToJson (k : ApiKey) : Json :=
  .dict [
    ("created_at", .float k.createdAt),
    ("enabled", .bool k.enabled),
    ("last_used_at", .ofFloatOption k.lastUsedAt),
    ("name", .str k.name),
    ("role", .str k.role.value)]

/-- The key read from an entry. -/
def entryOfJson (keyHash : String) (entry : Json) : Except PyExc ApiKey := do
  return {
    keyHash := keyHash
    name := ← (← entry.item "name").toText
    role := ← Role.ofValue (← entry.item "role")
    createdAt := ← (← entry.getItem "created_at" (.int 0)).toFloat
    lastUsedAt := ← (← entry.getItem "last_used_at" .null).toFloatOption
    enabled := ← (← entry.getItem "enabled" (.bool true)).toBool }

/-- `_read`. -/
def read (s : ApiKeyStore json) : Except PyExc Keys :=
  match s.file with
  | none => .ok ∅
  | some text =>
    match json.loads text with
    | none => .error ⟨.valueError, "JSONDecodeError"⟩
    | some (.dict kvs) => do
      let entries ← (Dict.ofEntries kvs).entries.mapM fun e => do
        return (e.1, ← entryOfJson e.1 e.2)
      return Dict.ofEntries entries
    | some _ => .error ⟨.attributeError, "no attribute 'items'"⟩

/-- `_write`. -/
def write (keys : Keys) : ApiKeyStore json :=
  ⟨some (json.dumps (some 2) (.dict (keys.sortKeys.entries.map fun e => (e.1, entryToJson e.2))))⟩

/-- The raw key of a random token. -/
def rawKey (token : String) : String := "tftpos_" ++ token

/-- `create_key`. -/
def createKey (s : ApiKeyStore json) (token : String) (now : ℚ) (name : String) (role : Role) :
    Except PyExc (String × ApiKey) × ApiKeyStore json :=
  let keyHash := sha256 (rawKey token)
  let apiKey := { keyHash := keyHash, name := name, role := role, createdAt := now }
  match s.read with
  | .error e => (.error e, s)
  | .ok keys => (.ok (rawKey token, apiKey), write (keys.set keyHash apiKey))

/-- The loop of `validate`: it runs over all entries and keeps the last match. -/
def findHash (keyHash : String) (keys : Keys) : Option ApiKey :=
  keys.entries.foldl (fun matched e => if e.1 = keyHash then some e.2 else matched) none

/-- `validate`. -/
def validate (s : ApiKeyStore json) (now : ℚ) (raw : String) :
    Except PyExc (Option ApiKey) × ApiKeyStore json :=
  match s.read with
  | .error e => (.error e, s)
  | .ok keys =>
    match findHash (sha256 raw) keys with
    | none => (.ok none, s)
    | some matched =>
      if matched.enabled then
        let matched := { matched with lastUsedAt := some now }
        (.ok (some matched), write (keys.set (sha256 raw) matched))
      else (.ok none, s)

/-- `list_keys`. -/
def listKeys (s : ApiKeyStore json) : Except PyExc (List ApiKey) := s.read.map Dict.values

/-- The first entry of a name, in stored order. -/
def firstNamed (name : String) (keys : Keys) : Option (String × ApiKey) :=
  keys.entries.find? fun e => e.2.name = name

/-- `revoke`: it disables the first entry of the name and returns. -/
def revoke (s : ApiKeyStore json) (name : String) : Except PyExc Bool × ApiKeyStore json :=
  match s.read with
  | .error e => (.error e, s)
  | .ok keys =>
    match firstNamed name keys with
    | none => (.ok false, s)
    | some (keyHash, apiKey) =>
      -- further entries of the name are not visited
      (.ok true, write (keys.set keyHash { apiKey with enabled := false }))

/-- `delete`: it removes all entries of the name. -/
def delete (s : ApiKeyStore json) (name : String) : Except PyExc Bool × ApiKeyStore json :=
  match s.read with
  | .error e => (.error e, s)
  | .ok keys =>
    if (keys.filter fun e => e.2.name = name).entries = [] then (.ok false, s)
    else (.ok true, write (keys.filter fun e => e.2.name ≠ name))

/-- A call on the store, with the token a new key draws and the clock readings. -/
inductive Op where
  | createKey (token : String) (now : ℚ) (name : String) (role : Role)
  | validate (now : ℚ) (raw : String)
  | listKeys
  | revoke (name : String)
  | delete (name : String)

/-- What a call returns. -/
inductive Reply where
  | created (raw : String) (key : ApiKey)
  | validated (key : Option ApiKey)
  | listed (keys : List ApiKey)
  | flag (b : Bool)

/-- One call. -/
def step (s : ApiKeyStore json) : Op → Except PyExc Reply × ApiKeyStore json
  | .createKey token now name role =>
    (s.createKey sha256 token now name role).map (·.map fun p => .created p.1 p.2) id
  | .validate now raw => (s.validate sha256 now raw).map (·.map .validated) id
  | .listKeys => (s.listKeys.map .listed, s)
  | .revoke name => (s.revoke name).map (·.map .flag) id
  | .delete name => (s.delete name).map (·.map .flag) id

/-! ### The calls act on the entries -/

/-- The entries of a file that was just written: sorted, each carrying its own hash. -/
def stored (keys : Keys) : Keys := keys.sortKeys.mapValues fun h k => { k with keyHash := h }

theorem entryOfJson_entryToJson (h : String) (k : ApiKey) :
    entryOfJson h (entryToJson k) = .ok { k with keyHash := h } := by
  simp [entryOfJson, entryToJson, Value.item, Value.getItem, Value.lookup, Dict.ofEntries,
    Dict.get?_set]

/-- What is written is read back. -/
theorem read_write (keys : Keys) : (write keys : ApiKeyStore json).read = .ok (stored keys) := by
  let d : Dict String Json := keys.sortKeys.mapValues fun _ k => entryToJson k
  have hofEntries : Dict.ofEntries
      (keys.sortKeys.entries.map fun e => (e.1, entryToJson e.2)) = d :=
    Dict.ofEntries_entries d
  have hentries : d.entries.mapM (fun e => do return (e.1, ← entryOfJson e.1 e.2)) =
      (.ok (stored keys).entries : Except PyExc _) := by
    refine mapM_map_eq_ok fun e _ => ?_
    rw [entryOfJson_entryToJson]
    rfl
  rw [read, write]
  simp only [json.loads_dumps, hofEntries]
  rw [hentries]
  simp

@[simp]
theorem get?_stored {keys : Keys} {h : String} :
    (stored keys).get? h = (keys.get? h).map fun k => { k with keyHash := h } := by
  simp [stored, Dict.get?_mapValues]

/-- The loop of `validate` is a lookup. -/
theorem findHash_eq (h : String) (keys : Keys) : findHash h keys = keys.get? h := by
  have key : ∀ (es : List (String × ApiKey)) (init : Option ApiKey),
      (es.map Prod.fst).Nodup → es.foldl (fun m e => if e.1 = h then some e.2 else m) init =
        ((es.find? fun e => e.1 = h).map Prod.snd).or init := by
    intro es
    induction es with
    | nil => intro init _; rfl
    | cons e es ih =>
      intro init hnodup
      rw [List.map_cons, List.nodup_cons] at hnodup
      rw [List.foldl_cons, ih _ hnodup.2]
      by_cases he : e.1 = h
      · -- the keys are distinct, so the last match is the only one
        have hnone : es.find? (fun e => e.1 = h) = none := by
          rw [List.find?_eq_none]
          intro e' he' heq
          have heq' : e'.1 = h := by simpa using heq
          exact hnodup.1 (he.trans heq'.symm ▸ List.mem_map_of_mem he')
        simp [he, hnone]
      · simp [he]
  rw [findHash, key keys.entries none keys.nodup, Option.or_none]
  rfl

/-- What a call does to the entries. -/
def keysAfter (keys : Keys) : Op → Keys
  | .createKey token now name role =>
    stored (keys.set (sha256 (rawKey token))
      { keyHash := sha256 (rawKey token), name := name, role := role, createdAt := now })
  | .validate now raw =>
    match keys.get? (sha256 raw) with
    | none => keys
    | some k =>
      if k.enabled then stored (keys.set (sha256 raw) { k with lastUsedAt := some now })
      else keys
  | .listKeys => keys
  | .revoke name =>
    match firstNamed name keys with
    | none => keys
    | some (h, k) => stored (keys.set h { k with enabled := false })
  | .delete name =>
    if (keys.filter fun e => e.2.name = name).entries = [] then keys
    else stored (keys.filter fun e => e.2.name ≠ name)

/-- **What a call does**: a readable file stays readable, and its entries change as `keysAfter`
says. -/
theorem step_read {s : ApiKeyStore json} {keys : Keys} (h : s.read = .ok keys) (op : Op) :
    (step sha256 s op).2.read = .ok (keysAfter sha256 keys op) := by
  cases op with
  | createKey token now name role =>
    simp only [step, createKey, h, Prod.map_snd, id]
    exact read_write _
  | validate now raw =>
    simp only [step, validate, h, findHash_eq, Prod.map_snd, id, keysAfter]
    split
    · exact h
    · split_ifs
      · exact read_write _
      · exact h
  | listKeys => exact h
  | revoke name =>
    simp only [step, revoke, h, Prod.map_snd, id, keysAfter]
    split
    · exact h
    · exact read_write _
  | delete name =>
    simp only [step, delete, h, Prod.map_snd, id, keysAfter]
    split_ifs
    · exact h
    · exact read_write _

end ApiKeyStore

end TftpOS
