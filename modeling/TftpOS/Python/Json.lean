import Mathlib.Data.String.Basic
import TftpOS.Python.Value

/-!
# JSON text

The `json` module of the standard library, as far as the sources rely on it: what `dumps`
writes is never blank and `loads` reads it back. `Text` is the type of the texts, so that
nothing depends on how a document is spelled.

`sortKeys` is what `dumps` does to a document under `sort_keys=True`.
`item`, `getItem` and `iter` are the subscript, the method `get` and the iteration of a dynamic
value, with the exceptions they raise on values of other types.
-/

namespace TftpOS

open Lib

/-- The `json` module. -/
structure JsonText where
  /-- The texts that files and columns hold. -/
  Text : Type
  /-- `json.dumps(v)`, or `json.dumps(v, indent=n)`. -/
  dumps : (indent : Option ℕ) → Json → Text
  /-- `json.loads`; `none` is a `JSONDecodeError`. -/
  loads : Text → Option Json
  /-- `not text`. -/
  isEmpty : Text → Bool
  /-- `not text.strip()`. -/
  isBlank : Text → Bool
  loads_dumps : ∀ indent v, loads (dumps indent v) = some v
  isEmpty_dumps : ∀ indent v, isEmpty (dumps indent v) = false
  isBlank_dumps : ∀ indent v, isBlank (dumps indent v) = false

/-- Texts identified with the documents they parse to; `none` is the empty text. -/
def JsonText.parsed : JsonText where
  Text := Option Json
  dumps _ v := some v
  loads text := text
  isEmpty text := text.isNone
  isBlank text := text.isNone
  loads_dumps _ _ := rfl
  isEmpty_dumps _ _ := rfl
  isBlank_dumps _ _ := rfl

namespace Value

variable {ι : Type}

mutual

/-- The value with the entries of every dict in it sorted by key. -/
def sortKeys : Value ι → Value ι
  | .list xs => .list (sortItems xs)
  | .dict kvs => .dict (sortOn Prod.fst (sortEntries kvs))
  | v => v

def sortItems : List (Value ι) → List (Value ι)
  | [] => []
  | x :: xs => x.sortKeys :: sortItems xs

def sortEntries : List (String × Value ι) → List (String × Value ι)
  | [] => []
  | (k, v) :: kvs => (k, v.sortKeys) :: sortEntries kvs

end

/-- `v[key]`. -/
def item (v : Value ι) (key : String) : Except PyExc (Value ι) :=
  match v with
  | .dict kvs =>
    match lookup key kvs with
    | some v => .ok v
    | none => .error ⟨.keyError, key⟩
  | _ => .error ⟨.typeError, "not subscriptable by " ++ key⟩

/-- `v.get(key, default)`. -/
def getItem (v : Value ι) (key : String) (default : Value ι) : Except PyExc (Value ι) :=
  match v with
  | .dict kvs => .ok ((lookup key kvs).getD default)
  | _ => .error ⟨.attributeError, "no attribute 'get'"⟩

/-- The dict that a value is; `misuse` is what its use as one raises on other values. -/
def asDict (misuse : Value ι → PyExc) : Value ι → Except PyExc (Dict String (Value ι))
  | .dict kvs => .ok (Dict.ofEntries kvs)
  | v => .error (misuse v)

/-- A value is this dict. -/
def IsDictOf (v : Value ι) (d : Dict String (Value ι)) : Prop :=
  ∃ kvs, v = .dict kvs ∧ Dict.ofEntries kvs = d

/-- `for x in v`. -/
def iter : Value ι → Except PyExc (List (Value ι))
  | .list xs => .ok xs
  | .dict kvs => .ok ((Dict.ofEntries kvs).keys.map .str)
  | .str s => .ok (s.toList.map fun c => .str (String.ofList [c]))
  | _ => .error ⟨.typeError, "not iterable"⟩

/-! The fields of a typed record. The sources copy them without a check; a value of another
type has no place in the typed record and reads as a `TypeError`. -/

/-- A field of type `str`. -/
def toText : Value ι → Except PyExc String
  | .str s => .ok s
  | _ => .error ⟨.typeError, "not a str"⟩

/-- A field of type `Optional[str]`. -/
def toTextOption : Value ι → Except PyExc (Option String)
  | .null => .ok none
  | v => v.toText.map some

/-- A field of type `float`. -/
def toFloat : Value ι → Except PyExc ℚ
  | .float q => .ok q
  | .int n => .ok n
  | _ => .error ⟨.typeError, "not a float"⟩

/-- A field of type `Optional[float]`. -/
def toFloatOption : Value ι → Except PyExc (Option ℚ)
  | .null => .ok none
  | v => v.toFloat.map some

/-- A field of type `bool`. -/
def toBool : Value ι → Except PyExc Bool
  | .bool b => .ok b
  | _ => .error ⟨.typeError, "not a bool"⟩

/-- The value of an `Optional[str]`. -/
def ofTextOption : Option String → Value ι
  | none => .null
  | some s => .str s

/-- The value of an `Optional[float]`. -/
def ofFloatOption : Option ℚ → Value ι
  | none => .null
  | some q => .float q

theorem asDict_eq_ok_iff {misuse : Value ι → PyExc} {v : Value ι} {d : Dict String (Value ι)} :
    v.asDict misuse = .ok d ↔ v.IsDictOf d := by
  cases v <;> simp [asDict, IsDictOf]

theorem isDictOf_entries (d : Dict String (Value ι)) : (dict d.entries).IsDictOf d :=
  ⟨d.entries, rfl, Dict.ofEntries_entries d⟩

theorem sortEntries_eq_map (kvs : List (String × Value ι)) :
    sortEntries kvs = kvs.map fun e => (e.1, e.2.sortKeys) := by
  induction kvs with
  | nil => rfl
  | cons e kvs ih => rw [sortEntries, ih, List.map_cons]

/-- Sorting a dict sorts its values too. -/
theorem sortKeys_dict (d : Dict String (Value ι)) :
    (dict d.entries).sortKeys = .dict (d.mapValues fun _ v => v.sortKeys).sortKeys.entries := by
  rw [sortKeys, sortEntries_eq_map]
  rfl

@[simp]
theorem toText_str (s : String) : (str s : Value ι).toText = .ok s := rfl

@[simp]
theorem toTextOption_ofTextOption (o : Option String) :
    (ofTextOption o : Value ι).toTextOption = .ok o := by
  cases o <;> rfl

@[simp]
theorem toFloat_float (q : ℚ) : (float q : Value ι).toFloat = .ok q := rfl

@[simp]
theorem toFloatOption_ofFloatOption (o : Option ℚ) :
    (ofFloatOption o : Value ι).toFloatOption = .ok o := by
  cases o <;> rfl

@[simp]
theorem toBool_bool (b : Bool) : (bool b : Value ι).toBool = .ok b := rfl

end Value

end TftpOS
