import TftpOS.Lib.FiniteMap
import TftpOS.Lib.Run
import TftpOS.Secrets

/-!
# The providers as finite maps

The providers of `tftpos/secrets.py` as machines that answer `get`, `set`, `delete` and
`list_keys`. What they are for is one finite map from keys to values (`SecretMap`). The file
returns what the map returns; the environment returns what the map returns on the upper-cased keys,
so keys that differ in letter case share one variable. Where no key that is used differs from a key
that is set in letter case alone, the two return the same up to the letter case of a listing, and
the manager resolves profiles alike with either (`providers_refine_map`).
-/

namespace TftpOS

open Lib

namespace SecretsProvider

/-! ### Providers as machines -/

/-- A call on a provider. -/
inductive Op where
  | get (key : String)
  | set (key value : String)
  | delete (key : String)
  | listKeys

/-- What a call returns. -/
inductive Reply where
  | done
  | found (value : Option String)
  | listed (keys : List String)
  deriving DecidableEq

/-- One call. -/
def step {σ : Type} (p : SecretsProvider σ) (s : σ) : Op → Except PyExc Reply × σ
  | .get key => ((p.get s key).map .found, s)
  | .set key value => ((p.set s key value).1.map fun _ => .done, (p.set s key value).2)
  | .delete key => ((p.delete s key).1.map fun _ => .done, (p.delete s key).2)
  | .listKeys => ((p.listKeys s).map .listed, s)

/-- The key is one that references can name, and the value has no NUL. -/
def Op.Admissible : Op → Prop
  | .get key => isSecretKey key.toList
  | .set key value => isSecretKey key.toList ∧ hasChar '\x00' value = false
  | .delete key => isSecretKey key.toList
  | .listKeys => True

/-- The key of a call. -/
def Op.key? : Op → Option String
  | .get key | .set key _ | .delete key => some key
  | .listKeys => none

/-- The key that a call stores a value under. -/
def Op.setKey? : Op → Option String
  | .set key _ => some key
  | _ => none

/-- The call with its key rewritten. -/
def Op.mapKey (f : String → String) : Op → Op
  | .get key => .get (f key)
  | .set key value => .set (f key) value
  | .delete key => .delete (f key)
  | .listKeys => .listKeys

theorem Op.key?_of_setKey? {op : Op} {key : String} (h : op.setKey? = some key) :
    op.key? = some key := by
  cases op with
  | set key value => exact h
  | _ => cases h

theorem Op.mapKey_eq_self {f : String → String} {op : Op} (h : ∀ key ∈ op.key?, f key = key) :
    op.mapKey f = op := by
  cases op with
  | listKeys => rfl
  | _ => rw [Op.mapKey, h _ rfl]

/-- The reply with its keys rewritten, in order again. -/
def Reply.mapKeys (f : String → String) : Reply → Reply
  | .listed keys => .listed (sortOn id (keys.map f))
  | r => r

section

variable {σ : Type} {p : SecretsProvider σ} {s s' : σ}

theorem step_get {key : String} {value : Option String} (h : p.get s key = .ok value) :
    p.step s (.get key) = (.ok (.found value), s) := by
  rw [step, h]
  rfl

theorem step_set {key value : String} (h : p.set s key value = (.ok (), s')) :
    p.step s (.set key value) = (.ok .done, s') := by
  rw [step, h]
  rfl

theorem step_delete {key : String} (h : p.delete s key = (.ok (), s')) :
    p.step s (.delete key) = (.ok .done, s') := by
  rw [step, h]
  rfl

theorem step_listKeys {keys : List String} (h : p.listKeys s = .ok keys) :
    p.step s .listKeys = (.ok (.listed keys), s) := by
  rw [step, h]
  rfl

end

end SecretsProvider

open SecretsProvider (Op Reply)

/-! ### One finite map -/

/-- A finite map from keys to values. -/
abbrev SecretMap := Finmap fun _ : String => String

namespace SecretMap

/-- One call on the map. -/
def step (m : SecretMap) : Op → Reply × SecretMap
  | .get key => (.found (m.lookup key), m)
  | .set key value => (.done, m.insert key value)
  | .delete key => (.done, m.erase key)
  | .listKeys => (.listed m.keys.sort, m)

end SecretMap

variable {m m' : SecretMap}

/-! ### The file -/

namespace FileSecretsProvider

variable {json : JsonText} {file : Option json.Text} {d : Dict String Json}

/-- The file holds the entries of the map. -/
def Holds (json : JsonText) (file : Option json.Text) (m : SecretMap) : Prop :=
  ∃ d, read json file = .ok d ∧ ∀ key, d.get? key = (m.lookup key).map .str

theorem read_write (d : Dict String Json) :
    read json (write json d) = .ok (d.mapValues fun _ v => v.sortKeys).sortKeys := by
  rw [write, read, json.loads_dumps, Value.sortKeys_dict]
  exact congrArg Except.ok (Dict.ofEntries_entries _)

theorem Holds.write (h : ∀ key, d.get? key = (m.lookup key).map .str) :
    Holds json (write json d) m := by
  refine ⟨_, read_write d, fun key => ?_⟩
  rw [Dict.get?_sortKeys, Dict.get?_mapValues, h, Option.map_map]
  rfl

theorem Holds.listKeys (h : Holds json file m) : listKeys json file = .ok m.keys.sort := by
  obtain ⟨d, hread, hd⟩ := h
  have hmem : ∀ key, key ∈ d.keys ↔ key ∈ m.keys := fun key => by
    rw [Dict.mem_keys_iff, hd, mem_keys_iff_lookup]
    simp
  rw [FileSecretsProvider.listKeys, hread, ← sortOn_id_eq_sort d.nodup hmem]
  rfl

theorem Holds.get (h : Holds json file m) (key : String) :
    (fileSecretsProvider json).get file key = .ok (m.lookup key) := by
  obtain ⟨d, hread, hd⟩ := h
  change FileSecretsProvider.get json file key = _
  rw [FileSecretsProvider.get, hread]
  change ((d.get? key).getD .null).toTextOption = _
  rw [hd]
  cases m.lookup key <;> rfl

/-- One call on the file is the same call on the map. -/
theorem Holds.step (h : Holds json file m) (op : Op) :
    ((fileSecretsProvider json).step file op).1 = .ok (m.step op).1 ∧
      Holds json ((fileSecretsProvider json).step file op).2 (m.step op).2 := by
  obtain ⟨d, hread, hd⟩ := id h
  cases op with
  | get key =>
    rw [SecretsProvider.step_get (h.get key)]
    exact ⟨rfl, h⟩
  | set key value =>
    have hset : (fileSecretsProvider json).set file key value =
        (.ok (), FileSecretsProvider.write json (d.set key (.str value))) := by
      change FileSecretsProvider.set json file key value = _
      rw [FileSecretsProvider.set, hread]
    rw [SecretsProvider.step_set hset]
    refine ⟨rfl, .write fun key' => ?_⟩
    rw [Dict.get?_set, SecretMap.step, lookup_insert_eq_ite, hd, apply_ite (Option.map Value.str)]
    rfl
  | delete key =>
    have hdelete : (fileSecretsProvider json).delete file key =
        (.ok (), if d.contains key then FileSecretsProvider.write json (d.del key) else file) := by
      change FileSecretsProvider.delete json file key = _
      rw [FileSecretsProvider.delete, hread]
    have hdel : ∀ key', (d.del key).get? key' = ((m.erase key).lookup key').map .str := by
      intro key'
      rw [Dict.get?_del, lookup_erase_eq_ite, hd, apply_ite (Option.map Value.str)]
      rfl
    rw [SecretsProvider.step_delete hdelete]
    refine ⟨rfl, ?_⟩
    dsimp only
    split_ifs with hkey
    · exact .write hdel
    · -- an absent key leaves the file as it is
      rw [Dict.contains_eq_isSome, Bool.not_eq_true, Option.isSome_eq_false_iff,
        Option.isNone_iff_eq_none] at hkey
      exact ⟨d, hread, fun key' => (Dict.del_of_get?_eq_none hkey).symm ▸ hdel key'⟩
  | listKeys =>
    rw [SecretsProvider.step_listKeys h.listKeys]
    exact ⟨rfl, h⟩

/-- The file answers as the map does, call by call. -/
theorem refines (json : JsonText) (ops : List Op) :
    outputs (fileSecretsProvider json).step none ops = (outputs SecretMap.step ∅ ops).map .ok ∧
      Holds json (run (fileSecretsProvider json).step none ops) (run SecretMap.step ∅ ops) := by
  have hstart : Holds json none ∅ := ⟨∅, rfl, fun _ => rfl⟩
  have hops : ∀ op ∈ ops, True := fun _ _ => trivial
  exact run_refines (fun _ _ op _ h => h.step op) hstart hops

end FileSecretsProvider

/-! ### The environment -/

namespace EnvironmentSecretsProvider

variable {py : CaseLib} {env : Environ}

/-- The variables with the prefix are the entries of the map. -/
def Holds (env : Environ) (m : SecretMap) : Prop :=
  ∀ key, env.get? (envPrefix ++ key) = m.lookup key

theorem Holds.empty (h : ∀ name ∈ env.keys, startsWith name envPrefix = false) :
    Holds env ∅ := by
  intro key
  rcases hget : env.get? (envPrefix ++ key) with _ | value
  · rfl
  · have hnone := h _ (Dict.mem_keys_iff.mpr ⟨value, hget⟩)
    rw [startsWith_iff.mpr ⟨key, rfl⟩] at hnone
    cases hnone

private theorem isKeyChar_toUpper {c : Char} (h : isKeyChar c = true) :
    c.toNat < 128 ∧ isKeyChar c.toUpper = true := by
  have hranges : isKeyChar c = (decide ('A'.val ≤ c.val ∧ c.val ≤ 'Z'.val) ||
      'a'.val ≤ c.val && c.val ≤ 'z'.val || '0'.val ≤ c.val && c.val ≤ '9'.val || c == '_') := rfl
  have hlt : c.toNat < 128 := by
    rw [hranges] at h
    simp only [Bool.or_eq_true, Bool.and_eq_true, decide_eq_true_eq, beq_iff_eq,
      UInt32.le_iff_toNat_le] at h
    rcases h with h | rfl
    · have hZ : ('Z' : Char).val.toNat = 90 := rfl
      have hz : ('z' : Char).val.toNat = 122 := rfl
      have h9 : ('9' : Char).val.toNat = 57 := rfl
      have hc : c.toNat = c.val.toNat := rfl
      omega
    · decide
  have hall : ∀ n < 128, isKeyChar (Char.ofNat n) = true →
      isKeyChar (Char.ofNat n).toUpper = true := by decide
  have hc := hall c.toNat hlt
  rw [Char.ofNat_toNat] at hc
  exact ⟨hlt, hc h⟩

/-- The name of the variable of a key has key characters alone. -/
theorem isKeyChar_of_mem_envKey {key : String} (hkey : isSecretKey key.toList) {c : Char}
    (hc : c ∈ (envKey py key).toList) : isKeyChar c = true := by
  rw [isSecretKey, Bool.and_eq_true, List.all_eq_true] at hkey
  have hascii : IsAscii key := fun c hc => (isKeyChar_toUpper (hkey.2 c hc)).1
  rw [envKey, py.upper_ascii key hascii, asciiUpper, String.toList_append, String.toList_ofList,
    List.mem_append] at hc
  rcases hc with hc | hc
  · have hletters : envPrefix.toList.all isKeyChar = true := by decide
    exact List.all_eq_true.mp hletters c hc
  · obtain ⟨d, hd, rfl⟩ := List.mem_map.mp hc
    exact (isKeyChar_toUpper (hkey.2 d hd)).2

theorem hasChar_envKey {key : String} (hkey : isSecretKey key.toList) {c : Char}
    (hc : isKeyChar c = false) : hasChar c (envKey py key) = false := by
  rw [hasChar_eq_false_iff]
  intro hmem
  rw [isKeyChar_of_mem_envKey hkey hmem] at hc
  cases hc

theorem Holds.listKeys (h : Holds env m) : listKeys env = m.keys.sort := by
  refine sortOn_id_eq_sort ?_ fun key => ?_
  · refine (List.Nodup.filter _ env.nodup).map_on fun name hname name' hname' hsame => ?_
    obtain ⟨key, rfl⟩ := startsWith_iff.mp (List.mem_filter.mp hname).2
    obtain ⟨key', rfl⟩ := startsWith_iff.mp (List.mem_filter.mp hname').2
    rw [ofList_drop_append, ofList_drop_append] at hsame
    rw [hsame]
  · rw [mem_keys_iff_lookup, ← h key, ← Dict.mem_keys_iff, List.mem_map]
    constructor
    · rintro ⟨name, hname, rfl⟩
      obtain ⟨key, rfl⟩ := startsWith_iff.mp (List.mem_filter.mp hname).2
      rw [ofList_drop_append]
      exact (List.mem_filter.mp hname).1
    · intro hkey
      exact ⟨_, List.mem_filter.mpr ⟨hkey, startsWith_iff.mpr ⟨key, rfl⟩⟩, ofList_drop_append ..⟩

/-- One call on the environment is the call with the upper-cased key on the map. -/
theorem Holds.step (h : Holds env m) {op : Op} (hop : op.Admissible) :
    ((environmentSecretsProvider py).step env op).1 = .ok (m.step (op.mapKey py.upper)).1 ∧
      Holds ((environmentSecretsProvider py).step env op).2 (m.step (op.mapKey py.upper)).2 := by
  cases op with
  | get key =>
    have hget : (environmentSecretsProvider py).get env key = .ok (m.lookup (py.upper key)) :=
      congrArg Except.ok (h _)
    rw [SecretsProvider.step_get hget]
    exact ⟨rfl, h⟩
  | set key value =>
    have hset : (environmentSecretsProvider py).set env key value =
        (.ok (), env.set (envKey py key) value) := by
      change setenv env (envKey py key) value = _
      rw [setenv, hasChar_envKey hop.1 (by decide), hasChar_envKey hop.1 (by decide), hop.2]
      rfl
    rw [SecretsProvider.step_set hset]
    refine ⟨rfl, fun key' => ?_⟩
    rw [Dict.get?_set, Op.mapKey, SecretMap.step, lookup_insert_eq_ite, h, envKey]
    simp only [String.append_right_inj]
  | delete key =>
    rw [SecretsProvider.step_delete (p := environmentSecretsProvider py) rfl]
    refine ⟨rfl, fun key' => ?_⟩
    rw [Dict.get?_del, Op.mapKey, SecretMap.step, lookup_erase_eq_ite, h, envKey]
    simp only [String.append_right_inj]
  | listKeys =>
    rw [SecretsProvider.step_listKeys (p := environmentSecretsProvider py)
      (congrArg Except.ok h.listKeys)]
    exact ⟨rfl, h⟩

/-- The environment answers as the map does on upper-cased keys, call by call. -/
theorem refines (py : CaseLib) (h : Holds env ∅) {ops : List Op}
    (hops : ∀ op ∈ ops, op.Admissible) :
    outputs (environmentSecretsProvider py).step env ops =
        (outputs SecretMap.step ∅ (ops.map (·.mapKey py.upper))).map .ok ∧
      Holds (run (environmentSecretsProvider py).step env ops)
        (run SecretMap.step ∅ (ops.map (·.mapKey py.upper))) := by
  rw [outputs_map, run_map]
  exact run_refines (fun _ _ _ hop h => h.step hop) h hops

end EnvironmentSecretsProvider

/-! ### Keys that differ in letter case -/

/-- No two different keys, one of either list, are made the same. -/
def Separates (f : String → String) (keys keys' : List String) : Prop :=
  ∀ key ∈ keys, ∀ key' ∈ keys', f key = f key' → key = key'

instance (f : String → String) (keys keys' : List String) : Decidable (Separates f keys keys') :=
  inferInstanceAs (Decidable (∀ key ∈ keys, ∀ key' ∈ keys', f key = f key' → key = key'))

namespace SecretMap

/-- The maps agree on the keys in use once these are rewritten, and the keys they have have been
set. -/
structure Renamed (f : String → String) (used set : List String) (m m' : SecretMap) : Prop where
  mem_set : ∀ key ∈ m.keys, key ∈ set
  keys_eq : m'.keys = m.keys.image f
  lookup_eq : ∀ key ∈ used, m'.lookup (f key) = m.lookup key

variable {f : String → String} {used set : List String}

theorem Renamed.empty : Renamed f used set ∅ ∅ where
  mem_set key hkey := by simp at hkey
  keys_eq := by simp
  lookup_eq _ _ := rfl

theorem Renamed.insert (h : Renamed f used set m m') (hsep : Separates f used set)
    {key : String} (hkey : key ∈ set) (value : String) :
    Renamed f used set (m.insert key value) (m'.insert (f key) value) where
  mem_set key' hkey' := by
    rw [keys_insert, Finset.mem_insert] at hkey'
    rcases hkey' with rfl | hkey'
    · exact hkey
    · exact h.mem_set key' hkey'
  keys_eq := by rw [keys_insert, keys_insert, h.keys_eq, Finset.image_insert]
  lookup_eq key' hkey' := by
    rw [lookup_insert_eq_ite, lookup_insert_eq_ite, h.lookup_eq key' hkey']
    exact if_congr ⟨hsep key' hkey' key hkey, congrArg f⟩ rfl rfl

theorem Renamed.erase (h : Renamed f used set m m') (hsep : Separates f used set)
    {key : String} (hkey : key ∈ used) :
    Renamed f used set (m.erase key) (m'.erase (f key)) where
  mem_set key' hkey' := by
    rw [Finmap.keys_erase] at hkey'
    exact h.mem_set key' (Finset.mem_of_mem_erase hkey')
  keys_eq := by
    ext name
    rw [Finmap.keys_erase, Finmap.keys_erase, h.keys_eq, Finset.mem_erase, Finset.mem_image,
      Finset.mem_image]
    constructor
    · rintro ⟨hne, key', hkey', rfl⟩
      exact ⟨key', Finset.mem_erase.mpr ⟨fun heq => hne (congrArg f heq), hkey'⟩, rfl⟩
    · rintro ⟨key', hkey', rfl⟩
      obtain ⟨hne, hmem⟩ := Finset.mem_erase.mp hkey'
      exact ⟨fun heq => hne (hsep key hkey key' (h.mem_set key' hmem) heq.symm).symm,
        key', hmem, rfl⟩
  lookup_eq key' hkey' := by
    rw [lookup_erase_eq_ite, lookup_erase_eq_ite, h.lookup_eq key' hkey']
    by_cases heq : key' = key
    · rw [if_pos heq, if_pos (congrArg f heq)]
    · rw [if_neg heq]
      split_ifs with hsame
      · -- a key the map has would have been set, and is not made the same as this one
        rcases hlookup : m.lookup key' with _ | value
        · rfl
        · have hmem := h.mem_set key' (mem_keys_iff_lookup.mpr ⟨value, hlookup⟩)
          exact absurd (hsep key hkey key' hmem hsame.symm).symm heq
      · rfl

theorem Renamed.sort_keys (h : Renamed f used set m m') (hsep : Separates f used set)
    (hsub : set ⊆ used) : m'.keys.sort = sortOn id (m.keys.sort.map f) := by
  refine (sortOn_id_eq_sort ?_ fun name => ?_).symm
  · refine (Finset.sort_nodup _ _).map_on fun key hkey key' hkey' hsame => ?_
    rw [Finset.mem_sort] at hkey hkey'
    exact hsep key (hsub (h.mem_set key hkey)) key' (h.mem_set key' hkey') hsame
  · rw [h.keys_eq, List.mem_map, Finset.mem_image]
    simp only [Finset.mem_sort]

theorem Renamed.step (h : Renamed f used set m m') (hsep : Separates f used set)
    (hsub : set ⊆ used) {op : Op} (hused : ∀ key ∈ op.key?, key ∈ used)
    (hset : ∀ key ∈ op.setKey?, key ∈ set) :
    (m'.step (op.mapKey f)).1 = (m.step op).1.mapKeys f ∧
      Renamed f used set (m.step op).2 (m'.step (op.mapKey f)).2 := by
  cases op with
  | get key => exact ⟨congrArg Reply.found (h.lookup_eq key (hused key rfl)), h⟩
  | set key value => exact ⟨rfl, h.insert hsep (hset key rfl) value⟩
  | delete key => exact ⟨rfl, h.erase hsep (hused key rfl)⟩
  | listKeys => exact ⟨congrArg Reply.listed (h.sort_keys hsep hsub), h⟩

/-- Rewriting the keys of a run that never confuses two of them rewrites those it lists. -/
theorem run_mapKey {ops : List Op} (hsep : Separates f used set) (hsub : set ⊆ used)
    (hused : ∀ op ∈ ops, ∀ key ∈ op.key?, key ∈ used)
    (hset : ∀ op ∈ ops, ∀ key ∈ op.setKey?, key ∈ set) :
    outputs SecretMap.step ∅ (ops.map (·.mapKey f)) =
        (outputs SecretMap.step ∅ ops).map (·.mapKeys f) ∧
      Renamed f used set (run SecretMap.step ∅ ops)
        (run SecretMap.step ∅ (ops.map (·.mapKey f))) := by
  rw [outputs_map, run_map]
  have hops : ∀ op ∈ ops, (∀ key ∈ op.key?, key ∈ used) ∧ ∀ key ∈ op.setKey?, key ∈ set :=
    fun op hop => ⟨hused op hop, hset op hop⟩
  have hstart : Renamed f used set ∅ ∅ := .empty
  -- the run on the rewritten keys refines the one on the keys themselves
  refine run_refines (R := fun m' m => Renamed f used set m m') (fun m' m op hop h => ?_)
    hstart hops
  exact h.step hsep hsub hop.1 hop.2

end SecretMap

/-! ### The two providers -/

open SecretsManager (profileRefs resolveProfile)

/-- From an empty store, the file returns what one map from keys to values returns, and the
environment what that map returns on the upper-cased keys. On keys without lower-case letters the
two return the same. Where no key in use differs from a key that is set in letter case alone, they
return the same up to the letter case of a listing; and where this holds of the references of a
profile as well, the manager makes the same of it with either. -/
theorem providers_refine_map (json : JsonText) (py : CaseLib) {env : Environ}
    (henv : ∀ name ∈ env.keys, startsWith name EnvironmentSecretsProvider.envPrefix = false)
    {ops : List Op} (hops : ∀ op ∈ ops, op.Admissible) :
    let file := fileSecretsProvider json
    let environ := environmentSecretsProvider py
    let used := ops.filterMap Op.key?
    let set := ops.filterMap Op.setKey?
    outputs file.step none ops = (outputs SecretMap.step ∅ ops).map .ok ∧
    outputs environ.step env ops =
      (outputs SecretMap.step ∅ (ops.map (·.mapKey py.upper))).map .ok ∧
    ((∀ key ∈ used, py.upper key = key) →
      outputs environ.step env ops = outputs file.step none ops) ∧
    (Separates py.upper used set →
      outputs environ.step env ops =
        (outputs file.step none ops).map (.map (·.mapKeys py.upper)) ∧
      ∀ profile, Separates py.upper (profileRefs profile) set →
        resolveProfile py.toStrLib (environ.get (run environ.step env ops)) profile =
          resolveProfile py.toStrLib (file.get (run file.step none ops)) profile) := by
  intro file environ used set
  obtain ⟨hfile, hholds⟩ := FileSecretsProvider.refines json ops
  obtain ⟨henviron, hholds'⟩ :=
    EnvironmentSecretsProvider.refines py (EnvironmentSecretsProvider.Holds.empty henv) hops
  have hused : ∀ op ∈ ops, ∀ key ∈ op.key?, key ∈ used := fun op hop key hkey =>
    List.mem_filterMap.mpr ⟨op, hop, hkey⟩
  have hset : ∀ op ∈ ops, ∀ key ∈ op.setKey?, key ∈ set := fun op hop key hkey =>
    List.mem_filterMap.mpr ⟨op, hop, hkey⟩
  have hsub : set ⊆ used := fun key hkey => by
    obtain ⟨op, hop, hkey⟩ := List.mem_filterMap.mp hkey
    exact hused op hop key (Op.key?_of_setKey? hkey)
  refine ⟨hfile, henviron, fun hupper => ?_, fun hsep => ⟨?_, fun profile hrefs => ?_⟩⟩
  · have hsame : ops.map (·.mapKey py.upper) = ops := by
      refine (List.map_congr_left fun op hop => ?_).trans (List.map_id ops)
      exact Op.mapKey_eq_self fun key hkey => hupper key (hused op hop key hkey)
    rw [henviron, hfile, hsame]
  · obtain ⟨hout, -⟩ := SecretMap.run_mapKey hsep hsub hused hset
    rw [henviron, hfile, hout, List.map_map, List.map_map]
    rfl
  · -- the references of the profile count as used
    have hsep' : Separates py.upper (used ++ profileRefs profile) set := by
      intro key hkey
      rcases List.mem_append.mp hkey with hkey | hkey
      · exact hsep key hkey
      · exact hrefs key hkey
    obtain ⟨-, hrenamed⟩ := SecretMap.run_mapKey hsep'
      (fun key hkey => List.mem_append_left _ (hsub hkey))
      (fun op hop key hkey => List.mem_append_left _ (hused op hop key hkey)) hset
    refine SecretsManager.resolveProfile_congr fun key hkey => ?_
    rw [hholds.get, ← hrenamed.lookup_eq key (List.mem_append_right _ hkey)]
    exact congrArg Except.ok (hholds' _)

private def runOps : List Op := [.set "root_pw" "hunter2", .set "API" "x", .listKeys]

private def runEnv : Environ := (∅ : Environ).set "PATH" "/bin"

private def runProfile : ProvisionProfile where
  name := .str "web"
  osFamily := .str "debian"
  osVersion := .str "12"
  extra := .dict [("users", .list [.str "root:\x7b\x7bsecret:root_pw\x7d\x7d"])]

theorem providers_refine_map_run :
    outputs (environmentSecretsProvider .ascii).step runEnv runOps =
      (outputs (fileSecretsProvider .parsed).step none runOps).map
        (.map (·.mapKeys asciiUpper)) ∧
    resolveProfile .ascii
        ((environmentSecretsProvider .ascii).get
          (run (environmentSecretsProvider .ascii).step runEnv runOps)) runProfile =
      resolveProfile .ascii
        ((fileSecretsProvider .parsed).get
          (run (fileSecretsProvider .parsed).step none runOps)) runProfile := by
  have hops : ∀ op ∈ runOps, op.Admissible := by
    rw [runOps]
    simp only [List.forall_mem_cons, List.not_mem_nil, false_imp_iff, implies_true, and_true]
    exact ⟨⟨by decide, by decide⟩, ⟨by decide, by decide⟩, trivial⟩
  have henv : ∀ name ∈ runEnv.keys,
      startsWith name EnvironmentSecretsProvider.envPrefix = false := by decide
  obtain ⟨hout, hresolve⟩ :=
    (providers_refine_map .parsed .ascii henv hops).2.2.2 (by decide +kernel)
  exact ⟨hout, hresolve runProfile (by decide +kernel)⟩

/-- A key that is set in lower case is listed in upper case by the environment, and the upper-case
reference is found there alone. -/
theorem lowercase_key_separates_providers :
    let ops : List Op := [.set "a" "1", .listKeys]
    let profile : ProvisionProfile :=
      { name := .str "\x7b\x7bsecret:A\x7d\x7d", osFamily := .str "debian", osVersion := .str "12" }
    (∀ op ∈ ops, op.Admissible) ∧
    outputs (fileSecretsProvider .parsed).step none ops = [.ok .done, .ok (.listed ["a"])] ∧
    outputs (environmentSecretsProvider .ascii).step ∅ ops = [.ok .done, .ok (.listed ["A"])] ∧
    (resolveProfile .ascii ((fileSecretsProvider .parsed).get
        (run (fileSecretsProvider .parsed).step none ops)) profile).map (·.name.asStr) =
      .error ⟨.valueError, "secret 'A' referenced in 'name' not found"⟩ ∧
    (resolveProfile .ascii ((environmentSecretsProvider .ascii).get
        (run (environmentSecretsProvider .ascii).step ∅ ops)) profile).map (·.name.asStr) =
      .ok (some "1") := by
  refine ⟨?_, by decide +kernel, by decide +kernel, by decide +kernel, by decide +kernel⟩
  simp only [List.forall_mem_cons, List.not_mem_nil, false_imp_iff, implies_true, and_true]
  exact ⟨⟨by decide, by decide⟩, trivial⟩

end TftpOS
