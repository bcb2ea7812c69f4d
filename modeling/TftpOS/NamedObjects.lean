import TftpOS.Lib.Except
import TftpOS.Lib.Run
import TftpOS.MacLookups

/-!
# Named objects

`NamedObjectStore` of `tftpos/named_objects.py`: distros and hosts, each a dataclass instance kept
as `<name>.json` in the directory of its kind. The methods for the two kinds differ in the class
alone.

`update` assigns attributes by name and stores the object under whatever name it then has. An
instance is its `__dict__`, so the attributes that every object has count as well: `__dict__`
itself can be assigned, and `asdict` reads its table of fields from the instance.
-/

namespace TftpOS

open Lib

/-! ### Dataclasses -/

/-- A field of a dataclass. -/
structure Field where
  name : String
  /-- The default, which is an attribute of the class too. -/
  default : Option Json := none
  /-- What the default factory makes. -/
  factory : Option Json := none

/-- A dataclass. -/
structure DataClass where
  name : String
  fields : List Field

/-- `NamedDistro`. -/
def namedDistro : DataClass where
  name := "NamedDistro"
  fields := [⟨"name", none, none⟩, ⟨"os_family", none, none⟩, ⟨"vendor", none, none⟩,
    ⟨"version", none, none⟩, ⟨"arch", some (.str "x86_64"), none⟩,
    ⟨"kernel_path", some (.str ""), none⟩, ⟨"initrd_path", some (.str ""), none⟩,
    ⟨"install_url", some (.str ""), none⟩, ⟨"comment", some (.str ""), none⟩]

/-- `NamedHost`, as a dataclass. -/
def namedHost : DataClass where
  name := "NamedHost"
  fields := [⟨"name", none, none⟩, ⟨"mac", none, none⟩, ⟨"profile", some (.str ""), none⟩,
    ⟨"distro", some (.str ""), none⟩, ⟨"hostname", some (.str ""), none⟩,
    ⟨"gateway", some (.str ""), none⟩, ⟨"nameservers", none, some (.list [])⟩,
    ⟨"ip_address", some (.str ""), none⟩, ⟨"netmask", some (.str ""), none⟩,
    ⟨"comment", some (.str ""), none⟩, ⟨"extra", none, some (.dict [])⟩]

/-- An instance: its `__dict__`. -/
abbrev Instance := Dict String Json

/-- Attributes of every dataclass instance besides its fields. -/
def inheritedAttrs : List String :=
  ["__annotations__", "__class__", "__dataclass_fields__", "__dataclass_params__", "__delattr__",
    "__dict__", "__dir__", "__doc__", "__eq__", "__format__", "__ge__", "__getattribute__",
    "__gt__", "__hash__", "__init__", "__init_subclass__", "__le__", "__lt__", "__match_args__",
    "__module__", "__ne__", "__new__", "__reduce__", "__reduce_ex__", "__repr__", "__setattr__",
    "__sizeof__", "__str__", "__subclasshook__", "__weakref__"]

/-- The values of keys, in order; a key without one raises. -/
def collect (value : String → Option Json) (missing : PyExc) :
    List String → Except PyExc (List (String × Json))
  | [] => .ok []
  | key :: keys =>
    match value key with
    | none => .error missing
    | some v => do return (key, v) :: (← collect value missing keys)

namespace DataClass

variable (cls : DataClass)

/-- The names of the fields. -/
def fieldNames : List String := cls.fields.map Field.name

/-- An attribute of the class that a default leaves. -/
def classAttr (key : String) : Option Json :=
  (cls.fields.find? fun f => f.name = key).bind Field.default

/-- What a field is when no argument gives it. -/
def defaultOf (key : String) : Option Json :=
  (cls.fields.find? fun f => f.name = key).bind fun f => f.default <|> f.factory

/-- `cls(**data)`. -/
def construct : Json → Except PyExc Instance
  | .dict kvs =>
    match kvs.find? fun e => e.1 ∉ cls.fieldNames with
    | some e => .error
        ⟨.typeError, cls.name ++ ".__init__() got an unexpected keyword argument '" ++ e.1 ++ "'"⟩
    | none => do
      let entries ← collect (fun key => Value.lookup key kvs <|> cls.defaultOf key)
        ⟨.typeError, cls.name ++ ".__init__() missing required arguments"⟩ cls.fieldNames
      return Dict.ofEntries entries
  | _ => .error ⟨.typeError, cls.name ++ "() argument after ** must be a mapping"⟩

/-- `getattr(obj, key)` for data: the instance comes before its class. -/
def getattr (obj : Instance) (key : String) : Option Json := obj.get? key <|> cls.classAttr key

/-- `hasattr(obj, key)`. -/
def hasattr (obj : Instance) (key : String) : Bool :=
  (cls.getattr obj key).isSome || decide (key ∈ inheritedAttrs)

/-- `setattr(obj, key, v)` for a JSON value. -/
def setattr (obj : Instance) (key : String) (v : Json) : Except PyExc Instance :=
  if key = "__class__" then .error ⟨.typeError, "__class__ must be set to a class"⟩
  else if key = "__weakref__" then .error ⟨.attributeError, "'__weakref__' is not writable"⟩
  else if key = "__dict__" then
    match v with
    | .dict kvs => .ok (Dict.ofEntries kvs)
    | _ => .error ⟨.typeError, "__dict__ must be set to a dictionary"⟩
  else .ok (obj.set key v)

/-- The loop of an update. -/
def assign : Instance → List (String × Json) → Except PyExc Instance
  | obj, [] => .ok obj
  | obj, (key, v) :: updates =>
    if cls.hasattr obj key then do assign (← setattr obj key v) updates
    else assign obj updates

/-- The names of the fields that `asdict` finds: its table of fields is an attribute, which the
instance may override. No JSON value but the empty table is one. -/
def tableOf (obj : Instance) : Except PyExc (List String) :=
  match obj.get? "__dataclass_fields__" with
  | none => .ok cls.fieldNames
  | some (.dict []) => .ok []
  | some _ => .error ⟨.attributeError, "no attribute '_field_type'"⟩

/-- `asdict(obj)`. -/
def asdict (obj : Instance) : Except PyExc Json := do
  let entries ← collect (cls.getattr obj) ⟨.attributeError, "no attribute"⟩ (← cls.tableOf obj)
  return .dict entries

end DataClass

/-! ### The store -/

/-- `_validate_name`. -/
def validateName (py : StrLib) (name : String) : Except PyExc Unit :=
  if name = "" then .error ⟨.valueError, "name must not be empty"⟩
  else if hasDotDot name then
    .error ⟨.valueError, "name must not contain '..': " ++ py.repr name⟩
  else if hasChar '/' name || hasChar '\\' name then
    .error ⟨.valueError, "name must not contain path separators: " ++ py.repr name⟩
  else if !reLine isSafeName name then
    .error ⟨.valueError, "name contains invalid characters: " ++ py.repr name⟩
  else .ok ()

/-- `"…" in v` for a list or a dict. -/
def holdsText (s : String) : Json → Bool
  | .list xs => xs.any fun x => x.asStr == some s
  | .dict kvs => kvs.any fun e => e.1 == s
  | _ => false

/-- `_validate_name` of an attribute, which need not be a string; the name it passes. Of other
types, a false value is taken for an empty name, a container is searched, and the pattern takes
none of them. -/
def validateNameValue (py : StrLib) : Json → Except PyExc String
  | .str name => do
    validateName py name
    return name
  | v =>
    if !v.truthy then .error ⟨.valueError, "name must not be empty"⟩
    else if holdsText ".." v then .error ⟨.valueError, "name must not contain '..'"⟩
    else if holdsText "/" v || holdsText "\\" v then
      .error ⟨.valueError, "name must not contain path separators"⟩
    else .error ⟨.typeError, "not a str"⟩

/-- The kinds of objects. -/
inductive ObjectKind
  | distro
  | host

/-- The class of the objects of a kind. -/
def ObjectKind.cls : ObjectKind → DataClass
  | .distro => namedDistro
  | .host => namedHost

/-- The file of an object. -/
def objectFile (name : String) : String := name ++ ".json"

namespace NamedObjectStore

variable {json : JsonText} (py : StrLib) (store : NamedObjectStore json)

/-- The files of a kind. -/
def files : ObjectKind → Dict String json.Text
  | .distro => store.distros
  | .host => store.hosts

/-- The store with other files of a kind. -/
def setFiles : ObjectKind → Dict String json.Text → NamedObjectStore json
  | .distro, files => { store with distros := files }
  | .host, files => { store with hosts := files }

/-- `add_distro` and `add_host`: what is written, and under which name. -/
def fileOf (kind : ObjectKind) (obj : Instance) : Except PyExc (String × Json) := do
  match kind.cls.getattr obj "name" with
  | none => .error ⟨.attributeError, "no attribute 'name'"⟩
  | some v =>
    let name ← validateNameValue py v
    return (name, ← kind.cls.asdict obj)

/-- `add_distro` and `add_host`. -/
def add (kind : ObjectKind) (obj : Instance) : Except PyExc Unit × NamedObjectStore json :=
  match fileOf py kind obj with
  | .error e => (.error e, store)
  | .ok (name, data) =>
    (.ok (), store.setFiles kind ((store.files kind).set (objectFile name)
      (json.dumps (some 2) data)))

/-- `get_distro` and `get_host`. -/
def get (kind : ObjectKind) (name : String) : Except PyExc (Option Instance) := do
  validateName py name
  match (store.files kind).get? (objectFile name) with
  | none => .ok none
  | some text =>
    match json.loads text with
    | none => .error ⟨.valueError, "Expecting value"⟩
    | some data => return some (← kind.cls.construct data)

/-- `delete_distro` and `delete_host`. -/
def delete (kind : ObjectKind) (name : String) : Except PyExc Bool × NamedObjectStore json :=
  match validateName py name with
  | .error e => (.error e, store)
  | .ok () =>
    if (store.files kind).contains (objectFile name) then
      (.ok true, store.setFiles kind ((store.files kind).del (objectFile name)))
    else (.ok false, store)

/-- `update_distro` and `update_host`. -/
def update (kind : ObjectKind) (name : String) (updates : Dict String Json) :
    Except PyExc (Option Instance) × NamedObjectStore json :=
  match store.get py kind name with
  | .error e => (.error e, store)
  | .ok none => (.ok none, store)
  | .ok (some obj) =>
    match kind.cls.assign obj updates.entries with
    | .error e => (.error e, store)
    | .ok obj =>
      let added := store.add py kind obj
      (added.1.map fun _ => some obj, added.2)

end NamedObjectStore

/-! ### Instances -/

variable {value : String → Option Json} {missing : PyExc} {keys : List String}
  {entries : List (String × Json)}

theorem collect_eq_ok_iff :
    collect value missing keys = .ok entries ↔
      entries.map Prod.fst = keys ∧ ∀ e ∈ entries, value e.1 = some e.2 := by
  induction keys generalizing entries with
  | nil =>
    rw [collect, Except.ok.injEq, List.map_eq_nil_iff]
    constructor
    · rintro rfl
      simp
    · rintro ⟨rfl, -⟩
      rfl
  | cons key keys ih =>
    rw [collect]
    rcases hvalue : value key with _ | v
    · refine iff_of_false (fun h => by cases h) ?_
      rintro ⟨hkeys, hall⟩
      have hmem : key ∈ entries.map Prod.fst := hkeys ▸ List.mem_cons_self
      obtain ⟨e, he, rfl⟩ := List.mem_map.mp hmem
      rw [hall e he] at hvalue
      cases hvalue
    · dsimp only
      rw [bind_eq_ok_iff]
      constructor
      · rintro ⟨rest, hrest, h⟩
        obtain rfl := Except.ok.inj h
        obtain ⟨hkeys, hall⟩ := ih.mp hrest
        rw [List.map_cons, hkeys, List.forall_mem_cons]
        exact ⟨rfl, hvalue, hall⟩
      · rintro ⟨hkeys, hall⟩
        rcases entries with _ | ⟨⟨key', v'⟩, entries⟩
        · cases hkeys
        · obtain ⟨rfl, hrest⟩ := List.cons.inj hkeys
          rw [List.forall_mem_cons] at hall
          obtain rfl : v = v' := Option.some.inj (hvalue.symm.trans hall.1)
          exact ⟨entries, ih.mpr ⟨hrest, hall.2⟩, rfl⟩

theorem collect_isOk_iff :
    (∃ entries, collect value missing keys = .ok entries) ↔ ∀ key ∈ keys, (value key).isSome := by
  constructor
  · rintro ⟨entries, h⟩ key hkey
    obtain ⟨hkeys, hall⟩ := collect_eq_ok_iff.mp h
    rw [← hkeys] at hkey
    obtain ⟨e, he, rfl⟩ := List.mem_map.mp hkey
    rw [hall e he]
    rfl
  · intro h
    induction keys with
    | nil => exact ⟨[], rfl⟩
    | cons key keys ih =>
      rw [List.forall_mem_cons] at h
      obtain ⟨v, hv⟩ := Option.isSome_iff_exists.mp h.1
      obtain ⟨entries, hentries⟩ := ih h.2
      exact ⟨(key, v) :: entries, by rw [collect, hv, hentries]; rfl⟩

/-- With distinct keys, every entry is found. -/
theorem lookup_of_mem (hnodup : (entries.map Prod.fst).Nodup) {e : String × Json}
    (he : e ∈ entries) : Value.lookup e.1 entries = some e.2 := by
  have hdict := Dict.ofEntries_entries (⟨entries, hnodup⟩ : Dict String Json)
  rw [Value.lookup, hdict]
  exact Dict.get?_eq_some_iff.mpr he

theorem isSome_lookup_iff (hnodup : (entries.map Prod.fst).Nodup) (key : String) :
    (Value.lookup key entries).isSome ↔ key ∈ entries.map Prod.fst := by
  have hdict := Dict.ofEntries_entries (⟨entries, hnodup⟩ : Dict String Json)
  rw [Value.lookup, hdict, Option.isSome_iff_exists]
  exact Dict.mem_keys_iff.symm

/-- What is looked up in the entries of distinct keys. -/
theorem get?_ofEntries_collect (hnodup : keys.Nodup)
    (h : collect value missing keys = .ok entries) (key : String) :
    (Dict.ofEntries entries).get? key = if key ∈ keys then value key else none := by
  obtain ⟨hkeys, hall⟩ := collect_eq_ok_iff.mp h
  have hdict := Dict.ofEntries_entries (⟨entries, hkeys ▸ hnodup⟩ : Dict String Json)
  rw [hdict]
  split_ifs with hmem
  · rw [← hkeys] at hmem
    obtain ⟨e, he, rfl⟩ := List.mem_map.mp hmem
    rw [hall e he]
    exact Dict.get?_eq_some_iff.mpr he
  · refine Dict.get?_eq_none_iff.mpr fun v hv => hmem ?_
    rw [← hkeys]
    exact List.mem_map.mpr ⟨_, hv, rfl⟩

theorem nodup_fieldNames (kind : ObjectKind) : kind.cls.fieldNames.Nodup := by
  cases kind <;> decide

theorem name_mem_fieldNames (kind : ObjectKind) : "name" ∈ kind.cls.fieldNames := by
  cases kind <;> decide

theorem classAttr_name (kind : ObjectKind) : kind.cls.classAttr "name" = none := by
  cases kind <;> rfl

/-- The host that an instance of `NamedHost` is. -/
def NamedHost.ofInstance (obj : Instance) : NamedHost where
  name := (obj.get? "name").getD .null
  mac := (obj.get? "mac").getD .null
  profile := (obj.get? "profile").getD .null
  distro := (obj.get? "distro").getD .null
  hostname := (obj.get? "hostname").getD .null
  gateway := (obj.get? "gateway").getD .null
  nameservers := (obj.get? "nameservers").getD .null
  ipAddress := (obj.get? "ip_address").getD .null
  netmask := (obj.get? "netmask").getD .null
  comment := (obj.get? "comment").getD .null
  extra := (obj.get? "extra").getD .null

/-- The arguments of a host: the given ones and the defaults, of which the name and the MAC have
none. -/
theorem collect_namedHost_isOk_iff {kvs : List (String × Json)} :
    (∃ made, collect (fun key => Value.lookup key kvs <|> namedHost.defaultOf key) missing
        NamedHost.fields = .ok made) ↔
      (Value.lookup "name" kvs).isSome ∧ (Value.lookup "mac" kvs).isSome := by
  rw [collect_isOk_iff]
  simp [NamedHost.fields, DataClass.defaultOf, namedHost]

theorem ofInstance_of_collect {kvs made : List (String × Json)} {name mac : Json}
    (hmade : collect (fun key => Value.lookup key kvs <|> namedHost.defaultOf key) missing
      NamedHost.fields = .ok made)
    (hname : Value.lookup "name" kvs = some name) (hmac : Value.lookup "mac" kvs = some mac) :
    NamedHost.ofInstance (Dict.ofEntries made) =
      { name := name
        mac := mac
        profile := (Value.lookup "profile" kvs).getD (.str "")
        distro := (Value.lookup "distro" kvs).getD (.str "")
        hostname := (Value.lookup "hostname" kvs).getD (.str "")
        gateway := (Value.lookup "gateway" kvs).getD (.str "")
        nameservers := (Value.lookup "nameservers" kvs).getD (.list [])
        ipAddress := (Value.lookup "ip_address" kvs).getD (.str "")
        netmask := (Value.lookup "netmask" kvs).getD (.str "")
        comment := (Value.lookup "comment" kvs).getD (.str "")
        extra := (Value.lookup "extra" kvs).getD (.dict []) } := by
  have hnodup : NamedHost.fields.Nodup := by decide
  have hget := get?_ofEntries_collect hnodup hmade
  have hdefault : ∀ key v, key ∈ NamedHost.fields → namedHost.defaultOf key = some v →
      ((Dict.ofEntries made).get? key).getD .null = (Value.lookup key kvs).getD v := by
    intro key v hkey hdefault
    rw [hget, if_pos hkey, hdefault]
    rcases Value.lookup key kvs with _ | w <;> rfl
  have hgiven : ∀ key v, key ∈ NamedHost.fields → Value.lookup key kvs = some v →
      ((Dict.ofEntries made).get? key).getD .null = v := by
    intro key v hkey hlookup
    rw [hget, if_pos hkey, hlookup]
    rfl
  rw [NamedHost.ofInstance, hgiven "name" name (by decide) hname,
    hgiven "mac" mac (by decide) hmac, hdefault "profile" (.str "") (by decide) rfl,
    hdefault "distro" (.str "") (by decide) rfl, hdefault "hostname" (.str "") (by decide) rfl,
    hdefault "gateway" (.str "") (by decide) rfl,
    hdefault "nameservers" (.list []) (by decide) rfl,
    hdefault "ip_address" (.str "") (by decide) rfl, hdefault "netmask" (.str "") (by decide) rfl,
    hdefault "comment" (.str "") (by decide) rfl, hdefault "extra" (.dict []) (by decide) rfl]

/-- Hosts are constructed as the lookup by MAC constructs them, the texts of the errors aside. -/
theorem construct_namedHost (data : Json) :
    (namedHost.construct data).toOption.map NamedHost.ofInstance =
      (NamedHost.ofDict data).toOption := by
  cases data with
  | dict kvs =>
    have hfields : namedHost.fieldNames = NamedHost.fields := rfl
    rw [DataClass.construct, NamedHost.ofDict, hfields]
    generalize (kvs.find? fun e => decide (e.1 ∉ NamedHost.fields)) = unknown
    rcases unknown with _ | e
    · dsimp only
      rcases hmade : collect (fun key => Value.lookup key kvs <|> namedHost.defaultOf key)
        ⟨.typeError, namedHost.name ++ ".__init__() missing required arguments"⟩ NamedHost.fields
        with e | made
      · have hlacks := mt collect_namedHost_isOk_iff.mpr (by rw [hmade]; simp)
        rcases hname : Value.lookup "name" kvs with _ | name
        · rcases Value.lookup "mac" kvs with _ | mac <;> rfl
        · rcases hmac : Value.lookup "mac" kvs with _ | mac
          · rfl
          · simp [hname, hmac] at hlacks
      · obtain ⟨hname, hmac⟩ := collect_namedHost_isOk_iff.mp ⟨made, hmade⟩
        obtain ⟨name, hname⟩ := Option.isSome_iff_exists.mp hname
        obtain ⟨mac, hmac⟩ := Option.isSome_iff_exists.mp hmac
        rw [hname, hmac]
        exact congrArg some (ofInstance_of_collect hmade hname hmac)
    · rfl
  | _ => rfl

namespace DataClass

variable {cls : DataClass} {obj obj' : Instance} {updates : List (String × Json)} {key : String}

/-- Keys that are not data: the class, the weak references and the dictionary of an instance. -/
def Refuses (updates : List (String × Json)) : Prop :=
  ∃ e ∈ updates, e.1 = "__class__" ∨ e.1 = "__weakref__" ∨ e.1 = "__dict__" ∧ e.2.isDict = false

theorem setattr_of_plain {v : Json} (hclass : key ≠ "__class__") (hweak : key ≠ "__weakref__")
    (hdict : key ≠ "__dict__") : setattr obj key v = .ok (obj.set key v) := by
  rw [setattr.eq_def, if_neg hclass, if_neg hweak, if_neg hdict]

theorem hasattr_of_inherited (h : key ∈ inheritedAttrs) : cls.hasattr obj key = true := by
  rw [hasattr, decide_eq_true h, Bool.or_true]

theorem hasattr_of_isSome (h : (obj.get? key).isSome) : cls.hasattr obj key = true := by
  obtain ⟨v, hv⟩ := Option.isSome_iff_exists.mp h
  rw [hasattr, getattr, hv]
  rfl

/-- An assignment to an attribute that is there leaves the attributes there are. -/
theorem hasattr_set {v : Json} (h : cls.hasattr obj key = true) (key' : String) :
    cls.hasattr (obj.set key v) key' = cls.hasattr obj key' := by
  by_cases hkey : key' = key
  · subst hkey
    rw [h, hasattr, getattr, Dict.get?_set_self]
    rfl
  · rw [hasattr, hasattr, getattr, getattr, Dict.get?_set_of_ne hkey]

theorem assign_append (updates' : List (String × Json)) :
    cls.assign obj (updates ++ updates') =
      (cls.assign obj updates >>= fun obj' => cls.assign obj' updates') := by
  induction updates generalizing obj with
  | nil => rfl
  | cons e updates ih =>
    obtain ⟨key, v⟩ := e
    rw [List.cons_append, assign, assign]
    split_ifs with h
    · rcases setattr obj key v with e | obj'
      · rfl
      · exact ih
    · exact ih

/-- The value that updates give a key. -/
def valueIn (updates : List (String × Json)) (key : String) : Option Json :=
  (updates.find? fun e => e.1 = key).map Prod.snd

theorem valueIn_cons (e : String × Json) :
    valueIn (e :: updates) key = if e.1 = key then some e.2 else valueIn updates key := by
  rw [valueIn, List.find?_cons]
  by_cases h : e.1 = key <;> simp [h, valueIn]

theorem valueIn_eq_none (h : key ∉ updates.map Prod.fst) : valueIn updates key = none := by
  rw [valueIn, Option.map_eq_none_iff, List.find?_eq_none]
  intro e he
  simpa using fun hkey => h (List.mem_map.mpr ⟨e, he, hkey⟩)

theorem refuses_cons {e : String × Json} :
    Refuses (e :: updates) ↔
      (e.1 = "__class__" ∨ e.1 = "__weakref__" ∨ e.1 = "__dict__" ∧ e.2.isDict = false) ∨
        Refuses updates :=
  List.exists_mem_cons_iff ..

theorem refuses_append {updates' : List (String × Json)} :
    Refuses (updates ++ updates') ↔ Refuses updates ∨ Refuses updates' := by
  simp only [Refuses, List.mem_append, or_and_right, exists_or]

/-- What an attribute is after the updates: the attributes that are there take them. -/
def assigned (cls : DataClass) (obj : Instance) (updates : List (String × Json)) (key : String) :
    Option Json :=
  if cls.hasattr obj key then valueIn updates key <|> obj.get? key else none

theorem assigned_nil : cls.assigned obj [] key = obj.get? key := by
  rw [assigned]
  split_ifs with h
  · rfl
  · rw [hasattr, Bool.or_eq_true, not_or, getattr] at h
    rcases hget : obj.get? key with _ | v
    · rfl
    · rw [hget] at h
      exact absurd rfl h.1

/-- An attribute that is there takes the value of its only update. -/
theorem assigned_set {v : Json} (hhas : cls.hasattr obj key = true)
    (hkey : key ∉ updates.map Prod.fst) (key' : String) :
    cls.assigned (obj.set key v) updates key' = cls.assigned obj ((key, v) :: updates) key' := by
  rw [assigned, assigned, hasattr_set hhas, valueIn_cons]
  by_cases heq : key = key'
  · subst heq
    rw [valueIn_eq_none hkey, Dict.get?_set_self, if_pos rfl]
    rfl
  · rw [if_neg heq, Dict.get?_set_of_ne (Ne.symm heq)]

/-- An update of what is no attribute does nothing. -/
theorem assigned_skip {v : Json} (hhas : ¬ cls.hasattr obj key = true) (key' : String) :
    cls.assigned obj updates key' = cls.assigned obj ((key, v) :: updates) key' := by
  rw [assigned, assigned, valueIn_cons]
  by_cases heq : key = key'
  · subst heq
    rw [if_neg hhas, if_neg hhas]
  · rw [if_neg heq]

/-- **Assignments without `__dict__`** are refused, or give every attribute that is there its
update. -/
theorem assign_of_no_dict (cls : DataClass) (obj : Instance)
    (hnodup : (updates.map Prod.fst).Nodup)
    (hdict : "__dict__" ∉ updates.map Prod.fst) :
    (Refuses updates → ∃ e, cls.assign obj updates = .error e) ∧
    (¬ Refuses updates → ∃ obj', cls.assign obj updates = .ok obj' ∧
      ∀ key, obj'.get? key = cls.assigned obj updates key) := by
  induction updates generalizing obj with
  | nil => exact ⟨fun ⟨e, he, _⟩ => absurd he List.not_mem_nil, fun _ => ⟨obj, rfl, fun key =>
      assigned_nil.symm⟩⟩
  | cons e updates ih =>
    obtain ⟨key, v⟩ := e
    rw [List.map_cons, List.nodup_cons] at hnodup
    rw [List.map_cons, List.mem_cons, not_or] at hdict
    have hkey : key ≠ "__dict__" := fun h => hdict.1 h.symm
    rw [assign, refuses_cons]
    split_ifs with hhas
    · by_cases hclass : key = "__class__"
      · subst hclass
        exact ⟨fun _ => ⟨_, rfl⟩, fun h => absurd (.inl (.inl rfl)) h⟩
      · by_cases hweak : key = "__weakref__"
        · subst hweak
          exact ⟨fun _ => ⟨_, rfl⟩, fun h => absurd (.inl (.inr (.inl rfl))) h⟩
        · rw [setattr_of_plain hclass hweak hkey, ok_bind]
          obtain ⟨hrefused, hok⟩ := ih (obj.set key v) hnodup.2 hdict.2
          refine ⟨fun h => hrefused (h.resolve_left (by simp [hclass, hweak, hkey])), fun h => ?_⟩
          obtain ⟨obj', hobj', hget⟩ := hok fun hr => h (.inr hr)
          exact ⟨obj', hobj', fun key' => (hget key').trans (assigned_set hhas hnodup.1 key')⟩
    · -- the key is not an attribute, so it is none of those that are refused
      have hplain : ∀ inherited ∈ inheritedAttrs, key ≠ inherited := by
        rintro inherited hmem rfl
        exact hhas (hasattr_of_inherited hmem)
      obtain ⟨hrefused, hok⟩ := ih obj hnodup.2 hdict.2
      refine ⟨fun h => hrefused (h.resolve_left ?_), fun h => ?_⟩
      · simp [hplain "__class__" (by decide), hplain "__weakref__" (by decide), hkey]
      · obtain ⟨obj', hobj', hget⟩ := hok fun hr => h (.inr hr)
        exact ⟨obj', hobj', fun key' => (hget key').trans (assigned_skip hhas key')⟩

/-- Where the assignments that count start, and which they are: an assignment of `__dict__` undoes
those before it. -/
def effective (obj : Instance) (updates : List (String × Json)) :
    Instance × List (String × Json) :=
  match updates.dropWhile fun e => e.1 ≠ "__dict__" with
  | (_, .dict kvs) :: rest => (Dict.ofEntries kvs, rest)
  | _ => (obj, updates)

theorem dropWhile_append_of_no_dict (hdict : "__dict__" ∉ updates.map Prod.fst)
    (rest : List (String × Json)) :
    (updates ++ rest).dropWhile (fun e => e.1 ≠ "__dict__") =
      rest.dropWhile fun e => e.1 ≠ "__dict__" :=
  List.dropWhile_append_of_pos fun e he =>
    decide_eq_true fun heq : e.1 = "__dict__" => hdict (List.mem_map.mpr ⟨e, he, heq⟩)

theorem effective_of_no_dict (hdict : "__dict__" ∉ updates.map Prod.fst) :
    effective obj updates = (obj, updates) := by
  have hdrop := dropWhile_append_of_no_dict hdict []
  rw [List.append_nil, List.dropWhile_nil] at hdrop
  rw [effective, hdrop]

theorem effective_append_dict (hdict : "__dict__" ∉ updates.map Prod.fst)
    (kvs rest : List (String × Json)) :
    effective obj (updates ++ ("__dict__", .dict kvs) :: rest) = (Dict.ofEntries kvs, rest) := by
  rw [effective, dropWhile_append_of_no_dict hdict, List.dropWhile_cons_of_neg (by simp)]

/-- **The loop of an update** is refused, or gives every attribute that is there its update. -/
theorem assign_spec (cls : DataClass) (obj : Instance)
    (hnodup : (updates.map Prod.fst).Nodup) :
    (Refuses updates → ∃ e, cls.assign obj updates = .error e) ∧
    (¬ Refuses updates → ∃ obj', cls.assign obj updates = .ok obj' ∧ ∀ key,
      obj'.get? key =
        cls.assigned (effective obj updates).1 (effective obj updates).2 key) := by
  by_cases hdict : "__dict__" ∈ updates.map Prod.fst
  · obtain ⟨pre, v, post, rfl, hpre⟩ : ∃ pre v post,
        updates = pre ++ ("__dict__", v) :: post ∧ "__dict__" ∉ pre.map Prod.fst := by
      obtain ⟨⟨_, v⟩, he, rfl⟩ := List.mem_map.mp hdict
      obtain ⟨pre, post, rfl⟩ := List.append_of_mem he
      refine ⟨pre, v, post, rfl, fun hmem => ?_⟩
      rw [List.map_append, List.nodup_append'] at hnodup
      exact hnodup.2.2 hmem (by simp)
    rw [List.map_append, List.nodup_append', List.map_cons, List.nodup_cons] at hnodup
    obtain ⟨hpreNodup, ⟨hpost, hpostNodup⟩, -⟩ := hnodup
    have hsplit : Refuses (pre ++ ("__dict__", v) :: post) ↔
        Refuses pre ∨ v.isDict = false ∨ Refuses post := by
      rw [refuses_append, refuses_cons]
      simp
    obtain ⟨hrefused, hok⟩ := cls.assign_of_no_dict obj hpreNodup hpre
    rw [assign_append, hsplit]
    by_cases hpreRefuses : Refuses pre
    · obtain ⟨e, he⟩ := hrefused hpreRefuses
      rw [he]
      exact ⟨fun _ => ⟨e, rfl⟩, fun h => absurd (.inl hpreRefuses) h⟩
    · obtain ⟨obj', hobj', -⟩ := hok hpreRefuses
      rw [hobj', ok_bind, assign, if_pos (hasattr_of_inherited (by decide))]
      cases v with
      | dict kvs =>
        have hrest := cls.assign_of_no_dict (Dict.ofEntries kvs) hpostNodup hpost
        rw [effective_append_dict hpre]
        simpa [hpreRefuses, Value.isDict, setattr.eq_def] using hrest
      | _ => exact ⟨fun _ => ⟨_, rfl⟩, fun h => absurd (.inr (.inl rfl)) h⟩
  · rw [effective_of_no_dict hdict]
    exact cls.assign_of_no_dict obj hnodup hdict

end DataClass

/-! ### What is written and read back -/

namespace NamedObjectStore

open DataClass

variable {json : JsonText} {py : StrLib} {store : NamedObjectStore json} {kind : ObjectKind}
  {obj : Instance} {name : String} {data : Json}

@[simp]
theorem files_setFiles (files : Dict String json.Text) :
    (store.setFiles kind files).files kind = files := by
  cases kind <;> rfl

theorem files_setFiles_of_ne {kind' : ObjectKind} (h : kind' ≠ kind)
    (files : Dict String json.Text) :
    (store.setFiles kind files).files kind' = store.files kind' := by
  cases kind <;> cases kind' <;> first | rfl | exact absurd rfl h

theorem objectFile_inj {name name' : String} (h : objectFile name = objectFile name') :
    name = name' := by
  rw [objectFile, objectFile, ← String.toList_inj, String.toList_append, String.toList_append] at h
  exact String.toList_inj.mp (List.append_cancel_right h)

theorem validateNameValue_eq_ok_iff {v : Json} :
    validateNameValue py v = .ok name ↔ v = .str name ∧ validateName py name = .ok () := by
  cases v with
  | str s =>
    rw [validateNameValue, bind_eq_ok_iff, Value.str.injEq]
    constructor
    · rintro ⟨⟨⟩, hvalid, h⟩
      obtain rfl := Except.ok.inj h
      exact ⟨rfl, hvalid⟩
    · rintro ⟨rfl, hvalid⟩
      exact ⟨(), hvalid, rfl⟩
  | _ =>
    refine iff_of_false (fun h => ?_) (fun h => by cases h.1)
    rw [validateNameValue] at h
    · split_ifs at h
    · simp

/-- What `asdict` returns: the fields, or nothing when the instance has an empty table of them. -/
theorem asdict_eq_ok_iff {cls : DataClass} :
    cls.asdict obj = .ok data ↔
      obj.get? "__dataclass_fields__" = some (.dict []) ∧ data = .dict [] ∨
      obj.get? "__dataclass_fields__" = none ∧ ∃ entries, data = .dict entries ∧
        entries.map Prod.fst = cls.fieldNames ∧ ∀ e ∈ entries, cls.getattr obj e.1 = some e.2 := by
  rw [asdict, tableOf]
  rcases htable : obj.get? "__dataclass_fields__" with _ | table
  · rw [ok_bind, bind_eq_ok_iff]
    simp [collect_eq_ok_iff, eq_comm (a := data), and_comm]
  · rcases table with _ | _ | _ | _ | _ | _ | _ | (_ | _) <;>
      simp [collect, eq_comm (a := data)]

theorem asdict_isOk_iff {cls : DataClass} :
    (∃ data, cls.asdict obj = .ok data) ↔
      obj.get? "__dataclass_fields__" = some (.dict []) ∨
      obj.get? "__dataclass_fields__" = none ∧
        ∀ key ∈ cls.fieldNames, (cls.getattr obj key).isSome := by
  constructor
  · rintro ⟨data, h⟩
    rcases asdict_eq_ok_iff.mp h with ⟨hempty, -⟩ | ⟨hnone, entries, -, hfields, hvalues⟩
    · exact .inl hempty
    · refine .inr ⟨hnone, fun key hkey => ?_⟩
      rw [← hfields] at hkey
      obtain ⟨e, he, rfl⟩ := List.mem_map.mp hkey
      exact Option.isSome_iff_exists.mpr ⟨e.2, hvalues e he⟩
  · rintro (hempty | ⟨hnone, hfields⟩)
    · exact ⟨.dict [], asdict_eq_ok_iff.mpr (.inl ⟨hempty, rfl⟩)⟩
    · have hcollect : ∃ entries, collect (cls.getattr obj) ⟨.attributeError, ""⟩ cls.fieldNames =
          .ok entries := collect_isOk_iff.mpr hfields
      obtain ⟨entries, hentries⟩ := hcollect
      obtain ⟨hkeys, hvalues⟩ := collect_eq_ok_iff.mp hentries
      exact ⟨_, asdict_eq_ok_iff.mpr (.inr ⟨hnone, entries, rfl, hkeys, hvalues⟩)⟩

/-- When `add` stores an object, and as what. -/
theorem fileOf_eq_ok_iff :
    fileOf py kind obj = .ok (name, data) ↔
      obj.get? "name" = some (.str name) ∧ validateName py name = .ok () ∧
        kind.cls.asdict obj = .ok data := by
  have hname : kind.cls.getattr obj "name" = obj.get? "name" := by
    rw [getattr, classAttr_name]
    rcases obj.get? "name" with _ | v <;> rfl
  rw [fileOf, hname]
  rcases obj.get? "name" with _ | v
  · simp
  · dsimp only
    rw [bind_eq_ok_iff]
    simp only [bind_eq_ok_iff, pure_eq_ok, Except.ok.injEq, Prod.mk.injEq,
      validateNameValue_eq_ok_iff, Option.some.injEq]
    constructor
    · rintro ⟨name', ⟨rfl, hvalid⟩, data', hdata, rfl, rfl⟩
      exact ⟨rfl, hvalid, hdata⟩
    · rintro ⟨rfl, hvalid, hdata⟩
      exact ⟨name, ⟨rfl, hvalid⟩, data, hdata, rfl, rfl⟩

/-- A dict of all fields makes an instance of them. -/
theorem construct_of_fieldNames {entries : List (String × Json)}
    (h : entries.map Prod.fst = kind.cls.fieldNames) :
    ∃ obj, kind.cls.construct (.dict entries) = .ok obj ∧
      ∀ key, obj.get? key = Value.lookup key entries := by
  have hnodup : (entries.map Prod.fst).Nodup := h ▸ nodup_fieldNames kind
  have hmem : ∀ key, key ∈ kind.cls.fieldNames ↔ (Value.lookup key entries).isSome := by
    intro key
    rw [← h, isSome_lookup_iff hnodup]
  have hknown : (entries.find? fun e => e.1 ∉ kind.cls.fieldNames) = none := by
    rw [List.find?_eq_none]
    intro e he
    simpa [← h] using ⟨e.2, he⟩
  have hvalues : ∀ key ∈ kind.cls.fieldNames,
      (Value.lookup key entries <|> kind.cls.defaultOf key).isSome := by
    intro key hkey
    obtain ⟨v, hv⟩ := Option.isSome_iff_exists.mp ((hmem key).mp hkey)
    rw [hv]
    rfl
  obtain ⟨made, hmade⟩ := collect_isOk_iff.mpr hvalues
  refine ⟨Dict.ofEntries made, ?_, fun key => ?_⟩
  · rw [construct, hknown]
    dsimp only
    rw [hmade]
    rfl
  · rw [get?_ofEntries_collect (nodup_fieldNames kind) hmade]
    split_ifs with hkey
    · obtain ⟨v, hv⟩ := Option.isSome_iff_exists.mp ((hmem key).mp hkey)
      rw [hv]
      rfl
    · rw [hmem, Bool.not_eq_true, Option.isSome_eq_false_iff, Option.isNone_iff_eq_none] at hkey
      exact hkey.symm

/-- An empty dict makes no instance. -/
theorem construct_nil (kind : ObjectKind) : ∃ e, kind.cls.construct (.dict []) = .error e := by
  cases kind <;> exact ⟨_, rfl⟩

/-- A file in the store: what was written for an object of its name, or nothing for an instance
with an empty table of fields. -/
def Kept (kind : ObjectKind) (file : String) (text : json.Text) : Prop :=
  ∃ name entries, file = objectFile name ∧ json.loads text = some (.dict entries) ∧
    (entries = [] ∨ entries.map Prod.fst = kind.cls.fieldNames ∧
      Value.lookup "name" entries = some (.str name))

/-- What `add` writes is kept. -/
theorem kept_of_fileOf (h : fileOf py kind obj = .ok (name, data)) :
    Kept kind (objectFile name) (json.dumps (some 2) data) := by
  obtain ⟨hname, -, hdata⟩ := fileOf_eq_ok_iff.mp h
  rcases asdict_eq_ok_iff.mp hdata with ⟨-, rfl⟩ | ⟨-, entries, rfl, hfields, hvalues⟩
  · exact ⟨name, [], rfl, json.loads_dumps _ _, .inl rfl⟩
  · refine ⟨name, entries, rfl, json.loads_dumps _ _, .inr ⟨hfields, ?_⟩⟩
    obtain ⟨e, he, hkey⟩ := List.mem_map.mp (hfields ▸ name_mem_fieldNames kind)
    have hvalue := hvalues e he
    have hfound := lookup_of_mem (hfields ▸ nodup_fieldNames kind) he
    rw [hkey] at hvalue hfound
    rw [getattr, hname] at hvalue
    exact hfound.trans hvalue.symm

/-! ### Reachable stores -/

/-- A call that changes the store; `add` is given an instance that the constructor made. -/
inductive Op
  | add (kind : ObjectKind) (data : List (String × Json))
  | delete (kind : ObjectKind) (name : String)
  | update (kind : ObjectKind) (name : String) (updates : Dict String Json)

/-- One call. -/
def step (py : StrLib) (store : NamedObjectStore json) : Op → Unit × NamedObjectStore json
  | .add kind data =>
    match kind.cls.construct (.dict data) with
    | .error _ => ((), store)
    | .ok obj => ((), (store.add py kind obj).2)
  | .delete kind name => ((), (store.delete py kind name).2)
  | .update kind name updates => ((), (store.update py kind name updates).2)

/-- Every file of the store is kept. -/
def WellKept (store : NamedObjectStore json) : Prop :=
  ∀ kind file text, (store.files kind).get? file = some text → Kept kind file text

theorem WellKept.add (h : store.WellKept) (kind : ObjectKind) (obj : Instance) :
    (store.add py kind obj).2.WellKept := by
  rw [NamedObjectStore.add]
  rcases hfile : fileOf py kind obj with e | ⟨name, data⟩
  · exact h
  · intro kind' file text hget
    by_cases hkind : kind' = kind
    · subst hkind
      dsimp only at hget
      rw [files_setFiles, Dict.get?_set] at hget
      split_ifs at hget with heq
      · obtain rfl := Option.some.inj hget
        exact heq ▸ kept_of_fileOf hfile
      · exact h kind' file text hget
    · dsimp only at hget
      rw [files_setFiles_of_ne hkind] at hget
      exact h kind' file text hget

theorem WellKept.delete (h : store.WellKept) (kind : ObjectKind) (name : String) :
    (store.delete py kind name).2.WellKept := by
  rw [NamedObjectStore.delete]
  rcases validateName py name with e | ⟨⟩
  · exact h
  · dsimp only
    split_ifs
    · intro kind' file text hget
      by_cases hkind : kind' = kind
      · subst hkind
        rw [files_setFiles, Dict.get?_del] at hget
        split_ifs at hget
        exact h kind' file text hget
      · rw [files_setFiles_of_ne hkind] at hget
        exact h kind' file text hget
    · exact h

theorem WellKept.update (h : store.WellKept) (kind : ObjectKind) (name : String)
    (updates : Dict String Json) : (store.update py kind name updates).2.WellKept := by
  rw [NamedObjectStore.update]
  rcases store.get py kind name with e | _ | obj
  · exact h
  · exact h
  · dsimp only
    rcases kind.cls.assign obj updates.entries with e | obj'
    · exact h
    · exact h.add kind obj'

/-- **Reachable stores are well kept.** -/
theorem wellKept_run (ops : List Op) :
    (run (step py) ({} : NamedObjectStore json) ops).WellKept := by
  refine run_invariant (fun store op (_ : True) h => ?_) (fun kind file text hget => ?_)
    fun _ _ => trivial
  · cases op with
    | add kind data =>
      rw [step]
      rcases kind.cls.construct (.dict data) with e | obj
      · exact h
      · exact h.add kind obj
    | delete kind name => exact h.delete kind name
    | update kind name updates => exact h.update kind name updates
  · cases kind <;> cases hget

/-! ### What an update does -/

/-- The second store is the first one with the entry of a name replaced by an object, which is kept
under its own name. -/
structure Replaces (py : StrLib) (kind : ObjectKind) (name : String) (obj : Instance)
    (store store' : NamedObjectStore json) : Prop where
  /-- The object is found under its own name, and nothing under the old one. -/
  own : ∃ newName, obj.get? "name" = some (.str newName) ∧
    (∃ found, store'.get py kind newName = .ok (some found) ∧
      ∀ key ∈ kind.cls.fieldNames, kind.cls.getattr found key = kind.cls.getattr obj key) ∧
    (newName ≠ name → (store'.files kind).get? (objectFile name) = none)
  /-- No other object of the kind is changed or lost. -/
  others : ∀ file text, file ≠ objectFile name → (store.files kind).get? file = some text →
    (store'.files kind).get? file = some text
  size : (store'.files kind).size = (store.files kind).size
  /-- The other kind is untouched. -/
  otherKind : ∀ kind', kind' ≠ kind → store'.files kind' = store.files kind'

/-- What is wanted of an update: where it returns an object, the object replaces the entry, and
where it raises, nothing changes. -/
def UpdateSound (py : StrLib) (store : NamedObjectStore json) (kind : ObjectKind) (name : String)
    (updates : Dict String Json) : Prop :=
  (∀ obj, (store.update py kind name updates).1 = .ok (some obj) →
    Replaces py kind name obj store (store.update py kind name updates).2) ∧
  ∀ e, (store.update py kind name updates).1 = .error e →
    (store.update py kind name updates).2 = store

/-- What an attribute of an object is after updates. -/
def updated (kind : ObjectKind) (obj : Instance) (updates : Dict String Json) (key : String) :
    Option Json :=
  kind.cls.assigned (effective obj updates.entries).1 (effective obj updates.entries).2 key

/-- No update is refused, and the updates either give the object another name that is valid, or
give it an empty table of fields. -/
def Misplaces (py : StrLib) (kind : ObjectKind) (name : String) (obj : Instance)
    (updates : Dict String Json) : Prop :=
  ¬ Refuses updates.entries ∧ ∃ newName, updated kind obj updates "name" = some (.str newName) ∧
    validateName py newName = .ok () ∧
    (updated kind obj updates "__dataclass_fields__" = some (.dict []) ∨
      updated kind obj updates "__dataclass_fields__" = none ∧ newName ≠ name ∧
        ∀ key ∈ kind.cls.fieldNames,
          (updated kind obj updates key <|> kind.cls.classAttr key).isSome)

variable {updates : Dict String Json} {newName : String}

theorem get_eq_ok_some (hvalid : validateName py name = .ok ()) {text : json.Text}
    (hfile : (store.files kind).get? (objectFile name) = some text)
    (hloads : json.loads text = some data) :
    store.get py kind name = (kind.cls.construct data).map some := by
  rw [get, hvalid, ok_bind, hfile]
  dsimp only
  rw [hloads]
  dsimp only
  rcases kind.cls.construct data with e | obj <;> rfl

/-- An update that keeps the name replaces the entry. -/
theorem replaces_of_add (h : fileOf py kind obj = .ok (name, data))
    (htable : obj.get? "__dataclass_fields__" = none)
    (hexists : (store.files kind).contains (objectFile name) = true) :
    Replaces py kind name obj store (store.add py kind obj).2 := by
  obtain ⟨hname, hvalid, hdata⟩ := fileOf_eq_ok_iff.mp h
  obtain ⟨entries, rfl, hfields, hvalues⟩ : ∃ entries, data = .dict entries ∧
      entries.map Prod.fst = kind.cls.fieldNames ∧
        ∀ e ∈ entries, kind.cls.getattr obj e.1 = some e.2 := by
    rcases asdict_eq_ok_iff.mp hdata with ⟨hempty, -⟩ | ⟨-, hentries⟩
    · cases htable.symm.trans hempty
    · exact hentries
  have hstore : (store.add py kind obj).2 = store.setFiles kind ((store.files kind).set
      (objectFile name) (json.dumps (some 2) (.dict entries))) := by
    rw [NamedObjectStore.add, h]
  obtain ⟨found, hfound, hget⟩ := construct_of_fieldNames hfields
  rw [hstore]
  refine ⟨⟨name, hname, ⟨found, ?_, fun key hkey => ?_⟩, fun hne => absurd rfl hne⟩,
    fun file text hne hfile => ?_, ?_, fun kind' hkind => files_setFiles_of_ne hkind _⟩
  · rw [get_eq_ok_some hvalid (by rw [files_setFiles, Dict.get?_set_self]) (json.loads_dumps _ _),
      hfound]
    rfl
  · rw [← hfields] at hkey
    obtain ⟨e, he, rfl⟩ := List.mem_map.mp hkey
    rw [hvalues e he, getattr, hget, lookup_of_mem (hfields ▸ nodup_fieldNames kind) he]
    rfl
  · rwa [files_setFiles, Dict.get?_set_of_ne hne]
  · rw [files_setFiles, Dict.size_set, if_pos]
    rw [Dict.contains_eq_isSome, Option.isSome_iff_exists] at hexists
    exact Dict.mem_keys_iff.mpr hexists

/-- An instance with an empty table of fields is not found again. -/
theorem not_replaces_of_table (h : fileOf py kind obj = .ok (newName, .dict [])) :
    ¬ Replaces py kind name obj store (store.add py kind obj).2 := by
  rintro ⟨⟨ownName, hown, ⟨found, hfound, -⟩, -⟩, -⟩
  obtain ⟨hname, hvalid, -⟩ := fileOf_eq_ok_iff.mp h
  obtain rfl : newName = ownName := by
    rw [hname, Option.some.injEq, Value.str.injEq] at hown
    exact hown
  obtain ⟨e, he⟩ := construct_nil kind
  rw [NamedObjectStore.add, h, get_eq_ok_some hvalid (by rw [files_setFiles, Dict.get?_set_self])
    (json.loads_dumps _ _), he] at hfound
  cases hfound

/-- Under another name, the old entry stays. -/
theorem not_replaces_of_ne (h : fileOf py kind obj = .ok (newName, data)) (hne : newName ≠ name)
    (hexists : (store.files kind).contains (objectFile name) = true) :
    ¬ Replaces py kind name obj store (store.add py kind obj).2 := by
  rintro ⟨⟨ownName, hown, -, hgone⟩, -⟩
  obtain ⟨hname, -, -⟩ := fileOf_eq_ok_iff.mp h
  obtain rfl : newName = ownName := by
    rw [hname, Option.some.injEq, Value.str.injEq] at hown
    exact hown
  have hfile : objectFile name ≠ objectFile newName := fun heq => hne (objectFile_inj heq).symm
  have hnone := hgone hne
  rw [NamedObjectStore.add, h, files_setFiles, Dict.get?_set_of_ne hfile] at hnone
  rw [Dict.contains_eq_isSome, hnone] at hexists
  cases hexists

theorem update_of_get_error {e : PyExc} (h : store.get py kind name = .error e) :
    store.update py kind name updates = (.error e, store) := by
  rw [NamedObjectStore.update, h]

/-- A call that raises before it writes. -/
theorem updateSound_of_error {e : PyExc}
    (h : store.update py kind name updates = (.error e, store)) :
    UpdateSound py store kind name updates := by
  rw [UpdateSound, h]
  exact ⟨fun obj hobj => absurd hobj (by simp), fun _ _ => rfl⟩

/-- Once the attributes are assigned, an update adds the object. -/
theorem update_of_assign {obj' : Instance} (hget : store.get py kind name = .ok (some obj))
    (hassign : kind.cls.assign obj updates.entries = .ok obj') :
    store.update py kind name updates =
      ((store.add py kind obj').1.map fun _ => some obj', (store.add py kind obj').2) := by
  rw [NamedObjectStore.update, hget]
  dsimp only
  rw [hassign]

theorem updateSound_of_fileOf_error {obj' : Instance} {e : PyExc}
    (hget : store.get py kind name = .ok (some obj))
    (hassign : kind.cls.assign obj updates.entries = .ok obj')
    (hfile : fileOf py kind obj' = .error e) : UpdateSound py store kind name updates := by
  have hraises : store.update py kind name updates = (.error e, store) := by
    rw [update_of_assign hget hassign, NamedObjectStore.add, hfile]
    rfl
  exact updateSound_of_error hraises

theorem updateSound_iff_replaces {obj' : Instance}
    (hget : store.get py kind name = .ok (some obj))
    (hassign : kind.cls.assign obj updates.entries = .ok obj')
    (hfile : fileOf py kind obj' = .ok (newName, data)) :
    UpdateSound py store kind name updates ↔
      Replaces py kind name obj' store (store.add py kind obj').2 := by
  have hreturns : (store.update py kind name updates).1 = .ok (some obj') := by
    rw [update_of_assign hget hassign, NamedObjectStore.add, hfile]
    rfl
  have hstore : (store.update py kind name updates).2 = (store.add py kind obj').2 := by
    rw [update_of_assign hget hassign]
  rw [UpdateSound, hreturns, hstore]
  constructor
  · exact fun h => h.1 obj' rfl
  · refine fun h => ⟨fun obj'' heq => ?_, fun e he => by cases he⟩
    obtain rfl := Option.some.inj (Except.ok.inj heq)
    exact h

/-- **An update of a stored object**, as it was read, is sound unless it misplaces the object. -/
theorem updateSound_iff_of_get (hget : store.get py kind name = .ok (some obj))
    (hexists : (store.files kind).contains (objectFile name) = true) :
    UpdateSound py store kind name updates ↔ ¬ Misplaces py kind name obj updates := by
  obtain ⟨hrefused, hok⟩ := kind.cls.assign_spec obj updates.nodup
  by_cases hrefuses : Refuses updates.entries
  · obtain ⟨e, he⟩ := hrefused hrefuses
    refine iff_of_true (updateSound_of_error (e := e) ?_) fun hmis => hmis.1 hrefuses
    rw [NamedObjectStore.update, hget]
    dsimp only
    rw [he]
  obtain ⟨obj', hassign, hattrs⟩ := hok hrefuses
  change ∀ key, obj'.get? key = updated kind obj updates key at hattrs
  rw [Misplaces, and_iff_right hrefuses, ← hattrs, ← hattrs]
  rcases hfile : fileOf py kind obj' with e | ⟨newName, data⟩
  · -- `add` raises: the name is not valid, or a field is missing
    refine iff_of_true (updateSound_of_fileOf_error hget hassign hfile) ?_
    rintro ⟨newName, hname, hvalid, htable⟩
    have hdata : ∃ data, kind.cls.asdict obj' = .ok data := by
      refine asdict_isOk_iff.mpr (htable.imp_right fun ⟨hnone, _, hfields⟩ => ⟨hnone, ?_⟩)
      intro key hkey
      rw [getattr, hattrs]
      exact hfields key hkey
    obtain ⟨data, hdata⟩ := hdata
    cases hfile.symm.trans (fileOf_eq_ok_iff.mpr ⟨hname, hvalid, hdata⟩)
  · obtain ⟨hname, hvalid, hdata⟩ := fileOf_eq_ok_iff.mp hfile
    rw [updateSound_iff_replaces hget hassign hfile, hname]
    rcases asdict_eq_ok_iff.mp hdata with ⟨hempty, rfl⟩ | ⟨hnone, entries, rfl, hfields, hvalues⟩
    · exact iff_of_false (not_replaces_of_table hfile)
        fun h => h ⟨newName, rfl, hvalid, .inl hempty⟩
    · by_cases hsame : newName = name
      · subst hsame
        refine iff_of_true (replaces_of_add hfile hnone hexists) ?_
        rintro ⟨newName', heq, -, hempty | ⟨-, hne, -⟩⟩
        · cases hnone.symm.trans hempty
        · exact hne (Value.str.inj (Option.some.inj heq)).symm
      · refine iff_of_false (not_replaces_of_ne hfile hsame hexists) fun h => h
          ⟨newName, rfl, hvalid, .inr ⟨hnone, hsame, fun key hkey => ?_⟩⟩
        rw [← hfields] at hkey
        obtain ⟨e, he, rfl⟩ := List.mem_map.mp hkey
        rw [← hattrs]
        exact Option.isSome_iff_exists.mpr ⟨e.2, hvalues e he⟩

/-- What is read from a well kept store: an object of that name, with all its fields and nothing
else. -/
theorem attrs_of_get (hkept : store.WellKept) (hget : store.get py kind name = .ok (some obj)) :
    obj.get? "name" = some (.str name) ∧
      ∀ key, (obj.get? key).isSome ↔ key ∈ kind.cls.fieldNames := by
  rw [NamedObjectStore.get, bind_eq_ok_iff] at hget
  obtain ⟨⟨⟩, -, hget⟩ := hget
  rcases hfile : (store.files kind).get? (objectFile name) with _ | text
  · rw [hfile] at hget
    cases hget
  · obtain ⟨name', entries, heq, hloads, hentries⟩ := hkept kind _ text hfile
    obtain rfl := objectFile_inj heq
    rw [hfile] at hget
    dsimp only at hget
    rw [hloads] at hget
    obtain ⟨made, hmade, h⟩ := bind_eq_ok_iff.mp hget
    obtain rfl := Option.some.inj (Except.ok.inj h)
    rcases hentries with rfl | ⟨hfields, hname⟩
    · obtain ⟨e, he⟩ := construct_nil kind
      cases hmade.symm.trans he
    · obtain ⟨obj, hobj, hattrs⟩ := construct_of_fieldNames hfields
      obtain rfl := Except.ok.inj (hmade.symm.trans hobj)
      refine ⟨(hattrs "name").trans hname, fun key => ?_⟩
      rw [hattrs, isSome_lookup_iff (hfields ▸ nodup_fieldNames kind), hfields]

section

variable (hplain : ∀ key ∈ ["__class__", "__dataclass_fields__", "__dict__", "__weakref__"],
  updates.get? key = none)

include hplain

theorem ne_of_plain
    (hkey : key ∈ ["__class__", "__dataclass_fields__", "__dict__", "__weakref__"]) :
    ∀ e ∈ updates.entries, e.1 ≠ key :=
  fun e he heq => Dict.get?_eq_none_iff.mp (hplain key hkey) e.2 (heq ▸ he)

theorem not_refuses_of_plain : ¬ Refuses updates.entries := by
  rintro ⟨e, he, h | h | ⟨h, -⟩⟩
  · exact ne_of_plain hplain (by decide) e he h
  · exact ne_of_plain hplain (by decide) e he h
  · exact ne_of_plain hplain (by decide) e he h

theorem updated_of_plain (hhas : kind.cls.hasattr obj key = true) :
    updated kind obj updates key = (updates.get? key <|> obj.get? key) := by
  have hdict : "__dict__" ∉ updates.entries.map Prod.fst := by
    rw [List.mem_map]
    rintro ⟨e, he, heq⟩
    exact ne_of_plain hplain (by decide) e he heq
  rw [updated, effective_of_no_dict hdict, assigned, if_pos hhas]
  rfl

/-- Updates of plain attributes misplace an object exactly when they give it another valid name. -/
theorem misplaces_iff_of_plain (hkept : store.WellKept)
    (hget : store.get py kind name = .ok (some obj)) :
    Misplaces py kind name obj updates ↔
      ∃ newName, updates.get? "name" = some (.str newName) ∧ validateName py newName = .ok () ∧
        newName ≠ name := by
  obtain ⟨hname, hfields⟩ := attrs_of_get hkept hget
  have hupdated : ∀ key ∈ kind.cls.fieldNames,
      updated kind obj updates key = (updates.get? key <|> obj.get? key) := fun key hkey =>
    updated_of_plain hplain (hasattr_of_isSome ((hfields key).mpr hkey))
  have hnone : obj.get? "__dataclass_fields__" = none := by
    rw [← Option.isNone_iff_eq_none, ← Option.not_isSome, Bool.not_eq_true', Bool.eq_false_iff,
      ne_eq, hfields]
    cases kind <;> decide
  have hall : ∀ key ∈ kind.cls.fieldNames,
      (updated kind obj updates key <|> kind.cls.classAttr key).isSome := fun key hkey => by
    obtain ⟨v, hv⟩ := Option.isSome_iff_exists.mp ((hfields key).mpr hkey)
    rw [hupdated key hkey, hv]
    rcases updates.get? key with _ | w <;> rfl
  rw [Misplaces, and_iff_right (not_refuses_of_plain hplain),
    hupdated "name" (name_mem_fieldNames kind),
    updated_of_plain hplain (hasattr_of_inherited (by decide)),
    hplain "__dataclass_fields__" (by decide), hnone, hname]
  rcases updates.get? "name" with _ | v
  · constructor
    · rintro ⟨newName, heq, -, h | ⟨-, hne, -⟩⟩
      · cases h
      · exact absurd (Value.str.inj (Option.some.inj heq)).symm hne
    · rintro ⟨newName, heq, -⟩
      cases heq
  · constructor
    · rintro ⟨newName, heq, hvalid, h | ⟨-, hne, -⟩⟩
      · cases h
      · exact ⟨newName, heq, hvalid, hne⟩
    · rintro ⟨newName, heq, hvalid, hne⟩
      exact ⟨newName, heq, hvalid, .inr ⟨rfl, hne, hall⟩⟩

end

/-- **Updates.** In every reachable store, an update of an existing name is sound if and only if
the object that is read is not misplaced. Where the updates leave the inherited attributes alone,
that is: unless they give the object another valid name. -/
theorem updateSound_iff (json : JsonText) (py : StrLib) (ops : List Op) (kind : ObjectKind)
    (name : String) (updates : Dict String Json)
    (hexists : ((run (step py) ({} : NamedObjectStore json) ops).files kind).contains
      (objectFile name) = true) :
    (UpdateSound py (run (step py) ({} : NamedObjectStore json) ops) kind name updates ↔
      ∀ obj, (run (step py) ({} : NamedObjectStore json) ops).get py kind name = .ok (some obj) →
        ¬ Misplaces py kind name obj updates) ∧
    ∀ obj, (run (step py) ({} : NamedObjectStore json) ops).get py kind name = .ok (some obj) →
      (∀ key ∈ ["__class__", "__dataclass_fields__", "__dict__", "__weakref__"],
        updates.get? key = none) →
      (Misplaces py kind name obj updates ↔
        ∃ newName, updates.get? "name" = some (.str newName) ∧ validateName py newName = .ok () ∧
          newName ≠ name) := by
  refine ⟨?_, fun obj hget hplain => misplaces_iff_of_plain hplain (wellKept_run ops) hget⟩
  rcases hget : (run (step py) ({} : NamedObjectStore json) ops).get py kind name with e | _ | obj
  · exact iff_of_true (updateSound_of_error (update_of_get_error hget)) fun obj h => by cases h
  · refine iff_of_true ?_ fun obj h => by cases h
    rw [UpdateSound, NamedObjectStore.update, hget]
    exact ⟨fun obj h => absurd h (by simp), fun e h => absurd h (by simp)⟩
  · rw [updateSound_iff_of_get hget hexists]
    refine ⟨fun h obj' heq => ?_, fun h => h obj rfl⟩
    obtain rfl := Option.some.inj (Except.ok.inj heq)
    exact h

/-- The arguments of a distro. -/
def labDistro (name osFamily : String) : List (String × Json) :=
  [("name", .str name), ("os_family", .str osFamily), ("vendor", .str "v"), ("version", .str "1")]

/-- Two distros. -/
def labStore : NamedObjectStore .parsed :=
  run (step .ascii) {}
    [.add .distro (labDistro "a" "fedora"), .add .distro (labDistro "b" "debian")]

theorem updateSound_iff_comment :
    UpdateSound .ascii (run (step .ascii) ({} : NamedObjectStore .parsed)
        [.add .distro (labDistro "a" "fedora")]) .distro "a" (.ofEntries [("comment", .str "x")]) ↔
      ∀ obj, (run (step .ascii) ({} : NamedObjectStore .parsed)
        [.add .distro (labDistro "a" "fedora")]).get .ascii .distro "a" = .ok (some obj) →
          ¬ Misplaces .ascii .distro "a" obj (.ofEntries [("comment", .str "x")]) :=
  (updateSound_iff .parsed .ascii [.add .distro (labDistro "a" "fedora")] .distro "a"
    (.ofEntries [("comment", .str "x")]) (by decide +kernel)).1

/-- An update that names one distro like another overwrites the other and leaves the old entry. -/
theorem update_overwrites :
    ¬ UpdateSound .ascii labStore .distro "a" (.ofEntries [("name", .str "b")]) ∧
    ((labStore.get .ascii .distro "b").map fun obj =>
      obj.bind fun obj => (obj.get? "os_family").bind Value.asStr) = .ok (some "debian") ∧
    (((labStore.update .ascii .distro "a" (.ofEntries [("name", .str "b")])).2.get .ascii .distro
      "b").map fun obj => obj.bind fun obj => (obj.get? "os_family").bind Value.asStr) =
        .ok (some "fedora") ∧
    (labStore.update .ascii .distro "a" (.ofEntries [("name", .str "b")])).2.distros.keys =
      ["a.json", "b.json"] := by
  refine ⟨fun h => ?_, by decide +kernel, by decide +kernel, by decide +kernel⟩
  obtain ⟨newName, hname, -, hgone⟩ := (h.1 _ rfl).own
  obtain rfl : "b" = newName := Value.str.inj (Option.some.inj hname)
  have hleft := congrArg Option.isSome (hgone (by decide))
  exact absurd hleft (by decide +kernel)

end NamedObjectStore

end TftpOS
