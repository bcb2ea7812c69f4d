import TftpOS.Cluster
import TftpOS.Lib.Listing
import TftpOS.Lib.Run
import TftpOS.NamedObjects

/-!
# Listings

`list_distros` and `list_hosts` of the named objects and `list_all` of the clusters. They are
documented as sorted by name, and sort the paths of the files, each a name with `.json` behind it.
The two orders agree as long as no name that is taken continues another one with a rest that comes
before the ending (`listings_iff`), as `-b` does after `a`.
-/

namespace TftpOS

open Lib

/-- No name that is taken is another one with a rest that `.json` puts in front of it. -/
def NoOvertaking (taken : String → Prop) : Prop :=
  ∀ name rest, taken name → taken (name ++ rest) → ¬ rest ++ ".json" < ".json"

/-- Files keep the order of their names where no name overtakes another one. -/
theorem forall_file_lt_iff {taken : String → Prop} :
    (∀ n m, taken n → taken m → n < m → n ++ ".json" < m ++ ".json") ↔ NoOvertaking taken := by
  have hchars := @forall_append_lt_iff Char _ ".json".toList fun cs => taken (String.ofList cs)
  have hall : ∀ {P : List Char → List Char → Prop},
      (∀ a b, P a b) ↔ ∀ a b : String, P a.toList b.toList := by
    intro P
    refine ⟨fun h a b => h _ _, fun h a b => ?_⟩
    simpa using h (String.ofList a) (String.ofList b)
  rw [hall, hall] at hchars
  simpa only [NoOvertaking, String.lt_iff_toList_lt, String.toList_append, String.ofList_append,
    String.ofList_toList] using hchars

/-! ### Named objects -/

namespace NamedObjectStore

variable {json : JsonText} {py : StrLib} {store : NamedObjectStore json} {kind : ObjectKind}

/-- The object in the text of a file. -/
def readObject (kind : ObjectKind) (text : json.Text) : Except PyExc Instance :=
  match json.loads text with
  | none => .error ⟨.valueError, "Expecting value"⟩
  | some data => kind.cls.construct data

/-- `list_distros` and `list_hosts`: the objects of the files, in the order of the file names. -/
def listObjects (store : NamedObjectStore json) (kind : ObjectKind) :
    Except PyExc (List Instance) :=
  (store.files kind).sortKeys.values.mapM (readObject kind)

/-- A name is taken: there is a file for it. -/
def Stored (store : NamedObjectStore json) (kind : ObjectKind) (name : String) : Prop :=
  objectFile name ∈ (store.files kind).keys

/-- The name of an object. -/
def HasName (name : String) (obj : Instance) : Prop := obj.get? "name" = some (.str name)

/-- No file was written for an instance with an empty table of fields. -/
def NoEmptyFile (store : NamedObjectStore json) (kind : ObjectKind) : Prop :=
  ∀ text ∈ (store.files kind).values, json.loads text ≠ some (.dict [])

/-- The hosts that the lookup by MAC goes through are the listed ones. -/
theorem listHosts_eq (store : NamedObjectStore json) :
    store.listHosts.toOption =
      (store.listObjects .host).toOption.map (·.map NamedHost.ofInstance) := by
  rw [listHosts, listObjects, Dict.values, List.mapM_map]
  refine toOption_mapM_map (fun e => ?_) _
  rw [Function.comp_apply, readObject]
  rcases json.loads e.2 with _ | data
  · rfl
  · exact (construct_namedHost data).symm

/-- A kept file makes an object of its name, unless it was written for an empty table. -/
theorem readObject_of_kept {file : String} {text : json.Text} (h : Kept kind file text) :
    ∃ name, file = objectFile name ∧ (∀ obj, readObject kind text = .ok obj → HasName name obj) ∧
      ((∃ obj, readObject kind text = .ok obj) ↔ json.loads text ≠ some (.dict [])) := by
  obtain ⟨name, entries, rfl, hloads, rfl | ⟨hfields, hname⟩⟩ := h
  · obtain ⟨e, he⟩ := construct_nil kind
    have hread : readObject kind text = .error e := by rw [readObject, hloads]; exact he
    refine ⟨name, rfl, fun obj hobj => ?_, ?_⟩
    · rw [hread] at hobj
      cases hobj
    · refine iff_of_false ?_ (not_not.mpr hloads)
      rintro ⟨obj, hobj⟩
      rw [hread] at hobj
      cases hobj
  · obtain ⟨obj, hobj, hattrs⟩ := construct_of_fieldNames hfields
    have hread : readObject kind text = .ok obj := by rw [readObject, hloads]; exact hobj
    refine ⟨name, rfl, fun obj' hobj' => ?_, iff_of_true ⟨obj, hread⟩ ?_⟩
    · obtain rfl := Except.ok.inj (hread.symm.trans hobj')
      rw [HasName, hattrs, hname]
    · rw [hloads]
      rintro heq
      obtain rfl : entries = [] := by simpa using heq
      cases hname

theorem WellKept.filedByName (h : store.WellKept) (kind : ObjectKind) :
    FiledByName objectFile (readObject kind) HasName (store.files kind) := by
  intro file text hget
  obtain ⟨name, hfile, hname, -⟩ := readObject_of_kept (h kind file text hget)
  exact ⟨name, hfile, hname⟩

/-- **A listing of objects** is in order where no file is empty and no name overtakes another. -/
theorem WellKept.listsByName_iff (h : store.WellKept) (kind : ObjectKind) :
    ListsByName HasName (store.Stored kind) (store.listObjects kind) ↔
      store.NoEmptyFile kind ∧ NoOvertaking (store.Stored kind) := by
  have hunique : ∀ n m (obj : Instance), HasName n obj → HasName m obj → n = m := by
    intro n m obj hn hm
    have hsame := hn.symm.trans hm
    simpa using hsame
  have hreadable : (∀ text ∈ (store.files kind).values, ∃ obj, readObject kind text = .ok obj) ↔
      store.NoEmptyFile kind := by
    refine forall₂_congr fun text htext => ?_
    obtain ⟨file, hget⟩ := Dict.mem_values_iff.mp htext
    obtain ⟨-, -, -, hiff⟩ := readObject_of_kept (h kind file text hget)
    exact hiff
  rw [← hreadable, ← forall_file_lt_iff]
  exact Lib.listsByName_iff (fun n m => objectFile_inj) hunique (h.filedByName kind)

end NamedObjectStore

/-! ### Clusters -/

namespace ClusterStore

variable {json : JsonText} {py : StrLib} {s : ClusterStore json}

/-- A call that changes the store. -/
inductive Op where
  | save (fault : Option PyExc) (cluster : ClusterDefinition)
  | delete (name : String)

/-- Perform a call; one that raises changes nothing. -/
def step (py : StrLib) (s : ClusterStore json) : Op → Except PyExc Unit × ClusterStore json
  | .save fault cluster =>
    match s.save py fault cluster with
    | .error e => (.error e, s)
    | .ok s' => (.ok (), s')
  | .delete name =>
    match s.delete py name with
    | .error e => (.error e, s)
    | .ok (_, s') => (.ok (), s')

/-- A name is taken: there is a file for it. -/
def Stored (s : ClusterStore json) (name : String) : Prop := path name ∈ s.files.keys

/-- The name of a cluster. -/
def HasName (name : String) (cluster : ClusterDefinition) : Prop := cluster.name = name

/-- Every file holds a cluster of its name. -/
def WellFiled (s : ClusterStore json) : Prop :=
  ∀ file text, s.files.get? file = some text →
    ∃ cluster, file = path cluster.name ∧ readText text = .ok cluster

theorem WellFiled.step (h : s.WellFiled) (op : Op) : (step py s op).2.WellFiled := by
  cases op with
  | save fault cluster =>
    rw [ClusterStore.step]
    rcases hsave : s.save py fault cluster with e | s'
    · exact h
    · rw [save.eq_def] at hsave
      obtain ⟨-, -, hwritten⟩ := bind_eq_ok_iff.mp hsave
      cases fault with
      | some e => cases hwritten
      | none =>
        obtain rfl := Except.ok.inj hwritten
        intro file text hget
        dsimp only at hget
        rw [Dict.get?_set] at hget
        split_ifs at hget with hfile
        · obtain rfl := Option.some.inj hget
          refine ⟨cluster, hfile, ?_⟩
          rw [readText, json.loads_dumps]
          exact ClusterDefinition.fromDict_toDict cluster
        · exact h file text hget
  | delete name =>
    rw [ClusterStore.step]
    rcases hdelete : s.delete py name with e | ⟨existed, s'⟩
    · exact h
    · rw [delete] at hdelete
      obtain ⟨-, -, hdeleted⟩ := bind_eq_ok_iff.mp hdelete
      split_ifs at hdeleted
      · obtain ⟨-, rfl⟩ := Prod.mk.inj (Except.ok.inj hdeleted)
        intro file text hget
        dsimp only at hget
        rw [Dict.get?_del] at hget
        split_ifs at hget
        exact h file text hget
      · obtain ⟨-, rfl⟩ := Prod.mk.inj (Except.ok.inj hdeleted)
        exact h

theorem wellFiled_run (ops : List Op) :
    (run (ClusterStore.step py) (⟨∅⟩ : ClusterStore json) ops).WellFiled := by
  refine run_invariant (fun s op (_ : True) h => ?_) (fun file text hget => ?_) fun _ _ => trivial
  · exact WellFiled.step h op
  · cases hget

/-- **A listing of clusters** is in order where no name overtakes another. -/
theorem WellFiled.listsByName_iff (h : s.WellFiled) :
    ListsByName HasName s.Stored s.listAll ↔ NoOvertaking s.Stored := by
  have hpath : Function.Injective path := fun n m heq => (String.append_left_inj _).mp heq
  have hfiled : FiledByName path readText HasName s.files := by
    intro file text hget
    obtain ⟨cluster, hfile, hread⟩ := h file text hget
    refine ⟨cluster.name, hfile, fun cluster' hread' => ?_⟩
    rw [hread] at hread'
    rw [HasName, Except.ok.inj hread']
  have hreadable : ∀ text ∈ s.files.values, ∃ cluster, readText text = .ok cluster := by
    intro text htext
    obtain ⟨file, hget⟩ := Dict.mem_values_iff.mp htext
    obtain ⟨cluster, -, hread⟩ := h file text hget
    exact ⟨cluster, hread⟩
  have hlist := Lib.listsByName_iff hpath (fun n m c hn hm => hn.symm.trans hm) hfiled
  rw [← forall_file_lt_iff]
  exact hlist.trans (and_iff_right hreadable)

end ClusterStore

/-- **Listings**: after any calls, they have one object for each name, in the order of the names,
exactly where no name that is taken overtakes another, and no object was stored without its
fields. The hosts that the lookup by MAC goes through are the listed ones. -/
theorem listings_iff (json : JsonText) (py : StrLib) (ops : List NamedObjectStore.Op)
    (clusterOps : List ClusterStore.Op) :
    let store := run (NamedObjectStore.step py) ({} : NamedObjectStore json) ops
    let clusters := run (ClusterStore.step py) (⟨∅⟩ : ClusterStore json) clusterOps
    (store.listHosts.toOption =
      (store.listObjects .host).toOption.map (·.map NamedHost.ofInstance)) ∧
    (∀ kind, ListsByName NamedObjectStore.HasName (store.Stored kind) (store.listObjects kind) ↔
      store.NoEmptyFile kind ∧ NoOvertaking (store.Stored kind)) ∧
    (ListsByName ClusterStore.HasName clusters.Stored clusters.listAll ↔
      NoOvertaking clusters.Stored) :=
  ⟨NamedObjectStore.listHosts_eq _,
    fun kind => (NamedObjectStore.wellKept_run ops).listsByName_iff kind,
    (ClusterStore.wellFiled_run clusterOps).listsByName_iff⟩

/-- Two distros, one named like the other with `-b` behind it. -/
def hyphenated : NamedObjectStore .parsed :=
  run (NamedObjectStore.step .ascii) {}
    [.add .distro (NamedObjectStore.labDistro "a" "fedora"),
      .add .distro (NamedObjectStore.labDistro "a-b" "debian")]

/-- They are listed in the order of their files, which is not that of their names. -/
theorem hyphen_listed_first :
    ((hyphenated.listObjects .distro).map fun objs =>
      objs.map fun obj => (obj.get? "name").bind Value.asStr) = .ok [some "a-b", some "a"] ∧
    ¬ ListsByName NamedObjectStore.HasName (hyphenated.Stored .distro)
      (hyphenated.listObjects .distro) := by
  have hshort : hyphenated.Stored .distro "a" := by
    show objectFile "a" ∈ _
    decide +kernel
  have hlong : hyphenated.Stored .distro ("a" ++ "-b") := by
    show objectFile ("a" ++ "-b") ∈ _
    decide +kernel
  refine ⟨by decide +kernel, ?_⟩
  rw [hyphenated, (NamedObjectStore.wellKept_run _).listsByName_iff]
  exact fun h => h.2 "a" "-b" hshort hlong (by decide +kernel)

end TftpOS
