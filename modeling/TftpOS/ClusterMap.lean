import TftpOS.Lib.FiniteMap
import TftpOS.Provisioning

/-!
# The stored clusters

The cluster store as a map from names to clusters (`lookup`). In a store that the manager itself
has written (`WellStored`) every call without a failing write either changes nothing or updates
the map at one name (`StoreChange`): a creation adds a definition with distinct hosts, a
provisioning or a mark replaces a cluster by one with the same identity, and a deletion removes
a name. What runs keep of the stored clusters follows by cases on the change
(`stored_clusters_keep_identity`).
-/

namespace TftpOS

open Lib

/-- What `create_cluster` checks of the hosts: there are some, and no MAC and no hostname occurs
twice. -/
structure ClusterDefinition.Accepted (py : StrLib) (c : ClusterDefinition) : Prop where
  nonempty : c.hosts ≠ []
  macs : (c.hosts.map fun h => py.lower h.mac).Nodup
  hostnames : (c.hosts.map (·.hostname)).Nodup

/-- What is said of a host when its cluster is defined. -/
def ClusterHost.identity (h : ClusterHost) : String × String × String × String × Json :=
  (h.hostname, h.mac, h.role, h.profile, h.extra)

/-- What is said of a cluster when it is defined. -/
structure ClusterDefinition.SameIdentity (c c' : ClusterDefinition) : Prop where
  name : c'.name = c.name
  hosts : c'.hosts.map ClusterHost.identity = c.hosts.map ClusterHost.identity
  sharedConfig : c'.sharedConfig = c.sharedConfig
  provisioningOrder : c'.provisioningOrder = c.provisioningOrder
  callbacks : c'.callbacks = c.callbacks
  createdAt : c'.createdAt = c.createdAt

namespace ClusterManager

variable {json : JsonText} {py : StrLib} {m : ClusterManager json} {c : ClusterDefinition}
  {env : Env} {name : String}

/-- The cluster stored under a name. -/
def lookup (py : StrLib) (m : ClusterManager json) (name : String) : Option ClusterDefinition :=
  match m.store.get py name with
  | .ok o => o
  | .error _ => none

/-- Every file can be read and holds the cluster that it is named after. -/
structure WellStored (py : StrLib) (m : ClusterManager json) : Prop where
  readable : ∀ name, validateClusterName py name = .ok () → ∃ o, m.store.get py name = .ok o
  named : ∀ name c, m.lookup py name = some c → c.name = name

theorem lookup_eq_some_iff : m.lookup py name = some c ↔ m.store.get py name = .ok (some c) := by
  rw [lookup]
  split
  · next o ho => simp [ho]
  · next e he => simp [he]

theorem lookup_of_get {o : Option ClusterDefinition} (hget : m.store.get py name = .ok o) :
    m.lookup py name = o := by
  rw [lookup, hget]

theorem lookup_of_invalid {e : PyExc} (h : validateClusterName py name = .error e) :
    m.lookup py name = none := by
  rw [lookup, ClusterStore.get, h]
  rfl

theorem get_of_empty (hempty : m.store.files = ∅) (hvalid : validateClusterName py name = .ok ()) :
    m.store.get py name = .ok none := by
  rw [ClusterStore.get, hvalid, hempty]
  rfl

/-- Nothing is stored in an empty directory. -/
theorem lookup_of_empty (hempty : m.store.files = ∅) (name : String) :
    m.lookup py name = none := by
  cases hvalid : validateClusterName py name with
  | error e => exact lookup_of_invalid hvalid
  | ok => exact lookup_of_get (get_of_empty hempty hvalid)

/-! ### Writing and deleting -/

theorem get_put_of_ne (h : name ≠ c.name) :
    (m.put c).store.get py name = m.store.get py name := by
  have hpath : ClusterStore.path name ≠ ClusterStore.path c.name := fun heq =>
    h ((String.append_left_inj _).mp heq)
  rw [ClusterStore.get, ClusterStore.get, put]
  simp only [Dict.get?_set_of_ne hpath]

/-- Writing a cluster updates the map at its name. -/
theorem lookup_put (hvalid : validateClusterName py c.name = .ok ()) :
    (m.put c).lookup py = Function.update (m.lookup py) c.name (some c) := by
  funext name
  by_cases hname : name = c.name
  · rw [hname, Function.update_self]
    exact lookup_of_get (get_put hvalid)
  · rw [Function.update_of_ne hname, lookup, lookup, get_put_of_ne hname]

theorem WellStored.put (hm : WellStored py m) (hvalid : validateClusterName py c.name = .ok ()) :
    WellStored py (m.put c) where
  readable name hname := by
    by_cases heq : name = c.name
    · exact ⟨some c, heq ▸ get_put hvalid⟩
    · rw [get_put_of_ne heq]
      exact hm.readable name hname
  named name c' hc' := by
    rw [lookup_put hvalid, update_eq_some_iff] at hc'
    rcases hc' with ⟨rfl, hc'⟩ | ⟨-, hc'⟩
    · rw [Option.some.inj hc']
    · exact hm.named name c' hc'

/-- `delete_cluster` removes the file of a valid name, if there is one. -/
theorem deleteCluster_files (hvalid : validateClusterName py name = .ok ()) (key : String) :
    (m.deleteCluster py name).2.store.files.get? key =
      if key = ClusterStore.path name then none else m.store.files.get? key := by
  rw [deleteCluster, ClusterStore.delete, hvalid]
  cases hmem : m.store.files.contains (ClusterStore.path name) with
  | true =>
    simp only [bind, Except.bind, pure, Except.pure, if_true]
    exact Dict.get?_del
  | false =>
    simp only [bind, Except.bind, pure, Except.pure, Bool.false_eq_true, if_false]
    split_ifs with hkey
    · rw [hkey]
      simpa [Dict.contains_eq_isSome] using hmem
    · rfl

/-- `delete_cluster` removes a name from the map. -/
theorem lookup_deleteCluster (name : String) :
    (m.deleteCluster py name).2.lookup py = Function.update (m.lookup py) name none := by
  funext name'
  cases hvalid : validateClusterName py name with
  | error e =>
    have hnone := lookup_of_invalid (m := m) hvalid
    have hsame : (m.deleteCluster py name).2 = m := by
      rw [deleteCluster, ClusterStore.delete, hvalid]
      rfl
    rw [hsame, ← hnone, Function.update_eq_self]
  | ok =>
    rw [lookup, ClusterStore.get, deleteCluster_files hvalid]
    by_cases hname : name' = name
    · rw [hname, hvalid, if_pos rfl, Function.update_self]
      rfl
    · have hpath : ClusterStore.path name' ≠ ClusterStore.path name := fun heq =>
        hname ((String.append_left_inj _).mp heq)
      rw [if_neg hpath, Function.update_of_ne hname]
      rfl

theorem WellStored.deleteCluster (hm : WellStored py m) (name : String) :
    WellStored py (m.deleteCluster py name).2 where
  readable name' hname' := by
    cases hvalid : validateClusterName py name with
    | error e =>
      have hsame : (m.deleteCluster py name).2 = m := by
        rw [ClusterManager.deleteCluster, ClusterStore.delete, hvalid]
        rfl
      rw [hsame]
      exact hm.readable name' hname'
    | ok =>
      rw [ClusterStore.get, deleteCluster_files hvalid, hname']
      split_ifs with hpath
      · exact ⟨none, rfl⟩
      · obtain ⟨o, ho⟩ := hm.readable name' hname'
        rw [ClusterStore.get, hname'] at ho
        exact ⟨o, ho⟩
  named name' c hc := by
    rw [lookup_deleteCluster, update_eq_some_iff] at hc
    rcases hc with ⟨-, hc⟩ | ⟨-, hc⟩
    · cases hc
    · exact hm.named name' c hc

/-! ### What each call does -/

/-- A mark of a stored cluster writes it back with the host marked, if there is the host. -/
theorem markHost_eq (hget : m.store.get py c.name = .ok (some c)) (hfault : env.fault 0 = none)
    (mac : String) {mark : ClusterDefinition → ℕ → ClusterDefinition}
    (hmark : ∀ i, (mark c i).name = c.name) :
    (∃ i, c.findMac py mac = some i ∧
      m.markHost py env c.name mac mark = (.ok (mark c i), m.put (mark c i))) ∨
    c.findMac py mac = none ∧ ∃ e, m.markHost py env c.name mac mark = (.error e, m) := by
  rw [markHost, hget]
  dsimp only
  cases hfind : c.findMac py mac with
  | none => exact .inr ⟨rfl, _, rfl⟩
  | some i =>
    refine .inl ⟨i, rfl, ?_⟩
    have hvalid : validateClusterName py (mark c i).name = .ok () :=
      hmark i ▸ validate_of_get hget
    dsimp only
    rw [saveCluster_eq_put hvalid hfault]

/-- What a mark does: it writes the marked cluster if the cluster and the host are known, and
otherwise raises and changes nothing. -/
theorem markHost_spec (hm : WellStored py m) (hfault : env.fault 0 = none) (name mac : String)
    {mark : ClusterDefinition → ℕ → ClusterDefinition} (hmark : ∀ c i, (mark c i).name = c.name) :
    (∃ c i, m.lookup py name = some c ∧ c.findMac py mac = some i ∧
      m.markHost py env name mac mark = (.ok (mark c i), m.put (mark c i))) ∨
    (∀ c, m.lookup py name = some c → c.findMac py mac = none) ∧
      ∃ e, m.markHost py env name mac mark = (.error e, m) := by
  cases hget : m.store.get py name with
  | error e =>
    refine .inr ⟨fun c hc => ?_, e, by rw [markHost, hget]⟩
    cases hget.symm.trans (lookup_eq_some_iff.mp hc)
  | ok o =>
    rw [lookup_of_get hget]
    cases o with
    | none =>
      rw [markHost, hget]
      exact .inr ⟨fun c hc => (by cases hc), _, rfl⟩
    | some c =>
      obtain rfl := hm.named name c (lookup_of_get hget)
      rcases markHost_eq hget hfault mac (hmark c) with ⟨i, hfind, heq⟩ | ⟨hfind, e, heq⟩
      · exact .inl ⟨c, i, rfl, hfind, heq⟩
      · exact .inr ⟨fun c' hc' => Option.some.inj hc' ▸ hfind, e, heq⟩

/-- What `start_provisioning` does. -/
theorem startProvisioning_spec (hm : WellStored py m) (hfault : ∀ k, env.fault k = none)
    (name : String) :
    (∃ c updatedAt, m.lookup py name = some c ∧ c.state ≠ .provisioning ∧
      (m.startVisits py env name).map Visit.host = c.orderedGroups.flatten ∧
      m.startProvisioning py env name =
        (.ok (provisioned c (m.startVisits py env name) updatedAt),
          { m.put (provisioned c (m.startVisits py env name) updatedAt) with
            rounds := m.rounds + c.orderedGroups.flatten.length })) ∨
    (∀ c, m.lookup py name = some c → c.state = .provisioning) ∧
      ∃ e, m.startProvisioning py env name = (.error e, m) := by
  cases hget : m.store.get py name with
  | error e =>
    refine .inr ⟨fun c hc => ?_, e, ?_⟩
    · rw [lookup, hget] at hc
      cases hc
    · rw [startProvisioning, hget]
  | ok o =>
    rw [lookup_of_get hget]
    cases o with
    | none =>
      rw [startProvisioning, hget]
      exact .inr ⟨fun c hc => (by cases hc), _, rfl⟩
    | some c =>
      obtain rfl := hm.named name c (lookup_of_get hget)
      by_cases hstate : c.state = .provisioning
      · rw [startProvisioning, hget]
        exact .inr ⟨fun c' hc' => Option.some.inj hc' ▸ hstate, _, if_pos hstate⟩
      · obtain ⟨updatedAt, hstart, hhosts, -⟩ := startProvisioning_eq hfault hget hstate
        exact .inl ⟨c, updatedAt, rfl, hstate, hhosts, hstart⟩

/-- What `create_cluster` does. -/
theorem createCluster_spec (hfault : env.fault 0 = none) (d : ClusterDefinition) :
    (∃ createdAt updatedAt, createdAt = some (d.createdAt.getD (env.now 0)) ∧
      m.lookup py d.name = none ∧ validateClusterName py d.name = .ok () ∧ d.Accepted py ∧
      m.createCluster py env d =
        (.ok { d with createdAt := createdAt, updatedAt := updatedAt },
          m.put { d with createdAt := createdAt, updatedAt := updatedAt })) ∨
    ∃ e, m.createCluster py env d = (.error e, m) := by
  rw [createCluster]
  cases hvalid : validateClusterName py d.name with
  | error e => exact .inr ⟨e, rfl⟩
  | ok =>
    dsimp only
    split_ifs with hhosts hmacs hhostnames
    · exact .inr ⟨_, rfl⟩
    · cases hget : m.store.get py d.name with
      | error e => exact .inr ⟨e, rfl⟩
      | ok o =>
        cases o with
        | some c => exact .inr ⟨_, rfl⟩
        | none =>
          let d' := { d with
            createdAt := some (d.createdAt.getD (env.now 0)), updatedAt := some (env.now 0) }
          refine .inl ⟨d'.createdAt, d'.updatedAt, rfl, lookup_of_get hget, rfl,
            ⟨hhosts, hmacs, hhostnames⟩, ?_⟩
          have hsave : m.saveCluster py (env.fault 0) d' = .ok (m.put d') :=
            saveCluster_eq_put (c := d') hvalid hfault
          simp only [d'] at hsave
          simp only [hsave]
          rfl
    · exact .inr ⟨_, rfl⟩
    · exact .inr ⟨_, rfl⟩

/-! ### Identity -/

end ClusterManager

theorem ClusterHost.identity_report (o : Option String) (h : ClusterHost) :
    (h.report o).identity = h.identity := by
  cases o <;> rfl

/-- Reports keep the identity of every host. -/
theorem map_identity_reported (hosts : List ClusterHost) (reports : List (ℕ × Option String)) :
    (reported hosts reports).map ClusterHost.identity = hosts.map ClusterHost.identity := by
  induction reports generalizing hosts with
  | nil => rfl
  | cons r reports ih =>
    refine (ih _).trans (List.ext_getElem? fun j => ?_)
    rw [List.getElem?_map, List.getElem?_map, List.getElem?_modify]
    split_ifs
    · cases hosts[j]? with
      | none => rfl
      | some h => exact congrArg some (h.identity_report r.2)
    · simp

/-- Whether hosts are accepted depends on their identities. -/
theorem ClusterDefinition.Accepted.of_identity {py : StrLib} {c c' : ClusterDefinition}
    (h : c.Accepted py)
    (heq : c'.hosts.map ClusterHost.identity = c.hosts.map ClusterHost.identity) :
    c'.Accepted py := by
  have hmacs : c'.hosts.map (fun h => py.lower h.mac) = c.hosts.map fun h => py.lower h.mac := by
    simpa [Function.comp_def, ClusterHost.identity] using
      congrArg (List.map fun t => py.lower t.2.1) heq
  have hhostnames : c'.hosts.map (·.hostname) = c.hosts.map (·.hostname) := by
    simpa [Function.comp_def, ClusterHost.identity] using congrArg (List.map Prod.fst) heq
  have hlength : c'.hosts.length = c.hosts.length := by
    simpa using congrArg List.length heq
  refine ⟨fun hnil => h.nonempty ?_, hmacs ▸ h.macs, hhostnames ▸ h.hostnames⟩
  rw [← List.length_eq_zero_iff, ← hlength, hnil, List.length_nil]

theorem ClusterDefinition.SameIdentity.refl (c : ClusterDefinition) : c.SameIdentity c :=
  ⟨rfl, rfl, rfl, rfl, rfl, rfl⟩

theorem ClusterDefinition.SameIdentity.trans {c c' c'' : ClusterDefinition}
    (h : c.SameIdentity c') (h' : c'.SameIdentity c'') : c.SameIdentity c'' where
  name := h'.name.trans h.name
  hosts := h'.hosts.trans h.hosts
  sharedConfig := h'.sharedConfig.trans h.sharedConfig
  provisioningOrder := h'.provisioningOrder.trans h.provisioningOrder
  callbacks := h'.callbacks.trans h.callbacks
  createdAt := h'.createdAt.trans h.createdAt

namespace ClusterManager

variable {json : JsonText} {py : StrLib} {m : ClusterManager json} {c : ClusterDefinition}
  {env : Env} {name : String}

/-- The update of one host by a mark, with the outcome it reports. -/
def mark (now : ℚ) (o : Option String) (c : ClusterDefinition) (i : ℕ) : ClusterDefinition :=
  match o with
  | none => completeHost c i now
  | some error => failHost c i error now

theorem mark_hosts (now : ℚ) (o : Option String) (c : ClusterDefinition) (i : ℕ) :
    (mark now o c i).hosts = c.hosts.modify i (ClusterHost.report o) := by
  cases o with
  | none =>
    rw [mark, completeHost]
    split_ifs <;> rfl
  | some error =>
    rw [mark, failHost]
    split_ifs <;> rfl

theorem sameIdentity_mark (now : ℚ) (o : Option String) (c : ClusterDefinition) (i : ℕ) :
    c.SameIdentity (mark now o c i) := by
  have hhosts : (mark now o c i).hosts.map ClusterHost.identity =
      c.hosts.map ClusterHost.identity := by
    rw [mark_hosts]
    exact map_identity_reported c.hosts [(i, o)]
  cases o with
  | none =>
    refine ⟨?_, hhosts, ?_, ?_, ?_, ?_⟩ <;> rw [mark, completeHost] <;> split_ifs <;> rfl
  | some error =>
    refine ⟨?_, hhosts, ?_, ?_, ?_, ?_⟩ <;> rw [mark, failHost] <;> split_ifs <;> rfl

theorem sameIdentity_provisioned (c : ClusterDefinition) (vs : List Visit) (updatedAt : Option ℚ) :
    c.SameIdentity (provisioned c vs updatedAt) :=
  ⟨rfl, map_identity_reported c.hosts _, rfl, rfl, rfl, rfl⟩

/-! ### Runs -/

/-- No write of the call fails. -/
def Op.NoFault : Op → Prop
  | .createCluster env _ | .startProvisioning env _ | .markHostComplete env _ _
  | .markHostFailed env _ _ _ => ∀ k, env.fault k = none
  | .deleteCluster _ => True

/-- The call that reports an outcome of a host. -/
def Op.mark (env : Env) (name mac : String) : Option String → Op
  | none => .markHostComplete env name mac
  | some error => .markHostFailed env name mac error

theorem step_mark (env : Env) (name mac : String) (o : Option String) :
    step py m (Op.mark env name mac o) =
      (m.markHost py env name mac (mark (env.now 0) o)).map (·.map .cluster) id := by
  cases o <;> rfl

/-- What a call does to the stored clusters. -/
inductive StoreChange (py : StrLib) (v : String → Option ClusterDefinition) :
    Op → (String → Option ClusterDefinition) → Prop
  | created (env : Env) (d d' : ClusterDefinition) (absent : v d.name = none)
      (accepted : d'.Accepted py) (name : d'.name = d.name) :
      StoreChange py v (.createCluster env d) (Function.update v d.name (some d'))
  | replaced (op : Op) (name : String) (c c' : ClusterDefinition) (stored : v name = some c)
      (same : c.SameIdentity c') : StoreChange py v op (Function.update v name (some c'))
  | deleted (name : String) :
      StoreChange py v (.deleteCluster name) (Function.update v name none)
  | unchanged (op : Op) : StoreChange py v op v

/-- Writing a cluster that replaces one of the same identity. -/
theorem WellStored.replace (hm : WellStored py m) {c' : ClusterDefinition}
    (hc : m.lookup py name = some c) (hsame : c.SameIdentity c') :
    WellStored py (m.put c') ∧
      (m.put c').lookup py = Function.update (m.lookup py) name (some c') := by
  have hname : c'.name = name := hsame.name.trans (hm.named name c hc)
  have hvalid : validateClusterName py c'.name = .ok () :=
    hname ▸ validate_of_get (lookup_eq_some_iff.mp hc)
  exact ⟨hm.put hvalid, hname ▸ lookup_put hvalid⟩

/-- **What one call does.** -/
theorem step_change (hm : WellStored py m) {op : Op} (hop : op.NoFault) :
    WellStored py (step py m op).2 ∧
      StoreChange py (m.lookup py) op ((step py m op).2.lookup py) := by
  have hmark : ∀ env name mac o, (∀ k, env.fault k = none) →
      WellStored py (step py m (Op.mark env name mac o)).2 ∧
        StoreChange py (m.lookup py) (Op.mark env name mac o)
          ((step py m (Op.mark env name mac o)).2.lookup py) := by
    intro env name mac o hfault
    rw [step_mark]
    rcases markHost_spec hm (hfault 0) name mac (fun c i => (sameIdentity_mark _ o c i).name) with
      ⟨c, i, hc, -, heq⟩ | ⟨-, e, heq⟩
    · rw [heq]
      have hsame := sameIdentity_mark (env.now 0) o c i
      obtain ⟨hstored, hlookup⟩ := hm.replace hc hsame
      exact ⟨hstored, hlookup ▸ .replaced _ name c _ hc hsame⟩
    · rw [heq]
      exact ⟨hm, .unchanged _⟩
  cases op with
  | createCluster env d =>
    simp only [step]
    rcases createCluster_spec (hop 0) d with
      ⟨createdAt, updatedAt, -, habsent, hvalid, haccepted, heq⟩ | ⟨e, heq⟩
    · rw [heq]
      let d' := { d with createdAt := createdAt, updatedAt := updatedAt }
      have hlookup := lookup_put (m := m) (c := d') hvalid
      exact ⟨hm.put (c := d') hvalid, hlookup ▸ .created env d d' habsent
        ⟨haccepted.nonempty, haccepted.macs, haccepted.hostnames⟩ rfl⟩
    · rw [heq]
      exact ⟨hm, .unchanged _⟩
  | startProvisioning env name =>
    simp only [step]
    rcases startProvisioning_spec hm hop name with ⟨c, updatedAt, hc, -, -, heq⟩ | ⟨-, e, heq⟩
    · rw [heq]
      have hsame := sameIdentity_provisioned c (m.startVisits py env name) updatedAt
      obtain ⟨hstored, hlookup⟩ := hm.replace hc hsame
      refine ⟨⟨hstored.readable, hstored.named⟩, ?_⟩
      have hchange : StoreChange py (m.lookup py) (.startProvisioning env name) _ :=
        .replaced _ name c _ hc hsame
      rw [← hlookup] at hchange
      exact hchange
    · rw [heq]
      exact ⟨hm, .unchanged _⟩
  | markHostComplete env name mac => exact hmark env name mac none hop
  | markHostFailed env name mac error => exact hmark env name mac (some error) hop
  | deleteCluster name =>
    simp only [step, Prod.map_snd, id]
    exact ⟨hm.deleteCluster name, lookup_deleteCluster name ▸ .deleted name⟩

theorem wellStored_of_empty (hempty : m.store.files = ∅) : WellStored py m := by
  refine ⟨fun name hvalid => ⟨none, get_of_empty hempty hvalid⟩, fun name c hc => ?_⟩
  cases (lookup_of_empty hempty name).symm.trans hc

theorem wellStored_run (hm : WellStored py m) {ops : List Op} (hops : ∀ op ∈ ops, op.NoFault) :
    WellStored py (run (step py) m ops) := by
  have hstep : ∀ (m : ClusterManager json) op, Op.NoFault op → WellStored py m →
      WellStored py (step py m op).2 := fun _ _ hop hm => (step_change hm hop).1
  exact run_invariant hstep hm hops

/-- One call keeps the hosts of every stored cluster accepted. -/
theorem StoreChange.accepted {v v' : String → Option ClusterDefinition} {op : Op}
    (h : StoreChange py v op v') (hv : ∀ name c, v name = some c → c.Accepted py) :
    ∀ name c, v' name = some c → c.Accepted py := by
  intro name c hc
  cases h with
  | created env d d' absent accepted =>
    rcases update_eq_some_iff.mp hc with ⟨-, hc'⟩ | ⟨-, hc'⟩
    · exact Option.some.inj hc' ▸ accepted
    · exact hv name c hc'
  | replaced _ name' c₀ c' stored same =>
    rcases update_eq_some_iff.mp hc with ⟨-, hc'⟩ | ⟨-, hc'⟩
    · exact Option.some.inj hc' ▸ (hv name' c₀ stored).of_identity same.hosts
    · exact hv name c hc'
  | deleted name' =>
    rcases update_eq_some_iff.mp hc with ⟨-, hc'⟩ | ⟨-, hc'⟩
    · cases hc'
    · exact hv name c hc'
  | unchanged => exact hv name c hc

/-- One call keeps a stored cluster, with its identity, unless it deletes its name. -/
theorem StoreChange.keeps {v v' : String → Option ClusterDefinition} {op : Op}
    (h : StoreChange py v op v') (hc : v name = some c) (hop : op ≠ .deleteCluster name) :
    ∃ c', v' name = some c' ∧ c.SameIdentity c' := by
  cases h with
  | created env d d' absent =>
    have hname : name ≠ d.name := by
      rintro rfl
      cases hc.symm.trans absent
    exact ⟨c, (Function.update_of_ne hname _ _).trans hc, .refl c⟩
  | replaced _ name' c₀ c' stored same =>
    by_cases hname : name = name'
    · subst hname
      obtain rfl := Option.some.inj (hc.symm.trans stored)
      exact ⟨c', Function.update_self _ _ _, same⟩
    · exact ⟨c, (Function.update_of_ne hname _ _).trans hc, .refl c⟩
  | deleted name' =>
    have hname : name ≠ name' := fun heq => hop (heq ▸ rfl)
    exact ⟨c, (Function.update_of_ne hname _ _).trans hc, .refl c⟩
  | unchanged => exact ⟨c, hc, .refl c⟩

/-- A stored cluster is kept, with its identity, by every run that does not delete its name. -/
theorem keeps_run (hm : WellStored py m) {ops : List Op} (hops : ∀ op ∈ ops, op.NoFault)
    (hc : m.lookup py name = some c) (hdelete : .deleteCluster name ∉ ops) :
    ∃ c', (run (step py) m ops).lookup py name = some c' ∧ c.SameIdentity c' := by
  induction ops generalizing m c with
  | nil => exact ⟨c, hc, .refl c⟩
  | cons op ops ih =>
    rw [List.forall_mem_cons] at hops
    rw [List.mem_cons, not_or] at hdelete
    obtain ⟨hm', hchange⟩ := step_change hm hops.1
    obtain ⟨c', hc', hsame⟩ := hchange.keeps hc (Ne.symm hdelete.1)
    obtain ⟨c'', hc'', hsame'⟩ := ih hm' hops.2 hc' hdelete.2
    exact ⟨c'', hc'', hsame.trans hsame'⟩

/-- What a mark on a host does: the only host with the MAC gets the outcome, or nothing happens
because there is none. -/
inductive MarkEffect (py : StrLib) (m : ClusterManager json) (name mac : String)
    (o : Option String) : Except PyExc Reply × ClusterManager json → Prop
  | marked (c c' : ClusterDefinition) (i : ℕ) (h : ClusterHost) (m' : ClusterManager json)
      (stored : m.lookup py name = some c) (host : c.hosts[i]? = some h)
      (mac_eq : py.lower h.mac = py.lower mac)
      (unique : ∀ j g, c.hosts[j]? = some g → py.lower g.mac = py.lower mac → j = i)
      (outcome : c'.hosts[i]? = some (h.report o))
      (other_hosts : ∀ j, j ≠ i → c'.hosts[j]? = c.hosts[j]?)
      (stored' : m'.lookup py name = some c')
      (other_clusters : ∀ name', name' ≠ name → m'.lookup py name' = m.lookup py name') :
      MarkEffect py m name mac o (.ok (.cluster c'), m')
  | raised (e : PyExc)
      (unknown : ∀ c, m.lookup py name = some c → ∀ h ∈ c.hosts, py.lower h.mac ≠ py.lower mac) :
      MarkEffect py m name mac o (.error e, m)

/-- Distinct MACs tell the hosts apart. -/
theorem index_eq_of_mac (h : c.Accepted py) {i j : ℕ} {g g' : ClusterHost}
    (hg : c.hosts[i]? = some g) (hg' : c.hosts[j]? = some g')
    (hmac : py.lower g.mac = py.lower g'.mac) : i = j := by
  have hi : i < (c.hosts.map fun h => py.lower h.mac).length := by
    rw [List.length_map]
    exact (List.getElem?_eq_some_iff.mp hg).1
  refine (List.getElem?_inj hi h.macs).mp ?_
  rw [List.getElem?_map, List.getElem?_map, hg, hg']
  exact congrArg some hmac

theorem markEffect_step (hm : WellStored py m)
    (haccepted : ∀ name c, m.lookup py name = some c → c.Accepted py)
    (hfault : ∀ k, env.fault k = none) (name mac : String) (o : Option String) :
    MarkEffect py m name mac o (step py m (Op.mark env name mac o)) := by
  rw [step_mark]
  rcases markHost_spec hm (hfault 0) name mac
    (fun c i => (sameIdentity_mark (env.now 0) o c i).name) with
      ⟨c, i, hc, hfind, heq⟩ | ⟨hnone, e, heq⟩
  · rw [heq]
    obtain ⟨hi, hmac, -⟩ := List.findIdx?_eq_some_iff_getElem.mp hfind
    have hget : c.hosts[i]? = some c.hosts[i] := List.getElem?_eq_getElem hi
    have hmac' : py.lower c.hosts[i].mac = py.lower mac := by simpa using hmac
    obtain ⟨-, hlookup⟩ := hm.replace hc (sameIdentity_mark (env.now 0) o c i)
    refine .marked c _ i c.hosts[i] _ hc hget hmac' (fun j g hg hgmac => ?_) ?_ (fun j hj => ?_) ?_
      fun name' hname' => ?_
    · exact index_eq_of_mac (haccepted name c hc) hg hget (hgmac.trans hmac'.symm)
    · simp [mark_hosts, hi]
    · rw [mark_hosts]
      simp [Ne.symm hj]
    · exact (congrFun hlookup name).trans (Function.update_self _ _ _)
    · exact (congrFun hlookup name').trans (Function.update_of_ne hname' _ _)
  · rw [heq]
    refine .raised e fun c hc h hh => ?_
    have hfind := List.findIdx?_eq_none_iff.mp (hnone c hc) h hh
    simpa using hfind

/-- A definition is stored with its identity, unless nothing is. -/
theorem created_step (hfault : ∀ k, env.fault k = none) (d : ClusterDefinition) :
    (∃ d', (step py m (.createCluster env d)).1 = .ok (.cluster d') ∧
      (step py m (.createCluster env d)).2.lookup py d.name = some d' ∧
      { d with createdAt := some (d.createdAt.getD (env.now 0)) }.SameIdentity d') ∨
    ∃ e, step py m (.createCluster env d) = (.error e, m) := by
  rw [step]
  rcases createCluster_spec (hfault 0) d with
    ⟨createdAt, updatedAt, rfl, -, hvalid, -, heq⟩ | ⟨e, heq⟩
  · rw [heq]
    let d' := { d with
      createdAt := some (d.createdAt.getD (env.now 0)), updatedAt := updatedAt }
    refine .inl ⟨d', rfl, ?_, ⟨rfl, rfl, rfl, rfl, rfl, rfl⟩⟩
    exact (congrFun (lookup_put (c := d') hvalid) d.name).trans (Function.update_self _ _ _)
  · rw [heq]
    exact .inr ⟨e, rfl⟩

/-- **Identity and isolation.** In every run of the manager from an empty store without failing
writes: the hosts of every stored cluster have distinct MACs and hostnames; what was said of a
cluster when it was created does not change until it is deleted; a mark changes the one host with
the MAC and no other host and no other cluster, or raises because there is no such host; such
a call, or a provisioning of an unknown cluster, changes nothing; and a cluster is created as its
definition says, at the time of the call if the definition says no time. -/
theorem stored_clusters_keep_identity (py : StrLib) (m : ClusterManager json)
    (hempty : m.store.files = ∅) (ops : List Op) (hops : ∀ op ∈ ops, op.NoFault) :
    (∀ pre, pre <+: ops → ∀ name c, (run (step py) m pre).lookup py name = some c →
      c.Accepted py) ∧
    (∀ pre mid, pre ++ mid <+: ops → ∀ name c, (run (step py) m pre).lookup py name = some c →
      .deleteCluster name ∉ mid →
      ∃ c', (run (step py) m (pre ++ mid)).lookup py name = some c' ∧ c.SameIdentity c') ∧
    (∀ pre env name mac o, pre ++ [Op.mark env name mac o] <+: ops →
      MarkEffect py (run (step py) m pre) name mac o
        (step py (run (step py) m pre) (Op.mark env name mac o))) ∧
    (∀ pre env name, pre ++ [.startProvisioning env name] <+: ops →
      (run (step py) m pre).lookup py name = none →
      ∃ e, step py (run (step py) m pre) (.startProvisioning env name) =
        (.error e, run (step py) m pre)) ∧
    ∀ pre env d, pre ++ [.createCluster env d] <+: ops →
      (∃ d', (step py (run (step py) m pre) (.createCluster env d)).1 = .ok (.cluster d') ∧
        (step py (run (step py) m pre) (.createCluster env d)).2.lookup py d.name = some d' ∧
        { d with createdAt := some (d.createdAt.getD (env.now 0)) }.SameIdentity d') ∨
      ∃ e, step py (run (step py) m pre) (.createCluster env d) =
        (.error e, run (step py) m pre) := by
  have hpre : ∀ pre, pre <+: ops → ∀ op ∈ pre, op.NoFault := fun pre h op hop =>
    hops op (h.subset hop)
  have hstored : ∀ pre, pre <+: ops → WellStored py (run (step py) m pre) := fun pre h =>
    wellStored_run (wellStored_of_empty hempty) (hpre pre h)
  have haccepted : ∀ pre, pre <+: ops → ∀ name c,
      (run (step py) m pre).lookup py name = some c → c.Accepted py := by
    intro pre
    induction pre using List.reverseRecOn with
    | nil =>
      intro _ name c hc
      cases (lookup_of_empty hempty name).symm.trans hc
    | append_singleton pre op ih =>
      intro hpre'
      have hbefore : pre <+: ops := (List.prefix_append pre [op]).trans hpre'
      rw [run_concat]
      exact (step_change (hstored pre hbefore) (hops op (hpre'.subset (by simp)))).2.accepted
        (ih hbefore)
  refine ⟨haccepted, fun pre mid h name c hc hdelete => ?_, fun pre env name mac o h => ?_,
    fun pre env name h hnone => ?_, fun pre env d h => ?_⟩
  · rw [run_append]
    exact keeps_run (hstored pre ((List.prefix_append pre mid).trans h))
      (fun op hop => hops op (h.subset (List.mem_append_right _ hop))) hc hdelete
  · have hbefore := (List.prefix_append pre _).trans h
    have hfault := hops _ (h.subset (List.mem_append_right _ (List.mem_singleton_self _)))
    refine markEffect_step (hstored pre hbefore) (haccepted pre hbefore) ?_ name mac o
    cases o <;> exact hfault
  · have hfault := hops _ (h.subset (List.mem_append_right _ (List.mem_singleton_self _)))
    rcases startProvisioning_spec (hstored pre ((List.prefix_append pre _).trans h)) hfault name
      with ⟨c, -, hc, -⟩ | ⟨-, e, heq⟩
    · cases hnone.symm.trans hc
    · exact ⟨e, by rw [step, heq]; rfl⟩
  · exact created_step (hops _ (h.subset (List.mem_append_right _ (List.mem_singleton_self _)))) d

/-- The calls of a small lab: its cluster is created and provisioned, and a host then fails. -/
private def labCalls : List Op :=
  [.createCluster ⟨fun k => k, fun _ => none⟩
      { name := "lab", hosts := [{ hostname := "a", mac := "AA:BB:CC:DD:EE:01" },
          { hostname := "b", mac := "AA:BB:CC:DD:EE:02" }] },
    .startProvisioning ⟨fun k => k, fun _ => none⟩ "lab"]

/-- A mark in the lab, with another spelling of the MAC. -/
theorem stored_clusters_keep_identity_lab :
    MarkEffect .ascii (run (step .ascii) (⟨⟨∅⟩, [], 0⟩ : ClusterManager .parsed) labCalls) "lab"
      "aa:bb:cc:dd:ee:02" (some "disk")
      (step .ascii (run (step .ascii) ⟨⟨∅⟩, [], 0⟩ labCalls)
        (Op.mark ⟨fun k => k, fun _ => none⟩ "lab" "aa:bb:cc:dd:ee:02" (some "disk"))) := by
  refine (stored_clusters_keep_identity .ascii ⟨⟨∅⟩, [], 0⟩ rfl (labCalls ++ [Op.mark
    ⟨fun k => k, fun _ => none⟩ "lab" "aa:bb:cc:dd:ee:02" (some "disk")]) ?_).2.2.1 labCalls _ _ _
      (some "disk") (List.prefix_refl _)
  intro op hop
  fin_cases hop
  · exact fun _ => rfl
  · exact fun _ => rfl
  · exact fun _ => rfl

end ClusterManager

end TftpOS
