import Mathlib.Algebra.Order.Ring.Rat
import TftpOS.Lib.Except
import TftpOS.Lib.Run
import TftpOS.Python.Json
import TftpOS.Python.Text

/-!
# Cluster provisioning

`ClusterStore` and `ClusterManager` of `tftpos/cluster.py`. The store is a directory of JSON
files. The hosts of a cluster are objects that its groups share with it, so a group is the
list of its hosts' positions.

Every call that reads the clock or writes a file carries an `Env`: the clock readings of the
call in order, and the exception each of its writes raises, if any. A provisioning callback is
a function of the number of callback rounds so far in the life of the manager, which stands
for the state of the world outside, and of the objects it receives.
-/

namespace TftpOS

open Lib

/-- `_validate_cluster_name`. -/
def validateClusterName (py : StrLib) (name : String) : Except PyExc Unit :=
  if name = "" then .error ⟨.valueError, "cluster name must not be empty"⟩
  else if hasDotDot name then
    .error ⟨.valueError, "cluster name must not contain '..': " ++ py.repr name⟩
  else if hasChar '/' name || hasChar '\\' name then
    .error ⟨.valueError, "cluster name must not contain path separators: " ++ py.repr name⟩
  else if !reLine isSafeName name then
    .error ⟨.valueError, "cluster name contains invalid characters: " ++ py.repr name⟩
  else .ok ()

/-- `ClusterState`. -/
inductive ClusterState where
  | defined
  | provisioning
  | partialState
  | complete
  | failed
  deriving DecidableEq

/-- The value of a cluster state, as it is stored. -/
def ClusterState.value : ClusterState → String
  | .defined => "defined"
  | .provisioning => "provisioning"
  | .partialState => "partial"
  | .complete => "complete"
  | .failed => "failed"

/-- `ClusterState(value)`. -/
def ClusterState.ofValue : Json → Except PyExc ClusterState
  | .str "defined" => .ok .defined
  | .str "provisioning" => .ok .provisioning
  | .str "partial" => .ok .partialState
  | .str "complete" => .ok .complete
  | .str "failed" => .ok .failed
  | _ => .error ⟨.valueError, "not a valid ClusterState"⟩

/-- `HostState`. -/
inductive HostState where
  | pending
  | provisioning
  | complete
  | failed
  deriving DecidableEq

/-- The value of a host state, as it is stored. -/
def HostState.value : HostState → String
  | .pending => "pending"
  | .provisioning => "provisioning"
  | .complete => "complete"
  | .failed => "failed"

/-- `HostState(value)`. -/
def HostState.ofValue : Json → Except PyExc HostState
  | .str "pending" => .ok .pending
  | .str "provisioning" => .ok .provisioning
  | .str "complete" => .ok .complete
  | .str "failed" => .ok .failed
  | _ => .error ⟨.valueError, "not a valid HostState"⟩

@[simp]
theorem ClusterState.ofValue_value (s : ClusterState) : ofValue (.str s.value) = .ok s := by
  cases s <;> rfl

@[simp]
theorem HostState.ofValue_value (s : HostState) : ofValue (.str s.value) = .ok s := by
  cases s <;> rfl

/-- `ClusterHost`. -/
structure ClusterHost where
  hostname : String
  mac : String
  role : String := "worker"
  profile : String := ""
  extra : Json := .dict []
  state : HostState := .pending
  errorMessage : String := ""

/-- `ClusterDefinition`. -/
structure ClusterDefinition where
  name : String
  hosts : List ClusterHost := []
  sharedConfig : Json := .dict []
  provisioningOrder : List String := []
  state : ClusterState := .defined
  createdAt : Option ℚ := none
  updatedAt : Option ℚ := none
  callbacks : List String := []

/-! ### Serialisation -/

/-- `ClusterHost.to_dict`. -/
def ClusterHost.toDict (h : ClusterHost) : Json :=
  .dict [
    ("hostname", .str h.hostname),
    ("mac", .str h.mac),
    ("role", .str h.role),
    ("profile", .str h.profile),
    ("extra", h.extra),
    ("state", .str h.state.value),
    ("error_message", .str h.errorMessage)]

/-- The host that `ClusterDefinition.from_dict` reads from an entry of `hosts`. -/
def ClusterHost.fromDict (h : Json) : Except PyExc ClusterHost := do
  return {
    hostname := ← (← h.item "hostname").toText
    mac := ← (← h.item "mac").toText
    role := ← (← h.getItem "role" (.str "worker")).toText
    profile := ← (← h.getItem "profile" (.str "")).toText
    extra := ← h.getItem "extra" (.dict [])
    state := ← HostState.ofValue (← h.getItem "state" (.str "pending"))
    errorMessage := ← (← h.getItem "error_message" (.str "")).toText }

namespace ClusterDefinition

/-- `ClusterDefinition.to_dict`. -/
def toDict (c : ClusterDefinition) : Json :=
  .dict [
    ("name", .str c.name),
    ("hosts", .list (c.hosts.map ClusterHost.toDict)),
    ("shared_config", c.sharedConfig),
    ("provisioning_order", .list (c.provisioningOrder.map .str)),
    ("state", .str c.state.value),
    ("created_at", .ofFloatOption c.createdAt),
    ("updated_at", .ofFloatOption c.updatedAt),
    ("callbacks", .list (c.callbacks.map .str))]

/-- `ClusterDefinition.from_dict`. -/
def fromDict (data : Json) : Except PyExc ClusterDefinition := do
  let hosts ← (← (← data.getItem "hosts" (.list [])).iter).mapM ClusterHost.fromDict
  return {
    name := ← (← data.item "name").toText
    hosts := hosts
    sharedConfig := ← data.getItem "shared_config" (.dict [])
    provisioningOrder :=
      ← (← (← data.getItem "provisioning_order" (.list [])).iter).mapM Value.toText
    state := ← ClusterState.ofValue (← data.getItem "state" (.str "defined"))
    createdAt := ← (← data.getItem "created_at" .null).toFloatOption
    updatedAt := ← (← data.getItem "updated_at" .null).toFloatOption
    callbacks := ← (← (← data.getItem "callbacks" (.list [])).iter).mapM Value.toText }

end ClusterDefinition

theorem ClusterHost.fromDict_toDict (h : ClusterHost) : fromDict h.toDict = .ok h := by
  simp [fromDict, toDict, Value.item, Value.getItem, Value.lookup, Dict.ofEntries, Dict.get?_set]

/-- Reading a serialised cluster gives the cluster back. -/
theorem ClusterDefinition.fromDict_toDict (c : ClusterDefinition) :
    fromDict c.toDict = .ok c := by
  have hhosts := mapM_decode_encode ClusterHost.fromDict_toDict c.hosts
  have htexts := mapM_decode_encode (Value.toText_str (ι := Empty))
  simp [fromDict, toDict, Value.item, Value.getItem, Value.lookup, Dict.ofEntries, Dict.get?_set,
    Value.iter, hhosts, htexts]

namespace ClusterDefinition

/-- `hosts_by_role`: the positions of the hosts with a role. -/
def hostsByRole (c : ClusterDefinition) (role : String) : List ℕ :=
  (List.range c.hosts.length).filter fun i => c.hosts[i]?.any (·.role = role)

/-- `ordered_groups`: the groups of host positions, in provisioning order. A role that is listed
twice gives two groups. -/
def orderedGroups (c : ClusterDefinition) : List (List ℕ) :=
  let groups := (c.provisioningOrder.map c.hostsByRole).filter (!·.isEmpty)
  let remaining := (List.range c.hosts.length).filter fun i =>
    c.hosts[i]?.any (·.role ∉ c.provisioningOrder)
  if remaining.isEmpty then groups else groups ++ [remaining]

/-- An assignment to attributes of the host at a position. -/
def modifyHost (c : ClusterDefinition) (i : ℕ) (f : ClusterHost → ClusterHost) :
    ClusterDefinition :=
  { c with hosts := c.hosts.modify i f }

/-- `cluster.updated_at = time.time()`. -/
def touch (c : ClusterDefinition) (now : ℚ) : ClusterDefinition := { c with updatedAt := some now }

/-- The loop of `mark_host_complete` and `mark_host_failed` that looks for the first host with
a MAC. -/
def findMac (py : StrLib) (c : ClusterDefinition) (mac : String) : Option ℕ :=
  c.hosts.findIdx? fun h => py.lower h.mac = py.lower mac

end ClusterDefinition

/-- What a call finds outside: its clock readings, and the exception each of its writes
raises. -/
structure Env where
  now : ℕ → ℚ
  fault : ℕ → Option PyExc := fun _ => none

/-! ### Cluster store -/

/-- `ClusterStore`: the texts of the files in its directory, by file name. -/
structure ClusterStore (json : JsonText) where
  files : Dict String json.Text

namespace ClusterStore

variable {json : JsonText} (py : StrLib)

/-- The file of a cluster. -/
def path (name : String) : String := name ++ ".json"

/-- `save`; `fault` is what `write_text` raises where it cannot open the file, which then stays as
it was. -/
def save (s : ClusterStore json) (fault : Option PyExc) (cluster : ClusterDefinition) :
    Except PyExc (ClusterStore json) := do
  validateClusterName py cluster.name
  match fault with
  | some e => throw e
  | none => return ⟨s.files.set (path cluster.name) (json.dumps (some 2) cluster.toDict)⟩

/-- The cluster in the text of a file. -/
def readText (text : json.Text) : Except PyExc ClusterDefinition :=
  match json.loads text with
  | none => .error ⟨.valueError, "JSONDecodeError"⟩
  | some data => ClusterDefinition.fromDict data

/-- `get`. -/
def get (s : ClusterStore json) (name : String) : Except PyExc (Option ClusterDefinition) := do
  validateClusterName py name
  match s.files.get? (path name) with
  | none => return none
  | some text => return some (← readText text)

/-- `list_all`: the files in the order of their names. -/
def listAll (s : ClusterStore json) : Except PyExc (List ClusterDefinition) :=
  s.files.sortKeys.values.mapM readText

/-- `delete`. -/
def delete (s : ClusterStore json) (name : String) : Except PyExc (Bool × ClusterStore json) := do
  validateClusterName py name
  if s.files.contains (path name) then return (true, ⟨s.files.del (path name)⟩)
  else return (false, s)

end ClusterStore

/-! ### Cluster manager -/

/-- A provisioning callback: given the round and the objects it receives, the text of the
exception it raises, if any. -/
abbrev ProvisionCallback := ℕ → ClusterDefinition → ClusterHost → Option String

/-- `ClusterManager`. -/
structure ClusterManager (json : JsonText) where
  store : ClusterStore json
  provisionCallbacks : List ProvisionCallback
  /-- How many times the callbacks were run for a host so far. -/
  rounds : ℕ := 0

namespace ClusterManager

variable {json : JsonText} (py : StrLib)

/-- `self._store.save(cluster)`. -/
def saveCluster (m : ClusterManager json) (fault : Option PyExc) (cluster : ClusterDefinition) :
    Except PyExc (ClusterManager json) :=
  (m.store.save py fault cluster).map fun store => { m with store := store }

/-- `create_cluster`. -/
def createCluster (m : ClusterManager json) (env : Env) (definition : ClusterDefinition) :
    Except PyExc ClusterDefinition × ClusterManager json :=
  let macs := definition.hosts.map fun h => py.lower h.mac
  let hostnames := definition.hosts.map (·.hostname)
  match validateClusterName py definition.name with
  | .error e => (.error e, m)
  | .ok () =>
    if definition.hosts = [] then
      (.error ⟨.valueError, "cluster must have at least one host"⟩, m)
    else if ¬ macs.Nodup then
      (.error ⟨.valueError, "duplicate MAC addresses in cluster definition"⟩, m)
    else if ¬ hostnames.Nodup then
      (.error ⟨.valueError, "duplicate hostnames in cluster definition"⟩, m)
    else
      match m.store.get py definition.name with
      | .error e => (.error e, m)
      | .ok (some _) =>
        (.error ⟨.valueError, "cluster " ++ py.repr definition.name ++ " already exists"⟩, m)
      | .ok none =>
        -- a `created_at` that the definition brings along is kept
        let definition := { definition with
          createdAt := some (definition.createdAt.getD (env.now 0))
          updatedAt := some (env.now 0) }
        match m.saveCluster py (env.fault 0) definition with
        | .error e => (.error e, m)
        | .ok m => (.ok definition, m)

/-- The callbacks for one host, in order, up to the first that raises. -/
def runCallbacks (m : ClusterManager json) (cluster : ClusterDefinition) (i : ℕ) : Option String :=
  cluster.hosts[i]?.bind fun host =>
    m.provisionCallbacks.findSome? fun cb => cb m.rounds cluster host

/-- What `start_provisioning` does to a host after its callbacks, and whether they all
succeeded. -/
def recordOutcome (cluster : ClusterDefinition) (allSucceeded : Bool) (i : ℕ) :
    Option String → ClusterDefinition × Bool
  | none => (cluster.modifyHost i fun h => { h with state := .complete }, allSucceeded)
  | some error =>
    (cluster.modifyHost i fun h => { h with state := .failed, errorMessage := error }, false)

/-- The body of the loop of `start_provisioning`; `k` numbers the passes. -/
def provisionHost (env : Env) (m : ClusterManager json) (cluster : ClusterDefinition)
    (allSucceeded : Bool) (k i : ℕ) :
    Except PyExc (ClusterDefinition × Bool) × ClusterManager json :=
  let cluster :=
    (cluster.modifyHost i fun h => { h with state := .provisioning }).touch (env.now (2 * k + 1))
  match m.saveCluster py (env.fault (2 * k)) cluster with
  | .error e => (.error e, m)
  | .ok m =>
    -- an exception of a callback is caught and becomes the outcome of the host
    let outcome := recordOutcome cluster allSucceeded i (m.runCallbacks cluster i)
    let cluster := outcome.1.touch (env.now (2 * k + 2))
    let m := { m with rounds := m.rounds + 1 }
    match m.saveCluster py (env.fault (2 * k + 1)) cluster with
    | .error e => (.error e, m)
    | .ok m => (.ok (cluster, outcome.2), m)

/-- The loop of `start_provisioning` over the hosts of all groups, in order. -/
def provisionHosts (env : Env) (m : ClusterManager json) (cluster : ClusterDefinition)
    (allSucceeded : Bool) (k : ℕ) :
    List ℕ → Except PyExc (ClusterDefinition × Bool) × ClusterManager json
  | [] => (.ok (cluster, allSucceeded), m)
  | i :: is =>
    match provisionHost py env m cluster allSucceeded k i with
    | (.error e, m) => (.error e, m)
    | (.ok (cluster, allSucceeded), m) => provisionHosts env m cluster allSucceeded (k + 1) is

/-- The state of a cluster after the loop. -/
def finalState (cluster : ClusterDefinition) (allSucceeded : Bool) : ClusterState :=
  if allSucceeded then .complete
  else if cluster.hosts.any (·.state = .complete) then .partialState
  else .failed

/-- `start_provisioning`. -/
def startProvisioning (m : ClusterManager json) (env : Env) (name : String) :
    Except PyExc ClusterDefinition × ClusterManager json :=
  match m.store.get py name with
  | .error e => (.error e, m)
  | .ok none => (.error ⟨.valueError, "cluster " ++ py.repr name ++ " not found"⟩, m)
  | .ok (some cluster) =>
    if cluster.state = .provisioning then
      (.error ⟨.valueError, "cluster " ++ py.repr name ++ " is already being provisioned"⟩, m)
    else
      let cluster := { cluster with state := .provisioning }.touch (env.now 0)
      let hosts := cluster.orderedGroups.flatten
      match provisionHosts py env m cluster true 0 hosts with
      | (.error e, m) => (.error e, m)
      | (.ok (cluster, allSucceeded), m) =>
        let cluster := { cluster with state := finalState cluster allSucceeded }.touch
          (env.now (2 * hosts.length + 1))
        match m.saveCluster py (env.fault (2 * hosts.length)) cluster with
        | .error e => (.error e, m)
        | .ok m => (.ok cluster, m)

/-- `mark_host_complete` on the host at a position. -/
def completeHost (cluster : ClusterDefinition) (i : ℕ) (now : ℚ) : ClusterDefinition :=
  let cluster := (cluster.modifyHost i fun h => { h with state := .complete }).touch now
  if cluster.hosts.all (·.state = .complete) then { cluster with state := .complete }
  else if cluster.hosts.any (·.state = .failed) then { cluster with state := .partialState }
  else cluster

/-- `mark_host_failed` on the host at a position. -/
def failHost (cluster : ClusterDefinition) (i : ℕ) (error : String) (now : ℚ) :
    ClusterDefinition :=
  let cluster :=
    (cluster.modifyHost i fun h => { h with state := .failed, errorMessage := error }).touch now
  if cluster.hosts.any (·.state = .complete) then { cluster with state := .partialState }
  else if cluster.hosts.all (·.state = .failed) then { cluster with state := .failed }
  else cluster

/-- The common frame of `mark_host_complete` and `mark_host_failed`. -/
def markHost (m : ClusterManager json) (env : Env) (clusterName mac : String)
    (mark : ClusterDefinition → ℕ → ClusterDefinition) :
    Except PyExc ClusterDefinition × ClusterManager json :=
  match m.store.get py clusterName with
  | .error e => (.error e, m)
  | .ok none => (.error ⟨.valueError, "cluster " ++ py.repr clusterName ++ " not found"⟩, m)
  | .ok (some cluster) =>
    match cluster.findMac py mac with
    | none => (.error ⟨.valueError, "host with MAC " ++ py.repr mac ++ " not in cluster " ++
        py.repr clusterName⟩, m)
    | some i =>
      let cluster := mark cluster i
      match m.saveCluster py (env.fault 0) cluster with
      | .error e => (.error e, m)
      | .ok m => (.ok cluster, m)

/-- `mark_host_complete`. -/
def markHostComplete (m : ClusterManager json) (env : Env) (clusterName mac : String) :
    Except PyExc ClusterDefinition × ClusterManager json :=
  m.markHost py env clusterName mac fun cluster i => completeHost cluster i (env.now 0)

/-- `mark_host_failed`. -/
def markHostFailed (m : ClusterManager json) (env : Env) (clusterName mac error : String) :
    Except PyExc ClusterDefinition × ClusterManager json :=
  m.markHost py env clusterName mac fun cluster i => failHost cluster i error (env.now 0)

/-- `delete_cluster`. -/
def deleteCluster (m : ClusterManager json) (name : String) :
    Except PyExc Bool × ClusterManager json :=
  match m.store.delete py name with
  | .error e => (.error e, m)
  | .ok (existed, store) => (.ok existed, { m with store := store })

/-- A call on the manager. -/
inductive Op where
  | createCluster (env : Env) (definition : ClusterDefinition)
  | startProvisioning (env : Env) (name : String)
  | markHostComplete (env : Env) (clusterName mac : String)
  | markHostFailed (env : Env) (clusterName mac error : String)
  | deleteCluster (name : String)

/-- What a call returns. -/
inductive Reply where
  | cluster (c : ClusterDefinition)
  | deleted (existed : Bool)

/-- One call. -/
def step (m : ClusterManager json) : Op → Except PyExc Reply × ClusterManager json
  | .createCluster env definition => (m.createCluster py env definition).map (·.map .cluster) id
  | .startProvisioning env name => (m.startProvisioning py env name).map (·.map .cluster) id
  | .markHostComplete env clusterName mac =>
    (m.markHostComplete py env clusterName mac).map (·.map .cluster) id
  | .markHostFailed env clusterName mac error =>
    (m.markHostFailed py env clusterName mac error).map (·.map .cluster) id
  | .deleteCluster name => (m.deleteCluster py name).map (·.map .deleted) id

end ClusterManager

end TftpOS
