import TftpOS.ClusterRuns
import TftpOS.Lib.Precedes

/-!
# The run of a provisioning

Which hosts `start_provisioning` visits, and with what outcome. `visits` is the list of the
passes of its loop, each with the cluster its callbacks received and what they raised: one round of
callbacks was run for each pass, and the hosts that are returned are those that the passes report
(`startProvisioning_logged`). A host is in as many groups as its role is listed in the provisioning
order, or in one (`count_flatten_orderedGroups`); so the groups partition the hosts exactly when no
role of a host is listed twice (`groups_partition_iff`).

Without failing writes a whole provisioning is one report per visit (`provisionHosts_eq`), and
the final state follows from the reports (`start_provisioning_settles`).
-/

namespace TftpOS

open Lib

namespace ClusterManager

/-- One pass of the loop of `start_provisioning`. -/
structure Visit where
  host : ℕ
  round : ℕ
  /-- The cluster that the callbacks received. -/
  given : ClusterDefinition
  /-- How many callbacks were called. -/
  called : ℕ
  /-- The text of the exception that ended the callbacks. -/
  error : Option String
  /-- The cluster at the end of the pass. -/
  after : ClusterDefinition

variable {json : JsonText} (py : StrLib)

/-- How many callbacks `runCallbacks` calls: it stops at the first that raises. -/
def calledCallbacks (m : ClusterManager json) (cluster : ClusterDefinition) (i : ℕ) : ℕ :=
  cluster.hosts[i]?.elim 0 fun host =>
    match m.provisionCallbacks.findIdx? fun cb => (cb m.rounds cluster host).isSome with
    | none => m.provisionCallbacks.length
    | some j => j + 1

/-- The passes of `provisionHosts` that reach the callbacks. -/
def visits (env : Env) (m : ClusterManager json) (cluster : ClusterDefinition)
    (allSucceeded : Bool) (k : ℕ) : List ℕ → List Visit
  | [] => []
  | i :: is =>
    let given :=
      (cluster.modifyHost i fun h => { h with state := .provisioning }).touch (env.now (2 * k + 1))
    match m.saveCluster py (env.fault (2 * k)) given with
    | .error _ => []
    | .ok m' =>
      let error := m'.runCallbacks given i
      let after := (recordOutcome given allSucceeded i error).1.touch (env.now (2 * k + 2))
      { host := i, round := m'.rounds, given := given, called := m'.calledCallbacks given i,
        error := error, after := after } ::
        match provisionHost py env m cluster allSucceeded k i with
        | (.error _, _) => []
        | (.ok (cluster, allSucceeded), m) => visits env m cluster allSucceeded (k + 1) is

/-- The passes of `startProvisioning`. -/
def startVisits (m : ClusterManager json) (env : Env) (name : String) : List Visit :=
  match m.store.get py name with
  | .ok (some cluster) =>
    if cluster.state = .provisioning then []
    else
      let cluster := { cluster with state := .provisioning }.touch (env.now 0)
      visits py env m cluster true 0 cluster.orderedGroups.flatten
  | _ => []

/-- The calls of callbacks in the passes: the host and the position of the callback. -/
def calls (vs : List Visit) : List (ℕ × ℕ) :=
  vs.flatMap fun v => (List.range v.called).map (Prod.mk v.host)

/-- The report of a pass. -/
def Visit.report (v : Visit) : ℕ × Option String := (v.host, v.error)

end ClusterManager

/-! ### Reports -/

/-- What a host becomes with an outcome: COMPLETE, or FAILED with the text of an error. -/
def ClusterHost.report (o : Option String) (h : ClusterHost) : ClusterHost :=
  match o with
  | none => { h with state := .complete }
  | some error => { h with state := .failed, errorMessage := error }

/-- The hosts after outcomes are reported for them, one after the other. -/
def reported (hosts : List ClusterHost) (reports : List (ℕ × Option String)) :
    List ClusterHost :=
  reports.foldl (fun hosts r => hosts.modify r.1 (ClusterHost.report r.2)) hosts

/-- The outcomes reported for a host, in order. -/
def outcomesOf (i : ℕ) (reports : List (ℕ × Option String)) : List (Option String) :=
  (reports.filter fun r => r.1 = i).map Prod.snd

theorem length_reported (hosts : List ClusterHost) (reports : List (ℕ × Option String)) :
    (reported hosts reports).length = hosts.length := by
  induction reports generalizing hosts with
  | nil => rfl
  | cons r reports ih =>
    rw [reported, List.foldl_cons]
    exact (ih _).trans (List.length_modify _ _ _)

/-- A host after reports has gone through its own outcomes. -/
theorem getElem?_reported (hosts : List ClusterHost) (reports : List (ℕ × Option String))
    (i : ℕ) : (reported hosts reports)[i]? =
      hosts[i]?.map fun h => (outcomesOf i reports).foldl (fun h o => h.report o) h := by
  induction reports generalizing hosts with
  | nil => simp [reported, outcomesOf]
  | cons r reports ih =>
    rw [reported, List.foldl_cons]
    refine (ih _).trans ?_
    rw [List.getElem?_modify, outcomesOf, outcomesOf, List.filter_cons]
    by_cases hr : r.1 = i
    · simp [hr, Function.comp_def]
    · simp [hr]

/-- The last outcome decides the state of a host. -/
theorem state_foldl_report {os : List (Option String)} (hos : os ≠ []) (h : ClusterHost) :
    (os.foldl (fun h o => h.report o) h).state =
      if os.getLast hos = none then .complete else .failed := by
  obtain ⟨os, o, rfl⟩ := (List.eq_nil_or_concat' os).resolve_left hos
  rw [List.foldl_concat, List.getLast_concat]
  cases o <;> rfl

theorem mem_outcomesOf {i : ℕ} {reports : List (ℕ × Option String)} {o : Option String} :
    o ∈ outcomesOf i reports ↔ (i, o) ∈ reports := by
  simp [outcomesOf]

/-- A host that was reported for is COMPLETE or FAILED. -/
theorem settled_of_reported {hosts : List ClusterHost} {reports : List (ℕ × Option String)}
    (hall : ∀ i < hosts.length, i ∈ reports.map Prod.fst) :
    ∀ h ∈ reported hosts reports, h.state = .complete ∨ h.state = .failed := by
  intro h hh
  obtain ⟨i, hget⟩ := List.mem_iff_getElem?.mp hh
  rw [getElem?_reported] at hget
  obtain ⟨g, hg, rfl⟩ := Option.map_eq_some_iff.mp hget
  have hi : i < hosts.length := (List.getElem?_eq_some_iff.mp hg).1
  obtain ⟨⟨j, o⟩, hr, rfl : j = i⟩ := List.mem_map.mp (hall i hi)
  rw [state_foldl_report (List.ne_nil_of_mem (mem_outcomesOf.mpr hr))]
  split_ifs
  · exact .inl rfl
  · exact .inr rfl

/-! ### The groups -/

namespace ClusterDefinition

variable {c : ClusterDefinition}

/-- The groups one after the other. -/
theorem flatten_orderedGroups : c.orderedGroups.flatten =
    c.provisioningOrder.flatMap c.hostsByRole ++ (List.range c.hosts.length).filter fun i =>
      c.hosts[i]?.any (·.role ∉ c.provisioningOrder) := by
  rw [orderedGroups]
  split_ifs with hempty
  · rw [List.isEmpty_iff.mp hempty, List.append_nil, List.flatten_filter_not_isEmpty,
      List.flatMap]
  · rw [List.flatten_append, List.flatten_filter_not_isEmpty, List.flatten_singleton,
      List.flatMap]

theorem count_hostsByRole {i : ℕ} (hi : i < c.hosts.length) (role : String) :
    (c.hostsByRole role).count i = if c.hosts[i].role = role then 1 else 0 := by
  rw [hostsByRole]
  split_ifs with hrole
  · rw [List.count_filter (by simp [hi, hrole])]
    exact List.count_eq_one_of_mem List.nodup_range (List.mem_range.mpr hi)
  · rw [List.count_eq_zero]
    simp [hi, hrole]

/-- How often a host occurs in the groups. -/
theorem count_flatten_orderedGroups {i : ℕ} (hi : i < c.hosts.length) :
    c.orderedGroups.flatten.count i = max 1 (c.provisioningOrder.count c.hosts[i].role) := by
  have hlisted : (c.provisioningOrder.flatMap c.hostsByRole).count i =
      c.provisioningOrder.count c.hosts[i].role := by
    rw [List.count_flatMap]
    induction c.provisioningOrder with
    | nil => rfl
    | cons role order ih =>
      rw [List.map_cons, List.sum_cons, ih, Function.comp_apply, count_hostsByRole hi,
        List.count_cons]
      simp only [beq_iff_eq, eq_comm (a := role), Nat.add_comm]
  rw [flatten_orderedGroups, List.count_append, hlisted]
  by_cases hrole : c.hosts[i].role ∈ c.provisioningOrder
  · have hrest : ((List.range c.hosts.length).filter fun i =>
        c.hosts[i]?.any (·.role ∉ c.provisioningOrder)).count i = 0 := by
      rw [List.count_eq_zero]
      simp [hi, hrole]
    have hpos := List.count_pos_iff.mpr hrole
    omega
  · have hrest : ((List.range c.hosts.length).filter fun i =>
        c.hosts[i]?.any (·.role ∉ c.provisioningOrder)).count i = 1 := by
      rw [List.count_filter (by simp [hi, hrole])]
      exact List.count_eq_one_of_mem List.nodup_range (List.mem_range.mpr hi)
    have hzero := List.count_eq_zero.mpr hrole
    omega

theorem lt_of_mem_orderedGroups {i : ℕ} (h : i ∈ c.orderedGroups.flatten) :
    i < c.hosts.length := by
  rw [flatten_orderedGroups, List.mem_append, List.mem_flatMap] at h
  rcases h with ⟨role, -, h⟩ | h <;> exact List.mem_range.mp (List.mem_of_mem_filter h)

/-- Every host is in the groups exactly once, if and only if no role of a host is listed
twice. -/
theorem groups_perm_iff : c.orderedGroups.flatten.Perm (List.range c.hosts.length) ↔
    ∀ h ∈ c.hosts, c.provisioningOrder.count h.role ≤ 1 := by
  have hmem : (∀ h ∈ c.hosts, c.provisioningOrder.count h.role ≤ 1) ↔
      ∀ i (hi : i < c.hosts.length), c.provisioningOrder.count c.hosts[i].role ≤ 1 :=
    List.forall_mem_iff_forall_getElem
  rw [hmem, List.perm_iff_count]
  constructor
  · intro hperm i hi
    have hcount := hperm i
    rw [count_flatten_orderedGroups hi,
      List.count_eq_one_of_mem List.nodup_range (List.mem_range.mpr hi)] at hcount
    omega
  · intro horder i
    by_cases hi : i < c.hosts.length
    · rw [count_flatten_orderedGroups hi,
        List.count_eq_one_of_mem List.nodup_range (List.mem_range.mpr hi)]
      have hone := horder i hi
      omega
    · rw [List.count_eq_zero.mpr fun h => hi (lt_of_mem_orderedGroups h),
        List.count_eq_zero.mpr fun h => hi (List.mem_range.mp h)]

end ClusterDefinition

namespace ClusterManager

variable {json : JsonText} {py : StrLib}

/-- The passes visit the hosts in the order of the loop, and stop when a write fails. -/
theorem map_host_visits (env : Env) (m : ClusterManager json) (c : ClusterDefinition)
    (ok : Bool) (k : ℕ) (is : List ℕ) :
    (visits py env m c ok k is).map Visit.host <+: is := by
  induction is generalizing m c ok k with
  | nil => exact List.nil_prefix
  | cons i is ih =>
    rw [visits]
    dsimp only
    split
    · exact List.nil_prefix
    · rw [List.map_cons, List.cons_prefix_cons]
      refine ⟨rfl, ?_⟩
      split
      · exact List.nil_prefix
      · exact ih _ _ _ _

/-- A run that visits no host twice calls no callback twice for a host. -/
theorem nodup_calls {vs : List Visit} (h : (vs.map Visit.host).Nodup) : (calls vs).Nodup := by
  rw [calls, List.nodup_flatMap]
  refine ⟨fun v _ => List.nodup_range.map fun _ _ heq => (Prod.mk.inj heq).2, ?_⟩
  refine (List.pairwise_map.mp h).imp fun {v w} hne => ?_
  simp only [Function.onFun, List.disjoint_left, List.mem_map]
  rintro _ ⟨j, -, rfl⟩ ⟨j', -, heq⟩
  exact hne (Prod.mk.inj heq).1.symm

/-- What a list of passes says of a provisioning of `c` that ends with `r`, also when writes fail:
there was one round of callbacks for each pass, and a cluster that is returned has its hosts as the
passes report them. -/
structure Logged (m : ClusterManager json) (c : ClusterDefinition) (vs : List Visit)
    (r : Except PyExc ClusterDefinition × ClusterManager json) : Prop where
  rounds : r.2.rounds = m.rounds + vs.length
  hosts : ∀ c', r.1 = .ok c' → c'.hosts = reported c.hosts (vs.map Visit.report)

section

variable {env : Env} {m m' : ClusterManager json} {c given : ClusterDefinition}

theorem rounds_saveCluster {fault : Option PyExc} (h : m.saveCluster py fault c = .ok m') :
    m'.rounds = m.rounds := by
  rw [(saveCluster_eq_ok h).2]

theorem recordOutcome_eq (ok : Bool) (i : ℕ) (o : Option String) :
    recordOutcome c ok i o = (c.modifyHost i (ClusterHost.report o), ok && o.isNone) := by
  cases o with
  | none =>
    rw [recordOutcome, Option.isNone_none, Bool.and_true]
    rfl
  | some error =>
    rw [recordOutcome, Option.isNone_some, Bool.and_false]
    rfl

/-- A host that is marked PROVISIONING and reported for is as it is reported. -/
theorem modify_report (hosts : List ClusterHost) (i : ℕ) (o : Option String) :
    (hosts.modify i fun h => { h with state := .provisioning }).modify i (ClusterHost.report o) =
      hosts.modify i (ClusterHost.report o) := by
  have hreport : (ClusterHost.report o ∘ fun h : ClusterHost =>
      { h with state := .provisioning }) = ClusterHost.report o := by
    cases o <;> rfl
  rw [List.modify_modify_eq, hreport]

/-- A pass that reaches the callbacks counts a round, and reports what they raised. -/
theorem provisionHost_logged (ok : Bool) {k i : ℕ}
    (hgiven : given = (c.modifyHost i fun h => { h with state := .provisioning }).touch
      (env.now (2 * k + 1)))
    (hsave : m.saveCluster py (env.fault (2 * k)) given = .ok m') :
    (provisionHost py env m c ok k i).2.rounds = m.rounds + 1 ∧
      ∀ c' ok', (provisionHost py env m c ok k i).1 = .ok (c', ok') →
        c'.hosts = c.hosts.modify i (ClusterHost.report (m'.runCallbacks given i)) := by
  subst hgiven
  rw [provisionHost]
  simp only [hsave, recordOutcome_eq]
  split
  · next e hfail => exact ⟨congrArg (· + 1) (rounds_saveCluster hsave), by simp⟩
  · next m₂ hsave₂ =>
    refine ⟨(rounds_saveCluster hsave₂).trans (congrArg (· + 1) (rounds_saveCluster hsave)), ?_⟩
    intro c' ok' heq
    obtain ⟨rfl, -⟩ := Prod.mk.inj (Except.ok.inj heq)
    exact modify_report _ _ _

/-- The passes of the loop say what it did. -/
theorem provisionHosts_logged (py : StrLib) (env : Env) (is : List ℕ) (m : ClusterManager json)
    (c : ClusterDefinition) (ok : Bool) (k : ℕ) :
    (provisionHosts py env m c ok k is).2.rounds =
        m.rounds + (visits py env m c ok k is).length ∧
      ∀ c' ok', (provisionHosts py env m c ok k is).1 = .ok (c', ok') →
        c'.hosts = reported c.hosts ((visits py env m c ok k is).map Visit.report) := by
  induction is generalizing m c ok k with
  | nil =>
    refine ⟨rfl, fun c' ok' heq => ?_⟩
    obtain ⟨rfl, -⟩ := Prod.mk.inj (Except.ok.inj heq)
    rfl
  | cons i is ih =>
    rw [provisionHosts, visits]
    dsimp only
    rcases hsave : m.saveCluster py (env.fault (2 * k)) ((c.modifyHost i fun h =>
      { h with state := .provisioning }).touch (env.now (2 * k + 1))) with e | m₁
    · -- the pass ends with the write before its callbacks
      have hpass : provisionHost py env m c ok k i = (.error e, m) := by
        rw [provisionHost]
        simp only [hsave]
      rw [hpass]
      exact ⟨rfl, by simp⟩
    · obtain ⟨hrounds, hhosts⟩ := provisionHost_logged ok rfl hsave
      rcases hpass : provisionHost py env m c ok k i with ⟨e | ⟨c₁, ok₁⟩, m₂⟩
      · rw [hpass] at hrounds
        exact ⟨hrounds, by simp⟩
      · rw [hpass] at hrounds hhosts
        obtain ⟨hrest, hreported⟩ := ih m₂ c₁ ok₁ (k + 1)
        dsimp only
        refine ⟨?_, fun c' ok' heq => ?_⟩
        · rw [hrest, List.length_cons, show m₂.rounds = m.rounds + 1 from hrounds]
          omega
        · rw [hreported c' ok' heq, hhosts c₁ ok₁ rfl]
          rfl

/-- **The passes of a provisioning say what it did.** -/
theorem startProvisioning_logged (env : Env) {name : String}
    (hget : m.store.get py name = .ok (some c)) :
    Logged m c (m.startVisits py env name) (m.startProvisioning py env name) := by
  rw [startVisits, startProvisioning, hget]
  dsimp only
  split_ifs with hstate
  · exact ⟨rfl, by simp⟩
  · let c₀ := { c with state := .provisioning }.touch (env.now 0)
    obtain ⟨hrounds, hhosts⟩ :=
      provisionHosts_logged py env c₀.orderedGroups.flatten m c₀ true 0
    rcases hloop : provisionHosts py env m c₀ true 0 c₀.orderedGroups.flatten with
      ⟨e | ⟨c₁, ok₁⟩, m₁⟩
    · rw [hloop] at hrounds
      exact ⟨hrounds, by simp⟩
    · rw [hloop] at hrounds hhosts
      dsimp only
      split
      · exact ⟨hrounds, by simp⟩
      · next m₂ hsave =>
        refine ⟨(rounds_saveCluster hsave).trans hrounds, fun c' heq => ?_⟩
        obtain rfl := Except.ok.inj heq
        exact hhosts c₁ ok₁ rfl

end

/-- **The groups partition the hosts**, so that provisioning a cluster runs every callback at
most once for each host and visits no host twice, if and only if no role of a host is listed twice
in the provisioning order. The passes are those of the provisioning. -/
theorem groups_partition_iff (json : JsonText) (py : StrLib) (c : ClusterDefinition) :
    (∀ (m : ClusterManager json) (env : Env) (name : String),
      m.store.get py name = .ok (some c) →
        Logged m c (m.startVisits py env name) (m.startProvisioning py env name)) ∧
    ((c.orderedGroups.flatten.Perm (List.range c.hosts.length) ∧
      ∀ (m : ClusterManager json) (env : Env) (name : String),
        m.store.get py name = .ok (some c) →
        (calls (m.startVisits py env name)).Nodup ∧
          ((m.startVisits py env name).map Visit.host).Nodup) ↔
      ∀ h ∈ c.hosts, c.provisioningOrder.count h.role ≤ 1) := by
  refine ⟨fun m env name hget => startProvisioning_logged env hget, ?_⟩
  rw [ClusterDefinition.groups_perm_iff]
  refine and_iff_left_of_imp fun horder m env name hget => ?_
  have hnodup : c.orderedGroups.flatten.Nodup :=
    (ClusterDefinition.groups_perm_iff.mpr horder).nodup_iff.mpr List.nodup_range
  have hvisits : ((m.startVisits py env name).map Visit.host).Nodup := by
    rw [startVisits, hget]
    dsimp only
    split_ifs
    · exact List.nodup_nil
    · exact hnodup.sublist (map_host_visits env m _ true 0 _).sublist
  exact ⟨nodup_calls hvisits, hvisits⟩

/-- Two hosts, with the role of one listed twice. -/
private def listedTwice : ClusterDefinition :=
  { name := "lab", hosts := [{ hostname := "a", mac := "AA:BB:CC:DD:EE:01" },
      { hostname := "b", mac := "AA:BB:CC:DD:EE:02", role := "db" }]
    provisioningOrder := ["db", "db"] }

/-- A manager with one callback, which does nothing. -/
private def quietManager : ClusterManager .parsed := ⟨⟨∅⟩, [fun _ _ _ => none], 0⟩

/-- A cluster that `create_cluster` accepts, with a role listed twice: its host is in two groups,
and is provisioned again after it has been finished. -/
theorem listed_twice_provisions_again :
    let created := quietManager.createCluster .ascii ⟨fun k => k, fun _ => none⟩ listedTwice
    created.1.isOk = true ∧ listedTwice.orderedGroups = [[1], [1], [0]] ∧
      ¬ listedTwice.orderedGroups.flatten.Perm (List.range listedTwice.hosts.length) ∧
      (created.2.startVisits .ascii ⟨fun k => k, fun _ => none⟩ "lab").map Visit.host = [1, 1, 0] ∧
      calls (created.2.startVisits .ascii ⟨fun k => k, fun _ => none⟩ "lab") =
        [(1, 0), (1, 0), (0, 0)] := by
  decide +kernel

/-! ### A provisioning without failing writes -/

/-- The manager with a cluster written to its file. -/
def put (m : ClusterManager json) (c : ClusterDefinition) : ClusterManager json :=
  { m with store := ⟨m.store.files.set (ClusterStore.path c.name)
      (json.dumps (some 2) c.toDict)⟩ }

variable {m : ClusterManager json} {c : ClusterDefinition} {env : Env}

theorem saveCluster_eq_put (hvalid : validateClusterName py c.name = .ok ())
    {fault : Option PyExc} (hfault : fault = none) :
    m.saveCluster py fault c = .ok (m.put c) := by
  simp [saveCluster, ClusterStore.save, hvalid, hfault, Except.map, put]

/-- Of two writes of a cluster the last one counts. -/
theorem put_put {c' : ClusterDefinition} (h : c'.name = c.name) :
    (m.put c).put c' = m.put c' := by
  rw [put, put, put, h]
  simp only [Dict.set_set]

/-- What is written is read back. -/
theorem get_put (hvalid : validateClusterName py c.name = .ok ()) :
    (m.put c).store.get py c.name = .ok (some c) := by
  rw [ClusterStore.get, hvalid]
  simp [put, ClusterStore.readText, json.loads_dumps, ClusterDefinition.fromDict_toDict]

/-- The pass for a host when the writes succeed. -/
def pass (m : ClusterManager json) (env : Env) (c : ClusterDefinition) (k i : ℕ) : Visit :=
  let given :=
    (c.modifyHost i fun h => { h with state := .provisioning }).touch (env.now (2 * k + 1))
  let error := m.runCallbacks given i
  { host := i, round := m.rounds, given := given, called := m.calledCallbacks given i,
    error := error
    after := (given.modifyHost i (ClusterHost.report error)).touch (env.now (2 * k + 2)) }

/-- The manager after a pass. -/
def passed (m : ClusterManager json) (v : Visit) : ClusterManager json :=
  { m.put v.after with rounds := m.rounds + 1 }

theorem provisionHost_eq (hvalid : validateClusterName py c.name = .ok ()) {k : ℕ}
    (hfirst : env.fault (2 * k) = none) (hsecond : env.fault (2 * k + 1) = none) (ok : Bool)
    (i : ℕ) : provisionHost py env m c ok k i =
      (.ok ((m.pass env c k i).after, ok && (m.pass env c k i).error.isNone),
        m.passed (m.pass env c k i)) := by
  let given :=
    (c.modifyHost i fun h => { h with state := .provisioning }).touch (env.now (2 * k + 1))
  have hgiven : m.saveCluster py (env.fault (2 * k)) given = .ok (m.put given) :=
    saveCluster_eq_put (c := given) hvalid hfirst
  let v := m.pass env c k i
  have hafter : ({ m.put given with rounds := m.rounds + 1 } : ClusterManager json).saveCluster py
      (env.fault (2 * k + 1)) v.after = .ok (m.passed v) := by
    rw [saveCluster_eq_put (c := v.after) hvalid hsecond]
    have hput : (m.put given).put v.after = m.put v.after := put_put rfl
    exact congrArg
      (fun m' : ClusterManager json => Except.ok { m' with rounds := m.rounds + 1 }) hput
  rw [provisionHost]
  simp only [given] at hgiven
  simp only [hgiven, recordOutcome_eq]
  change (match ({ m.put given with rounds := m.rounds + 1 } : ClusterManager json).saveCluster py
    (env.fault (2 * k + 1)) v.after with
      | .error e => (Except.error e, _)
      | .ok m => (Except.ok (v.after, ok && v.error.isNone), m)) = _
  rw [hafter]

theorem visits_cons (hvalid : validateClusterName py c.name = .ok ())
    (hfault : ∀ k, env.fault k = none) (ok : Bool) (k i : ℕ) (is : List ℕ) :
    visits py env m c ok k (i :: is) = m.pass env c k i ::
      visits py env (m.passed (m.pass env c k i)) (m.pass env c k i).after
        (ok && (m.pass env c k i).error.isNone) (k + 1) is := by
  have hgiven := saveCluster_eq_put (m := m) (c := (m.pass env c k i).given) hvalid
    (hfault (2 * k))
  simp only [pass] at hgiven
  rw [visits, provisionHost_eq hvalid (hfault _) (hfault _)]
  simp only [hgiven, recordOutcome_eq]
  rfl

theorem pass_after_hosts (k i : ℕ) : (m.pass env c k i).after.hosts =
    c.hosts.modify i (ClusterHost.report (m.pass env c k i).error) := by
  exact modify_report _ _ _

/-- What a pass without failing writes shows: the callbacks raised the error, and the host ends
with it. -/
structure Visit.Settled (callbacks : List ProvisionCallback) (v : Visit) : Prop where
  raised : ∃ h, v.given.hosts[v.host]? = some h ∧
    v.error = callbacks.findSome? fun cb => cb v.round v.given h
  outcome : ∃ h, v.after.hosts[v.host]? = some h ∧ (v.error = none → h.state = .complete) ∧
    ∀ e, v.error = some e → h.state = .failed ∧ h.errorMessage = e
  called : 0 < v.called ↔ callbacks ≠ []

theorem pass_given_host {i : ℕ} (hi : i < c.hosts.length) (k : ℕ) :
    (m.pass env c k i).given.hosts[i]? = some { c.hosts[i] with state := .provisioning } := by
  simp [pass, ClusterDefinition.getElem?_modifyHost, hi]

theorem pass_settled {i : ℕ} (hi : i < c.hosts.length) (k : ℕ) :
    (m.pass env c k i).Settled m.provisionCallbacks where
  raised := by
    refine ⟨_, pass_given_host hi k, ?_⟩
    show ((m.pass env c k i).given.hosts[i]?.bind _) = _
    rw [pass_given_host hi]
    rfl
  outcome := by
    refine ⟨(c.hosts[i]).report (m.pass env c k i).error, ?_, fun h => ?_, fun e h => ?_⟩
    · rw [pass_after_hosts]
      show (c.hosts.modify i _)[i]? = _
      simp [hi]
    · rw [h]
      rfl
    · rw [h]
      exact ⟨rfl, rfl⟩
  called := by
    show 0 < ((m.pass env c k i).given.hosts[i]?.elim 0 _) ↔ _
    rw [pass_given_host hi, Option.elim_some]
    split
    · exact List.length_pos_iff
    · next j hj =>
      refine iff_of_true (Nat.succ_pos j) fun hnil => ?_
      rw [hnil] at hj
      cases hj

/-- **The loop without failing writes.** It visits all hosts in order, reports the outcome of each
visit, and leaves in the store what is saved last. -/
theorem provisionHosts_eq (hvalid : validateClusterName py c.name = .ok ())
    (hfault : ∀ k, env.fault k = none) (ok : Bool) (k : ℕ) (is : List ℕ)
    (his : ∀ i ∈ is, i < c.hosts.length) :
    ∃ updatedAt m', provisionHosts py env m c ok k is =
        (.ok ({ c with
          hosts := reported c.hosts ((visits py env m c ok k is).map Visit.report)
          updatedAt := updatedAt },
          ok && (visits py env m c ok k is).all (·.error.isNone)), m') ∧
      (visits py env m c ok k is).map Visit.host = is ∧
      (∀ v ∈ visits py env m c ok k is, v.Settled m.provisionCallbacks) ∧
      ∀ c', c'.name = c.name → m'.put c' = { m.put c' with rounds := m.rounds + is.length } := by
  induction is generalizing m c ok k with
  | nil => exact ⟨c.updatedAt, m, by simp [provisionHosts, visits, reported], rfl, by simp [visits],
      fun c' _ => rfl⟩
  | cons i is ih =>
    let v := m.pass env c k i
    have hlen : v.after.hosts.length = c.hosts.length := by
      rw [pass_after_hosts, List.length_modify]
    rw [List.forall_mem_cons] at his
    obtain ⟨updatedAt, m', hloop, hhosts, hsettled, hput⟩ := ih (m := m.passed v) (c := v.after)
      hvalid (ok && v.error.isNone) (k + 1) (fun j hj => hlen ▸ his.2 j hj)
    rw [visits_cons hvalid hfault]
    refine ⟨updatedAt, m', ?_, ?_, ?_, ?_⟩
    · rw [provisionHosts, provisionHost_eq hvalid (hfault _) (hfault _)]
      dsimp only
      rw [hloop, pass_after_hosts, Bool.and_assoc]
      rfl
    · rw [List.map_cons, hhosts]
      rfl
    · rw [List.forall_mem_cons]
      exact ⟨pass_settled his.1 k, hsettled⟩
    · intro c' hname
      have hlast : (m.put v.after).put c' = m.put c' := put_put hname
      rw [hput c' hname, List.length_cons]
      show ({ (m.put v.after).put c' with rounds := m.rounds + 1 + is.length } :
        ClusterManager json) = _
      rw [hlast, Nat.add_assoc, Nat.add_comm 1]

/-- The cluster after a provisioning with these passes. -/
def provisioned (c : ClusterDefinition) (vs : List Visit) (updatedAt : Option ℚ) :
    ClusterDefinition :=
  let c := { c with hosts := reported c.hosts (vs.map Visit.report), updatedAt := updatedAt }
  { c with state := finalState c (vs.all (·.error.isNone)) }

theorem validate_of_get {name : String} {o : Option ClusterDefinition}
    (hget : m.store.get py name = .ok o) : validateClusterName py name = .ok () := by
  obtain ⟨⟨⟩, hvalid, -⟩ := bind_eq_ok_iff.mp hget
  exact hvalid

/-- **A provisioning without failing writes**: its passes go over the groups, and what it returns
and stores follows from them. -/
theorem startProvisioning_eq (hfault : ∀ k, env.fault k = none)
    (hstored : m.store.get py c.name = .ok (some c)) (hidle : c.state ≠ .provisioning) :
    ∃ updatedAt, m.startProvisioning py env c.name =
        (.ok (provisioned c (m.startVisits py env c.name) updatedAt),
          { m.put (provisioned c (m.startVisits py env c.name) updatedAt) with
            rounds := m.rounds + c.orderedGroups.flatten.length }) ∧
      (m.startVisits py env c.name).map Visit.host = c.orderedGroups.flatten ∧
      ∀ v ∈ m.startVisits py env c.name, v.Settled m.provisionCallbacks := by
  have hvalid := validate_of_get hstored
  let c₀ := { c with state := .provisioning }.touch (env.now 0)
  have hvisits : m.startVisits py env c.name =
      visits py env m c₀ true 0 c₀.orderedGroups.flatten := by
    rw [startVisits, hstored]
    exact if_neg hidle
  obtain ⟨updatedAt, m', hloop, hhosts, hsettled, hput⟩ := provisionHosts_eq (m := m) (c := c₀)
    hvalid hfault true 0 c₀.orderedGroups.flatten
      fun i hi => ClusterDefinition.lt_of_mem_orderedGroups hi
  rw [hvisits]
  refine ⟨some (env.now (2 * c.orderedGroups.flatten.length + 1)), ?_, hhosts, hsettled⟩
  rw [startProvisioning, hstored]
  dsimp only
  rw [if_neg hidle]
  let c' := provisioned c (visits py env m c₀ true 0 c₀.orderedGroups.flatten)
    (some (env.now (2 * c.orderedGroups.flatten.length + 1)))
  have hsave : m'.saveCluster py (env.fault (2 * c₀.orderedGroups.flatten.length)) c' =
      .ok { m.put c' with rounds := m.rounds + c.orderedGroups.flatten.length } := by
    rw [saveCluster_eq_put (c := c') hvalid (hfault _), hput c' rfl]
    rfl
  rw [Bool.true_and] at hloop
  simp only [c₀] at hloop
  simp only [hloop]
  change (match m'.saveCluster py (env.fault (2 * c₀.orderedGroups.flatten.length)) c' with
    | .error e => (Except.error e, _)
    | .ok m => (Except.ok c', m)) = _
  rw [hsave]

/-- What a provisioning of `c` with the passes `vs` and the result `c'` has done. -/
structure ProvisioningOutcome (callbacks : List ProvisionCallback) (c c' : ClusterDefinition)
    (vs : List Visit) : Prop where
  visited : vs.map Visit.host = c.orderedGroups.flatten
  none_skipped : ∀ i < c.hosts.length, i ∈ vs.map Visit.host
  visits_settled : ∀ v ∈ vs, v.Settled callbacks
  /-- Hosts whose role is listed come first, in the order of the first occurrences. -/
  in_order : ∀ i j (hi : i < c.hosts.length) (hj : j < c.hosts.length),
    c.hosts[i].role ∈ c.provisioningOrder →
    (c.hosts[j].role ∈ c.provisioningOrder →
      c.provisioningOrder.idxOf c.hosts[i].role < c.provisioningOrder.idxOf c.hosts[j].role) →
    ∀ cb, Precedes (i, 0) (j, cb) (calls vs)
  /-- The hosts of the result went through the outcomes of their visits, in order. -/
  hosts : c'.hosts = reported c.hosts (vs.map Visit.report)
  same_length : c'.hosts.length = c.hosts.length
  hosts_settled : ∀ h ∈ c'.hosts, h.state = .complete ∨ h.state = .failed
  state : c'.state = if ∀ v ∈ vs, v.error = none then .complete
    else if ∃ h ∈ c'.hosts, h.state = .complete then .partialState else .failed

end ClusterManager

/-- A host whose role is listed first comes first in the groups. -/
theorem ClusterDefinition.precedes_orderedGroups {c : ClusterDefinition} {i j : ℕ}
    (hi : i < c.hosts.length) (hj : j < c.hosts.length)
    (hlisted : c.hosts[i].role ∈ c.provisioningOrder)
    (hfirst : c.hosts[j].role ∈ c.provisioningOrder →
      c.provisioningOrder.idxOf c.hosts[i].role < c.provisioningOrder.idxOf c.hosts[j].role) :
    Precedes i j c.orderedGroups.flatten := by
  have hgroup : i ∈ c.hostsByRole c.hosts[i].role := by simp [hostsByRole, hi]
  rw [flatten_orderedGroups]
  refine Precedes.append_of_mem (precedes_flatMap fun pre role post hsplit hmem => ?_)
    (List.mem_flatMap.mpr ⟨_, hlisted, hgroup⟩)
  have hrole : role = c.hosts[j].role := by
    simpa [hostsByRole, hj, eq_comm] using (List.mem_filter.mp hmem).2
  have hother : c.hosts[j].role ∈ c.provisioningOrder := by simp [hsplit, hrole]
  exact ⟨_, precedes_of_idxOf_lt (hfirst hother) pre post (hrole ▸ hsplit), hgroup⟩

namespace ClusterManager

variable {json : JsonText}

/-- The passes that run callbacks for a host that comes first run them first. -/
theorem precedes_calls {vs : List Visit} {callbacks : List ProvisionCallback} {i j : ℕ}
    (hsettled : ∀ v ∈ vs, v.Settled callbacks) (h : Precedes i j (vs.map Visit.host)) (cb : ℕ) :
    Precedes (i, 0) (j, cb) (calls vs) := by
  refine precedes_flatMap fun pre v post hsplit hmem => ?_
  obtain ⟨cb', hcb, heq⟩ := List.mem_map.mp hmem
  obtain ⟨rfl, rfl⟩ := Prod.mk.inj heq
  obtain ⟨v', hv', rfl⟩ := List.mem_map.mp (h (pre.map Visit.host) (post.map Visit.host)
    (by simp [hsplit]))
  have hv : v ∈ vs := by simp [hsplit]
  have hcalled : 0 < v'.called := by
    rw [(hsettled v' (by simp [hsplit, hv'])).called, ← (hsettled v hv).called]
    exact Nat.zero_lt_of_lt (List.mem_range.mp hcb)
  exact ⟨v', hv', List.mem_map.mpr ⟨0, List.mem_range.mpr hcalled, rfl⟩⟩

/-- **Provisioning.** Without failing writes, provisioning a stored cluster that is not being
provisioned returns: every host is visited, in the order of the roles, and ends COMPLETE or
FAILED; a host whose callbacks raise is FAILED for that visit with that error, and the later hosts
are visited all the same; the final state is COMPLETE if nothing was raised, else PARTIAL if some
host is COMPLETE, else FAILED; and the returned cluster is the stored one. -/
theorem start_provisioning_settles (py : StrLib) (m : ClusterManager json) (env : Env)
    (hfault : ∀ k, env.fault k = none) (c : ClusterDefinition)
    (hstored : m.store.get py c.name = .ok (some c)) (hidle : c.state ≠ .provisioning) :
    ∃ c', (m.startProvisioning py env c.name).1 = .ok c' ∧
      (m.startProvisioning py env c.name).2.store.get py c.name = .ok (some c') ∧
      (m.startProvisioning py env c.name).2.rounds =
        m.rounds + (m.startVisits py env c.name).length ∧
      ProvisioningOutcome m.provisionCallbacks c c' (m.startVisits py env c.name) := by
  obtain ⟨updatedAt, hstart, hhosts, hsettled⟩ := startProvisioning_eq hfault hstored hidle
  let vs := m.startVisits py env c.name
  let c' := provisioned c vs updatedAt
  have hreports : (vs.map Visit.report).map Prod.fst = c.orderedGroups.flatten := by
    rw [List.map_map]
    exact hhosts
  have hall : ∀ i < c.hosts.length, i ∈ c.orderedGroups.flatten := fun i hi =>
    ClusterDefinition.mem_flatten_orderedGroups hi
  refine ⟨c', by rw [hstart], ?_, (startProvisioning_logged env hstored).rounds, ?_⟩
  · rw [hstart]
    exact get_put (c := c') (validate_of_get hstored)
  · refine ⟨hhosts, fun i hi => hhosts ▸ hall i hi, hsettled, ?_, rfl, length_reported _ _, ?_, ?_⟩
    · intro i j hi hj hlisted hfirst
      refine precedes_calls hsettled ?_
      rw [hhosts]
      exact ClusterDefinition.precedes_orderedGroups hi hj hlisted hfirst
    · exact settled_of_reported fun i hi => hreports ▸ hall i hi
    · show finalState _ _ = _
      rw [finalState]
      simp only [List.all_eq_true, Option.isNone_iff_eq_none, List.any_eq_true, decide_eq_true_eq]
      rfl

/-- A manager whose callback raises for one host, with a cluster in its store. -/
private def diskManager : ClusterManager .parsed :=
  put ⟨⟨∅⟩, [fun _ _ host => if host.hostname = "b" then some "no disk" else none], 0⟩ listedTwice

/-- One of two hosts fails, and its role is listed twice: it is visited twice before the other. -/
theorem start_provisioning_settles_lab :
    ∃ c', (diskManager.startProvisioning .ascii ⟨fun k => k, fun _ => none⟩ "lab").1 = .ok c' ∧
      (diskManager.startProvisioning .ascii ⟨fun k => k, fun _ => none⟩ "lab").2.store.get .ascii
        "lab" = .ok (some c') ∧
      (diskManager.startProvisioning .ascii ⟨fun k => k, fun _ => none⟩ "lab").2.rounds =
        diskManager.rounds +
          (diskManager.startVisits .ascii ⟨fun k => k, fun _ => none⟩ "lab").length ∧
      ProvisioningOutcome diskManager.provisionCallbacks listedTwice c'
        (diskManager.startVisits .ascii ⟨fun k => k, fun _ => none⟩ "lab") :=
  start_provisioning_settles .ascii diskManager ⟨fun k => k, fun _ => none⟩ (fun _ => rfl)
    listedTwice (get_put (by decide +kernel)) (by decide)

end ClusterManager

end TftpOS
