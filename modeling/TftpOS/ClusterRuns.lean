import Mathlib.Tactic.FinCases
import TftpOS.Cluster

/-!
# Runs of the cluster manager

What holds of every cluster stored between two calls: COMPLETE and FAILED are said of a cluster
only when they hold of all its hosts, and nothing is left PROVISIONING (`Consistent`). While
`start_provisioning` runs, the stored cluster is not consistent; its loop settles every host it
visits (`Settled`), the groups visit every host (`mem_flatten_orderedGroups`), and the last
write restores consistency.
-/

namespace TftpOS

open Lib

/-- The state of a cluster agrees with the states of its hosts. -/
structure ClusterDefinition.Consistent (c : ClusterDefinition) : Prop where
  complete : c.state = .complete → ∀ h ∈ c.hosts, h.state = .complete
  failed : c.state = .failed → ∀ h ∈ c.hosts, h.state = .failed
  not_provisioning : c.state ≠ .provisioning
  hosts_not_provisioning : ∀ h ∈ c.hosts, h.state ≠ .provisioning

/-- The lifecycle fields of a definition that was just parsed. -/
structure ClusterDefinition.Fresh (c : ClusterDefinition) : Prop where
  state : c.state = .defined
  hosts : ∀ h ∈ c.hosts, h.state = .pending

namespace ClusterDefinition

variable {c : ClusterDefinition}

theorem Fresh.consistent (h : c.Fresh) : c.Consistent where
  complete hc := by simp [h.state] at hc
  failed hc := by simp [h.state] at hc
  not_provisioning := by simp [h.state]
  hosts_not_provisioning g hg := by simp [h.hosts g hg]

@[simp]
theorem touch_name (now : ℚ) : (c.touch now).name = c.name := rfl

@[simp]
theorem touch_hosts (now : ℚ) : (c.touch now).hosts = c.hosts := rfl

@[simp]
theorem touch_state (now : ℚ) : (c.touch now).state = c.state := rfl

/-- The hosts after an assignment, by position. -/
theorem getElem?_modifyHost (i j : ℕ) (f : ClusterHost → ClusterHost) :
    (c.modifyHost i f).hosts[j]? = if i = j then c.hosts[j]?.map f else c.hosts[j]? := by
  rw [modifyHost, List.getElem?_modify]
  split_ifs with h
  · rfl
  · simp

/-- A host after an assignment is the assigned one or one that was there before. -/
theorem mem_modifyHost {i : ℕ} {f : ClusterHost → ClusterHost} {h : ClusterHost}
    (hh : h ∈ (c.modifyHost i f).hosts) : (∃ g, h = f g) ∨ h ∈ c.hosts := by
  obtain ⟨j, hj⟩ := List.mem_iff_getElem?.mp hh
  rw [getElem?_modifyHost] at hj
  split_ifs at hj
  · obtain ⟨g, -, rfl⟩ := Option.map_eq_some_iff.mp hj
    exact .inl ⟨g, rfl⟩
  · exact .inr (List.mem_iff_getElem?.mpr ⟨j, hj⟩)

theorem state_of_mem_modifyHost {i : ℕ} {f : ClusterHost → ClusterHost} {s : HostState}
    (hf : ∀ g, (f g).state = s) {h : ClusterHost} (hh : h ∈ (c.modifyHost i f).hosts) :
    h.state = s ∨ h ∈ c.hosts := by
  rcases mem_modifyHost hh with ⟨g, rfl⟩ | hold
  · exact .inl (hf g)
  · exact .inr hold

/-- No host is left PROVISIONING by an assignment of another state. -/
theorem Consistent.modifyHost_not_provisioning (h : c.Consistent) {i : ℕ}
    {f : ClusterHost → ClusterHost} {s : HostState} (hf : ∀ g, (f g).state = s)
    (hs : s ≠ .provisioning) : ∀ g ∈ (c.modifyHost i f).hosts, g.state ≠ .provisioning := by
  intro g hg
  rcases state_of_mem_modifyHost hf hg with hstate | hold
  · rw [hstate]
    exact hs
  · exact h.hosts_not_provisioning g hold

/-- Every host belongs to a group. -/
theorem mem_flatten_orderedGroups {i : ℕ} (hi : i < c.hosts.length) :
    i ∈ c.orderedGroups.flatten := by
  have hget : c.hosts[i]? = some c.hosts[i] := List.getElem?_eq_getElem hi
  by_cases hrole : c.hosts[i].role ∈ c.provisioningOrder
  · -- the group of a role is not empty when a host has the role, so it is kept
    have hgroup : i ∈ c.hostsByRole c.hosts[i].role := by
      simp [hostsByRole, hi]
    have hmem : c.hostsByRole c.hosts[i].role ∈
        (c.provisioningOrder.map c.hostsByRole).filter (!·.isEmpty) := by
      refine List.mem_filter.mpr ⟨List.mem_map_of_mem hrole, ?_⟩
      simpa using List.ne_nil_of_mem hgroup
    rw [orderedGroups]
    split_ifs
    · exact List.mem_flatten_of_mem hmem hgroup
    · exact List.mem_flatten_of_mem (List.mem_append_left _ hmem) hgroup
  · have hrest : i ∈ (List.range c.hosts.length).filter fun i =>
        c.hosts[i]?.any (·.role ∉ c.provisioningOrder) := by
      simp [hi, hrole]
    rw [orderedGroups, if_neg (by simpa using List.ne_nil_of_mem hrest)]
    exact List.mem_flatten_of_mem (List.mem_append_right _ (List.mem_singleton_self _)) hrest

end ClusterDefinition

namespace ClusterManager

variable {json : JsonText} {py : StrLib}

/-! ### Marking one host -/

/-- `mark_host_complete` keeps a cluster consistent. -/
theorem consistent_completeHost {c : ClusterDefinition} (h : c.Consistent) (i : ℕ) (now : ℚ) :
    (completeHost c i now).Consistent := by
  let f : ClusterHost → ClusterHost := fun h => { h with state := .complete }
  have hmem : ∀ g ∈ (c.modifyHost i f).hosts, g.state = .complete ∨ g ∈ c.hosts := fun _ =>
    ClusterDefinition.state_of_mem_modifyHost (f := f) fun _ => rfl
  have hhosts : ∀ g ∈ (c.modifyHost i f).hosts, g.state ≠ .provisioning :=
    h.modifyHost_not_provisioning (fun _ => rfl) (by decide)
  rw [completeHost]
  split_ifs with hall hany
  · have hcomplete : ∀ g ∈ (c.modifyHost i f).hosts, g.state = .complete := by simpa using hall
    exact ⟨fun _ => hcomplete, nofun, nofun, hhosts⟩
  · exact ⟨nofun, nofun, nofun, hhosts⟩
  · -- the old state stays: neither COMPLETE nor FAILED was possible
    have hfail : ∀ g ∈ (c.modifyHost i f).hosts, g.state ≠ .failed := by simpa using hany
    refine ⟨fun hc => absurd ?_ hall, fun hf => absurd ?_ hall, h.not_provisioning, hhosts⟩
    · simp only [List.all_eq_true, decide_eq_true_eq]
      exact fun g hg => (hmem g hg).elim id (h.complete hc g)
    · simp only [List.all_eq_true, decide_eq_true_eq]
      exact fun g hg => (hmem g hg).elim id fun hold => absurd (h.failed hf g hold) (hfail g hg)

/-- `mark_host_failed` keeps a cluster consistent. -/
theorem consistent_failHost {c : ClusterDefinition} (h : c.Consistent) (i : ℕ) (error : String)
    (now : ℚ) : (failHost c i error now).Consistent := by
  let f : ClusterHost → ClusterHost := fun h => { h with state := .failed, errorMessage := error }
  have hmem : ∀ g ∈ (c.modifyHost i f).hosts, g.state = .failed ∨ g ∈ c.hosts := fun _ =>
    ClusterDefinition.state_of_mem_modifyHost (f := f) fun _ => rfl
  have hhosts : ∀ g ∈ (c.modifyHost i f).hosts, g.state ≠ .provisioning :=
    h.modifyHost_not_provisioning (fun _ => rfl) (by decide)
  rw [failHost]
  split_ifs with hany hall
  · exact ⟨nofun, nofun, nofun, hhosts⟩
  · have hfailed : ∀ g ∈ (c.modifyHost i f).hosts, g.state = .failed := by simpa using hall
    exact ⟨nofun, fun _ => hfailed, nofun, hhosts⟩
  · -- the old state stays: neither COMPLETE nor FAILED was possible
    have hcomplete : ∀ g ∈ (c.modifyHost i f).hosts, g.state ≠ .complete := by simpa using hany
    refine ⟨fun hc => absurd ?_ hall, fun hf => absurd ?_ hall, h.not_provisioning, hhosts⟩
    · simp only [List.all_eq_true, decide_eq_true_eq]
      exact fun g hg =>
        (hmem g hg).elim id fun hold => absurd (h.complete hc g hold) (hcomplete g hg)
    · simp only [List.all_eq_true, decide_eq_true_eq]
      exact fun g hg => (hmem g hg).elim id (h.failed hf g)

/-! ### The provisioning loop -/

/-- The host at a position has its outcome: COMPLETE, or FAILED and the flag says so. -/
def Settled (c : ClusterDefinition) (allSucceeded : Bool) (i : ℕ) : Prop :=
  ∀ h, c.hosts[i]? = some h → h.state = .complete ∨ h.state = .failed ∧ allSucceeded = false

/-- What passes of the loop keep of a cluster. -/
structure SameShape (c c' : ClusterDefinition) : Prop where
  name : c'.name = c.name
  length : c'.hosts.length = c.hosts.length

theorem SameShape.refl (c : ClusterDefinition) : SameShape c c := ⟨rfl, rfl⟩

theorem SameShape.trans {c c' c'' : ClusterDefinition} (h : SameShape c c')
    (h' : SameShape c' c'') : SameShape c c'' :=
  ⟨h'.name.trans h.name, h'.length.trans h.length⟩

theorem sameShape_recordOutcome (c : ClusterDefinition) (ok : Bool) (i : ℕ) (o : Option String) :
    SameShape c (recordOutcome c ok i o).1 := by
  cases o <;> exact ⟨rfl, by simp [recordOutcome, ClusterDefinition.modifyHost]⟩

/-- Recording an outcome settles the host, and unsettles no other. -/
theorem settled_recordOutcome {c : ClusterDefinition} {ok : Bool} {i j : ℕ} (o : Option String)
    (h : j = i ∨ Settled c ok j) :
    Settled (recordOutcome c ok i o).1 (recordOutcome c ok i o).2 j := by
  intro g hg
  cases o with
  | none =>
    rw [recordOutcome, ClusterDefinition.getElem?_modifyHost] at hg
    split_ifs at hg with hij
    · obtain ⟨old, -, rfl⟩ := Option.map_eq_some_iff.mp hg
      exact .inl rfl
    · exact (h.resolve_left (Ne.symm hij)) g hg
  | some error =>
    rw [recordOutcome, ClusterDefinition.getElem?_modifyHost] at hg
    split_ifs at hg with hij
    · obtain ⟨old, -, rfl⟩ := Option.map_eq_some_iff.mp hg
      exact .inr ⟨rfl, rfl⟩
    · exact ((h.resolve_left (Ne.symm hij)) g hg).imp_right fun hf => ⟨hf.1, rfl⟩

/-- Marking a host as being provisioned unsettles that host alone. -/
theorem settled_modifyHost {c : ClusterDefinition} {ok : Bool} {i j : ℕ}
    {f : ClusterHost → ClusterHost} (h : j = i ∨ Settled c ok j) :
    j = i ∨ Settled (c.modifyHost i f) ok j := by
  refine h.elim .inl fun hs => or_iff_not_imp_left.mpr fun hij g hg => ?_
  rw [ClusterDefinition.getElem?_modifyHost, if_neg (Ne.symm hij)] at hg
  exact hs g hg

/-- Two managers whose stores differ at most in the file of a cluster. -/
def SameOutside (name : String) (m m' : ClusterManager json) : Prop :=
  ∀ key, key ≠ ClusterStore.path name → m'.store.files.get? key = m.store.files.get? key

/-- A write of a cluster with a valid name, when the file system raises nothing. -/
theorem saveCluster_spec {m : ClusterManager json} {c : ClusterDefinition}
    {fault : Option PyExc} (hname : validateClusterName py c.name = .ok ())
    (hfault : fault = none) :
    ∃ m', m.saveCluster py fault c = .ok m' ∧ SameOutside c.name m m' ∧
      m'.store.files.get? (ClusterStore.path c.name) = some (json.dumps (some 2) c.toDict) := by
  refine ⟨{ m with store := ⟨m.store.files.set (ClusterStore.path c.name)
    (json.dumps (some 2) c.toDict)⟩ }, ?_, fun key hkey => Dict.get?_set_of_ne hkey,
    Dict.get?_set_self⟩
  simp [saveCluster, ClusterStore.save, hname, hfault, Except.map]

/-- One pass of the loop settles its host. -/
theorem provisionHost_spec {env : Env} (m : ClusterManager json) {c : ClusterDefinition}
    (hname : validateClusterName py c.name = .ok ()) (hfault : ∀ k, env.fault k = none)
    (ok : Bool) (k i : ℕ) :
    ∃ c' ok' m', provisionHost py env m c ok k i = (.ok (c', ok'), m') ∧ SameShape c c' ∧
      SameOutside c.name m m' ∧ ∀ j, j = i ∨ Settled c ok j → Settled c' ok' j := by
  let c₁ := (c.modifyHost i fun h => { h with state := .provisioning }).touch (env.now (2 * k + 1))
  obtain ⟨m₁, hsave₁, hout₁, -⟩ :=
    saveCluster_spec (m := m) (c := c₁) hname (hfault (2 * k))
  let o := m₁.runCallbacks c₁ i
  have hshape : SameShape c₁ (recordOutcome c₁ ok i o).1 := sameShape_recordOutcome c₁ ok i o
  let c₂ := (recordOutcome c₁ ok i o).1.touch (env.now (2 * k + 2))
  have hname₂ : validateClusterName py c₂.name = .ok () := by
    rw [ClusterDefinition.touch_name, hshape.name]
    exact hname
  obtain ⟨m₂, hsave₂, hout₂, -⟩ := saveCluster_spec
    (m := { m₁ with rounds := m₁.rounds + 1 }) (c := c₂) hname₂ (hfault (2 * k + 1))
  refine ⟨c₂, (recordOutcome c₁ ok i o).2, m₂, ?_, ?_, ?_, ?_⟩
  · rw [provisionHost]
    simp only [c₁] at hsave₁
    simp only [hsave₁]
    simp only [c₂, o, c₁] at hsave₂
    simp only [hsave₂]
    rfl
  · exact ⟨hshape.name, hshape.length.trans (by simp [c₁, ClusterDefinition.modifyHost])⟩
  · have hname_eq : c₂.name = c.name := hshape.name
    intro key hkey
    exact (hout₂ key (hname_eq ▸ hkey)).trans (hout₁ key hkey)
  · exact fun j hj => settled_recordOutcome o (settled_modifyHost hj)

/-- The loop settles every host it visits. -/
theorem provisionHosts_spec {env : Env} (m : ClusterManager json) {c : ClusterDefinition}
    (hname : validateClusterName py c.name = .ok ()) (hfault : ∀ k, env.fault k = none)
    (ok : Bool) (k : ℕ) (is : List ℕ) :
    ∃ c' ok' m', provisionHosts py env m c ok k is = (.ok (c', ok'), m') ∧ SameShape c c' ∧
      SameOutside c.name m m' ∧ ∀ j, j ∈ is ∨ Settled c ok j → Settled c' ok' j := by
  induction is generalizing m c ok k with
  | nil => exact ⟨c, ok, m, rfl, .refl c, fun _ _ => rfl, by simp⟩
  | cons i is ih =>
    obtain ⟨c₁, ok₁, m₁, h₁, hshape₁, hout₁, hsettled₁⟩ :=
      provisionHost_spec m hname hfault ok k i
    obtain ⟨c₂, ok₂, m₂, h₂, hshape₂, hout₂, hsettled₂⟩ :=
      ih m₁ (c := c₁) (hshape₁.name ▸ hname) ok₁ (k + 1)
    refine ⟨c₂, ok₂, m₂, ?_, hshape₁.trans hshape₂, ?_, ?_⟩
    · rw [provisionHosts, h₁]
      exact h₂
    · intro key hkey
      exact (hout₂ key (hshape₁.name ▸ hkey)).trans (hout₁ key hkey)
    · intro j hj
      rw [List.mem_cons] at hj
      rcases hj with (hj | hj) | hj
      · exact hsettled₂ j (.inr (hsettled₁ j (.inl hj)))
      · exact hsettled₂ j (.inl hj)
      · exact hsettled₂ j (.inr (hsettled₁ j (.inr hj)))

/-- A cluster with all hosts settled is consistent in its final state. -/
theorem consistent_finalState {c : ClusterDefinition} {ok : Bool}
    (h : ∀ i < c.hosts.length, Settled c ok i) (now : ℚ) :
    ({ c with state := finalState c ok }.touch now).Consistent := by
  have hmem : ∀ g ∈ c.hosts, g.state = .complete ∨ g.state = .failed ∧ ok = false := by
    intro g hg
    obtain ⟨i, hi, rfl⟩ := List.mem_iff_getElem.mp hg
    exact h i hi _ (List.getElem?_eq_getElem hi)
  have hhosts : ∀ g ∈ c.hosts, g.state ≠ .provisioning := by
    intro g hg
    rcases hmem g hg with hc | ⟨hf, -⟩ <;> simp [*]
  refine ⟨fun hc g hg => ?_, fun hf g hg => ?_, ?_, hhosts⟩
  · -- a FAILED host has cleared the flag
    refine (hmem g hg).resolve_right fun hbad => ?_
    have hstate : finalState c ok = .complete := hc
    rw [finalState, hbad.2, if_neg Bool.false_ne_true] at hstate
    split_ifs at hstate
  · have hstate : finalState c ok = .failed := hf
    rw [finalState] at hstate
    split_ifs at hstate with hok hany
    have hnone : ∀ g ∈ c.hosts, g.state ≠ .complete := by simpa using hany
    exact ((hmem g hg).resolve_left (hnone g hg)).1
  · show finalState c ok ≠ .provisioning
    rw [finalState]
    split_ifs <;> nofun

/-! ### The store between calls -/

/-- Every file of the store holds a cluster that satisfies `P`. -/
def Stored (P : ClusterDefinition → Prop) (m : ClusterManager json) : Prop :=
  ∀ key text, m.store.files.get? key = some text →
    ∃ c, text = json.dumps (some 2) c.toDict ∧ P c

/-- What every stored cluster satisfies: it is consistent, and a valid name saved it. -/
structure Sound (py : StrLib) (c : ClusterDefinition) : Prop where
  valid : validateClusterName py c.name = .ok ()
  consistent : c.Consistent

variable {m : ClusterManager json} {P : ClusterDefinition → Prop}

/-- A cluster read from the store is one of those stored. -/
theorem Stored.of_get (h : Stored P m) {name : String} {c : ClusterDefinition}
    (hget : m.store.get py name = .ok (some c)) : P c := by
  obtain ⟨-, -, hget⟩ := bind_eq_ok_iff.mp hget
  split at hget
  · cases hget
  · next text htext =>
    obtain ⟨c', rfl, hc'⟩ := h _ text htext
    obtain ⟨c'', hread, hc''⟩ := bind_eq_ok_iff.mp hget
    obtain rfl : c'' = c := by simpa using hc''
    rw [ClusterStore.readText, json.loads_dumps] at hread
    obtain rfl : c' = c'' := by
      simpa [ClusterDefinition.fromDict_toDict] using hread
    exact hc'

/-- A write stores a cluster, and its name was valid. -/
theorem saveCluster_eq_ok {fault : Option PyExc} {c : ClusterDefinition}
    {m' : ClusterManager json} (h : m.saveCluster py fault c = .ok m') :
    validateClusterName py c.name = .ok () ∧ m' = { m with
      store := ⟨m.store.files.set (ClusterStore.path c.name)
        (json.dumps (some 2) c.toDict)⟩ } := by
  obtain ⟨s, hs, rfl⟩ := map_eq_ok_iff.mp h
  obtain ⟨⟨⟩, hvalid, hs⟩ := bind_eq_ok_iff.mp hs
  cases fault with
  | some e => cases hs
  | none =>
    obtain rfl := Except.ok.inj hs
    exact ⟨hvalid, rfl⟩

/-- A write of a consistent cluster keeps the store sound. -/
theorem Stored.saveCluster (h : Stored (Sound py) m) {fault : Option PyExc}
    {c : ClusterDefinition} (hc : c.Consistent) {m' : ClusterManager json}
    (hsave : m.saveCluster py fault c = .ok m') : Stored (Sound py) m' := by
  obtain ⟨hvalid, rfl⟩ := saveCluster_eq_ok hsave
  intro key text htext
  rw [Dict.get?_set] at htext
  split_ifs at htext
  · exact ⟨c, (Option.some.inj htext).symm, hvalid, hc⟩
  · exact h key text htext

/-- `create_cluster` either changes nothing or saves the definition with new time stamps. -/
theorem createCluster_snd (env : Env) (d : ClusterDefinition) :
    (m.createCluster py env d).2 = m ∨ ∃ createdAt updatedAt m',
      m.saveCluster py (env.fault 0) { d with createdAt := createdAt, updatedAt := updatedAt } =
        .ok m' ∧ (m.createCluster py env d).2 = m' := by
  rw [createCluster]
  split
  · exact .inl rfl
  · split_ifs
    · exact .inl rfl
    · split
      · exact .inl rfl
      · exact .inl rfl
      · dsimp only
        split
        · exact .inl rfl
        · next m' hsave => exact .inr ⟨_, _, m', hsave, rfl⟩
    · exact .inl rfl
    · exact .inl rfl

/-- `mark_host_complete` and `mark_host_failed` either change nothing or save a stored cluster
with one host marked. -/
theorem markHost_snd (env : Env) (clusterName mac : String)
    (mark : ClusterDefinition → ℕ → ClusterDefinition) :
    (m.markHost py env clusterName mac mark).2 = m ∨ ∃ c i m',
      m.store.get py clusterName = .ok (some c) ∧
      m.saveCluster py (env.fault 0) (mark c i) = .ok m' ∧
      (m.markHost py env clusterName mac mark).2 = m' := by
  rw [markHost]
  split
  · exact .inl rfl
  · exact .inl rfl
  · next c hget =>
    split
    · exact .inl rfl
    · next i _ =>
      dsimp only
      split
      · exact .inl rfl
      · next m' hsave => exact .inr ⟨c, i, m', hget, hsave, rfl⟩

private theorem stored_markHost (h : Stored (Sound py) m) (env : Env) (clusterName mac : String)
    {mark : ClusterDefinition → ℕ → ClusterDefinition}
    (hmark : ∀ c i, c.Consistent → (mark c i).Consistent) :
    Stored (Sound py) (m.markHost py env clusterName mac mark).2 := by
  rcases markHost_snd env clusterName mac mark with heq | ⟨c, i, m', hget, hsave, heq⟩
  · rwa [heq]
  · rw [heq]
    exact h.saveCluster (hmark c i (h.of_get hget).consistent) hsave

/-- `start_provisioning` leaves the store sound when no write raises. -/
theorem stored_startProvisioning (h : Stored (Sound py) m) {env : Env}
    (hfault : ∀ k, env.fault k = none) (name : String) :
    Stored (Sound py) (m.startProvisioning py env name).2 := by
  rw [startProvisioning]
  split
  · exact h
  · exact h
  · next c hget =>
    have hsound := h.of_get hget
    split_ifs
    · exact h
    · let c₀ := { c with state := .provisioning }.touch (env.now 0)
      obtain ⟨c₁, ok, m₁, hloop, hshape, hout, hsettled⟩ :=
        provisionHosts_spec m (c := c₀) hsound.valid hfault true 0 c₀.orderedGroups.flatten
      have hall : ∀ i < c₁.hosts.length, Settled c₁ ok i := fun i hi =>
        hsettled i (.inl (ClusterDefinition.mem_flatten_orderedGroups (hshape.length ▸ hi)))
      let c₂ := { c₁ with state := finalState c₁ ok }.touch
        (env.now (2 * c₀.orderedGroups.flatten.length + 1))
      have hvalid : validateClusterName py c₂.name = .ok () := by
        show validateClusterName py c₁.name = .ok ()
        rw [hshape.name]
        exact hsound.valid
      obtain ⟨m₂, hsave, hout₂, hfile⟩ := saveCluster_spec (m := m₁) hvalid
        (hfault (2 * c₀.orderedGroups.flatten.length))
      simp only [c₀] at hloop
      simp only [hloop]
      simp only [c₂, c₀] at hsave
      simp only [hsave]
      intro key text htext
      -- the loop and the last write changed no file but the cluster's own
      by_cases hkey : key = ClusterStore.path c₂.name
      · rw [hkey, hfile] at htext
        exact ⟨c₂, (Option.some.inj htext).symm, hvalid, consistent_finalState hall _⟩
      · have hname : c₂.name = c₀.name := hshape.name
        rw [hout₂ key hkey, hout key (hname ▸ hkey)] at htext
        exact h key text htext

/-- `delete_cluster` keeps the store sound. -/
theorem stored_deleteCluster (h : Stored P m) (name : String) :
    Stored P (m.deleteCluster py name).2 := by
  rw [deleteCluster]
  split
  · exact h
  · next existed s hdelete =>
    obtain ⟨-, -, hdelete⟩ := bind_eq_ok_iff.mp hdelete
    split_ifs at hdelete
    · obtain ⟨-, rfl⟩ := Prod.mk.inj (Except.ok.inj hdelete)
      intro key text htext
      rw [Dict.get?_del] at htext
      split_ifs at htext
      exact h key text htext
    · obtain ⟨-, rfl⟩ := Prod.mk.inj (Except.ok.inj hdelete)
      exact h

/-- Calls with fresh definitions, during which no write raises. -/
def Op.Regular : Op → Prop
  | .createCluster env d => d.Fresh ∧ ∀ k, env.fault k = none
  | .startProvisioning env _ => ∀ k, env.fault k = none
  | .markHostComplete env _ _ => ∀ k, env.fault k = none
  | .markHostFailed env _ _ _ => ∀ k, env.fault k = none
  | .deleteCluster _ => True

/-- One call keeps the store sound. -/
theorem stored_step (h : Stored (Sound py) m) {op : Op} (hop : op.Regular) :
    Stored (Sound py) (step py m op).2 := by
  cases op with
  | createCluster env d =>
    show Stored (Sound py) (m.createCluster py env d).2
    rcases createCluster_snd env d with heq | ⟨createdAt, updatedAt, m', hsave, heq⟩
    · rwa [heq]
    · rw [heq]
      have hfresh : ({ d with createdAt := createdAt, updatedAt := updatedAt } :
          ClusterDefinition).Fresh := ⟨hop.1.state, hop.1.hosts⟩
      exact h.saveCluster hfresh.consistent hsave
  | startProvisioning env name => exact stored_startProvisioning h hop name
  | markHostComplete env clusterName mac =>
    exact stored_markHost h env clusterName mac fun c i hc => consistent_completeHost hc i _
  | markHostFailed env clusterName mac error =>
    exact stored_markHost h env clusterName mac fun c i hc => consistent_failHost hc i error _
  | deleteCluster name => exact stored_deleteCluster h name

/-- **Stored clusters are consistent.** Between the calls of any run from an empty store, with
fresh definitions, arbitrary callbacks and no failing write, every stored cluster is COMPLETE
only if all its hosts are, FAILED only if all its hosts are, and has nothing PROVISIONING. -/
theorem stored_clusters_consistent (py : StrLib) (m : ClusterManager json)
    (hempty : m.store.files = ∅) (ops : List Op) (hops : ∀ op ∈ ops, op.Regular) (name : String)
    (c : ClusterDefinition) (hget : (run (step py) m ops).store.get py name = .ok (some c)) :
    c.Consistent := by
  have hstart : Stored (Sound py) m := by
    intro key text htext
    rw [hempty] at htext
    cases htext
  have hstep : ∀ (m' : ClusterManager json) op, Op.Regular op → Stored (Sound py) m' →
      Stored (Sound py) (step py m' op).2 := fun _ _ hop h => stored_step h hop
  have hend : Stored (Sound py) (run (step py) m ops) := run_invariant hstep hstart hops
  exact (hend.of_get hget).consistent

/-- A host of a finished cluster reports a failure: the cluster is no longer COMPLETE. -/
theorem stored_clusters_consistent_lab :
    ∃ c, (run (step .ascii) (⟨⟨∅⟩, [], 0⟩ : ClusterManager .parsed)
        [.createCluster ⟨fun k => k, fun _ => none⟩
          { name := "lab", hosts := [{ hostname := "a", mac := "AA:01" },
            { hostname := "b", mac := "AA:02", role := "db" }],
            provisioningOrder := ["db", "db"] },
          .startProvisioning ⟨fun k => k, fun _ => none⟩ "lab",
          .markHostFailed ⟨fun k => k, fun _ => none⟩ "lab" "aa:01" "disk"]).store.get .ascii
        "lab" = .ok (some c) ∧ c.state = .partialState ∧ c.Consistent := by
  have hstate : (((run (step .ascii) (⟨⟨∅⟩, [], 0⟩ : ClusterManager .parsed)
      [.createCluster ⟨fun k => k, fun _ => none⟩
        { name := "lab", hosts := [{ hostname := "a", mac := "AA:01" },
          { hostname := "b", mac := "AA:02", role := "db" }],
          provisioningOrder := ["db", "db"] },
        .startProvisioning ⟨fun k => k, fun _ => none⟩ "lab",
        .markHostFailed ⟨fun k => k, fun _ => none⟩ "lab" "aa:01" "disk"]).store.get .ascii
      "lab").map fun c => c.map (·.state)) = .ok (some .partialState) := by decide +kernel
  obtain ⟨o, hget, ho⟩ := map_eq_ok_iff.mp hstate
  obtain ⟨c, rfl, hc⟩ := Option.map_eq_some_iff.mp ho
  refine ⟨c, hget, hc, stored_clusters_consistent .ascii ⟨⟨∅⟩, [], 0⟩ rfl _ ?_ "lab" c hget⟩
  intro op hop
  fin_cases hop
  · exact ⟨⟨rfl, by decide⟩, fun _ => rfl⟩
  · exact fun _ => rfl
  · exact fun _ => rfl

end ClusterManager

end TftpOS
