import TftpOS.Provisioning

/-!
# Failing writes in a provisioning

`start_provisioning` catches what a callback raises, but not what `ClusterStore.save` raises. The
first save of a run marks the stored cluster PROVISIONING, and only the last one takes the mark
back; so when a save fails, the stored cluster can be provisioned again exactly when nothing had
been written yet (`failed_save_restartable_iff`). The loop up to the failing save is
`provisionHosts_append`.
-/

namespace TftpOS

open Lib

/-- Nothing of the cluster is being provisioned. -/
def ClusterDefinition.Idle (c : ClusterDefinition) : Prop :=
  c.state ≠ .provisioning ∧ ∀ h ∈ c.hosts, h.state ≠ .provisioning

namespace ClusterManager

variable {json : JsonText} {py : StrLib} {m : ClusterManager json} {c : ClusterDefinition}
  {env : Env} {k p : ℕ} {e : PyExc}

/-- The manager when a failing `write_text` leaves the file of a cluster as it was (`none`), or
has already overwritten it with a text, cut short or not. -/
def leave (m : ClusterManager json) (name : String) : Option json.Text → ClusterManager json
  | none => m
  | some text => { m with store := ⟨m.store.files.set (ClusterStore.path name) text⟩ }

/-- `start_provisioning` can be called again: the cluster is stored, and neither it nor a host
of it is PROVISIONING. -/
def Restartable (py : StrLib) (m : ClusterManager json) (name : String) : Prop :=
  ∃ c, m.store.get py name = .ok (some c) ∧ c.Idle

/-- The stored cluster is PROVISIONING. -/
def Stuck (py : StrLib) (m : ClusterManager json) (name : String) : Prop :=
  ∃ c, m.store.get py name = .ok (some c) ∧ c.state = .provisioning

theorem Stuck.not_restartable {name : String} (h : m.Stuck py name) : ¬ m.Restartable py name := by
  obtain ⟨c, hget, hstate⟩ := h
  rintro ⟨c', hget', hidle, -⟩
  rw [hget] at hget'
  cases hget'
  exact hidle hstate

/-- A stuck cluster is refused from then on. -/
theorem Stuck.startProvisioning {name : String} (h : m.Stuck py name) (env : Env) :
    m.startProvisioning py env name =
      (.error ⟨.valueError, "cluster " ++ py.repr name ++ " is already being provisioned"⟩, m) := by
  obtain ⟨c, hget, hstate⟩ := h
  rw [ClusterManager.startProvisioning, hget]
  exact if_pos hstate

theorem saveCluster_eq_error (hvalid : validateClusterName py c.name = .ok ())
    {fault : Option PyExc} (hfault : fault = some e) :
    m.saveCluster py fault c = .error e := by
  simp only [saveCluster, ClusterStore.save, hvalid, hfault]
  rfl

/-- The loop over hosts whose writes succeed leaves the last of them in the store. -/
theorem provisionHosts_append (hvalid : validateClusterName py c.name = .ok ()) (ok : Bool)
    (is rest : List ℕ) (hfault : ∀ q < 2 * (k + is.length), env.fault q = none) :
    ∃ m' c' ok', provisionHosts py env m c ok k (is ++ rest) =
        provisionHosts py env m' c' ok' (k + is.length) rest ∧
      c'.name = c.name ∧ c'.state = c.state ∧
      (is = [] ∧ m' = m ∧ c' = c ∨ is ≠ [] ∧ m'.store.get py c.name = .ok (some c')) := by
  induction is generalizing m c ok k with
  | nil => exact ⟨m, c, ok, rfl, rfl, rfl, .inl ⟨rfl, rfl, rfl⟩⟩
  | cons i is ih =>
    rw [List.length_cons] at hfault ⊢
    let v := m.pass env c k i
    have hstep := provisionHost_eq (m := m) hvalid (hfault (2 * k) (by omega))
      (hfault (2 * k + 1) (by omega)) ok i
    obtain ⟨m', c', ok', hloop, hname, hstate, hstore⟩ := ih (m := m.passed v) (c := v.after)
      (k := k + 1) hvalid (ok && v.error.isNone) fun q hq => hfault q (by omega)
    refine ⟨m', c', ok', ?_, hname, hstate, .inr ⟨List.cons_ne_nil _ _, ?_⟩⟩
    · rw [List.cons_append, provisionHosts, hstep]
      dsimp only
      rw [hloop, Nat.add_assoc, Nat.add_comm 1]
    · rcases hstore with ⟨-, rfl, rfl⟩ | ⟨-, hget⟩
      · exact get_put (c := v.after) hvalid
      · exact hget

/-- A pass whose first write fails leaves the store as it was. -/
theorem provisionHost_first_fails (hvalid : validateClusterName py c.name = .ok ())
    (hfault : env.fault (2 * k) = some e) (ok : Bool) (i : ℕ) :
    provisionHost py env m c ok k i = (.error e, m) := by
  rw [provisionHost]
  dsimp only
  rw [saveCluster_eq_error (by exact hvalid) hfault]

/-- A pass whose second write fails leaves what its first one wrote. -/
theorem provisionHost_second_fails (hvalid : validateClusterName py c.name = .ok ())
    (hfirst : env.fault (2 * k) = none) (hsecond : env.fault (2 * k + 1) = some e) (ok : Bool)
    (i : ℕ) : provisionHost py env m c ok k i =
      (.error e, { m.put (m.pass env c k i).given with rounds := m.rounds + 1 }) := by
  have hgiven := saveCluster_eq_put (m := m) (c := (m.pass env c k i).given) hvalid hfirst
  simp only [pass] at hgiven
  rw [provisionHost]
  simp only [hgiven, recordOutcome_eq]
  rw [saveCluster_eq_error (by exact hvalid) hsecond]
  rfl

/-- Marking a cluster does not change the order of its hosts. -/
theorem orderedGroups_marked (state : ClusterState) (now : ℚ) :
    ({ c with state := state }.touch now).orderedGroups = c.orderedGroups := rfl

/-- A run whose loop raises, raises the same. -/
theorem startProvisioning_of_loop_error {m' : ClusterManager json}
    (hstored : m.store.get py c.name = .ok (some c)) (hidle : c.state ≠ .provisioning)
    (hloop : provisionHosts py env m ({ c with state := .provisioning }.touch (env.now 0)) true 0
      c.orderedGroups.flatten = (.error e, m')) :
    m.startProvisioning py env c.name = (.error e, m') := by
  rw [startProvisioning, hstored]
  dsimp only
  rw [if_neg hidle, orderedGroups_marked, hloop]

/-- A run whose loop ends raises what its last write raises. -/
theorem startProvisioning_of_last_error {m' : ClusterManager json} {c' : ClusterDefinition}
    {ok : Bool} (hstored : m.store.get py c.name = .ok (some c)) (hidle : c.state ≠ .provisioning)
    (hloop : provisionHosts py env m ({ c with state := .provisioning }.touch (env.now 0)) true 0
      c.orderedGroups.flatten = (.ok (c', ok), m'))
    (hvalid : validateClusterName py c'.name = .ok ())
    (hfault : env.fault (2 * c.orderedGroups.flatten.length) = some e) :
    m.startProvisioning py env c.name = (.error e, m') := by
  rw [startProvisioning, hstored]
  dsimp only
  rw [if_neg hidle, orderedGroups_marked, hloop]
  dsimp only
  rw [saveCluster_eq_error (by exact hvalid) hfault]

/-- **The run up to the failing write.** It raises what the write raises, and unless the write was
the first one the stored cluster is left PROVISIONING. -/
theorem startProvisioning_fails (hstored : m.store.get py c.name = .ok (some c))
    (hidle : c.state ≠ .provisioning) (hp : p ≤ 2 * c.orderedGroups.flatten.length)
    (hfault : env.fault p = some e) (hbefore : ∀ q < p, env.fault q = none) :
    ∃ m', m.startProvisioning py env c.name = (.error e, m') ∧
      (p = 0 ∧ m' = m ∨ p ≠ 0 ∧ m'.Stuck py c.name) := by
  have hvalid := validate_of_get hstored
  let c₀ := { c with state := .provisioning }.touch (env.now 0)
  let is := c.orderedGroups.flatten
  change p ≤ 2 * is.length at hp
  -- the write belongs to pass `j`, or is the one after the loop
  obtain ⟨j, hj, hpj⟩ : ∃ j ≤ is.length, p = 2 * j ∨ p = 2 * j + 1 ∧ j < is.length :=
    ⟨p / 2, by omega, by omega⟩
  have hlength : (is.take j).length = j := List.length_take_of_le hj
  obtain ⟨m', c', ok', hloop, hname, hstate, hstore⟩ := provisionHosts_append (m := m) (c := c₀)
    (k := 0) hvalid true (is.take j) (is.drop j) fun q hq => hbefore q (by omega)
  rw [List.take_append_drop, hlength, Nat.zero_add] at hloop
  have hvalid' : validateClusterName py c'.name = .ok () := hname ▸ hvalid
  have hfirst : 2 * j = 0 ∧ m' = m ∨ 2 * j ≠ 0 ∧ m'.Stuck py c.name := by
    rcases hstore with ⟨hnil, rfl, -⟩ | ⟨hcons, hget⟩
    · rw [hnil] at hlength
      exact .inl ⟨by simp [← hlength], rfl⟩
    · have hpos : 0 < j := hlength ▸ List.length_pos_iff.mpr hcons
      exact .inr ⟨by omega, c', hget, hstate⟩
  rcases hj.lt_or_eq with hlt | rfl
  · rw [List.drop_eq_getElem_cons hlt, provisionHosts] at hloop
    rcases hpj with rfl | ⟨rfl, -⟩
    · rw [provisionHost_first_fails hvalid' hfault] at hloop
      exact ⟨m', startProvisioning_of_loop_error hstored hidle hloop, hfirst⟩
    · rw [provisionHost_second_fails hvalid' (hbefore _ (Nat.lt_succ_self _)) hfault] at hloop
      refine ⟨_, startProvisioning_of_loop_error hstored hidle hloop,
        .inr ⟨Nat.succ_ne_zero _, (m'.pass env c' j is[j]).given, ?_, hstate⟩⟩
      rw [← show (m'.pass env c' j is[j]).given.name = c.name from hname]
      exact get_put (c := (m'.pass env c' j is[j]).given) hvalid'
  · obtain rfl : p = 2 * is.length := by omega
    rw [List.drop_length, provisionHosts] at hloop
    exact ⟨m', startProvisioning_of_last_error hstored hidle hloop hvalid' hfault, hfirst⟩

/-- **When a failing save leaves the cluster restartable.** A save that raises ends the
provisioning. When it leaves the file as it was, the cluster can be provisioned again if and only
if it was the first save of the run and no host was PROVISIONING before it; when it has
overwritten the file, if and only if what it wrote reads as an idle cluster. -/
theorem failed_save_restartable_iff (py : StrLib) (m : ClusterManager json) (env : Env)
    (c : ClusterDefinition) (hstored : m.store.get py c.name = .ok (some c))
    (hidle : c.state ≠ .provisioning) (p : ℕ) (hp : p ≤ 2 * c.orderedGroups.flatten.length)
    (e : PyExc) (hfault : env.fault p = some e) (hbefore : ∀ q < p, env.fault q = none)
    (left : Option json.Text) :
    (m.startProvisioning py env c.name).1 = .error e ∧
      (((m.startProvisioning py env c.name).2.leave c.name left).Restartable py c.name ↔
        match left with
        | none => p = 0 ∧ ∀ h ∈ c.hosts, h.state ≠ .provisioning
        | some text => ∃ c', ClusterStore.readText text = .ok c' ∧ c'.Idle) := by
  obtain ⟨m', hrun, hleft⟩ := startProvisioning_fails hstored hidle hp hfault hbefore
  rw [hrun]
  refine ⟨rfl, ?_⟩
  cases left with
  | none =>
    rcases hleft with ⟨rfl, rfl⟩ | ⟨hpos, hstuck⟩
    · simp [leave, Restartable, hstored, ClusterDefinition.Idle, hidle]
    · exact iff_of_false hstuck.not_restartable fun h => hpos h.1
  | some text =>
    simp [leave, Restartable, ClusterStore.get, validate_of_get hstored, bind_eq_ok_iff]

/-- A cluster of one host. -/
private def oneHost : ClusterDefinition :=
  { name := "lab", hosts := [{ hostname := "a", mac := "AA:BB:CC:DD:EE:01" }] }

/-- A manager without callbacks, with the cluster in its store. -/
private def labManager : ClusterManager .parsed := put ⟨⟨∅⟩, [], 0⟩ oneHost

/-- A run in which one write finds the disk read-only. -/
private def failingAt (p : ℕ) : Env :=
  ⟨fun k => k, fun k => if k = p then some ⟨.osError, "Read-only file system"⟩ else none⟩

/-- The first save fails, and the cluster can be provisioned again. -/
theorem failed_save_restartable_first :
    (labManager.startProvisioning .ascii (failingAt 0) "lab").1 =
        .error ⟨.osError, "Read-only file system"⟩ ∧
      ((labManager.startProvisioning .ascii (failingAt 0) "lab").2.leave "lab" none).Restartable
        .ascii "lab" := by
  have h := failed_save_restartable_iff .ascii labManager (failingAt 0) oneHost
    (get_put (by decide +kernel)) (by decide) 0 (Nat.zero_le _)
    ⟨.osError, "Read-only file system"⟩ rfl (fun _ h => absurd h (Nat.not_lt_zero _)) none
  exact ⟨h.1, h.2.mpr ⟨rfl, by decide⟩⟩

/-- The second save fails: the host has been provisioned, and its cluster stays PROVISIONING and
is refused from then on. -/
theorem failed_save_blocks :
    let after := (labManager.startProvisioning .ascii (failingAt 1) "lab").2
    (labManager.startProvisioning .ascii (failingAt 1) "lab").1 =
        .error ⟨.osError, "Read-only file system"⟩ ∧
      ¬ after.Restartable .ascii "lab" ∧
      (after.startProvisioning .ascii ⟨fun k => k, fun _ => none⟩ "lab").1 =
        .error ⟨.valueError, "cluster 'lab' is already being provisioned"⟩ := by
  have hfails : ∃ m', labManager.startProvisioning .ascii (failingAt 1) oneHost.name =
      (.error ⟨.osError, "Read-only file system"⟩, m') ∧
        (1 = 0 ∧ m' = labManager ∨ 1 ≠ 0 ∧ m'.Stuck .ascii oneHost.name) :=
    startProvisioning_fails (get_put (by decide +kernel)) (by decide) (by decide +kernel) rfl
      fun q hq => by rw [Nat.lt_one_iff.mp hq]; rfl
  obtain ⟨m', hrun, ⟨hzero, -⟩ | ⟨-, hstuck⟩⟩ := hfails
  · cases hzero
  · rw [show "lab" = oneHost.name from rfl, hrun]
    exact ⟨rfl, hstuck.not_restartable, by rw [hstuck.startProvisioning]; rfl⟩

end ClusterManager

end TftpOS
