import TftpOS.ClusterReports
import TftpOS.Lib.Interleaving

/-!
# Concurrent calls on the cluster manager

`mark_host_complete` and `mark_host_failed` read the cluster, change one host in their copy and
save the copy whole; `start_provisioning` reads it once and saves its copy before and after every
host and at the end. Nothing holds off other calls in between, and a callback may make such calls
itself. Each call is a client of the shared manager (`callStep`), with one step for its read and
one for each of its saves, and a schedule is any interleaving of the steps of any number of calls
on one cluster. A call that is not interrupted is the sequential one (`mark_alone`,
`start_alone`).

A save puts back every host of the copy. So no report of a mark is lost exactly when no call
saves a copy that has another host in a state other than the one last reported
(`reports_kept_iff`).
-/

namespace TftpOS

open Lib

namespace ClusterManager

variable {json : JsonText} {py : StrLib}

/-- A call that may run concurrently: a mark of the host with a MAC, with the outcome it reports,
or a provisioning. -/
inductive Call where
  | mark (env : Env) (mac : String) (o : Option String)
  | start (env : Env)

/-- How far a call is. Between its steps it holds its copy of the cluster, and a provisioning
also whether all callbacks succeeded so far, the number of the pass, and the hosts still to be
visited. -/
inductive Phase where
  | idle
  | marking (env : Env) (o : Option String) (cluster : ClusterDefinition) (i : ℕ)
  | looping (env : Env) (cluster : ClusterDefinition) (allSucceeded : Bool) (k : ℕ)
      (hosts : List ℕ)
  | visiting (env : Env) (cluster : ClusterDefinition) (allSucceeded : Bool) (k i : ℕ)
      (hosts : List ℕ)
  | returned (cluster : ClusterDefinition)
  | raised (e : PyExc)

/-- A step of a call: its `ClusterStore.get`, or its next `ClusterStore.save`. -/
inductive StoreStep where
  | get (call : Call)
  | save

/-- A call up to its first save. -/
def Call.begin (py : StrLib) (name : String) (m : ClusterManager json) (call : Call) : Phase :=
  match m.store.get py name with
  | .error e => .raised e
  | .ok none => .raised ⟨.valueError, "cluster " ++ py.repr name ++ " not found"⟩
  | .ok (some cluster) =>
    match call with
    | .mark env mac o =>
      match cluster.findMac py mac with
      | none => .raised ⟨.valueError, "host with MAC " ++ py.repr mac ++ " not in cluster " ++
          py.repr name⟩
      | some i => .marking env o cluster i
    | .start env =>
      if cluster.state = .provisioning then
        .raised ⟨.valueError, "cluster " ++ py.repr name ++ " is already being provisioned"⟩
      else
        let cluster := { cluster with state := .provisioning }.touch (env.now 0)
        .looping env cluster true 0 cluster.orderedGroups.flatten

/-- A save, after which the call goes on if nothing is raised. -/
def saving (py : StrLib) (m : ClusterManager json) (fault : Option PyExc)
    (cluster : ClusterDefinition) (next : Phase) : ClusterManager json × Phase :=
  match m.saveCluster py fault cluster with
  | .error e => (m, .raised e)
  | .ok m => (m, next)

/-- One step of a call on the cluster with the name. -/
def callStep (py : StrLib) (name : String) (m : ClusterManager json) (phase : Phase) :
    StoreStep → ClusterManager json × Phase
  | .get call =>
    match phase with
    | .idle => (m, call.begin py name m)
    | phase => (m, phase)
  | .save =>
    match phase with
    | .marking env o cluster i =>
      let cluster := mark (env.now 0) o cluster i
      m.saving py (env.fault 0) cluster (.returned cluster)
    | .looping env cluster allSucceeded k (i :: is) =>
      let cluster := (cluster.modifyHost i fun h => { h with state := .provisioning }).touch
        (env.now (2 * k + 1))
      m.saving py (env.fault (2 * k)) cluster (.visiting env cluster allSucceeded k i is)
    | .visiting env cluster allSucceeded k i is =>
      -- the callbacks have run since the last step, and the marks they made are steps in between
      let outcome := recordOutcome cluster allSucceeded i (m.runCallbacks cluster i)
      let cluster := outcome.1.touch (env.now (2 * k + 2))
      let m := { m with rounds := m.rounds + 1 }
      m.saving py (env.fault (2 * k + 1)) cluster (.looping env cluster outcome.2 (k + 1) is)
    | .looping env cluster allSucceeded k [] =>
      let cluster :=
        { cluster with state := finalState cluster allSucceeded }.touch (env.now (2 * k + 1))
      m.saving py (env.fault (2 * k)) cluster (.returned cluster)
    | phase => (m, phase)

/-! ### Reports -/

/-- The manager, and for each host the state that the last mark of it that returned has reported,
unless a mark or a visit of the host has begun since. -/
structure Watched (json : JsonText) where
  manager : ClusterManager json
  reports : ℕ → Option HostState

/-- What a step does to the reports: a mark or a visit that begins withdraws the report for its
host, and a mark that returns makes one. -/
def reportsAfter (reports : ℕ → Option HostState) : Phase → Phase → ℕ → Option HostState
  | .idle, .marking _ _ _ i => Function.update reports i none
  | .marking _ o _ i, .returned _ => Function.update reports i (some (outcomeState o))
  | .looping _ _ _ _ _, .visiting _ _ _ _ i _ => Function.update reports i none
  | _, _ => reports

/-- One step of a call, with what it does to the reports. -/
def watchedStep (py : StrLib) (name : String) (w : Watched json) (phase : Phase) (a : StoreStep) :
    Watched json × Phase :=
  let next := callStep py name w.manager phase a
  (⟨next.1, reportsAfter w.reports phase next.2⟩, next.2)

/-- Calls that have not started, on a manager. -/
def watchedIdle (m : ClusterManager json) : Clients ℕ (Watched json) Phase :=
  ⟨⟨m, fun _ => none⟩, fun _ => .idle⟩

/-- The cluster has every host in the state that was reported for it. -/
def Shows (c : ClusterDefinition) (reports : ℕ → Option HostState) : Prop :=
  ∀ j s, reports j = some s → c.hosts[j]?.map (·.state) = some s

/-- The stored cluster has every host in the state that was reported for it. -/
def ReportsKept (py : StrLib) (name : String) (w : Watched json) : Prop :=
  ∃ c, w.manager.lookup py name = some c ∧ Shows c w.reports

/-- If the step saves a copy, then the copy has every host in the reported state, other than the
host that the call is about; and callbacks have the outcome reported for their host meanwhile. -/
def SavesReports (c : Clients ℕ (Watched json) Phase) : ℕ × StoreStep → Prop
  | (_, .get _) => True
  | (n, .save) =>
    match c.locals n with
    | .marking env _ cluster i =>
      env.fault 0 = none → Shows cluster (Function.update c.shared.reports i none)
    | .looping env cluster _ k (i :: _) =>
      env.fault (2 * k) = none → Shows cluster (Function.update c.shared.reports i none)
    | .visiting env cluster _ k i _ => env.fault (2 * k + 1) = none →
      Shows cluster (Function.update c.shared.reports i none) ∧
        ∀ s, c.shared.reports i = some s →
          outcomeState (c.shared.manager.runCallbacks cluster i) = s
    | .looping env cluster _ k [] => env.fault (2 * k) = none → Shows cluster c.shared.reports
    | .idle | .returned _ | .raised _ => True

/-! ### Calls one after the other -/

/-- A call that has ended. -/
def Phase.ended : Except PyExc ClusterDefinition → Phase
  | .ok cluster => .returned cluster
  | .error e => .raised e

/-- Where the loop of a provisioning leaves the call, after so many passes. -/
def loopEnded (env : Env) (k : ℕ) :
    Except PyExc (ClusterDefinition × Bool) × ClusterManager json → ClusterManager json × Phase
  | (.error e, m) => (m, .raised e)
  | (.ok (cluster, allSucceeded), m) => (m, .looping env cluster allSucceeded k [])

variable {m : ClusterManager json} {name : String}

/-- A call that has ended takes no further steps. -/
theorem foldl_ended (result : Except PyExc ClusterDefinition) (as : List StoreStep) :
    as.foldl (fun p a => callStep py name p.1 p.2 a) (m, .ended result) = (m, .ended result) := by
  refine List.foldl_fixed' (fun a => ?_) as
  cases result <;> cases a <;> rfl

/-- A mark whose two steps are not separated does what the sequential call does. -/
theorem mark_alone {s : Clients ℕ (ClusterManager json) Phase} {n : ℕ}
    (hidle : s.locals n = .idle) (env : Env) (mac : String) (o : Option String) :
    run (interleave (callStep py name)) s [(n, .get (.mark env mac o)), (n, .save)] =
      let result := s.shared.markHost py env name mac (mark (env.now 0) o)
      ⟨result.2, Function.update s.locals n (.ended result.1)⟩ := by
  rw [show [(n, StoreStep.get (.mark env mac o)), (n, .save)] =
    [.get (.mark env mac o), .save].map (Prod.mk n) from rfl, run_interleave_alone, hidle]
  simp only [List.foldl_cons, List.foldl_nil, callStep, Call.begin, markHost]
  cases s.shared.store.get py name with
  | error e => rfl
  | ok stored =>
    cases stored with
    | none => rfl
    | some c =>
      dsimp only
      cases c.findMac py mac with
      | none => rfl
      | some i =>
        dsimp only
        rw [saving]
        cases s.shared.saveCluster py (env.fault 0) (mark (env.now 0) o c i) <;> rfl

/-- The two saves of a visit that are not separated are the body of the loop. -/
theorem callStep_visit (env : Env) (c : ClusterDefinition) (ok : Bool) (k i : ℕ) (is : List ℕ) :
    let visiting := callStep py name m (.looping env c ok k (i :: is)) .save
    callStep py name visiting.1 visiting.2 .save =
      match provisionHost py env m c ok k i with
      | (.error e, m) => (m, .raised e)
      | (.ok (c, ok), m) => (m, .looping env c ok (k + 1) is) := by
  let given :=
    (c.modifyHost i fun h => { h with state := .provisioning }).touch (env.now (2 * k + 1))
  rw [provisionHost]
  cases hgiven : m.saveCluster py (env.fault (2 * k)) given with
  | error e =>
    simp only [given] at hgiven
    simp only [callStep, saving, hgiven]
  | ok m =>
    simp only [given] at hgiven
    simp only [callStep, saving, hgiven]
    let outcome := recordOutcome given ok i (m.runCallbacks given i)
    let m' : ClusterManager json := { m with rounds := m.rounds + 1 }
    cases m'.saveCluster py (env.fault (2 * k + 1)) (outcome.1.touch (env.now (2 * k + 2))) with
    | error e | ok m'' => rfl

/-- A loop whose steps are not separated does what the sequential loop does. -/
theorem foldl_looping (env : Env) (c : ClusterDefinition) (ok : Bool) (k : ℕ) (is : List ℕ) :
    (List.replicate (2 * is.length) StoreStep.save).foldl
        (fun p a => callStep py name p.1 p.2 a) (m, .looping env c ok k is) =
      loopEnded env (k + is.length) (provisionHosts py env m c ok k is) := by
  induction is generalizing m c ok k with
  | nil => rfl
  | cons i is ih =>
    rw [List.length_cons, Nat.mul_succ, List.replicate_succ, List.replicate_succ,
      List.foldl_cons, List.foldl_cons, callStep_visit, provisionHosts]
    rcases provisionHost py env m c ok k i with ⟨e | ⟨c', ok'⟩, m'⟩
    · exact foldl_ended (.error e) _
    · dsimp only
      rw [ih, Nat.add_assoc, Nat.add_comm 1]

/-- All saves of a provisioning, when its steps are not separated. -/
theorem foldl_start (env : Env) {saves : ℕ}
    (hsaves : ∀ c, m.store.get py name = .ok (some c) →
      2 * c.orderedGroups.flatten.length < saves) :
    (List.replicate saves StoreStep.save).foldl (fun p a => callStep py name p.1 p.2 a)
        (m, (Call.start env).begin py name m) =
      ((m.startProvisioning py env name).2, .ended (m.startProvisioning py env name).1) := by
  rw [Call.begin, startProvisioning]
  cases hget : m.store.get py name with
  | error e => exact foldl_ended (.error e) _
  | ok stored =>
    cases stored with
    | none => exact foldl_ended (.error _) _
    | some c =>
      dsimp only
      split_ifs with hstate
      · exact foldl_ended (.error _) _
      · -- two saves for each host, one for the end, and then the call has ended
        let c₀ := { c with state := .provisioning }.touch (env.now 0)
        obtain ⟨rest, rfl⟩ := Nat.exists_eq_add_of_lt (hsaves c hget)
        have hsplit :
            List.replicate (2 * c.orderedGroups.flatten.length + rest + 1) StoreStep.save =
            List.replicate (2 * c₀.orderedGroups.flatten.length) .save ++
              .save :: List.replicate rest .save := by
          rw [← List.replicate_succ, List.replicate_append_replicate, ← Nat.add_assoc]
          rfl
        rw [hsplit, List.foldl_append, foldl_looping, Nat.zero_add, List.foldl_cons]
        rcases provisionHosts py env m c₀ true 0 c₀.orderedGroups.flatten with
          ⟨e | ⟨c', ok⟩, m'⟩
        · exact foldl_ended (.error e) _
        · simp only [loopEnded, callStep, saving]
          let final := { c' with state := finalState c' ok }.touch
            (env.now (2 * c₀.orderedGroups.flatten.length + 1))
          cases m'.saveCluster py (env.fault (2 * c₀.orderedGroups.flatten.length)) final with
          | error e => exact foldl_ended (.error e) _
          | ok m'' => exact foldl_ended (.ok final) _

/-- A provisioning whose steps are not separated does what the sequential call does. -/
theorem start_alone {s : Clients ℕ (ClusterManager json) Phase} {n : ℕ}
    (hidle : s.locals n = .idle) (env : Env) {saves : ℕ}
    (hsaves : ∀ c, s.shared.store.get py name = .ok (some c) →
      2 * c.orderedGroups.flatten.length < saves) :
    run (interleave (callStep py name)) s
        ((n, .get (.start env)) :: List.replicate saves (n, .save)) =
      let result := s.shared.startProvisioning py env name
      ⟨result.2, Function.update s.locals n (.ended result.1)⟩ := by
  have hsteps : (n, StoreStep.get (.start env)) :: List.replicate saves (n, .save) =
      (.get (.start env) :: List.replicate saves .save).map (Prod.mk n) := by simp
  have hbegin : callStep py name s.shared .idle (.get (.start env)) =
      (s.shared, (Call.start env).begin py name s.shared) := rfl
  rw [hsteps, run_interleave_alone, hidle, List.foldl_cons, hbegin, foldl_start env hsaves]

/-- The reports do not influence the calls. -/
theorem run_watched (events : List (ℕ × StoreStep)) :
    let w := run (interleave (watchedStep py name)) (watchedIdle m) events
    let s := run (interleave (callStep py name)) ⟨m, fun _ => .idle⟩ events
    w.shared.manager = s.shared ∧ w.locals = s.locals := by
  let R (w : Clients ℕ (Watched json) Phase) (s : Clients ℕ (ClusterManager json) Phase) : Prop :=
    w.shared.manager = s.shared ∧ w.locals = s.locals
  have hsim : ∀ w s e, True → R w s →
      R (interleave (watchedStep py name) w e).2 (interleave (callStep py name) s e).2 := by
    rintro w s ⟨n, a⟩ - ⟨hmanager, hlocals⟩
    simp only [R, interleave, watchedStep, hmanager, hlocals, and_self]
  exact run_simulates (R := R) hsim ⟨rfl, rfl⟩ fun _ _ => trivial

/-! ### Saves -/

/-- A report puts the host in the state of its outcome. -/
theorem state_report (o : Option String) (h : ClusterHost) :
    (h.report o).state = outcomeState o := by
  cases o <;> rfl

variable {c c' : ClusterDefinition} {reports : ℕ → Option HostState}

/-- What a copy shows after an assignment to one host. -/
theorem shows_modify_iff {i : ℕ} (hi : i < c.hosts.length) {f : ClusterHost → ClusterHost}
    (hhosts : c'.hosts = c.hosts.modify i f) :
    Shows c' reports ↔ Shows c (Function.update reports i none) ∧
      ∀ s, reports i = some s → (f c.hosts[i]).state = s := by
  have hself : c'.hosts[i]? = some (f c.hosts[i]) := by simp [hhosts, hi]
  have hother : ∀ j, j ≠ i → c'.hosts[j]? = c.hosts[j]? := fun j hj => by
    simp [hhosts, Ne.symm hj]
  constructor
  · refine fun h => ⟨fun j s hj => ?_, fun s hs => ?_⟩
    · rcases update_eq_some_iff.mp hj with ⟨-, hj⟩ | ⟨hne, hj⟩
      · cases hj
      · exact hother j hne ▸ h j s hj
    · have hstate := h i s hs
      rw [hself] at hstate
      exact Option.some.inj hstate
  · rintro ⟨hrest, hi'⟩ j s hj
    by_cases hne : j = i
    · subst hne
      rw [hself, Option.map_some, hi' s hj]
    · rw [hother j hne]
      exact hrest j s (update_eq_some_iff.mpr (.inr ⟨hne, hj⟩))

/-- The cluster is stored under its name. -/
def StoredAs (py : StrLib) (name : String) (m : ClusterManager json) : Prop :=
  ∃ c, m.lookup py name = some c ∧ c.name = name

/-- A copy that a call holds is of the cluster with the name, and has the hosts that the call is
still to visit or to mark. -/
def Phase.HoldsCopy (name : String) : Phase → Prop
  | .marking _ _ cluster i => cluster.name = name ∧ i < cluster.hosts.length
  | .looping _ cluster _ _ is => cluster.name = name ∧ ∀ i ∈ is, i < cluster.hosts.length
  | .visiting _ cluster _ _ i is =>
    cluster.name = name ∧ ∀ j ∈ i :: is, j < cluster.hosts.length
  | .idle | .returned _ | .raised _ => True

/-- A save of a copy either writes it or raises. -/
theorem saving_cases (hm : StoredAs py name m) (hc : c.name = name) (fault : Option PyExc)
    (next : Phase) :
    fault = none ∧ m.saving py fault c next = (m.put c, next) ∧
        (m.put c).lookup py name = some c ∨
      ∃ e, fault = some e ∧ m.saving py fault c next = (m, .raised e) := by
  obtain ⟨c₀, hc₀, -⟩ := hm
  have hvalid : validateClusterName py c.name = .ok () :=
    hc ▸ validate_of_get (lookup_eq_some_iff.mp hc₀)
  cases fault with
  | none =>
    refine .inl ⟨rfl, ?_, ?_⟩
    · rw [saving, saveCluster_eq_put hvalid rfl]
    · rw [lookup_put hvalid, ← hc, Function.update_self]
  | some e =>
    refine .inr ⟨e, rfl, ?_⟩
    rw [saving, saveCluster, ClusterStore.save, hvalid]
    rfl

theorem saving_stored (hm : StoredAs py name m) (hc : c.name = name) (fault : Option PyExc)
    {next : Phase} (hnext : next.HoldsCopy name) :
    StoredAs py name (m.saving py fault c next).1 ∧
      (m.saving py fault c next).2.HoldsCopy name := by
  rcases saving_cases hm hc fault next with ⟨-, heq, hlookup⟩ | ⟨e, -, heq⟩
  · rw [heq]
    exact ⟨⟨c, hlookup, hc⟩, hnext⟩
  · rw [heq]
    exact ⟨hm, trivial⟩

/-- The last save of a visit, with what the callbacks raised. -/
theorem callStep_visiting (env : Env) (c : ClusterDefinition) (ok : Bool) (k i : ℕ)
    (is : List ℕ) : callStep py name m (.visiting env c ok k i is) .save =
      let o := m.runCallbacks c i
      let after := (c.modifyHost i (ClusterHost.report o)).touch (env.now (2 * k + 2))
      ({ m with rounds := m.rounds + 1 } : ClusterManager json).saving py (env.fault (2 * k + 1))
        after (.looping env after (ok && o.isNone) (k + 1) is) := by
  simp only [callStep, recordOutcome_eq]

/-- The copy that a call has read is of the cluster. -/
theorem begin_holdsCopy (hm : StoredAs py name m) (call : Call) :
    (call.begin py name m).HoldsCopy name := by
  obtain ⟨c, hc, hname⟩ := hm
  rw [Call.begin, lookup_eq_some_iff.mp hc]
  cases call with
  | mark env mac o =>
    dsimp only
    cases hfind : c.findMac py mac with
    | none => trivial
    | some i => exact ⟨hname, (List.findIdx?_eq_some_iff_getElem.mp hfind).1⟩
  | start env =>
    dsimp only
    split_ifs
    · trivial
    · exact ⟨hname, fun i hi => ClusterDefinition.lt_of_mem_orderedGroups hi⟩

/-- A step keeps the cluster stored under its name and the hosts of every copy. -/
theorem callStep_stored (m : ClusterManager json) (phase : Phase) (a : StoreStep)
    (hm : StoredAs py name m) (hphase : phase.HoldsCopy name) :
    StoredAs py name (callStep py name m phase a).1 ∧
      (callStep py name m phase a).2.HoldsCopy name := by
  cases a with
  | get call =>
    cases phase with
    | idle => exact ⟨hm, begin_holdsCopy hm call⟩
    | marking | looping | visiting | returned | raised => exact ⟨hm, hphase⟩
  | save =>
    cases phase with
    | idle | returned | raised => exact ⟨hm, hphase⟩
    | marking env o cluster i =>
      have hname := (sameIdentity_mark (env.now 0) o cluster i).name.trans hphase.1
      exact saving_stored hm hname _ trivial
    | visiting env cluster ok k i is =>
      let m' : ClusterManager json := { m with rounds := m.rounds + 1 }
      let o := m.runCallbacks cluster i
      let after := (cluster.modifyHost i (ClusterHost.report o)).touch (env.now (2 * k + 2))
      have hnext : Phase.HoldsCopy name (.looping env after (ok && o.isNone) (k + 1) is) := by
        refine ⟨hphase.1, fun j hj => ?_⟩
        simpa [after, ClusterDefinition.modifyHost, ClusterDefinition.touch] using
          hphase.2 j (List.mem_cons_of_mem i hj)
      rw [callStep_visiting]
      exact saving_stored (m := m') (c := after) hm hphase.1 _ hnext
    | looping env cluster ok k is =>
      cases is with
      | nil =>
        let final := { cluster with state := finalState cluster ok }.touch (env.now (2 * k + 1))
        have hnext : Phase.HoldsCopy name (.returned final) := trivial
        exact saving_stored (c := final) hm hphase.1 _ hnext
      | cons i is =>
        let given := (cluster.modifyHost i fun h => { h with state := .provisioning }).touch
          (env.now (2 * k + 1))
        have hnext : Phase.HoldsCopy name (.visiting env given ok k i is) := by
          refine ⟨hphase.1, fun j hj => ?_⟩
          simpa [given, ClusterDefinition.modifyHost, ClusterDefinition.touch] using hphase.2 j hj
        exact saving_stored (c := given) hm hphase.1 _ hnext

/-! ### Kept reports -/

theorem Shows.withdraw (h : Shows c reports) (i : ℕ) :
    Shows c (Function.update reports i none) := by
  intro j s hj
  rcases update_eq_some_iff.mp hj with ⟨-, hj⟩ | ⟨-, hj⟩
  · cases hj
  · exact h j s hj

theorem reportsKept_iff_of_lookup {w : Watched json} (hc : w.manager.lookup py name = some c) :
    ReportsKept py name w ↔ Shows c w.reports := by
  constructor
  · rintro ⟨c', hc', hshows⟩
    exact Option.some.inj (hc'.symm.trans hc) ▸ hshows
  · exact fun h => ⟨c, hc, h⟩

/-- After a save the reports are kept exactly when the copy shows them, if it was written. -/
theorem reportsKept_saving_iff (hm : StoredAs py name m) (hc : c.name = name) {phase : Phase}
    (hraised : ∀ e, reportsAfter reports phase (.raised e) = reports)
    (hkept : ReportsKept py name ⟨m, reports⟩) (fault : Option PyExc) (next : Phase) :
    ReportsKept py name ⟨(m.saving py fault c next).1,
        reportsAfter reports phase (m.saving py fault c next).2⟩ ↔
      (fault = none → Shows c (reportsAfter reports phase next)) := by
  rcases saving_cases hm hc fault next with ⟨rfl, heq, hlookup⟩ | ⟨e, rfl, heq⟩
  · rw [heq, reportsKept_iff_of_lookup hlookup]
    exact ⟨fun h _ => h, fun h => h rfl⟩
  · rw [heq, hraised]
    exact iff_of_true hkept nofun

/-- A read keeps the reports. -/
theorem ReportsKept.get {w : Watched json} (hkept : ReportsKept py name w) (phase : Phase)
    (call : Call) : ReportsKept py name (watchedStep py name w phase (.get call)).1 := by
  cases phase with
  | marking | looping | visiting | returned | raised => exact hkept
  | idle =>
    obtain ⟨c, hc, hshows⟩ := hkept
    refine ⟨c, hc, ?_⟩
    show Shows c (reportsAfter w.reports .idle (call.begin py name w.manager))
    cases call.begin py name w.manager with
    | marking env o cluster i => exact hshows.withdraw i
    | idle | looping | visiting | returned | raised => exact hshows

theorem reportsKept_step_iff {s : Clients ℕ (Watched json) Phase}
    (hm : StoredAs py name s.shared.manager) (hphases : ∀ n, (s.locals n).HoldsCopy name)
    (hkept : ReportsKept py name s.shared) (e : ℕ × StoreStep) :
    ReportsKept py name (interleave (watchedStep py name) s e).2.shared ↔ SavesReports s e := by
  obtain ⟨n, get | save⟩ := e
  · exact iff_of_true (hkept.get _ _) trivial
  · have hphase := hphases n
    rw [interleave_shared, SavesReports]
    generalize s.locals n = phase at hphase
    cases phase with
    | idle | returned | raised => exact iff_of_true hkept trivial
    | marking env o cluster i =>
      have hname := (sameIdentity_mark (env.now 0) o cluster i).name.trans hphase.1
      refine (reportsKept_saving_iff hm hname (fun _ => rfl) hkept (env.fault 0)
        (.returned (mark (env.now 0) o cluster i))).trans (imp_congr_right fun _ => ?_)
      rw [shows_modify_iff hphase.2 (mark_hosts _ o cluster i)]
      simp only [reportsAfter, Function.update_idem, Function.update_self, state_report]
      exact and_iff_left fun s hs => Option.some.inj hs
    | visiting env cluster ok k i is =>
      let m' : ClusterManager json :=
        { s.shared.manager with rounds := s.shared.manager.rounds + 1 }
      let o := s.shared.manager.runCallbacks cluster i
      let after := (cluster.modifyHost i (ClusterHost.report o)).touch (env.now (2 * k + 2))
      have hhosts : after.hosts = cluster.hosts.modify i (ClusterHost.report o) := rfl
      rw [watchedStep, callStep_visiting]
      refine (reportsKept_saving_iff (m := m') (c := after) hm hphase.1 (fun _ => rfl) hkept _
        _).trans (imp_congr_right fun _ => ?_)
      rw [shows_modify_iff (hphase.2 i (List.mem_cons_self ..)) hhosts]
      simp only [reportsAfter, state_report]
      rfl
    | looping env cluster ok k is =>
      cases is with
      | nil =>
        let final := { cluster with state := finalState cluster ok }.touch (env.now (2 * k + 1))
        exact reportsKept_saving_iff (c := final) hm hphase.1 (fun _ => rfl) hkept
          (env.fault (2 * k)) (.returned final)
      | cons i is =>
        let given := (cluster.modifyHost i fun h => { h with state := .provisioning }).touch
          (env.now (2 * k + 1))
        refine (reportsKept_saving_iff (c := given) hm hphase.1 (fun _ => rfl) hkept
          (env.fault (2 * k)) (.visiting env given ok k i is)).trans (imp_congr_right fun _ => ?_)
        have hhosts : given.hosts = cluster.hosts.modify i fun h =>
            { h with state := .provisioning } := rfl
        rw [shows_modify_iff (hphase.2 i (List.mem_cons_self ..)) hhosts]
        simp only [reportsAfter, Function.update_idem, Function.update_self]
        exact and_iff_left nofun

/-- Without reports there is nothing to lose. -/
theorem savesReports_of_none {s : Clients ℕ (Watched json) Phase}
    (h : ∀ j, s.shared.reports j = none) (e : ℕ × StoreStep) : SavesReports s e := by
  have hreports : s.shared.reports = fun _ => none := funext h
  have hshows : ∀ c, Shows c fun _ => none := fun c j s hj => by cases hj
  obtain ⟨n, get | save⟩ := e
  · trivial
  · rw [SavesReports, hreports]
    cases s.locals n with
    | idle | returned | raised => trivial
    | marking env o cluster i => exact fun _ => (hshows cluster).withdraw i
    | visiting env cluster ok k i is =>
      exact fun _ => ⟨(hshows cluster).withdraw i, fun s hs => by cases hs⟩
    | looping env cluster ok k is =>
      cases is with
      | nil => exact fun _ => hshows cluster
      | cons i is => exact fun _ => (hshows cluster).withdraw i

/-- A call that has read the cluster has reported nothing yet. -/
theorem no_reports_of_get (m : ClusterManager json) (call : Call) (j : ℕ) :
    (watchedStep py name (watchedIdle m).shared .idle (.get call)).1.reports j = none := by
  show reportsAfter (fun _ => none) .idle (call.begin py name m) j = none
  cases call.begin py name m with
  | marking env o cluster i => exact congrFun (Function.update_eq_self i fun _ => none) j
  | idle | looping | visiting | returned | raised => rfl

/-- **Reports under concurrency.** In every interleaving of the reads and saves of any number of
marks and provisionings of a stored cluster, the stored state of every host is the one reported by
the last mark of it that returned, until a mark or a visit of the host begins, if and only if no
call saves a copy with another host in another state than the reported one, and no provisioning
ends a visit with another outcome than the one reported meanwhile for its host. -/
theorem reports_kept_iff (py : StrLib) (m : ClusterManager json) (c : ClusterDefinition)
    (hstored : m.store.get py c.name = .ok (some c)) (events : List (ℕ × StoreStep)) :
    (∀ pre, pre <+: events →
      ReportsKept py c.name (run (interleave (watchedStep py c.name)) (watchedIdle m) pre).shared) ↔
    ∀ pre e, pre ++ [e] <+: events →
      SavesReports (run (interleave (watchedStep py c.name)) (watchedIdle m) pre) e := by
  let Inv (s : Clients ℕ (Watched json) Phase) : Prop :=
    StoredAs py c.name s.shared.manager ∧ ∀ n, (s.locals n).HoldsCopy c.name
  have hinv : ∀ s e, Inv s → Inv (interleave (watchedStep py c.name) s e).2 := fun s e h =>
    forall_interleave (P := fun w : Watched json => StoredAs py c.name w.manager)
      (fun w phase a hw hphase => callStep_stored w.manager phase a hw hphase) h.1 h.2 e
  have hlookup : m.lookup py c.name = some c := lookup_of_get hstored
  have hstart : Inv (watchedIdle m) := ⟨⟨c, hlookup, rfl⟩, fun _ => trivial⟩
  have hnothing : ReportsKept py c.name (watchedIdle m).shared :=
    ⟨c, hlookup, fun j s hj => by cases hj⟩
  exact forall_run_iff hinv (fun s e h hkept => reportsKept_step_iff h.1 h.2 hkept e) hstart
    hnothing events

/-- Two hosts that were not provisioned yet. -/
private def freshPair : ClusterDefinition :=
  { name := "lab", hosts := [{ hostname := "a", mac := "AA:BB:CC:DD:EE:01" },
      { hostname := "b", mac := "AA:BB:CC:DD:EE:02" }] }

/-- A manager with one callback, which raises nothing, and the two hosts. -/
private def pairManager : ClusterManager .parsed :=
  put ⟨⟨∅⟩, [fun _ _ _ => none], 0⟩ freshPair

/-- What is stored of the second host. -/
private def secondState (m : ClusterManager .parsed) : Option HostState :=
  (m.lookup .ascii "lab").bind fun c => c.hosts[1]?.map (·.state)

/-- The callback for the first host reports that the second host failed. -/
private def callbackMarks : List (ℕ × StoreStep) :=
  [(0, .get (.start ⟨fun k => k, fun _ => none⟩)), (0, .save),
    (1, .get (.mark ⟨fun k => k, fun _ => none⟩ "aa:bb:cc:dd:ee:02" (some "disk"))), (1, .save)]

/-- A mark that a callback makes is lost when the provisioning saves its own copy. -/
theorem callback_mark_lost :
    let marked :=
      run (interleave (watchedStep .ascii "lab")) (watchedIdle pairManager) callbackMarks
    let later := run (interleave (watchedStep .ascii "lab")) marked [(0, .save)]
    (∃ c, marked.locals 1 = .returned c) ∧ marked.shared.reports 1 = some .failed ∧
      secondState marked.shared.manager = some .failed ∧
      later.shared.reports 1 = some .failed ∧ secondState later.shared.manager = some .pending ∧
      ¬ ReportsKept .ascii "lab" later.shared := by
  let marked := run (interleave (watchedStep .ascii "lab")) (watchedIdle pairManager) callbackMarks
  let later := run (interleave (watchedStep .ascii "lab")) marked [(0, .save)]
  have hmarked : marked.shared.reports 1 = some .failed ∧
      secondState marked.shared.manager = some .failed := by decide +kernel
  have hreport : later.shared.reports 1 = some .failed := by decide +kernel
  have hlost : secondState later.shared.manager = some .pending := by decide +kernel
  refine ⟨⟨_, rfl⟩, hmarked.1, hmarked.2, hreport, hlost, ?_⟩
  rintro ⟨c, hc, hshows⟩
  have hstate := hshows 1 .failed hreport
  rw [secondState, hc, Option.bind_some, hstate] at hlost
  cases hlost

/-- The first host is marked complete when its visit has ended, before that of the second. -/
private def markBetween : List (ℕ × StoreStep) :=
  [(0, .get (.start ⟨fun k => k, fun _ => none⟩)), (0, .save), (0, .save),
    (1, .get (.mark ⟨fun k => k, fun _ => none⟩ "aa:bb:cc:dd:ee:01" none)), (1, .save),
    (0, .save), (0, .save), (0, .save)]

/-- A copy with the first host COMPLETE shows a report of that, whatever is withdrawn. -/
private theorem shows_first {c : ClusterDefinition} {reports : ℕ → Option HostState}
    (hcopy : c.hosts[0]?.map (·.state) = some .complete)
    (hreports : ∀ j s, reports j = some s → j = 0 ∧ s = .complete) : Shows c reports := by
  intro j s hj
  obtain ⟨rfl, rfl⟩ := hreports j s hj
  exact hcopy

private theorem update_none_of_none {reports : ℕ → Option HostState} {j : ℕ}
    (h : reports j = none) (i : ℕ) : Function.update reports i none j = none := by
  rw [Function.update_apply, h, ite_self]

/-- The provisioning has the mark in its copy, and keeps it at every further save. -/
theorem reports_kept_iff_pair :
    (run (interleave (watchedStep .ascii "lab")) (watchedIdle pairManager)
        (markBetween.take 5)).shared.reports 0 = some .complete ∧
      (∃ c, (run (interleave (watchedStep .ascii "lab")) (watchedIdle pairManager)
        markBetween).locals 0 = .returned c) ∧
      ∀ pre, pre <+: markBetween →
        ReportsKept .ascii "lab"
          (run (interleave (watchedStep .ascii "lab")) (watchedIdle pairManager) pre).shared := by
  have hvalid : validateClusterName .ascii freshPair.name = .ok () := by decide +kernel
  refine ⟨by decide +kernel, ⟨_, rfl⟩,
    (reports_kept_iff .ascii pairManager freshPair (get_put hvalid) markBetween).mpr ?_⟩
  let s := fun n => run (interleave (watchedStep .ascii "lab")) (watchedIdle pairManager)
    (markBetween.take n)
  -- the only report there ever is is that of the mark
  have hnone₁ : ∀ j, (s 1).shared.reports j = none := no_reports_of_get pairManager _
  have hnone₂ : ∀ j, (s 2).shared.reports j = none := fun j => by
    have hreports : (s 2).shared.reports = Function.update (fun _ => none) 0 none := rfl
    rw [hreports, Function.update_eq_self]
  have hnone₄ : ∀ j, (s 4).shared.reports j = none := fun j => by
    have hreports : (s 4).shared.reports = Function.update (s 2).shared.reports 0 none := rfl
    rw [hreports]
    exact update_none_of_none (hnone₂ j) 0
  have hone₅ : ∀ j h, (s 5).shared.reports j = some h → j = 0 ∧ h = .complete := fun j h hj => by
    have hreports : (s 5).shared.reports =
        Function.update (s 4).shared.reports 0 (some .complete) := rfl
    rw [hreports] at hj
    rcases update_eq_some_iff.mp hj with ⟨hzero, hj⟩ | ⟨-, hj⟩
    · exact ⟨hzero, (Option.some.inj hj).symm⟩
    · cases (hnone₄ j).symm.trans hj
  have hone₆ : ∀ j h, (s 6).shared.reports j = some h → j = 0 ∧ h = .complete := fun j h hj => by
    have hreports : (s 6).shared.reports = Function.update (s 5).shared.reports 1 none := rfl
    rw [hreports] at hj
    rcases update_eq_some_iff.mp hj with ⟨-, hj⟩ | ⟨-, hj⟩
    · cases hj
    · exact hone₅ j h hj
  simp only [markBetween, forall_steps_cons]
  refine ⟨trivial, savesReports_of_none hnone₁ _, savesReports_of_none hnone₂ _, trivial,
    savesReports_of_none hnone₄ _, ?_, ?_, ?_, fun pre e hpre => by simp at hpre⟩
  · refine fun _ => shows_first rfl fun j h hj => ?_
    rcases update_eq_some_iff.mp hj with ⟨-, hj⟩ | ⟨-, hj⟩
    · cases hj
    · exact hone₅ j h hj
  · refine fun _ => ⟨shows_first rfl fun j h hj => ?_, fun h hj => ?_⟩
    · rcases update_eq_some_iff.mp hj with ⟨-, hj⟩ | ⟨-, hj⟩
      · cases hj
      · exact hone₆ j h hj
    · cases (hone₆ 1 h hj).1
  · exact fun _ => shows_first rfl hone₆

end ClusterManager

end TftpOS
