import Mathlib.Algebra.Order.Ring.Rat
import Mathlib.Data.List.Chain
import TftpOS.State

/-!
# Runs of the provisioning tracker

What holds of every record after any sequence of calls. `Coherent` ties the seven fields that
five operations write: the history starts at registration and ends at the current state, its
timestamps are ordered, `completed_at` is the time of the last completion. The netboot flag is
the last one asked for (`lastNetboot`).

`Edge` is the documented lifecycle. `transition` does not consult it: it appends whatever
state it is asked for, so the histories follow the lifecycle exactly when the calls do
(`histories_follow_iff`).
-/

namespace TftpOS

open Lib

/-! ### Coherence of one record -/

namespace ProvisionRecord

/-- The timestamp of the last COMPLETE entry of a history. -/
def lastComplete (history : List (ProvisionState × ℚ)) : Option ℚ :=
  ((history.filter fun e => e.1 = .complete).getLast?).map Prod.snd

/-- The fields of a record agree with its history. -/
structure Coherent (r : ProvisionRecord) : Prop where
  /-- The history starts with the registration. -/
  first : ∃ t, r.startedAt = some t ∧ r.history.head? = some (.registered, t)
  /-- The history ends with the current state. -/
  last : ∃ t, r.updatedAt = some t ∧ r.history.getLast? = some (r.state, t)
  /-- The timestamps do not decrease. -/
  sorted : (r.history.map Prod.snd).Pairwise (· ≤ ·)
  /-- `completed_at` is the time of the last completion. -/
  completed : r.completedAt = lastComplete r.history

variable {r : ProvisionRecord}

theorem coherent_fresh (mac profile osFamily osVersion : String) (now : ℚ) :
    (fresh mac profile osFamily osVersion now).Coherent where
  first := ⟨now, rfl, rfl⟩
  last := ⟨now, rfl, rfl⟩
  sorted := by simp [fresh]
  completed := by simp [fresh, lastComplete]

/-- In a coherent record no timestamp of the history exceeds the last update. -/
theorem Coherent.le_of_mem (h : r.Coherent) {u : ℚ} (hu : r.updatedAt = some u)
    {e : ProvisionState × ℚ} (he : e ∈ r.history) : e.2 ≤ u := by
  obtain ⟨t, ht, hlast⟩ := h.last
  obtain rfl : t = u := Option.some.inj (ht.symm.trans hu)
  obtain ⟨front, hfront⟩ := List.getLast?_eq_some_iff.mp hlast
  -- the last entry carries the time of the last update, and the others come before it
  have hsorted := h.sorted
  rw [hfront, List.map_append, List.pairwise_append] at hsorted
  rw [hfront, List.mem_append, List.mem_singleton] at he
  rcases he with he | rfl
  · exact hsorted.2.2 _ (List.mem_map_of_mem he) _ (by simp)
  · exact le_rfl

/-- A transition at a time not before the last update keeps a record coherent. -/
theorem Coherent.enter (h : r.Coherent) {u now : ℚ} (hu : r.updatedAt = some u) (hnow : u ≤ now)
    (newState : ProvisionState) (errorMessage : Option String) :
    (r.enter newState now errorMessage).Coherent where
  first := by
    obtain ⟨t, ht, hhead⟩ := h.first
    exact ⟨t, ht, by simp [ProvisionRecord.enter, List.head?_append, hhead]⟩
  last := ⟨now, rfl, by simp [ProvisionRecord.enter]⟩
  sorted := by
    rw [ProvisionRecord.enter, List.map_append, List.pairwise_append]
    refine ⟨h.sorted, by simp, fun a ha b hb => ?_⟩
    obtain ⟨e, he, rfl⟩ := List.mem_map.mp ha
    obtain rfl : b = now := by simpa using hb
    exact (h.le_of_mem hu he).trans hnow
  completed := by
    have hprev := h.completed
    by_cases hc : newState = .complete
    · simp [ProvisionRecord.enter, lastComplete, hc]
    · simp [ProvisionRecord.enter, lastComplete, hc, hprev]

theorem Coherent.setNetboot (h : r.Coherent) (enabled : Bool) : (r.setNetboot enabled).Coherent :=
  ⟨h.first, h.last, h.sorted, h.completed⟩

end ProvisionRecord

namespace ProvisionTracker

variable {σ : Type} [StorageBackend σ] {py : StrLib}

/-! ### Every record of every run is coherent -/

/-- The clock reading of a call, if it takes one. -/
def Op.clock? : Op → Option ℚ
  | .register now _ _ _ _ => some now
  | .transition now _ _ _ => some now
  | _ => none

/-- The clock readings of a run. -/
def clocks (ops : List Op) : List ℚ := ops.filterMap Op.clock?

/-- The netboot flag a call asks for on the record with this key. -/
def Op.netboot? (py : StrLib) (key : String) : Op → Option Bool
  | .register _ mac _ _ _ => if py.lower mac = key then some true else none
  | .enableNetboot mac => if py.lower mac = key then some true else none
  | .disableNetboot mac => if py.lower mac = key then some false else none
  | _ => none

/-- The flag asked for by the last of `register`, `enable_netboot` and `disable_netboot` on
the record with this key. -/
def lastNetboot (py : StrLib) (key : String) (ops : List Op) : Option Bool :=
  (ops.filterMap (Op.netboot? py key)).getLast?

/-- How a call `op` can come to leave the record `r` under a key. -/
inductive Change (py : StrLib) (d : Dict String ProvisionRecord) (key : String) :
    Op → ProvisionRecord → Prop
  | kept {op : Op} {r : ProvisionRecord} (hop : op.netboot? py key = none)
      (hold : d.get? key = some r) : Change py d key op r
  | registered {now : ℚ} {mac profile osFamily osVersion : String} (hkey : py.lower mac = key) :
      Change py d key (.register now mac profile osFamily osVersion)
        (.fresh mac profile osFamily osVersion now)
  | entered {now : ℚ} {mac : String} {newState : ProvisionState} {errorMessage : Option String}
      {r : ProvisionRecord} (hkey : py.lower mac = key) (hold : d.get? key = some r) :
      Change py d key (.transition now mac newState errorMessage)
        (r.enter newState now errorMessage)
  | toggled {op : Op} {enabled : Bool} {r : ProvisionRecord}
      (hop : op.netboot? py key = some enabled) (hold : d.get? key = some r) :
      Change py d key op (r.setNetboot enabled)

/-- The change on its key of a call whose effect is to write the record there, updated. -/
private theorem change_of_netboot {d : Dict String ProvisionRecord} {op : Op} {mac : String}
    {enabled : Bool} {key : String} {r : ProvisionRecord}
    (hop : ∀ key, op.netboot? py key = if py.lower mac = key then some enabled else none)
    (hr : ((match d.get? (py.lower mac) with
      | none => Effect.nothing
      | some record => .write (py.lower mac) (record.setNetboot enabled)).onRecords d).get? key =
        some r) :
    Change py d key op r := by
  split at hr
  · next hnone =>
    refine .kept ((hop key).trans (if_neg fun hkey => ?_)) hr
    simp [Effect.onRecords, ← hkey, hnone] at hr
  · next old hold =>
    rw [Effect.onRecords, Dict.get?_set] at hr
    split_ifs at hr with hkey
    · obtain rfl := Option.some.inj hr
      exact .toggled ((hop key).trans (if_pos hkey.symm)) (hkey ▸ hold)
    · exact .kept ((hop key).trans (if_neg (Ne.symm hkey))) hr

/-- Every record after a call is there by one of the four changes. -/
theorem change_of_get? {d : Dict String ProvisionRecord} {op : Op} {key : String}
    {r : ProvisionRecord} (hr : ((op.effect py d).onRecords d).get? key = some r) :
    Change py d key op r := by
  cases op with
  | register now mac profile osFamily osVersion =>
    rw [Op.effect, Effect.onRecords, Dict.get?_set] at hr
    split_ifs at hr with hkey
    · obtain rfl := Option.some.inj hr
      exact .registered hkey.symm
    · exact .kept (if_neg (Ne.symm hkey)) hr
  | transition now mac newState errorMessage =>
    rw [Op.effect] at hr
    split at hr
    · exact .kept rfl hr
    · next old hold =>
      rw [Effect.onRecords, Dict.get?_set] at hr
      split_ifs at hr with hkey
      · obtain rfl := Option.some.inj hr
        exact .entered hkey.symm (hkey ▸ hold)
      · exact .kept rfl hr
  | enableNetboot mac => exact change_of_netboot (fun _ => rfl) hr
  | disableNetboot mac => exact change_of_netboot (fun _ => rfl) hr
  | clear => simp [Op.effect, Effect.onRecords] at hr

/-- What a run with ordered clock readings leaves under a key. -/
structure Tracked (py : StrLib) (ops : List Op) (key : String) (r : ProvisionRecord) : Prop where
  key_eq : py.lower r.mac = key
  coherent : r.Coherent
  /-- The record was last updated at a clock reading of the run. -/
  updated : ∃ u ∈ clocks ops, r.updatedAt = some u
  netboot : lastNetboot py key ops = some r.netbootEnabled

private theorem clocks_concat (ops : List Op) (op : Op) :
    clocks (ops ++ [op]) = clocks ops ++ op.clock?.toList := by
  cases h : op.clock? <;> simp [clocks, h]

private theorem lastNetboot_concat (key : String) (ops : List Op) (op : Op) :
    lastNetboot py key (ops ++ [op]) = (op.netboot? py key).or (lastNetboot py key ops) := by
  cases h : op.netboot? py key <;> simp [lastNetboot, h]

private theorem Tracked.updated_concat {ops : List Op} {key : String} {r : ProvisionRecord}
    (h : Tracked py ops key r) (op : Op) :
    ∃ u ∈ clocks (ops ++ [op]), r.updatedAt = some u := by
  obtain ⟨u, hu, hru⟩ := h.updated
  refine ⟨u, ?_, hru⟩
  rw [clocks_concat]
  exact List.mem_append_left _ hu

/-- A call that leaves a record alone and asks nothing of its netboot flag keeps it tracked. -/
private theorem Tracked.frame {ops : List Op} {key : String} {r : ProvisionRecord}
    (h : Tracked py ops key r) {op : Op} (hop : op.netboot? py key = none) :
    Tracked py (ops ++ [op]) key r where
  key_eq := h.key_eq
  coherent := h.coherent
  updated := h.updated_concat op
  netboot := by rw [lastNetboot_concat, hop, Option.none_or, h.netboot]

/-- A transition later than every earlier reading keeps its record tracked. -/
private theorem Tracked.enter {ops : List Op} {key : String} {r : ProvisionRecord}
    (h : Tracked py ops key r) {now : ℚ} (hnow : ∀ u ∈ clocks ops, u ≤ now) (mac : String)
    (newState : ProvisionState) (errorMessage : Option String) :
    Tracked py (ops ++ [.transition now mac newState errorMessage]) key
      (r.enter newState now errorMessage) where
  key_eq := h.key_eq
  coherent := by
    obtain ⟨u, hu, hru⟩ := h.updated
    exact h.coherent.enter hru (hnow u hu) newState errorMessage
  updated := ⟨now, by simp [clocks_concat, Op.clock?], rfl⟩
  netboot := by
    have hop : (Op.transition now mac newState errorMessage).netboot? py key = none := rfl
    rw [lastNetboot_concat, hop, Option.none_or, h.netboot]
    rfl

/-- A netboot call on a tracked record keeps it tracked. -/
private theorem Tracked.setNetboot {ops : List Op} {key : String} {r : ProvisionRecord}
    (h : Tracked py ops key r) {op : Op} {enabled : Bool}
    (hop : op.netboot? py key = some enabled) :
    Tracked py (ops ++ [op]) key (r.setNetboot enabled) where
  key_eq := h.key_eq
  coherent := h.coherent.setNetboot enabled
  updated := h.updated_concat op
  netboot := by
    rw [lastNetboot_concat, hop, Option.some_or]
    rfl

private theorem tracked_fresh {ops : List Op} (now : ℚ) {mac key : String}
    (hkey : py.lower mac = key) (profile osFamily osVersion : String) :
    Tracked py (ops ++ [.register now mac profile osFamily osVersion]) key
      (.fresh mac profile osFamily osVersion now) where
  key_eq := hkey
  coherent := ProvisionRecord.coherent_fresh mac profile osFamily osVersion now
  updated := ⟨now, by simp [clocks_concat, Op.clock?], rfl⟩
  netboot := by
    rw [lastNetboot_concat, Op.netboot?, if_pos hkey, Option.some_or]
    rfl

/-- One call keeps every record tracked. -/
private theorem tracked_step {d : Dict String ProvisionRecord} {ops : List Op} {op : Op}
    (hclock : (clocks (ops ++ [op])).Pairwise (· ≤ ·))
    (h : ∀ key r, d.get? key = some r → Tracked py ops key r) {key : String}
    {r : ProvisionRecord} (hr : ((op.effect py d).onRecords d).get? key = some r) :
    Tracked py (ops ++ [op]) key r := by
  rw [clocks_concat, List.pairwise_append] at hclock
  cases change_of_get? hr with
  | kept hop hold => exact (h key r hold).frame hop
  | registered hkey => exact tracked_fresh _ hkey _ _ _
  | @entered now _ newState errorMessage old hkey hold =>
    have hnow : ∀ u ∈ clocks ops, u ≤ now := fun u hu =>
      hclock.2.2 u hu now (by simp [Op.clock?])
    exact (h key old hold).enter hnow _ newState errorMessage
  | toggled hop hold => exact (h key _ hold).setNetboot hop

/-- Every record of a run with ordered clock readings is tracked. -/
private theorem run_tracked {t : ProvisionTracker σ} (ht : t.records = ∅) (ops : List Op)
    (hclock : (clocks ops).Pairwise (· ≤ ·)) {key : String} {r : ProvisionRecord}
    (hr : (run (step py) t ops).records.get? key = some r) : Tracked py ops key r := by
  let P (ops : List Op) (s : ProvisionTracker σ) : Prop :=
    (clocks ops).Pairwise (· ≤ ·) →
      ∀ key r, s.records.get? key = some r → Tracked py ops key r
  have hstart : P [] t := by
    intro _ key r h
    rw [ht] at h
    cases h
  -- The readings of the calls so far are ordered too, so the induction hypothesis applies.
  have hstep : ∀ ops op, P ops (run (step py) t ops) →
      P (ops ++ [op]) (step py (run (step py) t ops) op).2 := by
    intro ops op ih hclock key r h
    rw [step_records] at h
    refine tracked_step hclock (ih ?_) h
    rw [clocks_concat, List.pairwise_append] at hclock
    exact hclock.1
  exact run_induction hstart hstep ops hclock key r hr

/-- **Coherence of every run.** In every state reached from a tracker without records by calls
with ordered clock readings, each record agrees with its history, and its netboot flag is the
one the last netboot operation on its MAC asked for. -/
theorem records_coherent (py : StrLib) (t : ProvisionTracker σ) (ht : t.records = ∅)
    (ops : List Op) (hclock : (clocks ops).Pairwise (· ≤ ·)) :
    ∀ r ∈ (run (step py) t ops).listAll,
      r.Coherent ∧ lastNetboot py (py.lower r.mac) ops = some r.netbootEnabled := by
  intro r hr
  obtain ⟨key, hkey⟩ := Dict.mem_values_iff.mp hr
  have h := run_tracked ht ops hclock hkey
  exact ⟨h.coherent, h.key_eq ▸ h.netboot⟩

/-- A reinstalled host, addressed in two spellings of its MAC. -/
theorem records_coherent_reinstall :
    ∃ r ∈ (run (step (σ := Empty) .ascii) ⟨none, ∅, fun _ => []⟩
        [.register 1 "AA:01" "web" "debian" "12", .transition 2 "aa:01" .complete none,
          .disableNetboot "AA:01", .transition 2 "AA:01" .failed (some "disk")]).listAll,
      r.Coherent ∧ lastNetboot .ascii (StrLib.ascii.lower r.mac)
        [.register 1 "AA:01" "web" "debian" "12", .transition 2 "aa:01" .complete none,
          .disableNetboot "AA:01", .transition 2 "AA:01" .failed (some "disk")] =
        some r.netbootEnabled :=
  ⟨_, List.mem_singleton_self _, records_coherent (σ := Empty) .ascii ⟨none, ∅, fun _ => []⟩ rfl
    _ (by decide) _ (List.mem_singleton_self _)⟩

/-! ### Histories and the documented lifecycle -/

/-- The edges of the documented lifecycle. -/
def Edge : ProvisionState → ProvisionState → Prop
  | .registered, .booting => True
  | .booting, .installing => True
  | .installing, .postInstall => True
  | .postInstall, .complete => True
  | s, .failed => s ≠ .complete ∧ s ≠ .failed
  | _, _ => False

instance : DecidableRel Edge := fun s s' => by
  cases s <;> cases s' <;> unfold Edge <;> infer_instance

/-- Consecutive entries of the history are edges of the lifecycle. -/
def Follows (r : ProvisionRecord) : Prop := (r.history.map Prod.fst).IsChain Edge

/-- A transition of a tracked MAC asks for an edge from its current state. -/
def Op.AsksEdge (py : StrLib) (d : Dict String ProvisionRecord) : Op → Prop
  | .transition _ mac newState _ => ∀ r, d.get? (py.lower mac) = some r → Edge r.state newState
  | _ => True

/-- The history of every record ends with its state. -/
def EndAtState (d : Dict String ProvisionRecord) : Prop :=
  ∀ key r, d.get? key = some r → (r.history.map Prod.fst).getLast? = some r.state

private theorem follows_enter_iff {r : ProvisionRecord}
    (hlast : (r.history.map Prod.fst).getLast? = some r.state) (newState : ProvisionState)
    (now : ℚ) (errorMessage : Option String) :
    Follows (r.enter newState now errorMessage) ↔ Follows r ∧ Edge r.state newState := by
  simp [Follows, ProvisionRecord.enter, List.isChain_append, hlast, -List.getLast?_map]

/-- Histories end with the current state after a call when they do before it. -/
private theorem endAtState_step {d : Dict String ProvisionRecord} (h : EndAtState d)
    (op : Op) : EndAtState ((op.effect py d).onRecords d) := by
  intro key r hr
  cases change_of_get? hr with
  | kept _ hold => exact h key r hold
  | registered _ => rfl
  | entered _ _ => simp [ProvisionRecord.enter]
  | @toggled _ _ old _ hold => exact h key old hold

/-- From histories that follow the lifecycle, a call leads to such histories exactly when it
asks for an edge. -/
private theorem follows_step_iff {d : Dict String ProvisionRecord} (hend : EndAtState d)
    (h : ∀ r ∈ d.values, Follows r) (op : Op) :
    (∀ r ∈ ((op.effect py d).onRecords d).values, Follows r) ↔ op.AsksEdge py d := by
  have hold_follows : ∀ {key r}, d.get? key = some r → Follows r := fun hold =>
    h _ (Dict.mem_values_iff.mpr ⟨_, hold⟩)
  constructor
  · intro hafter
    -- only a transition of a tracked MAC extends a history
    cases op with
    | transition now mac newState errorMessage =>
      intro r hr
      have hmem : r.enter newState now errorMessage ∈
          (((Op.transition now mac newState errorMessage).effect py d).onRecords d).values :=
        Dict.mem_values_iff.mpr ⟨py.lower mac, by simp [Op.effect, hr, Effect.onRecords]⟩
      exact ((follows_enter_iff (hend _ r hr) newState now errorMessage).mp (hafter _ hmem)).2
    | register | enableNetboot | disableNetboot | clear => trivial
  · intro hedge r hr
    obtain ⟨key, hkey⟩ := Dict.mem_values_iff.mp hr
    cases change_of_get? hkey with
    | kept _ hold => exact hold_follows hold
    | registered _ => exact .singleton _
    | @entered now mac newState errorMessage old hmac hold =>
      exact (follows_enter_iff (hend key old hold) newState now errorMessage).mpr
        ⟨hold_follows hold, hedge old (hmac ▸ hold)⟩
    | @toggled _ _ old _ hold =>
      have hfollows : Follows old := hold_follows hold
      exact hfollows

/-- A transition from REGISTERED straight to COMPLETE is accepted, and the history it leaves is
not a chain of edges. -/
theorem transition_accepts_skip :
    ¬ Edge .registered .complete ∧ ∃ r t',
      transition (σ := Empty) .ascii (run (step .ascii) ⟨none, ∅, fun _ => []⟩
        [.register 1 "aa:01" "web" "debian" "12"]) 2 "aa:01" .complete none = (.ok r, t') ∧
      r ∈ t'.listAll ∧ ¬ Follows r := by
  -- the documented edges lead from REGISTERED to BOOTING or FAILED only
  refine ⟨by decide, _, _, rfl, List.mem_singleton_self _, ?_⟩
  rw [Follows]
  decide

/-- **Transitions and the lifecycle.** A transition of an unknown MAC raises and changes
nothing; on a record it appends any state it is asked for. So all histories of a run follow the
documented lifecycle exactly when every transition of a tracked MAC asks for an edge from its
current state. -/
theorem histories_follow_iff (py : StrLib) (t : ProvisionTracker σ) (ht : t.records = ∅)
    (ops : List Op) :
    (∀ (t : ProvisionTracker σ) now mac newState errorMessage,
      (t.get py mac = none → t.transition py now mac newState errorMessage =
        (.error (noRecord mac), t)) ∧
      ∀ r, t.get py mac = some r →
        (t.transition py now mac newState errorMessage).2.get py mac =
          some (r.enter newState now errorMessage)) ∧
    ((∀ pre, pre <+: ops → ∀ r ∈ (run (step py) t pre).listAll, Follows r) ↔
      ∀ pre op, pre ++ [op] <+: ops → op.AsksEdge py (run (step py) t pre).records) := by
  refine ⟨fun t now mac newState errorMessage => ⟨fun h => ?_, fun r h => ?_⟩, ?_⟩
  · rw [get] at h
    rw [transition, h]
  · rw [get] at h
    rw [get, transition_snd, Op.effect, h, Effect.onTracker, update_records]
    exact Dict.get?_set_self
  · have hinv : ∀ (s : ProvisionTracker σ) op, EndAtState s.records →
        EndAtState (step py s op).2.records := by
      intro s op h
      rw [step_records]
      exact endAtState_step h op
    have hgood : ∀ (s : ProvisionTracker σ) op, EndAtState s.records →
        (∀ r ∈ s.listAll, Follows r) →
        ((∀ r ∈ (step py s op).2.listAll, Follows r) ↔ op.AsksEdge py s.records) := by
      intro s op hend h
      rw [listAll, step_records]
      exact follows_step_iff hend h op
    have hend : EndAtState t.records := by
      rw [ht]
      intro key r h
      cases h
    have hfollows : ∀ r ∈ t.listAll, Follows r := by
      rw [listAll, ht]
      simp
    exact forall_run_iff hinv hgood hend hfollows ops

/-- A host that is registered, boots and fails. -/
theorem histories_follow_iff_installed :
    (∀ pre : List Op, pre <+: [.register 1 "aa:01" "web" "debian" "12",
        .transition 2 "aa:01" .booting none, .transition 3 "AA:01" .failed (some "disk")] →
      ∀ r ∈ (run (step (σ := Empty) .ascii) ⟨none, ∅, fun _ => []⟩ pre).listAll, Follows r) ↔
    ∀ (pre : List Op) (op : Op), pre ++ [op] <+: [.register 1 "aa:01" "web" "debian" "12",
        .transition 2 "aa:01" .booting none, .transition 3 "AA:01" .failed (some "disk")] →
      op.AsksEdge .ascii (run (step (σ := Empty) .ascii) ⟨none, ∅, fun _ => []⟩ pre).records :=
  (histories_follow_iff (σ := Empty) .ascii ⟨none, ∅, fun _ => []⟩ rfl _).2

end ProvisionTracker

end TftpOS
