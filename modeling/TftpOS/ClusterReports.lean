import TftpOS.ClusterMap

/-!
# The reported state of a cluster

Whether the state of a cluster reports the states of its hosts (`Reported`). A mark updates the
state only in some cases and otherwise keeps the old one, so it leaves a stale PARTIAL when the
last host with the other outcome changes sides while others are unfinished
(`reported_mark_iff`); `start_provisioning` says PARTIAL when a host failed in one visit and then
completed in another; and the error text of a host is never cleared (`reports_match_iff`).

On hosts that were not reported before no such case arises, so marks of a fresh cluster commute
(`marks_commute`).
-/

namespace TftpOS

open Lib

/-- The state of the cluster reports the states of its hosts. -/
structure ClusterDefinition.StateReported (c : ClusterDefinition) : Prop where
  partial_iff : c.state = .partialState ↔
    (∃ h ∈ c.hosts, h.state = .complete) ∧ ∃ h ∈ c.hosts, h.state = .failed
  complete : (∀ h ∈ c.hosts, h.state = .complete) → c.state = .complete
  failed : (∀ h ∈ c.hosts, h.state = .failed) → c.state = .failed

/-- The cluster reports the states of its hosts, and no COMPLETE host has an error. -/
structure ClusterDefinition.Reported (c : ClusterDefinition) : Prop extends c.StateReported where
  no_error : ∀ h ∈ c.hosts, h.state = .complete → h.errorMessage = ""

/-- The state of a host with an outcome. -/
def outcomeState : Option String → HostState
  | none => .complete
  | some _ => .failed

/-- The state of a host with the other outcome. -/
def otherState : Option String → HostState
  | none => .failed
  | some _ => .complete

namespace ClusterManager

/-- When a mark leaves the cluster reported: in a PARTIAL cluster another host has the other
outcome or all others have this one; and a host that is marked complete has no error. -/
structure MarkReports (o : Option String) (c : ClusterDefinition) (i : ℕ) : Prop where
  not_stale : c.state = .partialState →
    (∃ h ∈ c.hosts.eraseIdx i, h.state = otherState o) ∨
      ∀ h ∈ c.hosts.eraseIdx i, h.state = outcomeState o
  no_error : o = none → ∀ h, c.hosts[i]? = some h → h.errorMessage = ""

/-- When a provisioning with these reports leaves the cluster reported: if any callback raised
then the last visit of some host raised; and a host whose last visit did not raise has no error,
neither from an earlier visit nor, without one, from before. -/
structure StartReports (reports : List (ℕ × Option String)) (c : ClusterDefinition) : Prop where
  not_stale : (∃ r ∈ reports, r.2 ≠ none) →
    ∃ i < c.hosts.length, (outcomesOf i reports).getLast? ≠ some none
  no_error : ∀ i h, c.hosts[i]? = some h → (outcomesOf i reports).getLast? = some none →
    ((outcomesOf i reports).filterMap id).getLast?.getD h.errorMessage = ""

variable {json : JsonText}

/-- When a call leaves the cluster it is about reported. -/
def Op.KeepsReported (py : StrLib) (m : ClusterManager json) : Op → Prop
  | .markHostComplete _ name mac => ∀ c i, m.lookup py name = some c → c.findMac py mac = some i →
      MarkReports none c i
  | .markHostFailed _ name mac error => ∀ c i, m.lookup py name = some c →
      c.findMac py mac = some i → MarkReports (some error) c i
  | .startProvisioning env name => ∀ c, m.lookup py name = some c → c.state ≠ .provisioning →
      StartReports ((m.startVisits py env name).map Visit.report) c
  | .createCluster _ _ | .deleteCluster _ => True

/-! The conditions can be computed. -/

instance (o : Option String) (c : ClusterDefinition) (i : ℕ) : Decidable (MarkReports o c i) :=
  decidable_of_iff ((c.state = .partialState →
      (∃ h ∈ c.hosts.eraseIdx i, h.state = otherState o) ∨
        ∀ h ∈ c.hosts.eraseIdx i, h.state = outcomeState o) ∧
      (o = none → ∀ h ∈ c.hosts[i]?, h.errorMessage = ""))
    ⟨fun h => ⟨h.1, h.2⟩, fun h => ⟨h.not_stale, h.no_error⟩⟩

instance (reports : List (ℕ × Option String)) (c : ClusterDefinition) :
    Decidable (StartReports reports c) :=
  decidable_of_iff (((∃ r ∈ reports, r.2 ≠ none) →
      ∃ i < c.hosts.length, (outcomesOf i reports).getLast? ≠ some none) ∧
      ∀ i < c.hosts.length, ∀ h ∈ c.hosts[i]?, (outcomesOf i reports).getLast? = some none →
        ((outcomesOf i reports).filterMap id).getLast?.getD h.errorMessage = "")
    ⟨fun h => ⟨h.1, fun i g hg => h.2 i (List.getElem?_eq_some_iff.mp hg).1 g hg⟩,
      fun h => ⟨h.not_stale, fun i _ => h.no_error i⟩⟩

instance (py : StrLib) (m : ClusterManager json) (op : Op) : Decidable (op.KeepsReported py m) :=
  match op with
  | .markHostComplete _ name mac =>
    decidable_of_iff (∀ c, m.lookup py name = some c → ∀ i, c.findMac py mac = some i →
      MarkReports none c i) ⟨fun h c i hc => h c hc i, fun h c hc i => h c i hc⟩
  | .markHostFailed _ name mac error =>
    decidable_of_iff (∀ c, m.lookup py name = some c → ∀ i, c.findMac py mac = some i →
      MarkReports (some error) c i) ⟨fun h c i hc => h c hc i, fun h c hc i => h c i hc⟩
  | .startProvisioning env name => inferInstanceAs (Decidable (∀ c,
      m.lookup py name = some c → c.state ≠ .provisioning →
        StartReports ((m.startVisits py env name).map Visit.report) c))
  | .createCluster _ _ => inferInstanceAs (Decidable True)
  | .deleteCluster _ => inferInstanceAs (Decidable True)

/-- The definitions of a call have the default lifecycle fields. -/
def Op.DefaultLifecycle : Op → Prop
  | .createCluster _ d => d.Fresh ∧ ∀ h ∈ d.hosts, h.errorMessage = ""
  | _ => True

/-! ### Marks -/

variable {py : StrLib} {m : ClusterManager json} {c : ClusterDefinition} {i : ℕ}

/-- The hosts after an assignment: the assigned one and the others. -/
theorem modify_perm (hi : i < c.hosts.length) (f : ClusterHost → ClusterHost) :
    (c.hosts.modify i f).Perm (f c.hosts[i] :: c.hosts.eraseIdx i) := by
  have hi' : i < (c.hosts.modify i f).length := by rwa [List.length_modify]
  have hperm := List.getElem_cons_eraseIdx_perm hi'
  rw [List.eraseIdx_modify_of_eq, List.getElem_modify_eq] at hperm
  exact hperm.symm

theorem forall_mem_modify {p : ClusterHost → Prop} (hi : i < c.hosts.length)
    (f : ClusterHost → ClusterHost) : (∀ h ∈ c.hosts.modify i f, p h) ↔
      p (f c.hosts[i]) ∧ ∀ h ∈ c.hosts.eraseIdx i, p h := by
  simp only [(modify_perm hi f).mem_iff, List.forall_mem_cons]

theorem exists_mem_modify {p : ClusterHost → Prop} (hi : i < c.hosts.length)
    (f : ClusterHost → ClusterHost) : (∃ h ∈ c.hosts.modify i f, p h) ↔
      p (f c.hosts[i]) ∨ ∃ h ∈ c.hosts.eraseIdx i, p h := by
  simp only [(modify_perm hi f).mem_iff, List.exists_mem_cons_iff]

/-- The state of a cluster all of whose hosts have the outcome. -/
def clusterOutcome : Option String → ClusterState
  | none => .complete
  | some _ => .failed

/-- What a mark does to the state of a cluster depends on the other hosts. -/
theorem mark_state (hi : i < c.hosts.length) (now : ℚ) (o : Option String) :
    (∀ h ∈ c.hosts.eraseIdx i, h.state = outcomeState o) ∧
        (mark now o c i).state = clusterOutcome o ∨
      (∃ h ∈ c.hosts.eraseIdx i, h.state = otherState o) ∧
        (mark now o c i).state = .partialState ∨
      (¬ ∀ h ∈ c.hosts.eraseIdx i, h.state = outcomeState o) ∧
        (¬ ∃ h ∈ c.hosts.eraseIdx i, h.state = otherState o) ∧
        (mark now o c i).state = c.state := by
  have hall : ∀ s, (c.hosts.modify i (ClusterHost.report o)).all (fun h => h.state = s) ↔
      (c.hosts[i].report o).state = s ∧ ∀ h ∈ c.hosts.eraseIdx i, h.state = s := by
    intro s
    simp only [List.all_eq_true, decide_eq_true_eq]
    exact forall_mem_modify hi _
  have hany : ∀ s, (c.hosts.modify i (ClusterHost.report o)).any (fun h => h.state = s) ↔
      (c.hosts[i].report o).state = s ∨ ∃ h ∈ c.hosts.eraseIdx i, h.state = s := by
    intro s
    simp only [List.any_eq_true, decide_eq_true_eq]
    exact exists_mem_modify hi _
  cases o with
  | none =>
    have hcomplete := (hall .complete).trans (and_iff_right rfl)
    have hfailed := (hany .failed).trans
      (or_iff_right fun h : HostState.complete = .failed => HostState.noConfusion h)
    rw [mark, completeHost]
    split_ifs with hif hif'
    · exact .inl ⟨hcomplete.mp hif, rfl⟩
    · exact .inr (.inl ⟨hfailed.mp hif', rfl⟩)
    · exact .inr (.inr ⟨mt hcomplete.mpr hif, mt hfailed.mpr hif', rfl⟩)
  | some error =>
    have hfailed := (hall .failed).trans (and_iff_right rfl)
    have hcomplete := (hany .complete).trans
      (or_iff_right fun h : HostState.failed = .complete => HostState.noConfusion h)
    rw [mark, failHost]
    split_ifs with hif hif'
    · exact .inr (.inl ⟨hcomplete.mp hif, rfl⟩)
    · exact .inl ⟨hfailed.mp hif', rfl⟩
    · exact .inr (.inr ⟨mt hfailed.mpr hif', mt hcomplete.mpr hif, rfl⟩)

/-- After a mark, hosts with both outcomes are there exactly if another host has the other one. -/
theorem both_outcomes_mark_iff (hi : i < c.hosts.length) (now : ℚ) (o : Option String) :
    ((∃ h ∈ (mark now o c i).hosts, h.state = .complete) ∧
      ∃ h ∈ (mark now o c i).hosts, h.state = .failed) ↔
      ∃ h ∈ c.hosts.eraseIdx i, h.state = otherState o := by
  rw [mark_hosts, exists_mem_modify hi, exists_mem_modify hi]
  cases o with
  | none => exact (and_iff_right (.inl rfl)).trans (or_iff_right nofun)
  | some error => exact (and_iff_left (.inl rfl)).trans (or_iff_right nofun)

/-- All hosts have one outcome after a mark if it is that of the mark and all others have it. -/
theorem outcome_of_forall_mark (hi : i < c.hosts.length) (now : ℚ) (o o' : Option String)
    (h : ∀ h ∈ (mark now o c i).hosts, h.state = outcomeState o') :
    (∀ h ∈ c.hosts.eraseIdx i, h.state = outcomeState o) ∧
      clusterOutcome o = clusterOutcome o' := by
  rw [mark_hosts, forall_mem_modify hi] at h
  cases o <;> cases o' <;> first | exact ⟨h.2, rfl⟩ | cases h.1

/-- **When a mark leaves the state reported.** -/
theorem stateReported_mark_iff (hi : i < c.hosts.length) (now : ℚ) (o : Option String) :
    (mark now o c i).StateReported ↔ (c.state = .partialState →
      (∃ h ∈ c.hosts.eraseIdx i, h.state = otherState o) ∨
        ∀ h ∈ c.hosts.eraseIdx i, h.state = outcomeState o) := by
  constructor
  · intro hreported hstate
    rcases mark_state hi now o with ⟨hall, -⟩ | ⟨hany, -⟩ | ⟨-, hany, hkept⟩
    · exact .inr hall
    · exact .inl hany
    · -- the old PARTIAL is kept, but no host has the other outcome
      have hboth := hreported.partial_iff.mp (hkept.trans hstate)
      exact absurd ((both_outcomes_mark_iff hi now o).mp hboth) hany
  · intro hcond
    have hexclusive : (∀ h ∈ c.hosts.eraseIdx i, h.state = outcomeState o) →
        ¬ ∃ h ∈ c.hosts.eraseIdx i, h.state = otherState o := by
      rintro hall ⟨h, hh, hother⟩
      have hsame := (hall h hh).symm.trans hother
      cases o <;> cases hsame
    have houtcome : (∀ h ∈ c.hosts.eraseIdx i, h.state = outcomeState o) →
        (mark now o c i).state = clusterOutcome o := by
      intro hall
      rcases mark_state hi now o with ⟨-, hstate⟩ | ⟨hany, -⟩ | ⟨hnot, -⟩
      · exact hstate
      · exact absurd hany (hexclusive hall)
      · exact absurd hall hnot
    refine ⟨?_, fun hall => ?_, fun hall => ?_⟩
    · rw [both_outcomes_mark_iff hi]
      rcases mark_state hi now o with ⟨hall, hstate⟩ | ⟨hany, hstate⟩ | ⟨hnot, hany, hstate⟩
      · refine iff_of_false (fun hpartial => ?_) (hexclusive hall)
        have hsame := hstate.symm.trans hpartial
        cases o <;> cases hsame
      · exact iff_of_true hstate hany
      · exact iff_of_false
          (fun hpartial => (hcond (hstate.symm.trans hpartial)).elim hany hnot) hany
    · obtain ⟨hothers, heq⟩ := outcome_of_forall_mark hi now o none hall
      exact (houtcome hothers).trans heq
    · obtain ⟨hothers, heq⟩ := outcome_of_forall_mark hi now o (some "") hall
      exact (houtcome hothers).trans heq

/-- **When a mark leaves the cluster reported.** -/
theorem reported_mark_iff (h : c.Reported) (hi : i < c.hosts.length) (now : ℚ)
    (o : Option String) : (mark now o c i).Reported ↔ MarkReports o c i := by
  have hothers : ∀ g ∈ c.hosts.eraseIdx i, g.state = .complete → g.errorMessage = "" :=
    fun g hg => h.no_error g (List.mem_of_mem_eraseIdx hg)
  have herror : (∀ g ∈ (mark now o c i).hosts, g.state = .complete → g.errorMessage = "") ↔
      (o = none → ∀ g, c.hosts[i]? = some g → g.errorMessage = "") := by
    rw [mark_hosts, forall_mem_modify hi, and_iff_left hothers, List.getElem?_eq_getElem hi]
    cases o with
    | none => simp [ClusterHost.report]
    | some error => simp [ClusterHost.report]
  constructor
  · intro hreported
    exact ⟨(stateReported_mark_iff hi now o).mp hreported.toStateReported,
      herror.mp hreported.no_error⟩
  · intro hmark
    exact ⟨(stateReported_mark_iff hi now o).mpr hmark.not_stale, herror.mpr hmark.no_error⟩

/-! ### Provisionings -/

/-- The error text that a host has after outcomes are reported for it. -/
theorem errorMessage_foldl_report (os : List (Option String)) (h : ClusterHost) :
    (os.foldl (fun h o => h.report o) h).errorMessage =
      (os.filterMap id).getLast?.getD h.errorMessage := by
  induction os using List.reverseRecOn with
  | nil => rfl
  | append_singleton os o ih =>
    rw [List.foldl_concat, List.filterMap_append]
    cases o with
    | none => simpa [ClusterHost.report] using ih
    | some error => simp [ClusterHost.report]

/-- The final state reports hosts that all have an outcome, unless it says that a host failed and
none is FAILED. -/
theorem stateReported_finalState_iff {ok : Bool} (hne : c.hosts ≠ [])
    (hsettled : ∀ h ∈ c.hosts, h.state = .complete ∨ h.state = .failed)
    (hok : ok = true → ∀ h ∈ c.hosts, h.state = .complete) :
    ({ c with state := finalState c ok } : ClusterDefinition).StateReported ↔
      (ok = false → ∃ h ∈ c.hosts, h.state = .failed) := by
  obtain ⟨g, hg⟩ := List.exists_mem_of_ne_nil _ hne
  have hnot : ∀ h : ClusterHost, h.state = .complete → h.state ≠ .failed := by
    intro h hc hf
    cases hc.symm.trans hf
  constructor
  · rintro hreported rfl
    by_contra hnone
    have hall : ∀ h ∈ c.hosts, h.state = .complete := fun h hh =>
      (hsettled h hh).resolve_right fun hf => hnone ⟨h, hh, hf⟩
    have hstate : finalState c false = .complete := hreported.complete hall
    rw [finalState, if_neg Bool.false_ne_true] at hstate
    split_ifs at hstate
  · intro hfail
    cases ok with
    | true =>
      have hall := hok rfl
      refine ⟨iff_of_false ClusterState.noConfusion ?_, fun _ => rfl, fun hf => ?_⟩
      · rintro ⟨-, h, hh, hf⟩
        exact hnot h (hall h hh) hf
      · exact absurd (hf g hg) (hnot g (hall g hg))
    | false =>
      obtain ⟨h, hh, hf⟩ := hfail rfl
      have hstate : finalState c false =
          if c.hosts.any (·.state = .complete) then .partialState else .failed := rfl
      refine ⟨?_, fun hall => absurd hf (hnot h (hall h hh)), fun hall => ?_⟩
      · show finalState c false = _ ↔ _
        rw [hstate, and_iff_left ⟨h, hh, hf⟩]
        simp
      · show finalState c false = _
        rw [hstate, if_neg]
        simp only [List.any_eq_true, decide_eq_true_eq]
        rintro ⟨h', hh', hc⟩
        exact hnot h' hc (hall h' hh')

/-- A host after a provisioning, by the outcomes of its visits. -/
theorem getElem?_reported_of_mem {hosts : List ClusterHost} {reports : List (ℕ × Option String)}
    {g : ClusterHost} (hg : hosts[i]? = some g) (hi : i ∈ reports.map Prod.fst) :
    ∃ h, (reported hosts reports)[i]? = some h ∧
      (h.state = .complete ↔ (outcomesOf i reports).getLast? = some none) ∧
      (h.state = .failed ↔ (outcomesOf i reports).getLast? ≠ some none) ∧
      h.errorMessage = ((outcomesOf i reports).filterMap id).getLast?.getD g.errorMessage := by
  obtain ⟨⟨j, o⟩, hr, rfl : j = i⟩ := List.mem_map.mp hi
  have hne := List.ne_nil_of_mem (mem_outcomesOf.mpr hr)
  refine ⟨_, by rw [getElem?_reported, hg, Option.map_some], ?_, ?_,
    errorMessage_foldl_report _ g⟩
  · rw [state_foldl_report hne, List.getLast?_eq_getLast_of_ne_nil hne]
    split_ifs with hlast <;> simp [hlast]
  · rw [state_foldl_report hne, List.getLast?_eq_getLast_of_ne_nil hne]
    split_ifs with hlast <;> simp [hlast]

section

variable {hosts : List ClusterHost} {reports : List (ℕ × Option String)}

/-- The hosts after a provisioning that visits all of them, one position at a time. -/
theorem position_of_mem_reported (hall : ∀ i < hosts.length, i ∈ reports.map Prod.fst)
    {h : ClusterHost} (hh : h ∈ reported hosts reports) :
    ∃ i g, hosts[i]? = some g ∧
      (h.state = .complete ↔ (outcomesOf i reports).getLast? = some none) ∧
      (h.state = .failed ↔ (outcomesOf i reports).getLast? ≠ some none) ∧
      h.errorMessage = ((outcomesOf i reports).filterMap id).getLast?.getD g.errorMessage := by
  obtain ⟨i, hget⟩ := List.mem_iff_getElem?.mp hh
  have hi : i < hosts.length := by
    rw [← length_reported hosts reports]
    exact (List.getElem?_eq_some_iff.mp hget).1
  have hg : hosts[i]? = some hosts[i] := List.getElem?_eq_getElem hi
  obtain ⟨h', hget', hstates⟩ := getElem?_reported_of_mem hg (hall i hi)
  obtain rfl : h' = h := Option.some.inj (hget'.symm.trans hget)
  exact ⟨i, hosts[i], hg, hstates⟩

theorem exists_failed_reported_iff (hall : ∀ i < hosts.length, i ∈ reports.map Prod.fst) :
    (∃ h ∈ reported hosts reports, h.state = .failed) ↔
      ∃ i < hosts.length, (outcomesOf i reports).getLast? ≠ some none := by
  constructor
  · rintro ⟨h, hh, hf⟩
    obtain ⟨i, g, hg, -, hiff, -⟩ := position_of_mem_reported hall hh
    exact ⟨i, (List.getElem?_eq_some_iff.mp hg).1, hiff.mp hf⟩
  · rintro ⟨i, hi, hlast⟩
    obtain ⟨h, hget, -, hiff, -⟩ :=
      getElem?_reported_of_mem (List.getElem?_eq_getElem hi) (hall i hi)
    exact ⟨h, List.mem_of_getElem? hget, hiff.mpr hlast⟩

theorem no_error_reported_iff (hall : ∀ i < hosts.length, i ∈ reports.map Prod.fst) :
    (∀ h ∈ reported hosts reports, h.state = .complete → h.errorMessage = "") ↔
      ∀ i h, hosts[i]? = some h → (outcomesOf i reports).getLast? = some none →
        ((outcomesOf i reports).filterMap id).getLast?.getD h.errorMessage = "" := by
  constructor
  · intro hno i g hg hlast
    have hi : i < hosts.length := (List.getElem?_eq_some_iff.mp hg).1
    obtain ⟨h, hget, hiff, -, hmessage⟩ := getElem?_reported_of_mem hg (hall i hi)
    exact hmessage ▸ hno h (List.mem_of_getElem? hget) (hiff.mpr hlast)
  · intro hno h hh hc
    obtain ⟨i, g, hg, hiff, -, hmessage⟩ := position_of_mem_reported hall hh
    exact hmessage.trans (hno i g hg (hiff.mp hc))

/-- Where no callback raised, all hosts are COMPLETE. -/
theorem complete_of_none_raised (hall : ∀ i < hosts.length, i ∈ reports.map Prod.fst)
    (hnone : ∀ r ∈ reports, r.2 = none) : ∀ h ∈ reported hosts reports, h.state = .complete := by
  intro h hh
  refine (settled_of_reported hall h hh).resolve_right fun hf => ?_
  obtain ⟨i, hi, hlast⟩ := (exists_failed_reported_iff hall).mp ⟨h, hh, hf⟩
  obtain ⟨⟨j, o⟩, hr, rfl : j = i⟩ := List.mem_map.mp (hall i hi)
  have hos := List.ne_nil_of_mem (mem_outcomesOf.mpr hr)
  rw [List.getLast?_eq_getLast_of_ne_nil hos] at hlast
  exact hlast (congrArg some (hnone _ (mem_outcomesOf.mp (List.getLast_mem hos))))

end

/-- **When a provisioning leaves the cluster reported.** -/
theorem reported_provisioned_iff {vs : List Visit} (hne : c.hosts ≠ [])
    (hvs : vs.map Visit.host = c.orderedGroups.flatten) (updatedAt : Option ℚ) :
    (provisioned c vs updatedAt).Reported ↔ StartReports (vs.map Visit.report) c := by
  let reports := vs.map Visit.report
  have hall : ∀ i < c.hosts.length, i ∈ reports.map Prod.fst := by
    intro i hi
    rw [List.map_map]
    exact hvs ▸ ClusterDefinition.mem_flatten_orderedGroups hi
  have hraised : vs.all (·.error.isNone) = false ↔ ∃ r ∈ reports, r.2 ≠ none := by
    simp [reports, Visit.report, List.all_eq_false]
  have hok : vs.all (·.error.isNone) = true →
      ∀ h ∈ reported c.hosts reports, h.state = .complete := by
    intro htrue
    refine complete_of_none_raised hall fun r hr => by_contra fun hr' => ?_
    exact Bool.noConfusion (htrue.symm.trans (hraised.mpr ⟨r, hr, hr'⟩))
  have hne' : reported c.hosts reports ≠ [] := by
    intro hnil
    have hlength := length_reported c.hosts reports
    rw [hnil] at hlength
    exact hne (List.length_eq_zero_iff.mp hlength.symm)
  have hstate := stateReported_finalState_iff
    (c := { c with hosts := reported c.hosts reports, updatedAt := updatedAt }) hne'
    (settled_of_reported hall) hok
  rw [hraised, exists_failed_reported_iff hall] at hstate
  have herror := no_error_reported_iff hall
  constructor
  · intro hreported
    exact ⟨hstate.mp hreported.toStateReported, herror.mp hreported.no_error⟩
  · intro hstart
    exact ⟨hstate.mpr hstart.not_stale, herror.mpr hstart.no_error⟩

/-! ### Runs -/

/-- Every stored cluster is reported. -/
def AllReported (py : StrLib) (m : ClusterManager json) : Prop :=
  ∀ name c, m.lookup py name = some c → c.Reported

/-- Replacing one cluster keeps all reported if the new one is. -/
theorem allReported_update_iff {m' : ClusterManager json} {name : String}
    {c' : ClusterDefinition} (h : AllReported py m)
    (hlookup : m'.lookup py = Function.update (m.lookup py) name (some c')) :
    AllReported py m' ↔ c'.Reported := by
  constructor
  · intro hall
    exact hall name c' (by rw [hlookup, Function.update_self])
  · intro hc' name' c hc
    rw [hlookup, update_eq_some_iff] at hc
    rcases hc with ⟨-, hc⟩ | ⟨-, hc⟩
    · exact Option.some.inj hc ▸ hc'
    · exact h name' c hc

theorem allReported_mark_iff (hm : WellStored py m) (h : AllReported py m) {env : Env}
    (hfault : ∀ k, env.fault k = none) (name mac : String) (o : Option String) :
    AllReported py (step py m (Op.mark env name mac o)).2 ↔
      ∀ c i, m.lookup py name = some c → c.findMac py mac = some i → MarkReports o c i := by
  rw [step_mark]
  rcases markHost_spec hm (hfault 0) name mac
    (fun c i => (sameIdentity_mark (env.now 0) o c i).name) with
      ⟨c, i, hc, hfind, heq⟩ | ⟨hnone, e, heq⟩
  · obtain ⟨hi, -⟩ := List.findIdx?_eq_some_iff_getElem.mp hfind
    obtain ⟨-, hlookup⟩ := hm.replace hc (sameIdentity_mark (env.now 0) o c i)
    rw [heq]
    refine (allReported_update_iff h hlookup).trans ?_
    rw [reported_mark_iff (h name c hc) hi]
    constructor
    · intro hmark c' i' hc' hfind'
      obtain rfl := Option.some.inj (hc.symm.trans hc')
      obtain rfl := Option.some.inj (hfind.symm.trans hfind')
      exact hmark
    · exact fun hall => hall c i hc hfind
  · rw [heq]
    refine iff_of_true h fun c i hc hfind => ?_
    cases hfind.symm.trans (hnone c hc)

theorem allReported_startProvisioning_iff (hm : WellStored py m)
    (haccepted : ∀ name c, m.lookup py name = some c → c.Accepted py) (h : AllReported py m)
    {env : Env} (hfault : ∀ k, env.fault k = none) (name : String) :
    AllReported py (step py m (.startProvisioning env name)).2 ↔
      ∀ c, m.lookup py name = some c → c.state ≠ .provisioning →
        StartReports ((m.startVisits py env name).map Visit.report) c := by
  simp only [step]
  rcases startProvisioning_spec hm hfault name with
    ⟨c, updatedAt, hc, hstate, hvs, heq⟩ | ⟨hbusy, e, heq⟩
  · obtain ⟨-, hlookup⟩ := hm.replace hc
      (sameIdentity_provisioned c (m.startVisits py env name) updatedAt)
    rw [heq]
    refine (allReported_update_iff h hlookup).trans ?_
    rw [reported_provisioned_iff (haccepted name c hc).nonempty hvs]
    constructor
    · intro hstart c' hc' _
      exact Option.some.inj (hc.symm.trans hc') ▸ hstart
    · exact fun hall => hall c hc hstate
  · rw [heq]
    exact iff_of_true h fun c hc hstate => absurd (hbusy c hc) hstate

/-- A fresh cluster is in a reported state. -/
theorem stateReported_of_fresh (hfresh : c.Fresh) (hne : c.hosts ≠ []) : c.StateReported := by
  obtain ⟨g, hg⟩ := List.exists_mem_of_ne_nil _ hne
  have hpending := hfresh.hosts g hg
  refine ⟨?_, fun hall => ?_, fun hall => ?_⟩
  · rw [hfresh.state]
    refine iff_of_false nofun ?_
    rintro ⟨⟨h, hh, hc⟩, -⟩
    cases (hfresh.hosts h hh).symm.trans hc
  · cases hpending.symm.trans (hall g hg)
  · cases hpending.symm.trans (hall g hg)

/-- What one call does to the reports. -/
theorem allReported_step_iff (hm : WellStored py m)
    (haccepted : ∀ name c, m.lookup py name = some c → c.Accepted py) (h : AllReported py m)
    {op : Op} (hfault : op.NoFault) (hdefault : op.DefaultLifecycle) :
    AllReported py (step py m op).2 ↔ op.KeepsReported py m := by
  cases op with
  | markHostComplete env name mac => exact allReported_mark_iff hm h hfault name mac none
  | markHostFailed env name mac error =>
    exact allReported_mark_iff hm h hfault name mac (some error)
  | startProvisioning env name =>
    exact allReported_startProvisioning_iff hm haccepted h hfault name
  | createCluster env d =>
    refine iff_of_true ?_ trivial
    simp only [step]
    rcases createCluster_spec (hfault 0) d with
      ⟨createdAt, updatedAt, -, -, hvalid, hd, heq⟩ | ⟨e, heq⟩
    · rw [heq]
      let d' := { d with createdAt := createdAt, updatedAt := updatedAt }
      refine (allReported_update_iff h (lookup_put (c := d') hvalid)).mpr ?_
      have hfresh : d'.Fresh := ⟨hdefault.1.state, hdefault.1.hosts⟩
      exact ⟨stateReported_of_fresh hfresh hd.nonempty, fun h hh _ => hdefault.2 h hh⟩
    · rw [heq]
      exact h
  | deleteCluster name =>
    refine iff_of_true (fun name' c hc => ?_) trivial
    simp only [step, Prod.map_snd, id, lookup_deleteCluster, update_eq_some_iff] at hc
    rcases hc with ⟨-, hc⟩ | ⟨-, hc⟩
    · cases hc
    · exact h name' c hc

/-- **Reports.** In every run of the manager from an empty store, with default lifecycle fields
and without failing writes, every stored cluster reports the states of its hosts, if and only if
no mark leaves a PARTIAL cluster without hosts of both outcomes, no mark completes a host with an
error, and in every provisioning the visits that raise leave a FAILED host and no COMPLETE host
with an error. -/
theorem reports_match_iff (py : StrLib) (m : ClusterManager json) (hempty : m.store.files = ∅)
    (ops : List Op) (hops : ∀ op ∈ ops, op.NoFault ∧ op.DefaultLifecycle) :
    (∀ pre, pre <+: ops → ∀ name c, (run (step py) m pre).lookup py name = some c →
      c.Reported) ↔
    ∀ pre op, pre ++ [op] <+: ops → op.KeepsReported py (run (step py) m pre) := by
  let Inv (m : ClusterManager json) : Prop :=
    WellStored py m ∧ ∀ name c, m.lookup py name = some c → c.Accepted py
  have hinv : ∀ (m : ClusterManager json) op, Op.NoFault op ∧ op.DefaultLifecycle → Inv m →
      Inv (step py m op).2 := by
    rintro m op ⟨hfault, -⟩ ⟨hm, haccepted⟩
    obtain ⟨hm', hchange⟩ := step_change hm hfault
    exact ⟨hm', hchange.accepted haccepted⟩
  have hnone : ∀ name c, m.lookup py name ≠ some c := fun name c hc => by
    cases (lookup_of_empty hempty name).symm.trans hc
  have hstart : Inv m := ⟨wellStored_of_empty hempty, fun name c hc => absurd hc (hnone name c)⟩
  have hgood : AllReported py m := fun name c hc => absurd hc (hnone name c)
  exact forall_admissible_run_iff hinv
    (fun m op hop h hall => allReported_step_iff h.1 h.2 hall hop.1 hop.2) hstart hgood hops

/-! ### Marks commute -/

/-- A mark of a host, with what the call finds outside. -/
structure HostMark where
  env : Env
  mac : String
  outcome : Option String

/-- The mark as a call. -/
def HostMark.op (name : String) (r : HostMark) : Op := .mark r.env name r.mac r.outcome

/-- The reports of marks on the hosts that they find. -/
def reportsOf (py : StrLib) (c : ClusterDefinition) (marks : List HostMark) :
    List (ℕ × Option String) :=
  marks.filterMap fun r => (c.findMac py r.mac).map fun i => (i, r.outcome)

/-- Reports on different hosts commute. -/
theorem reported_perm {reports reports' : List (ℕ × Option String)}
    (hperm : reports.Perm reports') (honce : (reports.map Prod.fst).Nodup)
    (hosts : List ClusterHost) : reported hosts reports = reported hosts reports' := by
  refine hperm.foldl_eq' (fun r hr r' hr' hosts => ?_) hosts
  by_cases heq : r.1 = r'.1
  · rw [List.inj_on_of_nodup_map honce hr hr' heq]
  · exact List.modify_modify_ne _ _ _ heq

/-- The mark of a MAC finds the same host in all clusters with these MACs. -/
theorem findMac_of_identity {c c' : ClusterDefinition}
    (h : c'.hosts.map ClusterHost.identity = c.hosts.map ClusterHost.identity) (mac : String) :
    c'.findMac py mac = c.findMac py mac := by
  have hmacs : c'.hosts.map (·.mac) = c.hosts.map (·.mac) := by
    simpa [Function.comp_def, ClusterHost.identity] using
      congrArg (List.map fun t => t.2.1) h
  have hfind : ∀ hosts : List ClusterHost, hosts.findIdx? (fun h => py.lower h.mac = py.lower mac) =
      (hosts.map (·.mac)).findIdx? fun m => py.lower m = py.lower mac := by
    intro hosts
    rw [List.findIdx?_map]
    rfl
  rw [ClusterDefinition.findMac, ClusterDefinition.findMac, hfind, hfind, hmacs]

theorem mac_of_findMac {mac : String} (hfind : c.findMac py mac = some i) :
    ∃ h, c.hosts[i]? = some h ∧ py.lower h.mac = py.lower mac := by
  obtain ⟨hi, hmac, -⟩ := List.findIdx?_eq_some_iff_getElem.mp hfind
  exact ⟨c.hosts[i], List.getElem?_eq_getElem hi, by simpa using hmac⟩

/-- A mark on a PENDING host leaves the state reported. -/
theorem stateReported_mark_of_pending (h : c.StateReported) {g : ClusterHost}
    (hg : c.hosts[i]? = some g) (hpending : g.state = .pending) (now : ℚ) (o : Option String) :
    (mark now o c i).StateReported := by
  obtain ⟨hi, rfl⟩ := List.getElem?_eq_some_iff.mp hg
  refine (stateReported_mark_iff hi now o).mpr fun hstate => .inl ?_
  -- hosts with both outcomes are there, and the marked one is neither
  have hother : ∀ s, s ≠ .pending → (∃ h ∈ c.hosts, h.state = s) →
      ∃ h ∈ c.hosts.eraseIdx i, h.state = s := by
    rintro s hs ⟨h, hh, rfl⟩
    rcases List.mem_cons.mp ((List.getElem_cons_eraseIdx_perm hi).mem_iff.mpr hh) with rfl | hmem
    · exact absurd hpending hs
    · exact ⟨h, hmem, rfl⟩
  obtain ⟨hcomplete, hfailed⟩ := h.partial_iff.mp hstate
  cases o with
  | none => exact hother .failed nofun hfailed
  | some error => exact hother .complete nofun hcomplete

theorem consistent_mark (h : c.Consistent) (now : ℚ) (o : Option String) (i : ℕ) :
    (mark now o c i).Consistent := by
  cases o with
  | none => exact consistent_completeHost h i now
  | some error => exact consistent_failHost h i error now

/-- After a mark, the hosts of marks with other MACs are still PENDING. -/
theorem pending_after_mark {marks : List HostMark} {r : HostMark}
    (hfind : c.findMac py r.mac = some i)
    (honce : py.lower r.mac ∉ marks.map fun r => py.lower r.mac)
    (hpending : ∀ r' ∈ marks, ∀ j h, c.findMac py r'.mac = some j → c.hosts[j]? = some h →
      h.state = .pending) (now : ℚ) (o : Option String) :
    ∀ r' ∈ marks, ∀ j h, (mark now o c i).findMac py r'.mac = some j →
      (mark now o c i).hosts[j]? = some h → h.state = .pending := by
  intro r' hr' j h hfind' hh
  rw [findMac_of_identity (sameIdentity_mark now o c i).hosts] at hfind'
  have hij : i ≠ j := by
    rintro rfl
    obtain ⟨g, hg, hmac⟩ := mac_of_findMac hfind
    obtain ⟨g', hg', hmac'⟩ := mac_of_findMac hfind'
    obtain rfl := Option.some.inj (hg.symm.trans hg')
    exact honce (List.mem_map.mpr ⟨r', hr', hmac'.symm.trans hmac⟩)
  rw [mark_hosts] at hh
  refine hpending r' hr' j h hfind' ?_
  simpa [hij] using hh

/-- What marks report depends on the MACs of the cluster. -/
theorem reportsOf_of_identity {c c' : ClusterDefinition} (h : c.SameIdentity c')
    (marks : List HostMark) : reportsOf py c' marks = reportsOf py c marks := by
  rw [reportsOf, reportsOf]
  simp only [findMac_of_identity h.hosts]

/-- Marks of PENDING hosts, each at most once: the hosts get the outcomes, and the state stays
reported. -/
theorem marks_run {marks : List HostMark} (hfault : ∀ r ∈ marks, ∀ k, r.env.fault k = none)
    (honce : (marks.map fun r => py.lower r.mac).Nodup)
    (hget : m.store.get py c.name = .ok (some c)) (hcons : c.Consistent) (hrep : c.StateReported)
    (hpending : ∀ r ∈ marks, ∀ i h, c.findMac py r.mac = some i → c.hosts[i]? = some h →
      h.state = .pending) :
    ∃ c', (run (step py) m (marks.map (HostMark.op c.name))).store.get py c.name =
        .ok (some c') ∧ c'.hosts = reported c.hosts (reportsOf py c marks) ∧
      c'.Consistent ∧ c'.StateReported := by
  induction marks generalizing m c with
  | nil => exact ⟨c, hget, rfl, hcons, hrep⟩
  | cons r marks ih =>
    rw [List.forall_mem_cons] at hfault hpending
    rw [List.map_cons, List.nodup_cons] at honce
    rw [List.map_cons, run_cons, HostMark.op, step_mark]
    rcases markHost_eq hget (hfault.1 0) r.mac
      (fun i => (sameIdentity_mark (r.env.now 0) r.outcome c i).name) with
        ⟨i, hfind, heq⟩ | ⟨hfind, e, heq⟩
    · let c₁ := mark (r.env.now 0) r.outcome c i
      have hsame : c.SameIdentity c₁ := sameIdentity_mark _ _ _ _
      obtain ⟨g, hg, -⟩ := mac_of_findMac hfind
      have hget₁ : (m.put c₁).store.get py c₁.name = .ok (some c₁) := by
        have hvalid := validate_of_get hget
        rw [← hsame.name] at hvalid
        exact get_put hvalid
      obtain ⟨c', hget', hhosts, hcons', hrep'⟩ := ih (m := m.put c₁) (c := c₁) hfault.2 honce.2
        hget₁ (consistent_mark hcons _ _ _)
        (stateReported_mark_of_pending hrep hg (hpending.1 i g hfind hg) _ _)
        (pending_after_mark hfind honce.1 hpending.2 _ _)
      refine ⟨c', ?_, ?_, hcons', hrep'⟩
      · rw [heq, ← hsame.name]
        exact hget'
      · rw [hhosts, mark_hosts]
        rw [reportsOf_of_identity hsame, reportsOf, reportsOf, List.filterMap_cons, hfind]
        rfl
    · obtain ⟨c', hget', hhosts, hstates⟩ := ih hfault.2 honce.2 hget hcons hrep hpending.2
      refine ⟨c', ?_, ?_, hstates⟩
      · rw [heq]
        exact hget'
      · rw [hhosts, reportsOf, reportsOf, List.filterMap_cons, hfind]
        rfl

/-- Two consistent clusters that report the same hosts are in the same state. -/
theorem state_eq_of_reported {c c' : ClusterDefinition} (hhosts : c.hosts = c'.hosts)
    (hcons : c.Consistent) (hcons' : c'.Consistent) (hrep : c.StateReported)
    (hrep' : c'.StateReported) : c.state = c'.state := by
  have hcomplete : c.state = .complete ↔ c'.state = .complete :=
    ⟨fun h => hrep'.complete (hhosts ▸ hcons.complete h),
      fun h => hrep.complete (hhosts ▸ hcons'.complete h)⟩
  have hfailed : c.state = .failed ↔ c'.state = .failed :=
    ⟨fun h => hrep'.failed (hhosts ▸ hcons.failed h),
      fun h => hrep.failed (hhosts ▸ hcons'.failed h)⟩
  have hpartial : c.state = .partialState ↔ c'.state = .partialState := by
    rw [hrep.partial_iff, hrep'.partial_iff, hhosts]
  have hidle := hcons.not_provisioning
  have hidle' := hcons'.not_provisioning
  cases hstate : c.state <;> cases hstate' : c'.state <;> simp_all

/-- The marks of two orders report the same. -/
theorem reportsOf_perm {marks marks' : List HostMark}
    (hperm : (marks.map fun r => (py.lower r.mac, r.outcome)).Perm
      (marks'.map fun r => (py.lower r.mac, r.outcome))) :
    (reportsOf py c marks).Perm (reportsOf py c marks') := by
  have hkeys : ∀ marks, reportsOf py c marks =
      (marks.map fun r => (py.lower r.mac, r.outcome)).filterMap fun k =>
        (c.hosts.findIdx? fun h => py.lower h.mac = k.1).map fun i => (i, k.2) := by
    intro marks
    rw [List.filterMap_map]
    rfl
  rw [hkeys, hkeys]
  exact hperm.filterMap _

/-- Marks of different MACs are about different hosts. -/
theorem nodup_reportsOf {marks : List HostMark}
    (honce : (marks.map fun r => py.lower r.mac).Nodup) :
    ((reportsOf py c marks).map Prod.fst).Nodup := by
  have hkeys : (reportsOf py c marks).map Prod.fst =
      (marks.map fun r => py.lower r.mac).filterMap fun l =>
        c.hosts.findIdx? fun h => py.lower h.mac = l := by
    rw [List.filterMap_map, reportsOf, List.map_filterMap]
    refine List.filterMap_congr fun r _ => ?_
    rw [Option.map_map]
    exact Option.map_id'
  rw [hkeys]
  refine honce.filterMap fun l l' i hi hi' => ?_
  obtain ⟨hlt, hmac, -⟩ := List.findIdx?_eq_some_iff_getElem.mp hi
  obtain ⟨hlt', hmac', -⟩ := List.findIdx?_eq_some_iff_getElem.mp hi'
  exact (of_decide_eq_true hmac).symm.trans (of_decide_eq_true hmac')

/-- **Marks commute.** Marks of the hosts of a fresh cluster, each host at most once, lead in any
order to the same hosts, with the same states and errors, and to the same state of the cluster. -/
theorem marks_commute (py : StrLib) (m : ClusterManager json) (c : ClusterDefinition)
    (hstored : m.store.get py c.name = .ok (some c)) (haccepted : c.Accepted py)
    (hfresh : c.Fresh) (marks marks' : List HostMark)
    (hperm : (marks.map fun r => (py.lower r.mac, r.outcome)).Perm
      (marks'.map fun r => (py.lower r.mac, r.outcome)))
    (honce : (marks.map fun r => py.lower r.mac).Nodup)
    (hfault : ∀ r ∈ marks ++ marks', ∀ k, r.env.fault k = none) :
    ∃ c₁ c₂, (run (step py) m (marks.map (HostMark.op c.name))).store.get py c.name =
        .ok (some c₁) ∧
      (run (step py) m (marks'.map (HostMark.op c.name))).store.get py c.name = .ok (some c₂) ∧
      c₁.hosts = c₂.hosts ∧ c₁.state = c₂.state := by
  have honce' : (marks'.map fun r => py.lower r.mac).Nodup := by
    have hmacs := hperm.map Prod.fst
    rw [List.map_map, List.map_map] at hmacs
    exact hmacs.nodup_iff.mp honce
  have hrep := stateReported_of_fresh hfresh haccepted.nonempty
  have hpending : ∀ marks : List HostMark, ∀ r ∈ marks, ∀ i h, c.findMac py r.mac = some i →
      c.hosts[i]? = some h → h.state = .pending := fun _ r _ i h _ hh =>
    hfresh.hosts h (List.mem_of_getElem? hh)
  rw [List.forall_mem_append] at hfault
  obtain ⟨c₁, hget₁, hhosts₁, hcons₁, hrep₁⟩ :=
    marks_run hfault.1 honce hstored hfresh.consistent hrep (hpending marks)
  obtain ⟨c₂, hget₂, hhosts₂, hcons₂, hrep₂⟩ :=
    marks_run hfault.2 honce' hstored hfresh.consistent hrep (hpending marks')
  have hhosts : c₁.hosts = c₂.hosts := by
    rw [hhosts₁, hhosts₂]
    exact reported_perm (reportsOf_perm hperm) (nodup_reportsOf honce) c.hosts
  exact ⟨c₁, c₂, hget₁, hget₂, hhosts, state_eq_of_reported hhosts hcons₁ hcons₂ hrep₁ hrep₂⟩

/-! ### A lab of three hosts -/

/-- Three hosts of one role. -/
private def threeHosts : ClusterDefinition :=
  { name := "lab", hosts := [{ hostname := "a", mac := "AA:BB:CC:DD:EE:01" },
      { hostname := "b", mac := "AA:BB:CC:DD:EE:02" },
      { hostname := "c", mac := "AA:BB:CC:DD:EE:03" }] }

private def plainEnv : Env := ⟨fun k => k, fun _ => none⟩

/-- One host fails, another completes, and the first completes after all. -/
private def recoveredCalls : List Op :=
  [.createCluster plainEnv threeHosts, .markHostFailed plainEnv "lab" "aa:bb:cc:dd:ee:01" "disk",
    .markHostComplete plainEnv "lab" "aa:bb:cc:dd:ee:02",
    .markHostComplete plainEnv "lab" "aa:bb:cc:dd:ee:01"]

/-- The cluster is still PARTIAL, without a FAILED host, and the COMPLETE host has its error. -/
theorem recovered_host_leaves_partial :
    ∃ c, (run (step .ascii) (⟨⟨∅⟩, [], 0⟩ : ClusterManager .parsed) recoveredCalls).lookup .ascii
        "lab" = some c ∧ c.state = .partialState ∧
      c.hosts.map (·.state) = [.complete, .complete, .pending] ∧
      c.hosts.map (·.errorMessage) = ["disk", "", ""] ∧ ¬ c.Reported := by
  have hend : ((run (step .ascii) (⟨⟨∅⟩, [], 0⟩ : ClusterManager .parsed) recoveredCalls).lookup
      .ascii "lab").map (fun c => (c.state, c.hosts.map (·.state), c.hosts.map (·.errorMessage))) =
        some (.partialState, [.complete, .complete, .pending], ["disk", "", ""]) := by
    decide +kernel
  obtain ⟨c, hc, heq⟩ := Option.map_eq_some_iff.mp hend
  obtain ⟨hstate, hstates, herrors⟩ : _ ∧ _ ∧ _ := by simpa using heq
  refine ⟨c, hc, hstate, hstates, herrors, fun hreported => ?_⟩
  obtain ⟨-, h, hh, hfailed⟩ := hreported.partial_iff.mp hstate
  have hmem : HostState.failed ∈ c.hosts.map (·.state) := List.mem_map.mpr ⟨h, hh, hfailed⟩
  rw [hstates] at hmem
  exact absurd hmem (by decide)

/-- The calls of a lab whose first host fails to be provisioned; then the second one breaks and the
third one is reported again. -/
private def reportCalls : List Op :=
  [.createCluster plainEnv threeHosts, .startProvisioning plainEnv "lab",
    .markHostFailed plainEnv "lab" "aa:bb:cc:dd:ee:02" "disk",
    .markHostComplete plainEnv "lab" "aa:bb:cc:dd:ee:03"]

/-- A manager whose callback raises for the first host. -/
private def failingManager : ClusterManager .parsed :=
  ⟨⟨∅⟩, [fun _ _ host => if host.hostname = "a" then some "no disk" else none], 0⟩

/-- What is stored of the states and errors of the lab. -/
private def labStates (m : ClusterManager .parsed) :
    Option (ClusterState × List (HostState × String)) :=
  (m.lookup .ascii "lab").map fun c => (c.state, c.hosts.map fun h => (h.state, h.errorMessage))

/-- Every call meets the condition, so the lab is reported after each of them. -/
theorem reports_match_iff_lab :
    labStates (run (step .ascii) failingManager (reportCalls.take 2)) =
        some (.partialState, [(.failed, "no disk"), (.complete, ""), (.complete, "")]) ∧
      labStates (run (step .ascii) failingManager reportCalls) =
        some (.partialState, [(.failed, "no disk"), (.failed, "disk"), (.complete, "")]) ∧
      ∀ pre, pre <+: reportCalls → ∀ name c,
        (run (step .ascii) failingManager pre).lookup .ascii name = some c → c.Reported := by
  refine ⟨by decide +kernel, by decide +kernel,
    (reports_match_iff .ascii failingManager rfl reportCalls ?_).mpr ?_⟩
  · simp only [reportCalls, List.forall_mem_cons, List.not_mem_nil, false_implies, implies_true,
      and_true]
    exact ⟨⟨fun _ => rfl, ⟨⟨rfl, by decide⟩, by decide⟩⟩, ⟨fun _ => rfl, trivial⟩,
      ⟨fun _ => rfl, trivial⟩, fun _ => rfl, trivial⟩
  · simp only [reportCalls, forall_steps_cons]
    refine ⟨?_, ?_, ?_, ?_, fun pre op hpre => by simp at hpre⟩ <;> decide +kernel

/-- Two reports of the lab, in both orders. -/
theorem marks_commute_lab :
    ∃ c₁ c₂, (run (step .ascii) (put ⟨⟨∅⟩, [], 0⟩ threeHosts : ClusterManager .parsed)
        ([⟨plainEnv, "aa:bb:cc:dd:ee:01", some "disk"⟩,
          ⟨plainEnv, "aa:bb:cc:dd:ee:02", none⟩].map (HostMark.op "lab"))).store.get .ascii "lab" =
        .ok (some c₁) ∧
      (run (step .ascii) (put ⟨⟨∅⟩, [], 0⟩ threeHosts : ClusterManager .parsed)
        ([⟨plainEnv, "AA:BB:CC:DD:EE:02", none⟩,
          ⟨plainEnv, "aa:bb:cc:dd:ee:01", some "disk"⟩].map (HostMark.op "lab"))).store.get .ascii
            "lab" = .ok (some c₂) ∧ c₁.hosts = c₂.hosts ∧ c₁.state = c₂.state := by
  have hvalid : validateClusterName .ascii threeHosts.name = .ok () := by decide +kernel
  refine marks_commute .ascii (put ⟨⟨∅⟩, [], 0⟩ threeHosts) threeHosts (get_put hvalid)
    ⟨by decide, by decide +kernel, by decide⟩ ⟨rfl, by decide⟩ _ _ ?_ (by decide +kernel) ?_
  · decide +kernel
  · intro r hr
    fin_cases hr <;> exact fun _ => rfl

end ClusterManager

end TftpOS
