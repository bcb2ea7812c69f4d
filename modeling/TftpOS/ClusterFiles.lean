import TftpOS.Listings

/-!
# Clusters by name

What `ClusterStore.get` finds after any calls of `save` and `delete`: the definition that the last
call about the name saved, read back from the text of its file.
-/

namespace TftpOS

open Lib

namespace ClusterStore

variable {json : JsonText} {py : StrLib} {s : ClusterStore json}

/-- What a call makes of the definition under a name, if the call is about the name. -/
def Op.recorded (name : String) : Op → Option (Option ClusterDefinition)
  | .save none cluster => if cluster.name = name then some (some cluster) else none
  -- the write raised
  | .save (some _) _ => none
  | .delete name' => if name' = name then some none else none

/-- The last definition that was saved under a name and not deleted since. -/
def lastSaved (name : String) (ops : List Op) : Option ClusterDefinition :=
  (ops.reverse.findSome? (Op.recorded name)).join

theorem lastSaved_concat (name : String) (ops : List Op) (op : Op) :
    lastSaved name (ops ++ [op]) = (op.recorded name).getD (lastSaved name ops) := by
  rw [lastSaved, List.reverse_append, List.reverse_singleton, List.singleton_append,
    List.findSome?_cons]
  rcases op.recorded name with _ | recorded <;> rfl

/-- The file of a name holds a definition, or there is none. -/
def Holds (s : ClusterStore json) (name : String) (cluster : Option ClusterDefinition) : Prop :=
  s.files.get? (path name) = cluster.map fun c => json.dumps (some 2) c.toDict

/-- Distinct names have distinct files. -/
theorem path_injective : Function.Injective path :=
  fun _ _ h => (String.append_left_inj _).mp h

theorem Holds.get {name : String} {cluster : Option ClusterDefinition} (h : s.Holds name cluster)
    (hvalid : validateClusterName py name = .ok ()) : s.get py name = .ok cluster := by
  rw [ClusterStore.get.eq_def, hvalid, ok_bind, h]
  cases cluster with
  | none => rfl
  | some cluster =>
    have hread : readText (json.dumps (some 2) cluster.toDict) = .ok cluster := by
      rw [readText, json.loads_dumps]
      exact ClusterDefinition.fromDict_toDict cluster
    simp only [Option.map_some, hread, ok_bind, pure_eq_ok]

/-- A save under a valid name leaves its definition there, if the write does not raise. -/
theorem Holds.step_save {name : String} {cluster : Option ClusterDefinition}
    (h : s.Holds name cluster) (hvalid : validateClusterName py name = .ok ())
    (fault : Option PyExc) (saved : ClusterDefinition) :
    (ClusterStore.step py s (.save fault saved)).2.Holds name
      (((Op.save fault saved).recorded name).getD cluster) := by
  rw [ClusterStore.step, ClusterStore.save.eq_def]
  by_cases hname : saved.name = name
  · subst hname
    rw [hvalid, ok_bind]
    cases fault with
    | some e => exact h
    | none => simp [Holds, Op.recorded]
  · have hpath : path name ≠ path saved.name := fun heq => hname (path_injective heq).symm
    rcases validateClusterName py saved.name with e | ⟨⟩
    · cases fault <;> simpa [Op.recorded, hname] using h
    · cases fault with
      | some e => exact h
      | none => simpa [Op.recorded, hname, Holds, Dict.get?_set_of_ne hpath] using h

/-- A deletion of a valid name leaves nothing there. -/
theorem Holds.step_delete {name : String} {cluster : Option ClusterDefinition}
    (h : s.Holds name cluster) (hvalid : validateClusterName py name = .ok ()) (name' : String) :
    (ClusterStore.step py s (.delete name')).2.Holds name
      (((Op.delete name').recorded name).getD cluster) := by
  rw [ClusterStore.step, ClusterStore.delete.eq_def]
  by_cases hname : name' = name
  · subst hname
    rw [hvalid, ok_bind, Dict.contains_eq_isSome]
    rcases hget : s.files.get? (path name') with _ | text
    · simpa [Op.recorded, Holds] using hget
    · simp [Op.recorded, Holds, Dict.get?_del]
  · have hpath : path name ≠ path name' := fun heq => hname (path_injective heq).symm
    simp only [Op.recorded, hname, if_false, Option.getD_none]
    rcases validateClusterName py name' with e | ⟨⟩
    · exact h
    · rw [ok_bind]
      split_ifs
      · simpa [Holds, Dict.get?_del, hpath] using h
      · exact h

theorem Holds.step {name : String} {cluster : Option ClusterDefinition} (h : s.Holds name cluster)
    (hvalid : validateClusterName py name = .ok ()) (op : Op) :
    (ClusterStore.step py s op).2.Holds name ((op.recorded name).getD cluster) := by
  cases op with
  | save fault saved => exact h.step_save hvalid fault saved
  | delete name' => exact h.step_delete hvalid name'

/-- After any calls, the file of a valid name holds the last definition saved under it. -/
theorem holds_run {name : String} (hvalid : validateClusterName py name = .ok ()) (ops : List Op) :
    (run (ClusterStore.step py) (⟨∅⟩ : ClusterStore json) ops).Holds name (lastSaved name ops) := by
  have hstart : (⟨∅⟩ : ClusterStore json).Holds name (lastSaved name []) := rfl
  refine run_induction (P := fun ops (s : ClusterStore json) => s.Holds name (lastSaved name ops))
    hstart (fun ops op h => ?_) ops
  rw [lastSaved_concat]
  exact h.step hvalid op

end ClusterStore

/-- **Clusters by name**: a definition reads back from its dict; after any calls, a lookup of a
valid name finds the last definition that was saved under it and not deleted since; and distinct
names have distinct files. -/
theorem clusters_by_name (json : JsonText) (py : StrLib) :
    (∀ c : ClusterDefinition, ClusterDefinition.fromDict c.toDict = .ok c) ∧
    (∀ (ops : List ClusterStore.Op) (name : String),
      (run (ClusterStore.step py) (⟨∅⟩ : ClusterStore json) ops).get py name =
        (validateClusterName py name).map fun _ => ClusterStore.lastSaved name ops) ∧
    Function.Injective ClusterStore.path := by
  refine ⟨ClusterDefinition.fromDict_toDict, fun ops name => ?_, ClusterStore.path_injective⟩
  rcases hvalid : validateClusterName py name with e | ⟨⟩
  · rw [ClusterStore.get.eq_def, hvalid]
    rfl
  · exact (ClusterStore.holds_run hvalid ops).get hvalid

end TftpOS
