import Mathlib.Data.Finmap

/-!
# Finite maps as functions

A finite map read as the function from keys to the values stored under them: inserting and
erasing a key update the function, and its values are the values of the map.
-/

namespace Lib

variable {κ ν : Type*} [DecidableEq κ] {m : Finmap fun _ : κ => ν}

/-- What an updated function has under a key is the new value, or an old one of another key. -/
theorem update_eq_some_iff {f : κ → Option ν} {k k' : κ} {o : Option ν} {v : ν} :
    Function.update f k o k' = some v ↔ k' = k ∧ o = some v ∨ k' ≠ k ∧ f k' = some v := by
  rw [Function.update_apply]
  split_ifs with h
  · simp [h]
  · simp [h]

theorem lookup_insert_eq_update (k : κ) (v : ν) :
    (fun k' => (m.insert k v).lookup k') =
      Function.update (fun k' => m.lookup k') k (some v) := by
  funext k'
  by_cases h : k' = k
  · subst h
    rw [Finmap.lookup_insert, Function.update_self]
  · rw [Finmap.lookup_insert_of_ne _ h, Function.update_of_ne h]

theorem lookup_erase_eq_update (k : κ) :
    (fun k' => (m.erase k).lookup k') = Function.update (fun k' => m.lookup k') k none := by
  funext k'
  by_cases h : k' = k
  · subst h
    rw [Finmap.lookup_erase, Function.update_self]
  · rw [Finmap.lookup_erase_ne h, Function.update_of_ne h]

theorem lookup_insert_eq_ite (k k' : κ) (v : ν) :
    (m.insert k v).lookup k' = if k' = k then some v else m.lookup k' := by
  rw [congrFun (lookup_insert_eq_update k v) k', Function.update_apply]

theorem lookup_erase_eq_ite (k k' : κ) :
    (m.erase k).lookup k' = if k' = k then none else m.lookup k' := by
  rw [congrFun (lookup_erase_eq_update k) k', Function.update_apply]

theorem keys_insert (k : κ) (v : ν) : (m.insert k v).keys = insert k m.keys := by
  ext k'
  rw [Finset.mem_insert, Finmap.mem_keys, Finmap.mem_keys, Finmap.mem_insert]

theorem mem_keys_iff_lookup {k : κ} : k ∈ m.keys ↔ ∃ v, m.lookup k = some v := by
  rw [Finmap.mem_keys, Finmap.mem_iff]

theorem mem_values_iff_lookup {v : ν} :
    v ∈ m.entries.map Sigma.snd ↔ ∃ k, m.lookup k = some v := by
  simp only [Multiset.mem_map, Finmap.lookup_eq_some_iff]
  constructor
  · rintro ⟨⟨k, w⟩, hmem, rfl⟩
    exact ⟨k, hmem⟩
  · rintro ⟨k, hmem⟩
    exact ⟨⟨k, v⟩, hmem, rfl⟩

/-- Where the values tell their keys, no value occurs twice. -/
theorem nodup_values {key : ν → κ} (h : ∀ k v, m.lookup k = some v → key v = k) :
    (m.entries.map Sigma.snd).Nodup := by
  refine Multiset.Nodup.map_on ?_ m.nodup_entries
  rintro ⟨k, v⟩ hv ⟨k', v'⟩ hv' (rfl : v = v')
  rw [← h k v (Finmap.lookup_eq_some_iff.mpr hv), h k' v (Finmap.lookup_eq_some_iff.mpr hv')]

end Lib
