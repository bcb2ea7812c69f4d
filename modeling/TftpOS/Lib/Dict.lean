import TftpOS.Lib.StableSort

/-!
# Insertion-ordered dictionaries

`Dict κ ν` is a finite map that remembers the order in which its keys were inserted: setting a
present key keeps its place, setting an absent one appends it. Uniqueness of the keys is a
field, so no operation below needs it as a hypothesis. The entries of the result of each
operation are characterised by membership (`mem_set`, `mem_del`, …), and lookups follow from
`get?_eq_some_iff`.
-/

namespace Lib

/-- A finite map that keeps its keys in insertion order. -/
@[ext]
structure Dict (κ ν : Type*) where
  /-- The entries, oldest key first. -/
  entries : List (κ × ν)
  /-- No key occurs twice. -/
  nodup : (entries.map Prod.fst).Nodup

namespace Dict

variable {κ ν ν' : Type*}

/-- The dictionary without entries. -/
def empty : Dict κ ν := ⟨[], List.nodup_nil⟩

instance : EmptyCollection (Dict κ ν) := ⟨empty⟩

/-- The keys in insertion order. -/
def keys (d : Dict κ ν) : List κ := d.entries.map Prod.fst

/-- The values in the insertion order of their keys. -/
def values (d : Dict κ ν) : List ν := d.entries.map Prod.snd

/-- The number of entries. -/
def size (d : Dict κ ν) : ℕ := d.entries.length

/-- Keep the entries that satisfy a predicate. -/
def filter (p : κ × ν → Bool) (d : Dict κ ν) : Dict κ ν :=
  ⟨d.entries.filter p, d.nodup.sublist (List.filter_sublist.map _)⟩

/-- Apply a function to every value. -/
def mapValues (f : κ → ν → ν') (d : Dict κ ν) : Dict κ ν' :=
  ⟨d.entries.map fun e => (e.1, f e.1 e.2), by
    rw [List.map_map]
    exact d.nodup⟩

@[simp]
theorem entries_empty : (∅ : Dict κ ν).entries = [] := rfl

@[simp]
theorem values_empty : (∅ : Dict κ ν).values = [] := rfl

@[simp]
theorem entries_filter (p : κ × ν → Bool) (d : Dict κ ν) :
    (d.filter p).entries = d.entries.filter p := rfl

@[simp]
theorem entries_mapValues (f : κ → ν → ν') (d : Dict κ ν) :
    (d.mapValues f).entries = d.entries.map fun e => (e.1, f e.1 e.2) := rfl

@[simp]
theorem values_mapValues {d : Dict κ ν} {f : ν → ν'} :
    (d.mapValues fun _ v => f v).values = d.values.map f := by
  simp [values]

theorem eq_empty_of_values {d : Dict κ ν} (h : d.values = []) : d = ∅ := by
  ext1
  exact List.map_eq_nil_iff.mp h

theorem size_eq_length_keys (d : Dict κ ν) : d.size = d.keys.length := by
  rw [size, keys, List.length_map]

/-- Every key either stays or goes. -/
theorem size_filter_add (d : Dict κ ν) (p : κ → Bool) :
    (d.filter fun e => !p e.1).size + (d.keys.filter p).length = d.size := by
  rw [size, size, keys, List.filter_map, List.length_map, entries_filter, Nat.add_comm]
  exact (List.length_eq_length_filter_add _).symm

/-- Two entries with the same key are the same entry. -/
theorem eq_of_mem_entries {d : Dict κ ν} {k : κ} {v w : ν} (hv : (k, v) ∈ d.entries)
    (hw : (k, w) ∈ d.entries) : v = w := by
  have h := List.inj_on_of_nodup_map d.nodup hv hw rfl
  exact congrArg Prod.snd h

section

variable [DecidableEq κ]

/-- The value stored under a key. -/
def get? (d : Dict κ ν) (k : κ) : Option ν :=
  (d.entries.find? fun e => e.1 = k).map Prod.snd

/-- Whether a key is present. -/
def contains (d : Dict κ ν) (k : κ) : Bool := decide (k ∈ d.keys)

/-- The entries after storing `v` under `k`: in place when `k` is present, else at the end. -/
def setEntries (k : κ) (v : ν) : List (κ × ν) → List (κ × ν)
  | [] => [(k, v)]
  | e :: es => if e.1 = k then (k, v) :: es else e :: setEntries k v es

private theorem map_fst_setEntries (k : κ) (v : ν) (es : List (κ × ν)) :
    (setEntries k v es).map Prod.fst
      = if k ∈ es.map Prod.fst then es.map Prod.fst else es.map Prod.fst ++ [k] := by
  induction es with
  | nil => simp [setEntries]
  | cons e es ih =>
    by_cases he : e.1 = k
    · simp [setEntries, he]
    · simp only [setEntries, if_neg he, List.map_cons, ih, List.mem_cons, Ne.symm he, false_or]
      split_ifs <;> simp

/-- Store a value under a key. -/
def set (d : Dict κ ν) (k : κ) (v : ν) : Dict κ ν :=
  ⟨setEntries k v d.entries, by
    rw [map_fst_setEntries]
    split_ifs with h
    · exact d.nodup
    · rw [List.nodup_append_comm]
      exact List.nodup_cons.mpr ⟨h, d.nodup⟩⟩

/-- Remove a key. -/
def del (d : Dict κ ν) (k : κ) : Dict κ ν := d.filter fun e => e.1 ≠ k

/-- The dictionary of a list of entries, later entries overriding earlier ones. -/
def ofEntries (es : List (κ × ν)) : Dict κ ν :=
  es.foldl (fun d e => d.set e.1 e.2) ∅

/-- Store all entries of another dictionary. -/
def update (d d' : Dict κ ν) : Dict κ ν := d'.entries.foldl (fun d e => d.set e.1 e.2) d

variable {d : Dict κ ν} {k k' : κ} {v v' : ν}

/-- Lookups read the entries. -/
theorem get?_eq_some_iff : d.get? k = some v ↔ (k, v) ∈ d.entries := by
  constructor
  · intro h
    obtain ⟨⟨k', v'⟩, he, rfl⟩ := Option.map_eq_some_iff.mp h
    have hk : k' = k := by simpa using List.find?_some he
    exact hk ▸ List.mem_of_find?_eq_some he
  · intro h
    -- some entry is found, and uniqueness makes it this one
    have hsome : (d.entries.find? fun e => e.1 = k).isSome := by
      rw [List.find?_isSome]
      exact ⟨(k, v), h, by simp⟩
    obtain ⟨⟨k', v'⟩, he⟩ := Option.isSome_iff_exists.mp hsome
    have hk : k' = k := by simpa using List.find?_some he
    have hv : v' = v := eq_of_mem_entries (hk ▸ List.mem_of_find?_eq_some he) h
    rw [get?, he, ← hv]
    rfl

theorem get?_eq_none_iff : d.get? k = none ↔ ∀ v, (k, v) ∉ d.entries := by
  constructor
  · intro h v hv
    rw [get?_eq_some_iff.mpr hv] at h
    exact absurd h (by simp)
  · intro h
    rcases hk : d.get? k with _ | v
    · rfl
    · exact absurd (get?_eq_some_iff.mp hk) (h v)

@[simp]
theorem get?_empty : (∅ : Dict κ ν).get? k = none := rfl

theorem mem_keys_iff : k ∈ d.keys ↔ ∃ v, d.get? k = some v := by
  simp [keys, get?_eq_some_iff]

theorem contains_eq_isSome : d.contains k = (d.get? k).isSome := by
  rw [contains, Bool.eq_iff_iff, decide_eq_true_iff, Option.isSome_iff_exists, mem_keys_iff]

theorem mem_values_iff {v : ν} : v ∈ d.values ↔ ∃ k, d.get? k = some v := by
  simp [values, get?_eq_some_iff]

theorem mem_setEntries {es : List (κ × ν)} (hes : (es.map Prod.fst).Nodup) {e : κ × ν} :
    e ∈ setEntries k v es ↔ e = (k, v) ∨ e ∈ es ∧ e.1 ≠ k := by
  induction es with
  | nil => simp [setEntries]
  | cons f es ih =>
    rw [List.map_cons, List.nodup_cons] at hes
    by_cases hf : f.1 = k
    · -- the key is unique, so no later entry has it
      have hout : ∀ e ∈ es, e.1 ≠ k := fun e he hek =>
        hes.1 (hf.trans hek.symm ▸ List.mem_map_of_mem he)
      simp only [setEntries, if_pos hf, List.mem_cons]
      constructor
      · rintro (h | h)
        · exact .inl h
        · exact .inr ⟨.inr h, hout e h⟩
      · rintro (h | ⟨rfl | h, hne⟩)
        · exact .inl h
        · exact absurd hf hne
        · exact .inr h
    · simp only [setEntries, if_neg hf, List.mem_cons, ih hes.2]
      constructor
      · rintro (rfl | h | h)
        · exact .inr ⟨.inl rfl, hf⟩
        · exact .inl h
        · exact .inr ⟨.inr h.1, h.2⟩
      · rintro (h | ⟨rfl | h, hne⟩)
        · exact .inr (.inl h)
        · exact .inl rfl
        · exact .inr (.inr ⟨h, hne⟩)

theorem mem_set {e : κ × ν} : e ∈ (d.set k v).entries ↔ e = (k, v) ∨ e ∈ d.entries ∧ e.1 ≠ k :=
  mem_setEntries d.nodup

/-- A new key comes last. -/
theorem keys_set : (d.set k v).keys = if k ∈ d.keys then d.keys else d.keys ++ [k] :=
  map_fst_setEntries k v d.entries

theorem mem_del {e : κ × ν} : e ∈ (d.del k).entries ↔ e ∈ d.entries ∧ e.1 ≠ k := by
  simp [del]

/-- Lookup after a store. -/
theorem get?_set : (d.set k v).get? k' = if k' = k then some v else d.get? k' := by
  ext w
  rw [get?_eq_some_iff, mem_set]
  split_ifs with h
  · simp [h, eq_comm]
  · simp [h, get?_eq_some_iff]

@[simp]
theorem get?_set_self : (d.set k v).get? k = some v := by simp [get?_set]

theorem get?_set_of_ne (h : k' ≠ k) : (d.set k v).get? k' = d.get? k' := by simp [get?_set, h]

/-- Lookup after an update. -/
theorem get?_update {d' : Dict κ ν} : (d.update d').get? k = (d'.get? k).or (d.get? k) := by
  have key : ∀ (es : List (κ × ν)) (d : Dict κ ν), (es.map Prod.fst).Nodup →
      (es.foldl (fun d e => d.set e.1 e.2) d).get? k =
        ((es.find? fun e => e.1 = k).map Prod.snd).or (d.get? k) := by
    intro es
    induction es with
    | nil => exact fun d _ => rfl
    | cons e es ih =>
      intro d hnodup
      rw [List.map_cons, List.nodup_cons] at hnodup
      rw [List.foldl_cons, ih _ hnodup.2, List.find?_cons]
      by_cases he : e.1 = k
      · -- the key is unique, so no later entry has it
        have hnone : es.find? (fun e => e.1 = k) = none := by
          refine List.find?_eq_none.mpr fun e' he' => ?_
          have hne : e'.1 ≠ k := fun hk =>
            hnodup.1 (List.mem_map.mpr ⟨e', he', hk.trans he.symm⟩)
          simpa using hne
        simp [hnone, he]
      · simp [he, get?_set_of_ne (Ne.symm he)]
  exact key d'.entries d d'.nodup

/-- Lookup after a removal. -/
theorem get?_del : (d.del k).get? k' = if k' = k then none else d.get? k' := by
  ext w
  rw [get?_eq_some_iff, mem_del]
  split_ifs with h
  · simp [h]
  · simp [h, get?_eq_some_iff]

/-- Lookup after the removal of several keys. -/
theorem get?_foldl_del {ks : List κ} :
    (ks.foldl del d).get? k = if k ∈ ks then none else d.get? k := by
  induction ks generalizing d with
  | nil => simp
  | cons k' ks ih =>
    rw [List.foldl_cons, ih, get?_del]
    by_cases hk : k = k' <;> simp [hk]

theorem get?_filter {p : κ × ν → Bool} :
    (d.filter p).get? k = (d.get? k).filter fun v => p (k, v) := by
  ext w
  simp [get?_eq_some_iff, Option.filter_eq_some_iff]

theorem get?_mapValues {f : κ → ν → ν'} : (d.mapValues f).get? k = (d.get? k).map (f k) := by
  ext w
  simp only [get?_eq_some_iff, entries_mapValues, List.mem_map, Prod.mk.injEq, Prod.exists,
    Option.map_eq_some_iff]
  constructor
  · rintro ⟨k', v, hv, rfl, rfl⟩
    exact ⟨v, hv, rfl⟩
  · rintro ⟨v, hv, rfl⟩
    exact ⟨k, v, hv, rfl, rfl⟩

/-- Storing before or after applying a function to the values. -/
theorem mapValues_set {f : ν → ν'} :
    (d.set k v).mapValues (fun _ v => f v) = (d.mapValues fun _ v => f v).set k (f v) := by
  have key : ∀ es : List (κ × ν), (setEntries k v es).map (fun e => (e.1, f e.2)) =
      setEntries k (f v) (es.map fun e => (e.1, f e.2)) := by
    intro es
    induction es with
    | nil => rfl
    | cons e es ih =>
      by_cases he : e.1 = k
      · simp [setEntries, he]
      · simp [setEntries, he, ih]
  ext1
  exact key d.entries

/-- Storing a fresh key appends it. -/
theorem entries_set_of_not_mem (h : k ∉ d.keys) : (d.set k v).entries = d.entries ++ [(k, v)] := by
  have key : ∀ es : List (κ × ν), k ∉ es.map Prod.fst → setEntries k v es = es ++ [(k, v)] := by
    intro es
    induction es with
    | nil => exact fun _ => rfl
    | cons e es ih =>
      intro h
      rw [List.map_cons, List.mem_cons, not_or] at h
      rw [setEntries, if_neg (Ne.symm h.1), ih h.2, List.cons_append]
  exact key d.entries h

/-- Removing before or after applying a function to the values. -/
theorem mapValues_del {f : ν → ν'} :
    (d.del k).mapValues (fun _ v => f v) = (d.mapValues fun _ v => f v).del k := by
  ext1
  simp only [entries_mapValues, del, entries_filter, List.filter_map]
  rfl

/-- Removing an absent key. -/
theorem del_of_get?_eq_none (h : d.get? k = none) : d.del k = d := by
  ext1
  refine List.filter_eq_self.mpr fun e he => ?_
  have hne : e.1 ≠ k := fun hk => get?_eq_none_iff.mp h e.2 (hk ▸ he)
  simpa using hne

theorem set_set : (d.set k v).set k v' = d.set k v' := by
  have key : ∀ es : List (κ × ν), setEntries k v' (setEntries k v es) = setEntries k v' es := by
    intro es
    induction es with
    | nil => simp [setEntries]
    | cons e es ih =>
      by_cases he : e.1 = k
      · simp [setEntries, he]
      · simp [setEntries, he, ih]
  ext1
  exact key d.entries

/-- Storing a value changes nothing exactly when it is stored there already. -/
theorem set_eq_self_iff : d.set k v = d ↔ d.get? k = some v := by
  have key : ∀ es : List (κ × ν), (es.map Prod.fst).Nodup → (k, v) ∈ es →
      setEntries k v es = es := by
    intro es
    induction es with
    | nil => intro _ h; cases h
    | cons e es ih =>
      intro hnodup hmem
      rw [List.map_cons, List.nodup_cons] at hnodup
      rcases List.mem_cons.mp hmem with rfl | hmem
      · rw [setEntries, if_pos rfl]
      · have hne : e.1 ≠ k := fun hek => hnodup.1 (hek ▸ List.mem_map_of_mem hmem)
        rw [setEntries, if_neg hne, ih hnodup.2 hmem]
  constructor
  · intro h
    rw [← h, get?_set_self]
  · intro h
    ext1
    exact key d.entries d.nodup (get?_eq_some_iff.mp h)

theorem del_set_self : (d.set k v).del k = d.del k := by
  have key : ∀ es : List (κ × ν), (setEntries k v es).filter (fun e => e.1 ≠ k) =
      es.filter fun e => e.1 ≠ k := by
    intro es
    induction es with
    | nil => simp [setEntries]
    | cons e es ih =>
      by_cases he : e.1 = k
      · simp [setEntries, he]
      · simpa [setEntries, he] using ih
  ext1
  exact key d.entries

theorem del_set_of_ne (h : k' ≠ k) : (d.set k v).del k' = (d.del k').set k v := by
  have key : ∀ es : List (κ × ν), (setEntries k v es).filter (fun e => e.1 ≠ k') =
      setEntries k v (es.filter fun e => e.1 ≠ k') := by
    intro es
    induction es with
    | nil => simp [setEntries, h.symm]
    | cons e es ih =>
      by_cases he : e.1 = k
      · simp [setEntries, he, h.symm]
      · by_cases he' : e.1 = k'
        · simpa [setEntries, he, he', h] using ih
        · simpa [setEntries, he, he'] using ih
  ext1
  exact key d.entries

theorem size_set : (d.set k v).size = if k ∈ d.keys then d.size else d.size + 1 := by
  rw [size_eq_length_keys, keys_set, size_eq_length_keys]
  split_ifs
  · rfl
  · rw [List.length_append, List.length_singleton]

/-- Removing a present key removes one entry. -/
theorem size_del_add_one (h : k ∈ d.keys) : (d.del k).size + 1 = d.size := by
  have hkeys : (d.del k).keys = d.keys.erase k := by
    have hnodup : d.keys.Nodup := d.nodup
    rw [hnodup.erase_eq_filter, del, keys, keys, List.filter_map]
    refine congrArg _ (List.filter_congr fun e _ => ?_)
    by_cases he : e.1 = k <;> simp [he]
  rw [size_eq_length_keys, size_eq_length_keys, hkeys, List.length_erase_of_mem h]
  exact Nat.sub_add_cancel (List.length_pos_of_mem h)

theorem mem_of_mem_ofEntries {es : List (κ × ν)} {e : κ × ν} (h : e ∈ (ofEntries es).entries) :
    e ∈ es := by
  have key : ∀ (es : List (κ × ν)) (d : Dict κ ν),
      e ∈ (es.foldl (fun d e => d.set e.1 e.2) d).entries → e ∈ d.entries ∨ e ∈ es := by
    intro es
    induction es with
    | nil => exact fun d h => .inl h
    | cons e' es ih =>
      intro d h
      rcases ih _ h with h | h
      · rcases mem_set.mp h with rfl | ⟨h, -⟩
        · exact .inr (List.mem_cons_self ..)
        · exact .inl h
      · exact .inr (List.mem_cons_of_mem _ h)
  exact (key es ∅ h).resolve_left List.not_mem_nil

theorem keys_ofEntries_eq_nil_iff {es : List (κ × ν)} : (ofEntries es).keys = [] ↔ es = [] := by
  rcases List.eq_nil_or_concat es with rfl | ⟨front, e, rfl⟩
  · exact iff_of_true rfl rfl
  · refine iff_of_false (fun h => ?_) (by simp)
    have hmem : e.1 ∈ (ofEntries (front.concat e)).keys := by
      rw [ofEntries, List.concat_eq_append, List.foldl_concat, mem_keys_iff, get?_set_self]
      exact ⟨e.2, rfl⟩
    rw [h] at hmem
    cases hmem

theorem mem_values_set (h : v' ∈ (d.set k v).values) : v' = v ∨ v' ∈ d.values := by
  obtain ⟨k', hk'⟩ := mem_values_iff.mp h
  rw [get?_set] at hk'
  split_ifs at hk'
  · exact .inl (Option.some.inj hk').symm
  · exact .inr (mem_values_iff.mpr ⟨k', hk'⟩)

theorem mem_values_del (h : v ∈ (d.del k).values) : v ∈ d.values := by
  obtain ⟨k', hk'⟩ := mem_values_iff.mp h
  rw [get?_del] at hk'
  split_ifs at hk'
  exact mem_values_iff.mpr ⟨k', hk'⟩

/-- Reading back the entries of a dictionary gives the dictionary. -/
@[simp]
theorem ofEntries_entries (d : Dict κ ν) : ofEntries d.entries = d := by
  -- storing fresh keys one after the other appends their entries
  have key : ∀ (es : List (κ × ν)) (d' : Dict κ ν), ((d'.entries ++ es).map Prod.fst).Nodup →
      (es.foldl (fun d e => d.set e.1 e.2) d').entries = d'.entries ++ es := by
    intro es
    induction es with
    | nil => intro d' _; simp
    | cons e es ih =>
      intro d' h
      have hfresh : e.1 ∉ d'.keys := by
        rw [List.map_append, List.map_cons] at h
        exact fun he => (List.disjoint_of_nodup_append h) he (by simp)
      have hset : (d'.set e.1 e.2).entries = d'.entries ++ [(e.1, e.2)] :=
        entries_set_of_not_mem hfresh
      have h' : (((d'.set e.1 e.2).entries ++ es).map Prod.fst).Nodup := by
        rw [hset]
        simpa using h
      rw [List.foldl_cons, ih _ h', hset]
      simp
  ext1
  exact key d.entries ∅ (by simpa using d.nodup)

end

/-- The dictionary with its entries sorted by key. -/
def sortKeys [LinearOrder κ] (d : Dict κ ν) : Dict κ ν :=
  ⟨sortOn Prod.fst d.entries, (((perm_sortOn _ _).map _).nodup_iff).mpr d.nodup⟩

@[simp]
theorem mem_entries_sortKeys [LinearOrder κ] {d : Dict κ ν} {e : κ × ν} :
    e ∈ d.sortKeys.entries ↔ e ∈ d.entries :=
  mem_sortOn

@[simp]
theorem get?_sortKeys [LinearOrder κ] {d : Dict κ ν} {k : κ} :
    d.sortKeys.get? k = d.get? k := by
  ext v
  simp [get?_eq_some_iff]

end Dict

end Lib
