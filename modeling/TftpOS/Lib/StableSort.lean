import Mathlib.Data.Finset.Sort

/-!
# Stable sorting by a key

`sortOn key l` is the stable sort of `l` by `key`: elements with smaller keys come first, and
elements with equal keys keep their order. Both facts are one statement
(`pairwise_sortOn`): if `R` orders `l`, then the sorted list is ordered by the key and, among
equal keys, by `R`. Iterating it describes chains of stable sorts, and the head of a list that
is ordered pairwise is its least element (`rel_head?_of_pairwise`).
-/

namespace Lib

variable {α β κ : Type*} [LinearOrder κ]

/-- The stable sort of a list by a key. -/
def sortOn (key : α → κ) (l : List α) : List α :=
  l.insertionSort fun a b => key a ≤ key b

/-- Ordered by the key and, where the keys agree, by `R`. -/
def KeyThen (key : α → κ) (R : α → α → Prop) (a b : α) : Prop :=
  key a < key b ∨ key a = key b ∧ R a b

variable {key : α → κ} {R : α → α → Prop} {l : List α}

@[simp]
theorem mem_sortOn {a : α} : a ∈ sortOn key l ↔ a ∈ l :=
  List.mem_insertionSort _

theorem perm_sortOn (key : α → κ) (l : List α) : (sortOn key l).Perm l :=
  List.perm_insertionSort _ l

/-- Inserting an element that `R`-precedes a list ordered by `KeyThen key R` keeps the order. -/
private theorem pairwise_orderedInsert {a : α} (ha : ∀ b ∈ l, R a b)
    (hl : l.Pairwise (KeyThen key R)) :
    (l.orderedInsert (fun a b => key a ≤ key b) a).Pairwise (KeyThen key R) := by
  induction l with
  | nil => simp
  | cons b l ih =>
    rw [List.pairwise_cons] at hl
    rw [List.forall_mem_cons] at ha
    rw [List.orderedInsert_cons]
    split_ifs with hab
    · have hfirst : KeyThen key R a b := (lt_or_eq_of_le hab).imp_right fun h => ⟨h, ha.1⟩
      refine List.pairwise_cons.mpr ⟨fun c hc => ?_, List.pairwise_cons.mpr hl⟩
      rcases List.mem_cons.mp hc with rfl | hc
      · exact hfirst
      · rcases lt_or_eq_of_le hab with h | h
        · rcases hl.1 c hc with h' | ⟨h', -⟩
          · exact .inl (h.trans h')
          · exact .inl (h' ▸ h)
        · rcases hl.1 c hc with h' | ⟨h', -⟩
          · exact .inl (h ▸ h')
          · exact .inr ⟨h.trans h', ha.2 c hc⟩
    · refine List.pairwise_cons.mpr ⟨fun c hc => ?_, ih ha.2 hl.2⟩
      rcases (List.mem_orderedInsert _).mp hc with rfl | hc
      · exact .inl (not_le.mp hab)
      · exact hl.1 c hc

/-- **Stability.** Sorting a list ordered by `R` orders it by the key, then by `R`. -/
theorem pairwise_sortOn (hl : l.Pairwise R) : (sortOn key l).Pairwise (KeyThen key R) := by
  induction l with
  | nil => simp [sortOn]
  | cons a l ih =>
    rw [List.pairwise_cons] at hl
    rw [sortOn, List.insertionSort_cons]
    exact pairwise_orderedInsert (fun b hb => hl.1 b (mem_sortOn.mp hb)) (ih hl.2)

/-- Sorting by a key that factors through `f` commutes with `f`. -/
theorem sortOn_map (f : β → α) (l : List β) :
    sortOn key (l.map f) = (sortOn (fun b => key (f b)) l).map f :=
  (List.map_insertionSort _ _ f l fun _ _ _ _ => Iff.rfl).symm

/-- Sorting a list without repetitions sorts the set of its elements. -/
theorem sortOn_id_eq_sort {l : List κ} {s : Finset κ} (hl : l.Nodup) (h : ∀ a, a ∈ l ↔ a ∈ s) :
    sortOn id l = s.sort := by
  have hset : (sortOn id l).toFinset = s := by
    ext a
    rw [List.mem_toFinset, mem_sortOn, h]
  have hnodup : (sortOn id l).Nodup := (perm_sortOn id l).nodup_iff.mpr hl
  have hsorted : (sortOn id l).Pairwise (· ≤ ·) := List.pairwise_insertionSort _ l
  rw [← hset, (List.toFinset_sort (· ≤ ·) hnodup).mpr hsorted]

/-- Sorting forgets an order. -/
theorem sortOn_id_eq_of_perm {l l' : List κ} (h : l.Perm l') : sortOn id l = sortOn id l' := by
  have hsorted : ∀ l : List κ, (sortOn id l).Pairwise (· ≤ ·) := fun l =>
    List.pairwise_insertionSort _ l
  exact ((perm_sortOn id l).trans (h.trans (perm_sortOn id l').symm)).eq_of_pairwise'
    (hsorted l) (hsorted l')

/-- In a list ordered pairwise by `R`, the head is `R`-below every other element. -/
theorem rel_head?_of_pairwise {a : α} (hl : l.Pairwise R) (ha : l.head? = some a) {b : α}
    (hb : b ∈ l) : b = a ∨ R a b := by
  obtain ⟨l', rfl⟩ := List.head?_eq_some_iff.mp ha
  rcases List.mem_cons.mp hb with rfl | hb
  · exact .inl rfl
  · exact .inr ((List.pairwise_cons.mp hl).1 b hb)

end Lib
