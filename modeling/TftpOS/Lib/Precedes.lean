import Mathlib.Data.List.Basic

/-!
# What comes first in a list

`Precedes a b l` says that every occurrence of `b` in `l` has an occurrence of `a` before it. In
the concatenation of the images of a list it follows from what comes first in the list itself
(`precedes_flatMap`).
-/

namespace Lib

variable {α β : Type*} {a b : α} {l l' : List α}

/-- Every occurrence of `b` has an occurrence of `a` before it. -/
def Precedes (a b : α) (l : List α) : Prop := ∀ pre post, l = pre ++ b :: post → a ∈ pre

theorem Precedes.append_of_mem (h : Precedes a b l) (ha : a ∈ l) : Precedes a b (l ++ l') := by
  intro pre post heq
  rcases List.append_eq_append_iff.mp heq with ⟨rest, rfl, -⟩ | ⟨rest, rfl, hrest⟩
  · exact List.mem_append_left _ ha
  · cases rest with
    | nil =>
      rw [List.append_nil] at ha
      exact ha
    | cons c rest =>
      obtain ⟨rfl, -⟩ : b = c ∧ post = rest ++ l' := by simpa using hrest
      exact h pre rest rfl

theorem precedes_flatMap {l : List β} {f : β → List α}
    (h : ∀ pre y post, l = pre ++ y :: post → b ∈ f y → ∃ x ∈ pre, a ∈ f x) :
    Precedes a b (l.flatMap f) := by
  induction l with
  | nil =>
    intro pre post heq
    simp at heq
  | cons y l ih =>
    intro pre post heq
    have hbehind : ∀ rest, l.flatMap f = rest ++ b :: post → a ∈ f y ++ rest := by
      intro rest hrest
      by_cases ha : a ∈ f y
      · exact List.mem_append_left _ ha
      · refine List.mem_append_right _ (ih (fun pre' y' post' hl hb => ?_) rest post hrest)
        obtain ⟨x, hx, hax⟩ := h (y :: pre') y' post' (by rw [hl, List.cons_append]) hb
        rcases List.mem_cons.mp hx with rfl | hx
        · exact absurd hax ha
        · exact ⟨x, hx, hax⟩
    rw [List.flatMap_cons] at heq
    rcases List.append_eq_append_iff.mp heq with ⟨rest, rfl, hrest⟩ | ⟨rest, hy, hrest⟩
    · exact hbehind rest hrest
    · cases rest with
      | nil =>
        have hpre := hbehind [] hrest.symm
        rwa [hy, List.append_nil, List.append_nil] at hpre
      | cons c rest =>
        -- nothing comes before the image of the first element
        obtain ⟨rfl, -⟩ : b = c ∧ post = rest ++ l.flatMap f := by simpa using hrest
        obtain ⟨x, hx, -⟩ := h [] y l rfl (by simp [hy])
        cases hx

/-- An element whose first occurrence is further ahead precedes. -/
theorem precedes_of_idxOf_lt [DecidableEq α] (h : l.idxOf a < l.idxOf b) : Precedes a b l := by
  rintro pre post rfl
  have hpre : pre <+: pre ++ b :: post := List.prefix_append _ _
  rw [hpre.mem_iff_idxOf_lt_length]
  refine Nat.lt_of_lt_of_le h ?_
  rw [List.idxOf_append]
  split_ifs
  · exact List.idxOf_le_length
  · exact Nat.le_of_eq (by rw [List.idxOf_cons_self, Nat.zero_add])

end Lib
