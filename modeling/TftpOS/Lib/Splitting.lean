import Mathlib.Data.List.Basic
import Mathlib.Data.List.Infix

/-!
# Splitting at a separator

`splitSeq sep l` cuts a list at every occurrence of the sequence `sep`, from left to right. Where
the first element of the separator does not come again in it, no occurrence overlaps another one,
so that lists joined with separators between them are cut at these separators and wherever they
were cut themselves (`splitSeq_intercalate`).
-/

namespace Lib

variable {α : Type*} {a : α} {sep : List α}

/-- A separator that is whole inside a list, or not there at all. -/
theorem prefix_of_prefix_append {l l' : List α} (ha : a ∉ sep) (hl : l ≠ [])
    (h : a :: sep <+: l ++ a :: sep ++ l') : a :: sep <+: l := by
  refine List.prefix_of_prefix_length_le h ?_ ?_
  · rw [List.append_assoc]
    exact List.prefix_append _ _
  · by_contra hlength
    rw [not_le] at hlength
    -- the first element of the separator would come again in it
    have hget : (a :: sep)[l.length]? = some a := by
      obtain ⟨rest, hrest⟩ := h
      have hat := congrArg (fun m => m[l.length]?) hrest
      rw [List.getElem?_append_left hlength] at hat
      simpa using hat
    obtain ⟨n, hn⟩ : ∃ n, l.length = n + 1 :=
      ⟨l.length - 1, (Nat.succ_pred (by simpa using hl)).symm⟩
    rw [hn, List.getElem?_cons_succ] at hget
    exact ha (List.mem_of_getElem? hget)

variable [DecidableEq α]

/-- The pieces of a list, of which the first `skip` elements belong to a separator. -/
def splitSeqAux (sep : List α) : ℕ → List α → List (List α)
  | _, [] => [[]]
  | skip + 1, _ :: l => splitSeqAux sep skip l
  | 0, a :: l =>
    if sep.isPrefixOf (a :: l) then [] :: splitSeqAux sep (sep.length - 1) l
    else (splitSeqAux sep 0 l).modifyHead (a :: ·)

/-- The pieces of a list between the occurrences of a separator. -/
def splitSeq (sep l : List α) : List (List α) := splitSeqAux sep 0 l

theorem splitSeqAux_ne_nil (skip : ℕ) (l : List α) : splitSeqAux sep skip l ≠ [] := by
  induction l generalizing skip with
  | nil => simp [splitSeqAux]
  | cons b l ih =>
    cases skip with
    | succ skip => exact ih skip
    | zero =>
      rw [splitSeqAux]
      split_ifs
      · exact List.cons_ne_nil _ _
      · simpa using ih 0

/-- What is left of a separator is skipped. -/
theorem splitSeqAux_append (l l' : List α) :
    splitSeqAux sep l.length (l ++ l') = splitSeqAux sep 0 l' := by
  induction l with
  | nil => rfl
  | cons b l ih => exact ih

/-- Joining the pieces gives the list back. -/
theorem intercalate_splitSeqAux {skip : ℕ} {l : List α} (hskip : skip ≤ l.length)
    (hsep : sep ≠ []) : sep.intercalate (splitSeqAux sep skip l) = l.drop skip := by
  induction l generalizing skip with
  | nil =>
    obtain rfl : skip = 0 := by simpa using hskip
    simp [splitSeqAux, List.intercalate]
  | cons b l ih =>
    cases skip with
    | succ skip => exact ih (by simpa using hskip)
    | zero =>
      rw [splitSeqAux]
      split_ifs with hpre
      · have hprefix := List.isPrefixOf_iff_prefix.mp hpre
        have hlength : sep.length - 1 ≤ l.length := by
          have hle := hprefix.length_le
          rw [List.length_cons] at hle
          omega
        obtain ⟨c, sep', rfl⟩ := List.exists_cons_of_ne_nil hsep
        rw [List.intercalate_cons_of_ne_nil (splitSeqAux_ne_nil _ _), ih hlength, List.nil_append]
        -- what was taken for the separator is the separator
        obtain ⟨rest, hrest⟩ := hprefix
        obtain ⟨rfl, rfl⟩ := List.cons.inj hrest
        simp
      · obtain ⟨piece, pieces, hpieces⟩ :=
          List.exists_cons_of_ne_nil (@splitSeqAux_ne_nil _ sep _ 0 l)
        have hjoined := ih l.length.zero_le
        rw [hpieces] at hjoined
        rw [hpieces, List.modifyHead_cons, List.intercalate_cons_cons_left, hjoined]
        rfl

/-- The separator between two lists is one of those that are cut at. -/
theorem splitSeqAux_append_sep (ha : a ∉ sep) {skip : ℕ} {l : List α} (hskip : skip ≤ l.length)
    (l' : List α) : splitSeqAux (a :: sep) skip (l ++ a :: sep ++ l') =
      splitSeqAux (a :: sep) skip l ++ splitSeqAux (a :: sep) 0 l' := by
  induction l generalizing skip with
  | nil =>
    obtain rfl : skip = 0 := by simpa using hskip
    have hpre : (a :: sep).isPrefixOf (a :: (sep ++ l')) = true :=
      List.isPrefixOf_iff_prefix.mpr (List.prefix_append (a :: sep) l')
    calc splitSeqAux (a :: sep) 0 (a :: (sep ++ l'))
        = [] :: splitSeqAux (a :: sep) sep.length (sep ++ l') := by
          rw [splitSeqAux, if_pos hpre, List.length_cons, Nat.add_sub_cancel]
      _ = [] :: splitSeqAux (a :: sep) 0 l' := by rw [splitSeqAux_append]
  | cons b l ih =>
    cases skip with
    | succ skip => exact ih (by simpa using hskip)
    | zero =>
      have hsame : (a :: sep).isPrefixOf (b :: (l ++ a :: sep ++ l')) =
          (a :: sep).isPrefixOf (b :: l) := by
        rw [Bool.eq_iff_iff, List.isPrefixOf_iff_prefix, List.isPrefixOf_iff_prefix]
        constructor
        · exact prefix_of_prefix_append ha (List.cons_ne_nil b l)
        · intro h
          rw [List.append_assoc]
          exact h.trans (List.prefix_append (b :: l) _)
      rw [List.cons_append, List.cons_append, splitSeqAux, splitSeqAux, hsame]
      split_ifs with hpre
      · have hlength : (a :: sep).length - 1 ≤ l.length := by
          have hle := (List.isPrefixOf_iff_prefix.mp hpre).length_le
          simpa using hle
        rw [ih hlength, List.cons_append]
      · rw [ih l.length.zero_le]
        obtain ⟨piece, pieces, hpieces⟩ :=
          List.exists_cons_of_ne_nil (@splitSeqAux_ne_nil _ (a :: sep) _ 0 l)
        rw [hpieces]
        rfl

/-- **Cutting at separators**: lists joined with separators are cut at these, and each of them as
it is cut alone. -/
theorem splitSeq_intercalate (ha : a ∉ sep) {ls : List (List α)} (hls : ls ≠ []) :
    splitSeq (a :: sep) ((a :: sep).intercalate ls) = ls.flatMap (splitSeq (a :: sep)) := by
  induction ls with
  | nil => exact absurd rfl hls
  | cons l ls ih =>
    by_cases hrest : ls = []
    · subst hrest
      simp
    · rw [List.intercalate_cons_of_ne_nil hrest, List.flatMap_cons, ← ih hrest]
      exact splitSeqAux_append_sep ha l.length.zero_le _

theorem intercalate_splitSeq (l : List α) (hsep : sep ≠ []) :
    sep.intercalate (splitSeq sep l) = l :=
  intercalate_splitSeqAux l.length.zero_le hsep

/-- A list without the start of a separator is not cut. -/
theorem splitSeq_of_not_mem {l : List α} (h : a ∉ l) : splitSeq (a :: sep) l = [l] := by
  rw [splitSeq]
  induction l with
  | nil => rfl
  | cons b l ih =>
    rw [List.mem_cons, not_or] at h
    have hpre : (a :: sep).isPrefixOf (b :: l) = false := by simp [List.isPrefixOf, h.1]
    rw [splitSeqAux, hpre, if_neg Bool.false_ne_true, ih h.2]
    rfl

/-- Two lists of lists join to the same list exactly if they are cut into the same pieces. -/
theorem intercalate_eq_iff (ha : a ∉ sep) {ls ls' : List (List α)} (hls : ls ≠ [])
    (hls' : ls' ≠ []) :
    (a :: sep).intercalate ls = (a :: sep).intercalate ls' ↔
      ls.flatMap (splitSeq (a :: sep)) = ls'.flatMap (splitSeq (a :: sep)) := by
  rw [← splitSeq_intercalate ha hls, ← splitSeq_intercalate ha hls']
  refine ⟨fun h => by rw [h], fun h => ?_⟩
  have hjoined := congrArg (List.intercalate (a :: sep)) h
  rwa [intercalate_splitSeq _ (List.cons_ne_nil a sep),
    intercalate_splitSeq _ (List.cons_ne_nil a sep)] at hjoined

end Lib
