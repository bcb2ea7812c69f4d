import Mathlib.Algebra.Order.Field.Basic
import Mathlib.Algebra.Order.Group.MinMax
import Mathlib.Algebra.Order.Floor.Defs
import Mathlib.Algebra.Order.Floor.Ring
import Mathlib.Tactic.Linarith
import Mathlib.Tactic.Ring

/-!
# Token buckets

A bucket of capacity `cap` that gains `rate` tokens a time unit, in its own terms: its level at a
later time (`refilled`), and the requests it admits one after the other (`Admits`), each of which
takes one token.

Three facts about it. A sequence of requests is admitted in full exactly when the level at the start
covers each of them and no window asks for more than a full bucket (`admits_iff`): the capacity plus
what is gained during the window. From a full bucket the windows decide (`admits_full_iff`). The
waiting time for the next token is exact (`one_le_refilled_iff_wait_le`). Of requests at one
instant, the first ones are admitted, as many as the level has whole tokens
(`firstOnly_cons_floor`).
-/

namespace Lib

variable {K : Type*} [Field K] [LinearOrder K]

/-- The level at time `t` of a bucket that held `level` at the time `stamp`. -/
def refilled (rate cap level stamp t : K) : K := min cap (level + rate * (t - stamp))

/-- Requests at the given times all find a token, from `level` at the time `stamp` on. -/
def Admits (rate cap : K) : K → K → List K → Prop
  | _, _, [] => True
  | level, stamp, t :: ts =>
    1 ≤ refilled rate cap level stamp t ∧ Admits rate cap (refilled rate cap level stamp t - 1) t ts

variable {rate cap level stamp s t : K} {ts : List K}

/-- A level within the capacity, refilled with no time passing. -/
theorem refilled_self (h : level ≤ cap) : refilled rate cap level stamp stamp = level := by
  rw [refilled, sub_self, mul_zero, add_zero, min_eq_right h]

section

variable [IsStrictOrderedRing K]

theorem refilled_nonneg (hrate : 0 ≤ rate) (hcap : 0 ≤ cap) (hlevel : 0 ≤ level)
    (hst : stamp ≤ t) : 0 ≤ refilled rate cap level stamp t :=
  le_min hcap (add_nonneg hlevel (mul_nonneg hrate (sub_nonneg.mpr hst)))

/-- A full bucket stays full. -/
theorem refilled_eq_cap_of_le (hrate : 0 ≤ rate) (hst : s ≤ t)
    (h : refilled rate cap level stamp s = cap) : refilled rate cap level stamp t = cap := by
  have hgain : rate * (s - stamp) ≤ rate * (t - stamp) :=
    mul_le_mul_of_nonneg_left (by linarith) hrate
  rw [refilled, min_eq_left_iff] at h ⊢
  linarith

/-- **Waiting time.** Where no token is there at `s`, the first one is there once the missing part
has been gained at the rate. -/
theorem one_le_refilled_iff_wait_le (hrate : 0 < rate) (hcap : 1 ≤ cap)
    (hempty : refilled rate cap level stamp s < 1) :
    1 ≤ refilled rate cap level stamp t ↔
      (1 - refilled rate cap level stamp s) / rate ≤ t - s := by
  have hs : refilled rate cap level stamp s = level + rate * (s - stamp) :=
    min_eq_right (le_of_not_ge fun hle => by
      rw [refilled, min_eq_left hle] at hempty
      exact absurd hempty (not_lt.mpr hcap))
  have hsplit : rate * (t - stamp) = rate * (s - stamp) + (t - s) * rate := by ring
  rw [hs, div_le_iff₀ hrate, refilled, le_min_iff, hsplit]
  constructor
  · rintro ⟨-, hone⟩
    linarith
  · intro hwait
    exact ⟨hcap, by linarith⟩

end

/-! ### Requests at one instant -/

/-- Of a list of answers, exactly the first `k` are positive. -/
def FirstOnly (k : ℤ) (answers : List Bool) : Prop :=
  ∀ i (hi : i < answers.length), answers[i] = decide ((i : ℤ) < k)

section

variable {k l : ℤ} {answer : Bool} {answers : List Bool}

theorem firstOnly_nil : FirstOnly k [] := fun i hi => absurd hi (Nat.not_lt_zero i)

theorem firstOnly_cons :
    FirstOnly k (answer :: answers) ↔ answer = decide (0 < k) ∧ FirstOnly (k - 1) answers := by
  have hshift : ∀ i : ℕ, ((i + 1 : ℕ) : ℤ) < k ↔ (i : ℤ) < k - 1 := fun i => by omega
  constructor
  · intro h
    refine ⟨h 0 (Nat.succ_pos _), fun i hi => ?_⟩
    exact (h (i + 1) (Nat.succ_lt_succ hi)).trans (decide_eq_decide.mpr (hshift i))
  · rintro ⟨hfirst, hrest⟩ i hi
    cases i with
    | zero => exact hfirst
    | succ i =>
      exact (hrest i (Nat.lt_of_succ_lt_succ hi)).trans (decide_eq_decide.mpr (hshift i).symm)

/-- Without any positive answer, how far below zero the number is does not matter. -/
theorem FirstOnly.of_nonpos (h : FirstOnly k answers) (hk : k ≤ 0) (hl : l ≤ 0) :
    FirstOnly l answers := by
  intro i hi
  rw [h i hi, decide_eq_decide]
  omega

/-- The next request takes a whole token if the level has one. -/
theorem firstOnly_cons_floor [FloorRing K] [IsStrictOrderedRing K]
    (h : FirstOnly ⌊level - if 1 ≤ level then 1 else 0⌋ answers) :
    FirstOnly ⌊level⌋ (decide (1 ≤ level) :: answers) := by
  refine firstOnly_cons.mpr ⟨decide_eq_decide.mpr Int.floor_pos.symm, ?_⟩
  split_ifs at h with hone
  · rwa [Int.floor_sub_one] at h
  · rw [sub_zero] at h
    have hnone : ⌊level⌋ ≤ 0 := not_lt.mp (mt Int.floor_pos.mp hone)
    exact h.of_nonpos hnone (by omega)

end

/-! ### Admission of a whole sequence -/

/-- The requests ask for no more than `level` at the time `stamp` and the gain since allow. -/
def Covered (rate level stamp : K) (ts : List K) : Prop :=
  ∀ j (hj : j < ts.length), (j : K) + 1 ≤ level + rate * (ts[j] - stamp)

theorem covered_nil : Covered rate level stamp [] := fun j hj => absurd hj (Nat.not_lt_zero j)

/-- No window of the sequence asks for more than a full bucket at its start allows. -/
def Conforms (rate cap : K) (ts : List K) : Prop :=
  ∀ i j (_ : i ≤ j) (hj : j < ts.length), ((j - i + 1 : ℕ) : K) ≤ cap + rate * (ts[j] - ts[i])

theorem conforms_cons :
    Conforms rate cap (t :: ts) ↔ Covered rate cap t (t :: ts) ∧ Conforms rate cap ts := by
  constructor
  · intro h
    refine ⟨fun j hj => ?_, fun i j hij hj => ?_⟩
    · have hwindow := h 0 j (Nat.zero_le j) hj
      rw [Nat.sub_zero, Nat.cast_succ] at hwindow
      exact hwindow
    · have hwindow := h (i + 1) (j + 1) (Nat.succ_le_succ hij) (Nat.succ_lt_succ hj)
      rw [Nat.add_sub_add_right] at hwindow
      exact hwindow
  · rintro ⟨hstart, hrest⟩ i j hij hj
    cases i with
    | zero =>
      rw [Nat.sub_zero, Nat.cast_succ]
      exact hstart j hj
    | succ i =>
      obtain ⟨j, rfl⟩ := Nat.exists_eq_succ_of_ne_zero (Nat.ne_of_gt (Nat.lt_of_lt_of_le
        (Nat.succ_pos i) hij))
      rw [Nat.succ_sub_succ]
      exact hrest i j (Nat.le_of_succ_le_succ hij) (Nat.lt_of_succ_lt_succ hj)

section

variable [IsStrictOrderedRing K]

theorem covered_cons :
    Covered rate level stamp (t :: ts) ↔
      1 ≤ level + rate * (t - stamp) ∧ Covered rate (level + rate * (t - stamp) - 1) t ts := by
  have hshift : ∀ (j : ℕ) (u : K), (((j + 1 : ℕ) : K) + 1 ≤ level + rate * (u - stamp)) ↔
      (j : K) + 1 ≤ level + rate * (t - stamp) - 1 + rate * (u - t) := by
    intro j u
    have hsplit : rate * (u - stamp) = rate * (t - stamp) + rate * (u - t) := by ring
    rw [hsplit, Nat.cast_succ]
    constructor <;> intro h <;> linarith
  constructor
  · intro h
    have hfirst : ((0 : ℕ) : K) + 1 ≤ level + rate * (t - stamp) := h 0 (Nat.succ_pos _)
    rw [Nat.cast_zero, zero_add] at hfirst
    exact ⟨hfirst, fun j hj => (hshift j _).mp (h (j + 1) (Nat.succ_lt_succ hj))⟩
  · rintro ⟨hfirst, hrest⟩ j hj
    cases j with
    | zero =>
      rw [Nat.cast_zero, zero_add]
      exact hfirst
    | succ j => exact (hshift j _).mpr (hrest j (Nat.lt_of_succ_lt_succ hj))

/-- What two levels cover is what the lower one covers. -/
theorem covered_min {level' : K} :
    Covered rate (min level level') stamp ts ↔
      Covered rate level stamp ts ∧ Covered rate level' stamp ts := by
  simp only [Covered, ← min_add_add_right, le_min_iff]
  exact forall₂_and

/-- **Admission by windows.** All requests of a sequence are admitted exactly when each is covered
by the level at the start, and no window of the sequence asks for more than a full bucket. The
order of the times and the sign of the rate do not matter. -/
theorem admits_iff :
    Admits rate cap level stamp ts ↔ Covered rate level stamp ts ∧ Conforms rate cap ts := by
  induction ts generalizing level stamp with
  | nil =>
    refine iff_of_true trivial ⟨covered_nil, fun i j hij hj => absurd hj (Nat.not_lt_zero j)⟩
  | cons t ts ih =>
    -- the level after the request is the lower one of a full bucket's and the uncapped one
    have hsub : refilled rate cap level stamp t - 1 =
        min (cap + rate * (t - t) - 1) (level + rate * (t - stamp) - 1) := by
      rw [refilled, sub_self, mul_zero, add_zero, min_sub_sub_right]
    have hcap : 1 ≤ cap ↔ 1 ≤ cap + rate * (t - t) := by rw [sub_self, mul_zero, add_zero]
    rw [Admits, ih, hsub, covered_min, covered_cons, conforms_cons, covered_cons, refilled,
      le_min_iff, hcap]
    tauto

/-- From a full bucket, what counts are the windows. -/
theorem admits_full_iff (ht : rate * (t - stamp) = 0) :
    Admits rate cap cap stamp (t :: ts) ↔ Conforms rate cap (t :: ts) := by
  rw [admits_iff, and_iff_right_iff_imp, conforms_cons]
  rintro ⟨hcovered, -⟩
  rw [covered_cons] at hcovered ⊢
  rw [sub_self, mul_zero] at hcovered
  rwa [ht]

end

end Lib
