import Mathlib.Algebra.Order.Field.Basic
import Mathlib.Tactic.Linarith
import Mathlib.Tactic.Ring

/-!
# Metered traces

The accounting behind a token bucket. A trace of requests, each with a time stamp and the
answer it got, is *metered* at a rate and a capacity when some level accompanies it: between
two requests the level gains at most the rate times the difference of their stamps, a granted
request costs one, and after a granted request the level lies between zero and the capacity
less one. Nothing is assumed about the order of the stamps.

The potential `level - rate * stamp` never grows along a metered trace and loses one per
granted request, whatever the order of the stamps, so in every window of stamps at most the
capacity plus the rate times the length of the window is granted
(`Metered.countP_granted_le`).
-/

namespace Lib

variable {K : Type*} [Field K] [LinearOrder K] [IsStrictOrderedRing K]

/-- The requests (stamp, granted) are metered at `rate` and `cap` when they start from `level`
at the stamp `stamp`. -/
inductive Metered (rate cap : K) : K → K → List (K × Bool) → Prop
  | nil (level stamp : K) : Metered rate cap level stamp []
  | cons {level stamp level' t : K} {granted : Bool} {es : List (K × Bool)}
      (charge : level' ≤ level + rate * (t - stamp) - if granted then 1 else 0)
      (bounds : granted = true → 0 ≤ level' ∧ level' ≤ cap - 1)
      (rest : Metered rate cap level' t es) : Metered rate cap level stamp ((t, granted) :: es)

/-- The request was granted and its stamp lies between `s` and `t`. -/
def grantedIn (s t : K) (e : K × Bool) : Bool := decide (s ≤ e.1) && decide (e.1 ≤ t) && e.2

namespace Metered

variable {rate cap level stamp s t : K} {es : List (K × Bool)}

/-- What is granted up to `t` is paid for by the potential at the start. -/
private theorem countP_eq_zero_or_le (hrate : 0 ≤ rate) (h : Metered rate cap level stamp es) :
    es.countP (grantedIn s t) = 0 ∨
      (es.countP (grantedIn s t) : K) ≤ level - rate * stamp + rate * t := by
  induction h with
  | nil level stamp => exact .inl rfl
  | @cons level stamp level' u granted es charge bounds rest ih =>
    cases hin : grantedIn s t (u, granted) with
    | false =>
      rw [List.countP_cons_of_neg (by simp [hin])]
      refine ih.imp_right fun hle => ?_
      have hcost : (0 : K) ≤ if granted then 1 else 0 := by split_ifs <;> norm_num
      linarith
    | true =>
      obtain ⟨⟨-, hu⟩, hgranted⟩ : (s ≤ u ∧ u ≤ t) ∧ granted = true := by
        simpa [grantedIn] using hin
      have hut : rate * u ≤ rate * t := mul_le_mul_of_nonneg_left hu hrate
      obtain ⟨hlow, -⟩ := bounds hgranted
      rw [if_pos hgranted] at charge
      rw [List.countP_cons_of_pos hin, Nat.cast_succ]
      right
      rcases ih with hzero | hle
      · rw [hzero, Nat.cast_zero]
        linarith
      · linarith

/-- **Window bound.** In every window of stamps at most the capacity plus the rate times the
length of the window is granted. -/
theorem countP_granted_le (hrate : 0 ≤ rate) (hcap : 0 ≤ cap) (hst : s ≤ t)
    (h : Metered rate cap level stamp es) :
    (es.countP (grantedIn s t) : K) ≤ cap + rate * (t - s) := by
  induction h with
  | nil level stamp =>
    have hgain := mul_nonneg hrate (sub_nonneg.mpr hst)
    simpa using add_nonneg hcap hgain
  | @cons level stamp level' u granted es charge bounds rest ih =>
    cases hin : grantedIn s t (u, granted) with
    | false => rwa [List.countP_cons_of_neg (by simp [hin])]
    | true =>
      -- the first request granted in the window: the potential after it is bounded by the cap
      obtain ⟨⟨hs, hu⟩, hgranted⟩ : (s ≤ u ∧ u ≤ t) ∧ granted = true := by
        simpa [grantedIn] using hin
      obtain ⟨hlow, hhigh⟩ := bounds hgranted
      have hsu : rate * s ≤ rate * u := mul_le_mul_of_nonneg_left hs hrate
      rw [List.countP_cons_of_pos hin, Nat.cast_succ]
      rcases countP_eq_zero_or_le (s := s) (t := t) hrate rest with hzero | hle
      · have hgain := mul_nonneg hrate (sub_nonneg.mpr hst)
        rw [hzero, Nat.cast_zero]
        linarith
      · linarith

end Metered

end Lib
