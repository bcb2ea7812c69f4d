import Mathlib.Data.List.Basic

/-!
# Loops that skip what fails

A loop over items that counts the steps that succeed, goes on after a step that raises a caught
error, and ends with the first other error. `after` is the state behind one step, and
`Along P s is` says that `P` holds at every step, of the state before it, its item and the items
still to come.

When a step for a good item never raises a caught error, the loop counts exactly the good items
if and only if every good item succeeds and every other one raises a caught error
(`attemptAll_eq_ok_iff`).
-/

namespace Lib

universe u v w

variable {σ : Type u} {ι : Type v} {ε : Type w}

/-- The loop, from a state and a count. -/
def attemptAll (step : σ → ι → Except ε σ) (caught : ε → Bool) :
    σ → ℕ → List ι → Except ε ℕ × σ
  | s, n, [] => (.ok n, s)
  | s, n, i :: is =>
    match step s i with
    | .ok s' => attemptAll step caught s' (n + 1) is
    | .error e => if caught e then attemptAll step caught s n is else (.error e, s)

/-- The state behind a step; a step that raises leaves it as it was. -/
def after (step : σ → ι → Except ε σ) (s : σ) (i : ι) : σ :=
  match step s i with
  | .ok s' => s'
  | .error _ => s

/-- `P` holds at every step. -/
def Along (step : σ → ι → Except ε σ) (P : σ → ι → List ι → Prop) : σ → List ι → Prop
  | _, [] => True
  | s, i :: is => P s i is ∧ Along step P (after step s i) is

/-- A step as it should be: it succeeds for a good item, and is skipped for any other. -/
def Handled (step : σ → ι → Except ε σ) (caught : ε → Bool) (good : ι → Bool) (s : σ) (i : ι) :
    Prop :=
  if good i then ∃ s', step s i = .ok s' else ∃ e, step s i = .error e ∧ caught e = true

variable {step : σ → ι → Except ε σ} {caught : ε → Bool} {good : ι → Bool} {s : σ} {i : ι}
  {is : List ι} {n : ℕ}

theorem after_of_ok {s' : σ} (h : step s i = .ok s') : after step s i = s' := by
  rw [after, h]

theorem after_of_error {e : ε} (h : step s i = .error e) : after step s i = s := by
  rw [after, h]

theorem Along.and_iff {P Q : σ → ι → List ι → Prop} :
    Along step (fun s i is => P s i is ∧ Q s i is) s is ↔
      Along step P s is ∧ Along step Q s is := by
  induction is generalizing s with
  | nil => simp [Along]
  | cons i is ih =>
    rw [Along, Along, Along, ih, and_and_and_comm]

theorem Along.iff_congr {P Q : σ → ι → List ι → Prop} (h : ∀ s i is, P s i is ↔ Q s i is) :
    Along step P s is ↔ Along step Q s is := by
  induction is generalizing s with
  | nil => exact Iff.rfl
  | cons i is ih => rw [Along, Along, h, ih]

/-- The loop counts every good item, if it comes to its end. -/
theorem countP_le_of_attemptAll (hgood : ∀ s i e, good i = true → step s i = .error e →
    caught e = false) {m : ℕ} (h : (attemptAll step caught s n is).1 = .ok m) :
    n + is.countP good ≤ m := by
  induction is generalizing s n with
  | nil =>
    cases h
    simp
  | cons i is ih =>
    rw [attemptAll] at h
    cases hstep : step s i with
    | ok s' =>
      simp only [hstep] at h
      have hle := ih h
      have hcons := List.countP_cons (p := good) (a := i) (l := is)
      split at hcons <;> omega
    | error e =>
      simp only [hstep] at h
      cases hcaught : caught e with
      | false =>
        rw [hcaught] at h
        cases h
      | true =>
        rw [hcaught, if_pos rfl] at h
        have hbad : ¬ good i = true := fun hi => by
          rw [hgood s i e hi hstep] at hcaught
          cases hcaught
        rw [List.countP_cons_of_neg hbad]
        exact ih h

/-- **The count.** -/
theorem attemptAll_eq_ok_iff (hgood : ∀ s i e, good i = true → step s i = .error e →
    caught e = false) :
    (attemptAll step caught s n is).1 = .ok (n + is.countP good) ↔
      Along step (fun s i _ => Handled step caught good s i) s is := by
  induction is generalizing s n with
  | nil => simp [attemptAll, Along]
  | cons i is ih =>
    rw [attemptAll, Along, Handled]
    cases hi : good i with
    | true =>
      rw [List.countP_cons_of_pos hi, if_pos rfl, Nat.add_comm (is.countP good), ← Nat.add_assoc]
      cases hstep : step s i with
      | ok s' => simp [after_of_ok hstep, ih]
      | error e => simp [hgood s i e hi hstep]
    | false =>
      rw [List.countP_cons_of_neg (by simp [hi]), if_neg Bool.false_ne_true]
      cases hstep : step s i with
      | ok s' =>
        -- a bad item that is counted makes the count too large
        refine iff_of_false (fun h => ?_) (by simp)
        have hle := countP_le_of_attemptAll hgood h
        omega
      | error e =>
        cases hcaught : caught e with
        | false => simp [hcaught]
        | true => simp [hcaught, after_of_error hstep, ih]

/-- A loop whose steps are as they should be ends in the state behind all of them. -/
theorem attemptAll_state (h : Along step (fun s i _ => Handled step caught good s i) s is) :
    (attemptAll step caught s n is).2 = is.foldl (after step) s := by
  induction is generalizing s n with
  | nil => rfl
  | cons i is ih =>
    obtain ⟨hi, his⟩ := h
    rw [attemptAll, List.foldl_cons]
    cases hstep : step s i with
    | ok s' =>
      rw [after_of_ok hstep] at his ⊢
      exact ih his
    | error e =>
      rw [Handled, hstep] at hi
      rw [after_of_error hstep] at his ⊢
      have hcaught : caught e = true := by
        split at hi
        · obtain ⟨s', hs'⟩ := hi
          cases hs'
        · obtain ⟨e', he', hcaught⟩ := hi
          cases he'
          exact hcaught
      simp only [hcaught, if_true]
      exact ih his

end Lib
