import Mathlib.Data.List.Basic

/-!
# Ledgers

A log whose events either open an account or put a mark on an account opened before. An account
is named by the place of the event that opened it, and `trail` lists the marks on one account.
Accounts nest: while one is open, others may be opened and finished.

`Settles P opened n M` says that the stretch `M` of a log, beginning at place `n`, finishes what
it opens: the trail of each of its own events is as `P` demands, it puts no mark on the accounts
before it except the one that is still open, and none on accounts to come. Stretches compose
(`Settles.append`), and finishing the account that a stretch opens gives a stretch that leaves
nothing open (`Settles.enclose`).
-/

namespace Lib

variable {ε μ : Type*} (mark? : ε → Option (ℕ × μ)) (P : ε → List μ → Prop)

/-- The mark of an event on the account at a place. -/
def markOn (k : ℕ) (e : ε) : Option μ :=
  (mark? e).bind fun m => if m.1 = k then some m.2 else none

/-- The marks of a log on the account at a place. -/
def trail (k : ℕ) (M : List ε) : List μ := M.filterMap (markOn mark? k)

@[simp]
theorem trail_nil (k : ℕ) : trail mark? k [] = [] := rfl

@[simp]
theorem trail_append (k : ℕ) (M M' : List ε) :
    trail mark? k (M ++ M') = trail mark? k M ++ trail mark? k M' :=
  List.filterMap_append

variable {mark? P}

theorem trail_cons_of_none {e : ε} (he : mark? e = none) (k : ℕ) (M : List ε) :
    trail mark? k (e :: M) = trail mark? k M := by
  rw [trail, List.filterMap_cons, markOn, he]
  rfl

theorem trail_singleton_self {e : ε} {k : ℕ} {m : μ} (he : mark? e = some (k, m)) :
    trail mark? k [e] = [m] := by
  simp [trail, markOn, he]

theorem trail_singleton_of_ne {e : ε} {k j : ℕ} {m : μ} (he : mark? e = some (k, m))
    (h : k ≠ j) : trail mark? j [e] = [] := by
  simp [trail, markOn, he, h]

variable (mark? P)

/-- The stretch `M` of a log, from place `n` on, finishes the accounts it opens; the account
`opened` before it may receive marks. -/
structure Settles (opened : Option ℕ) (n : ℕ) (M : List ε) : Prop where
  /-- Accounts before the stretch receive no mark, but for the open one. -/
  old : ∀ k, k < n → opened ≠ some k → trail mark? k M = []
  /-- The trail of every event of the stretch is finished within it. -/
  new : ∀ i e, M[i]? = some e → P e (trail mark? (n + i) M)
  /-- Accounts after the stretch have no mark yet. -/
  future : ∀ k, n + M.length ≤ k → trail mark? k M = []

variable {mark? P} {opened : Option ℕ} {n : ℕ} {M M' : List ε}

theorem Settles.nil : Settles mark? P opened n [] where
  old _ _ _ := rfl
  new i e h := by simp at h
  future _ _ := rfl

/-- A stretch that finishes everything may stand where an account is open. -/
theorem Settles.weaken (h : Settles mark? P none n M) : Settles mark? P opened n M where
  old k hk _ := h.old k hk (by simp)
  new := h.new
  future := h.future

/-- An event that puts a mark on the open account. -/
theorem Settles.mark {e : ε} {k : ℕ} {m : μ} (he : mark? e = some (k, m)) (hk : k < n)
    (hP : P e []) : Settles mark? P (some k) n [e] where
  old j _ hj := trail_singleton_of_ne he fun h => hj (congrArg some h)
  new i e' hi := by
    obtain ⟨rfl, rfl⟩ : i = 0 ∧ e = e' := by simpa [List.getElem?_singleton] using hi
    rw [trail_singleton_of_ne he (by omega)]
    exact hP
  future j hj := trail_singleton_of_ne he (by omega)

/-- An event that neither opens an account nor marks one. -/
theorem Settles.note {e : ε} (he : mark? e = none) (hP : P e []) :
    Settles mark? P opened n [e] where
  old k _ _ := trail_cons_of_none he k []
  new i e' hi := by
    obtain ⟨rfl, rfl⟩ : i = 0 ∧ e = e' := by simpa [List.getElem?_singleton] using hi
    rw [trail_cons_of_none he]
    exact hP
  future k _ := trail_cons_of_none he k []

/-- Stretches compose. -/
theorem Settles.append (h : Settles mark? P opened n M)
    (h' : Settles mark? P opened (n + M.length) M') (hopen : ∀ k ∈ opened, k < n) :
    Settles mark? P opened n (M ++ M') where
  old k hk hne := by
    rw [trail_append, h.old k hk hne, h'.old k (by omega) hne, List.append_nil]
  new i e hi := by
    rw [trail_append]
    rcases Nat.lt_or_ge i M.length with hlt | hge
    · -- an account of the first stretch is not marked by the second
      rw [List.getElem?_append_left hlt] at hi
      have hne : opened ≠ some (n + i) := by
        intro hopened
        have := hopen (n + i) hopened
        omega
      rw [h'.old (n + i) (by omega) hne, List.append_nil]
      exact h.new i e hi
    · rw [List.getElem?_append_right hge] at hi
      rw [h.future (n + i) (by omega), List.nil_append,
        show n + i = n + M.length + (i - M.length) by omega]
      exact h'.new _ e hi
  future k hk := by
    rw [List.length_append] at hk
    rw [trail_append, h.future k (by omega), h'.future k (by omega), List.append_nil]

/-- An event that opens an account, and a stretch that finishes it. -/
theorem Settles.enclose {e : ε} (he : mark? e = none)
    (h : Settles mark? P (some n) (n + 1) M) (hP : P e (trail mark? n M)) :
    Settles mark? P none n (e :: M) where
  old k hk _ := by
    rw [trail_cons_of_none he]
    exact h.old k (by omega) (by simp; omega)
  new i e' hi := by
    rw [trail_cons_of_none he]
    cases i with
    | zero =>
      obtain rfl : e = e' := by simpa using hi
      exact hP
    | succ i =>
      rw [show n + (i + 1) = n + 1 + i by omega]
      exact h.new i e' (by simpa using hi)
  future k hk := by
    rw [List.length_cons] at hk
    rw [trail_cons_of_none he]
    exact h.future k (by omega)

end Lib
