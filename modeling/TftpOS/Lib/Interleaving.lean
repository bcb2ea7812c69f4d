import Mathlib.Logic.Function.Basic
import TftpOS.Lib.Run

/-!
# Interleaved clients of a shared state

Clients that each take atomic steps on a shared state and a local state of their own. A schedule
is a list of events, each naming a client and what it does next; a run of `interleave` is one
interleaving. `forall_interleave` is the invariant rule: what each client keeps of the shared
state and of its own local state holds throughout. A client whose steps are not interrupted
computes what it computes alone (`run_interleave_alone`).
-/

namespace Lib

variable {κ σ l α : Type*}

/-- The shared state, and the local state of each client. -/
structure Clients (κ σ l : Type*) where
  shared : σ
  locals : κ → l

variable [DecidableEq κ] {client : σ → l → α → σ × l} {c : Clients κ σ l}

/-- One client takes a step. -/
def interleave (client : σ → l → α → σ × l) (c : Clients κ σ l) (e : κ × α) :
    Unit × Clients κ σ l :=
  let next := client c.shared (c.locals e.1) e.2
  ((), ⟨next.1, Function.update c.locals e.1 next.2⟩)

@[simp]
theorem interleave_shared (i : κ) (a : α) :
    (interleave client c (i, a)).2.shared = (client c.shared (c.locals i) a).1 := rfl

@[simp]
theorem interleave_locals_self (i : κ) (a : α) :
    (interleave client c (i, a)).2.locals i = (client c.shared (c.locals i) a).2 :=
  Function.update_self i _ c.locals

theorem interleave_locals_of_ne {i j : κ} (h : j ≠ i) (a : α) :
    (interleave client c (i, a)).2.locals j = c.locals j :=
  Function.update_of_ne h _ c.locals

/-- A step that changes neither the shared state nor its client changes nothing. -/
theorem interleave_eq_self {i : κ} {a : α}
    (h : client c.shared (c.locals i) a = (c.shared, c.locals i)) :
    (interleave client c (i, a)).2 = c := by
  rw [interleave, h, Function.update_eq_self]

/-- **Invariants.** What every client keeps of the shared state and of its own local state, a
step of the system keeps. -/
theorem forall_interleave {P : σ → Prop} {Q : l → Prop}
    (preserved : ∀ s x a, P s → Q x → P (client s x a).1 ∧ Q (client s x a).2)
    (hshared : P c.shared) (hlocals : ∀ i, Q (c.locals i)) (e : κ × α) :
    P (interleave client c e).2.shared ∧ ∀ i, Q ((interleave client c e).2.locals i) := by
  have hnext := preserved c.shared (c.locals e.1) e.2 hshared (hlocals e.1)
  refine ⟨hnext.1, fun i => ?_⟩
  by_cases hi : i = e.1
  · rw [hi, interleave_locals_self]
    exact hnext.2
  · rw [interleave_locals_of_ne hi]
    exact hlocals i

/-- Steps of one client, one after the other. -/
theorem run_interleave_alone (i : κ) (as : List α) :
    run (interleave client) c (as.map (Prod.mk i)) =
      let next := as.foldl (fun p a => client p.1 p.2 a) (c.shared, c.locals i)
      ⟨next.1, Function.update c.locals i next.2⟩ := by
  induction as generalizing c with
  | nil => simp
  | cons a as ih =>
    rw [List.map_cons, run_cons, ih]
    simp [interleave]

end Lib
