import Mathlib.Data.List.Induction

/-!
# Runs of deterministic machines

A machine is a step function `step : σ → ι → ο × σ` that reads an operation and returns an
output together with the next state. `run` is the state after a list of operations and
`outputs` the list of what the operations returned.

The rules below package each induction over runs once: an invariant that may mention the
operations performed so far (`run_induction`), a plain invariant whose steps may assume a
side condition on the operations of the run (`run_invariant`), an account of what the steps gain
and lose (`run_add_total`), and a simulation between two machines that read the same operations,
for the states they reach (`run_simulates`), for what they return (`outputs_simulates`) and for
both (`run_refines`).
-/

namespace Lib

variable {σ τ ι ο ο' α : Type*}

/-- The state after performing the operations in order. -/
def run (step : σ → ι → ο × σ) (s : σ) (ops : List ι) : σ :=
  ops.foldl (fun t op => (step t op).2) s

/-- What the operations returned, in order. -/
def outputs (step : σ → ι → ο × σ) : σ → List ι → List ο
  | _, [] => []
  | s, op :: ops => (step s op).1 :: outputs step (step s op).2 ops

section

variable {step : σ → ι → ο × σ} {s : σ}

@[simp]
theorem run_nil : run step s [] = s := rfl

@[simp]
theorem run_cons (op : ι) (ops : List ι) :
    run step s (op :: ops) = run step (step s op).2 ops := rfl

@[simp]
theorem run_append (ops ops' : List ι) :
    run step s (ops ++ ops') = run step (run step s ops) ops' :=
  List.foldl_append

theorem run_concat (ops : List ι) (op : ι) :
    run step s (ops ++ [op]) = (step (run step s ops) op).2 := by simp

@[simp]
theorem outputs_nil : outputs step s [] = [] := rfl

@[simp]
theorem outputs_cons (op : ι) (ops : List ι) :
    outputs step s (op :: ops) = (step s op).1 :: outputs step (step s op).2 ops := rfl

/-- Translating the operations beforehand or one by one. -/
theorem run_map {ι' : Type*} (f : ι' → ι) (ops : List ι') :
    run step s (ops.map f) = run (fun t op => step t (f op)) s ops :=
  List.foldl_map

theorem outputs_map {ι' : Type*} (f : ι' → ι) (ops : List ι') :
    outputs step s (ops.map f) = outputs (fun t op => step t (f op)) s ops := by
  induction ops generalizing s with
  | nil => rfl
  | cons op ops ih => rw [List.map_cons, outputs_cons, outputs_cons, ih]

/-- **Induction over runs.** An invariant of state and history that holds before the first
operation and survives one more operation holds after every run. -/
theorem run_induction {P : List ι → σ → Prop} (nil : P [] s)
    (concat : ∀ ops op, P ops (run step s ops) → P (ops ++ [op]) (step (run step s ops) op).2)
    (ops : List ι) : P ops (run step s ops) := by
  induction ops using List.reverseRecOn with
  | nil => exact nil
  | append_singleton ops op ih =>
    rw [run_concat]
    exact concat ops op ih

/-- A state invariant that every admissible operation preserves holds after every run of
admissible operations. -/
theorem run_invariant {P : σ → Prop} {A : ι → Prop}
    (preserved : ∀ t op, A op → P t → P (step t op).2) (start : P s)
    {ops : List ι} (hops : ∀ op ∈ ops, A op) : P (run step s ops) := by
  induction ops generalizing s with
  | nil => exact start
  | cons op ops ih =>
    rw [List.forall_mem_cons] at hops
    exact ih (preserved s op hops.1 start) hops.2

/-- The sum over the steps of a run of what each weighs in the state before it. -/
def total (step : σ → ι → ο × σ) (weight : σ → ι → ℕ) : σ → List ι → ℕ
  | _, [] => 0
  | t, op :: ops => weight t op + total step weight (step t op).2 ops

/-- **Conservation.** If every step from a good state turns what it gains into `f` or into a loss,
so does every run from a good state. -/
theorem run_add_total {Inv : σ → Prop} {f : σ → ℕ} {gain loss : σ → ι → ℕ}
    (preserved : ∀ t op, Inv t → Inv (step t op).2)
    (conserved : ∀ t op, Inv t → f (step t op).2 + loss t op = f t + gain t op)
    (start : Inv s) (ops : List ι) :
    f (run step s ops) + total step loss s ops = f s + total step gain s ops := by
  induction ops generalizing s with
  | nil => rfl
  | cons op ops ih =>
    have hstep := conserved s op start
    have hrest := ih (preserved s op start)
    rw [run_cons, total, total]
    omega

/-- The steps of a run, with what came before each of them. -/
theorem forall_steps_cons {P : List ι → ι → Prop} {op : ι} {ops : List ι} :
    (∀ pre op', pre ++ [op'] <+: op :: ops → P pre op') ↔
      P [] op ∧ ∀ pre op', pre ++ [op'] <+: ops → P (op :: pre) op' := by
  constructor
  · intro h
    refine ⟨h [] op (by simp), fun pre op' hpre => h (op :: pre) op' ?_⟩
    simpa using hpre
  · rintro ⟨hfirst, hrest⟩ pre op' hpre
    cases pre with
    | nil =>
      obtain rfl : op' = op := by simpa using hpre
      exact hfirst
    | cons op'' pre =>
      obtain ⟨rfl, hpre'⟩ : op'' = op ∧ pre ++ [op'] <+: ops := by simpa using hpre
      exact hrest pre op' hpre'

/-- Where a good state meets one condition on the next step exactly when it meets another one, and
such a step leads to a good state, the steps of a run all meet the one exactly when they all meet
the other. -/
theorem forall_steps_iff {Good : σ → Prop} {P Q : σ → ι → Prop}
    (iff : ∀ t op, Good t → (P t op ↔ Q t op))
    (preserved : ∀ t op, Good t → Q t op → Good (step t op).2) (start : Good s) (ops : List ι) :
    (∀ pre op, pre ++ [op] <+: ops → P (run step s pre) op) ↔
      ∀ pre op, pre ++ [op] <+: ops → Q (run step s pre) op := by
  induction ops generalizing s with
  | nil => simp
  | cons op ops ih =>
    rw [forall_steps_cons (P := fun pre op' => P (run step s pre) op'),
      forall_steps_cons (P := fun pre op' => Q (run step s pre) op')]
    simp only [run_nil, run_cons]
    rw [iff s op start]
    exact and_congr_right fun hq => ih (preserved s op start hq)

/-- Where an admissible step from a good state leads to a good state exactly when the step is
allowed, all states of an admissible run are good exactly when all its steps are allowed. The
invariant `Inv` holds whether the steps are allowed or not. -/
theorem forall_admissible_run_iff {Inv Good : σ → Prop} {Ok : ι → Prop} {Allowed : σ → ι → Prop}
    (inv : ∀ t op, Ok op → Inv t → Inv (step t op).2)
    (good_iff : ∀ t op, Ok op → Inv t → Good t → (Good (step t op).2 ↔ Allowed t op))
    (hinv : Inv s) (hgood : Good s) {ops : List ι} (hops : ∀ op ∈ ops, Ok op) :
    (∀ pre, pre <+: ops → Good (run step s pre)) ↔
      ∀ pre op, pre ++ [op] <+: ops → Allowed (run step s pre) op := by
  have hrun : ∀ pre, pre <+: ops → Inv (run step s pre) := fun pre hpre =>
    run_invariant inv hinv fun op hop => hops op (hpre.subset hop)
  have hlast : ∀ pre op, pre ++ [op] <+: ops → Ok op := fun pre op hpre =>
    hops op (hpre.subset (List.mem_append_right _ (List.mem_singleton_self _)))
  constructor
  · intro h pre op hpre
    have hbefore := (List.prefix_append pre [op]).trans hpre
    rw [← good_iff _ op (hlast pre op hpre) (hrun pre hbefore) (h pre hbefore), ← run_concat]
    exact h _ hpre
  · intro h pre
    induction pre using List.reverseRecOn with
    | nil => exact fun _ => hgood
    | append_singleton pre op ih =>
      intro hpre
      have hbefore := (List.prefix_append pre [op]).trans hpre
      rw [run_concat]
      exact (good_iff _ op (hlast pre op hpre) (hrun pre hbefore) (ih hbefore)).mpr (h pre op hpre)

/-- The same where every operation is admissible. -/
theorem forall_run_iff {Inv Good : σ → Prop} {Allowed : σ → ι → Prop}
    (inv : ∀ t op, Inv t → Inv (step t op).2)
    (good_iff : ∀ t op, Inv t → Good t → (Good (step t op).2 ↔ Allowed t op))
    (hinv : Inv s) (hgood : Good s) (ops : List ι) :
    (∀ pre, pre <+: ops → Good (run step s pre)) ↔
      ∀ pre op, pre ++ [op] <+: ops → Allowed (run step s pre) op :=
  forall_admissible_run_iff (fun t op (_ : True) => inv t op)
    (fun t op _ => good_iff t op) hinv hgood fun _ _ => trivial

end

/-- **Simulation.** If related states stay related under every admissible operation, then
runs of the same admissible operations from related states end in related states. -/
theorem run_simulates {step : σ → ι → ο × σ} {step' : τ → ι → ο' × τ} {R : σ → τ → Prop}
    {Ok : ι → Prop} (sim : ∀ s t op, Ok op → R s t → R (step s op).2 (step' t op).2)
    {s : σ} {t : τ} (start : R s t) {ops : List ι} (hops : ∀ op ∈ ops, Ok op) :
    R (run step s ops) (run step' t ops) := by
  induction ops generalizing s t with
  | nil => exact start
  | cons op ops ih =>
    rw [List.forall_mem_cons] at hops
    exact ih (sim s t op hops.1 start) hops.2

/-- If moreover every admissible operation returns the same from related states, seen through
`f` and `g`, then so do the runs. -/
theorem outputs_simulates {step : σ → ι → ο × σ} {step' : τ → ι → ο' × τ} {f : ο → α} {g : ο' → α}
    {R : σ → τ → Prop} {Ok : ι → Prop}
    (sim : ∀ s t op, Ok op → R s t →
      f (step s op).1 = g (step' t op).1 ∧ R (step s op).2 (step' t op).2)
    {s : σ} {t : τ} (start : R s t) {ops : List ι} (hops : ∀ op ∈ ops, Ok op) :
    (outputs step s ops).map f = (outputs step' t ops).map g := by
  induction ops generalizing s t with
  | nil => rfl
  | cons op ops ih =>
    rw [List.forall_mem_cons] at hops
    obtain ⟨hout, hnext⟩ := sim s t op hops.1 start
    rw [outputs_cons, outputs_cons, List.map_cons, List.map_cons, hout, ih hnext hops.2]

/-- **Refinement.** If every admissible operation on related states returns what the second machine
returns, seen through `g`, and leaves related states, then so do runs of admissible operations. -/
theorem run_refines {step : σ → ι → ο × σ} {step' : τ → ι → ο' × τ} {g : ο' → ο}
    {R : σ → τ → Prop} {Ok : ι → Prop}
    (sim : ∀ s t op, Ok op → R s t →
      (step s op).1 = g (step' t op).1 ∧ R (step s op).2 (step' t op).2)
    {s : σ} {t : τ} (start : R s t) {ops : List ι} (hops : ∀ op ∈ ops, Ok op) :
    outputs step s ops = (outputs step' t ops).map g ∧ R (run step s ops) (run step' t ops) := by
  have hout : (outputs step s ops).map id = (outputs step' t ops).map g :=
    outputs_simulates sim start hops
  rw [List.map_id] at hout
  exact ⟨hout, run_simulates (fun s t op hop h => (sim s t op hop h).2) start hops⟩

end Lib
