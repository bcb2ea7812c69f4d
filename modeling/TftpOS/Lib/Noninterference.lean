import TftpOS.Lib.Run

/-!
# Noninterference

A machine with several users, and one of them who reads some of what it returns. `observed` is
what that user reads in a run. An `Unwinding` is a relation between states that look alike to the
user: operations that do not concern the user keep it on one side, and those that do are read
alike and keep it on both.

Where there is one, leaving out of a run all that does not concern the user changes nothing that
the user reads (`Unwinding.observed_filter`).
-/

namespace Lib

variable {σ ι ο α : Type*}

/-- What a user reads in a run: of each operation, what `read` makes of its output. -/
def observed (step : σ → ι → ο × σ) (read : ι → ο → Option α) : σ → List ι → List α
  | _, [] => []
  | s, op :: ops => (read op (step s op).1).toList ++ observed step read (step s op).2 ops

section

variable {step : σ → ι → ο × σ} {read : ι → ο → Option α} {s : σ} {op : ι} {ops : List ι}

@[simp]
theorem observed_nil : observed step read s [] = [] := rfl

theorem observed_cons_of_none (h : read op (step s op).1 = none) :
    observed step read s (op :: ops) = observed step read (step s op).2 ops := by
  rw [observed, h, Option.toList_none, List.nil_append]

theorem observed_cons_of_some {a : α} (h : read op (step s op).1 = some a) :
    observed step read s (op :: ops) = a :: observed step read (step s op).2 ops := by
  rw [observed, h, Option.toList_some, List.singleton_append]

end

/-- States that look alike to a user, and the operations that concern the user. -/
structure Unwinding (step : σ → ι → ο × σ) (read : ι → ο → Option α) (concerns : ι → Bool)
    (R : σ → σ → Prop) : Prop where
  /-- Nothing else is read. -/
  unread : ∀ op out, concerns op = false → read op out = none
  /-- Nothing else shows. -/
  hidden : ∀ s t op, concerns op = false → R s t → R (step s op).2 t
  /-- What concerns the user is read alike. -/
  reads : ∀ s t op, concerns op = true → R s t → read op (step s op).1 = read op (step t op).1
  /-- It shows alike. -/
  shown : ∀ s t op, concerns op = true → R s t → R (step s op).2 (step t op).2

namespace Unwinding

variable {step : σ → ι → ο × σ} {read : ι → ο → Option α} {concerns : ι → Bool}
  {R : σ → σ → Prop} {s t : σ}

/-- **Noninterference.** From states that look alike, a user reads in a run what is read in the
same run without the operations that do not concern that user. -/
theorem observed_filter (h : Unwinding step read concerns R) (hR : R s t) (ops : List ι) :
    observed step read s ops = observed step read t (ops.filter concerns) := by
  induction ops generalizing s t with
  | nil => rfl
  | cons op ops ih =>
    cases hop : concerns op with
    | false =>
      rw [List.filter_cons_of_neg (by rw [hop]; exact Bool.false_ne_true),
        observed_cons_of_none (h.unread op _ hop)]
      exact ih (h.hidden s t op hop hR)
    | true =>
      rw [List.filter_cons_of_pos hop, observed, observed, h.reads s t op hop hR,
        ih (h.shown s t op hop hR)]

end Unwinding

end Lib
