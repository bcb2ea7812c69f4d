import TftpOS.Lib.Except

/-!
# Actions that may raise

An `Action ε σ α` reads and changes a state and may raise; what it changed before it raised
stays changed. The rules below run the actions of a `do` block one after the other, given what
each of them does.
-/

namespace Lib

/-- An action on a state, which may raise an exception. -/
structure Action (ε σ α : Type) where
  /-- The outcome, and the state after it. -/
  run : σ → Except ε α × σ

namespace Action

variable {ε σ α β : Type}

instance : Monad (Action ε σ) where
  pure a := ⟨fun s => (.ok a, s)⟩
  bind x f := ⟨fun s =>
    match x.run s with
    | (.ok a, s') => (f a).run s'
    | (.error e, s') => (.error e, s')⟩

instance : MonadExcept ε (Action ε σ) where
  throw e := ⟨fun s => (.error e, s)⟩
  tryCatch x handle := ⟨fun s =>
    match x.run s with
    | (.ok a, s') => (.ok a, s')
    | (.error e, s') => (handle e).run s'⟩

/-- A look at the state, which may raise. -/
def read (f : σ → Except ε α) : Action ε σ α := ⟨fun s => (f s, s)⟩

/-- A change of the state, which raises instead of changing it. -/
def modify (f : σ → Except ε σ) : Action ε σ Unit := ⟨fun s =>
  match f s with
  | .ok s' => (.ok (), s')
  | .error e => (.error e, s)⟩

/-- A change of the state that returns something, which raises instead of changing it. -/
def change (f : σ → Except ε (α × σ)) : Action ε σ α := ⟨fun s =>
  match f s with
  | .ok (a, s') => (.ok a, s')
  | .error e => (.error e, s)⟩

/-- An action on a part of the state. -/
def zoom {τ : Type} (get : τ → σ) (set : σ → τ → τ) (x : Action ε σ α) : Action ε τ α := ⟨fun t =>
  match x.run (get t) with
  | (r, s) => (r, set s t)⟩

variable {x : Action ε σ α} {f : α → Action ε σ β} {handle : ε → Action ε σ α} {s s' : σ} {a : α}
  {e : ε}

@[simp]
theorem run_pure : (pure a : Action ε σ α).run s = (.ok a, s) := rfl

@[simp]
theorem run_throw : (throw e : Action ε σ α).run s = (.error e, s) := rfl

@[simp]
theorem run_read (f : σ → Except ε α) : (read f).run s = (f s, s) := rfl

theorem bind_of_ok (h : x.run s = (.ok a, s')) : (x >>= f).run s = (f a).run s' := by
  simp only [bind, h]

theorem bind_of_error (h : x.run s = (.error e, s')) : (x >>= f).run s = (.error e, s') := by
  simp only [bind, h]

theorem tryCatch_of_ok (h : x.run s = (.ok a, s')) :
    (tryCatch x handle).run s = (.ok a, s') := by
  simp only [tryCatch, h]

theorem tryCatch_of_error (h : x.run s = (.error e, s')) :
    (tryCatch x handle).run s = (handle e).run s' := by
  simp only [tryCatch, h]

theorem modify_of_ok {f : σ → Except ε σ} (h : f s = .ok s') :
    (modify f).run s = (.ok (), s') := by
  simp only [modify, h]

theorem modify_of_error {f : σ → Except ε σ} (h : f s = .error e) :
    (modify f).run s = (.error e, s) := by
  simp only [modify, h]

theorem change_of_ok {f : σ → Except ε (α × σ)} (h : f s = .ok (a, s')) :
    (change f).run s = (.ok a, s') := by
  simp only [change, h]

theorem change_of_error {f : σ → Except ε (α × σ)} (h : f s = .error e) :
    (change f).run s = (.error e, s) := by
  simp only [change, h]

theorem zoom_of_run {τ : Type} {get : τ → σ} {set : σ → τ → τ} {t : τ} {r : Except ε α}
    (h : x.run (get t) = (r, s)) : (zoom get set x).run t = (r, set s t) := by
  simp only [zoom, h]

/-- A sequence that returns has returned in both parts. -/
theorem bind_eq_ok_iff {b : β} :
    (x >>= f).run s = (.ok b, s') ↔ ∃ a t, x.run s = (.ok a, t) ∧ (f a).run t = (.ok b, s') := by
  rcases hx : x.run s with ⟨e | a, t⟩
  · simp [bind_of_error hx]
  · simp [bind_of_ok hx]

end Action

end Lib
