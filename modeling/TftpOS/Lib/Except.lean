import Mathlib.Data.List.Forall2

/-!
# Computations that may raise

Rules for `Except ε`: what it means for a bind and for a `mapM` to succeed, and the round trip
of a codec through lists.
-/

namespace Lib

universe u v

variable {ε : Type u} {α β : Type v}

@[simp]
theorem ok_bind (a : α) (f : α → Except ε β) : (Except.ok a >>= f) = f a := rfl

@[simp]
theorem error_bind (e : ε) (f : α → Except ε β) : (Except.error e >>= f) = .error e := rfl

@[simp]
theorem pure_eq_ok (a : α) : (pure a : Except ε α) = .ok a := rfl

theorem bind_eq_ok_iff {x : Except ε α} {f : α → Except ε β} {b : β} :
    (x >>= f) = .ok b ↔ ∃ a, x = .ok a ∧ f a = .ok b := by
  cases x with
  | error e => simp [bind, Except.bind]
  | ok a => simp [bind, Except.bind]

theorem bind_eq_error_iff {x : Except ε α} {f : α → Except ε β} {e : ε} :
    (x >>= f) = .error e ↔ x = .error e ∨ ∃ a, x = .ok a ∧ f a = .error e := by
  cases x with
  | error e => simp [bind, Except.bind]
  | ok a => simp [bind, Except.bind]

theorem map_eq_ok_iff {x : Except ε α} {f : α → β} {b : β} :
    x.map f = .ok b ↔ ∃ a, x = .ok a ∧ f a = b := by
  cases x with
  | error e => simp [Except.map]
  | ok a => simp [Except.map]

theorem map_bind {x : Except ε α} {f : α → Except ε β} {g : β → β} :
    (x >>= f).map g = x >>= fun a => (f a).map g := by
  cases x <;> rfl

theorem mapM_cons_eq_ok_iff {f : α → Except ε β} {a : α} {as : List α} {bs : List β} :
    (a :: as).mapM f = .ok bs ↔
      ∃ b bs', f a = .ok b ∧ as.mapM f = .ok bs' ∧ bs = b :: bs' := by
  rw [List.mapM_cons, bind_eq_ok_iff]
  constructor
  · rintro ⟨b, hb, h⟩
    obtain ⟨bs', hbs', h⟩ := bind_eq_ok_iff.mp h
    exact ⟨b, bs', hb, hbs', (Except.ok.inj h).symm⟩
  · rintro ⟨b, bs', hb, hbs', rfl⟩
    exact ⟨b, hb, bind_eq_ok_iff.mpr ⟨bs', hbs', rfl⟩⟩

theorem mapM_eq_ok_nil_iff {f : α → Except ε β} {as : List α} : as.mapM f = .ok [] ↔ as = [] := by
  cases as with
  | nil => simp
  | cons a as =>
    rw [mapM_cons_eq_ok_iff]
    simp

/-- A `mapM` succeeds with the results of the elements. -/
theorem mapM_eq_ok_iff {f : α → Except ε β} {as : List α} {bs : List β} :
    as.mapM f = .ok bs ↔ List.Forall₂ (fun a b => f a = .ok b) as bs := by
  induction as generalizing bs with
  | nil => simp [eq_comm]
  | cons a as ih =>
    rw [mapM_cons_eq_ok_iff, List.forall₂_cons_left_iff]
    simp only [ih]

theorem bind_isOk_iff {x : Except ε α} {f : α → Except ε β} :
    (∃ b, (x >>= f) = .ok b) ↔ ∃ a, x = .ok a ∧ ∃ b, f a = .ok b := by
  simp only [bind_eq_ok_iff]
  exact exists_comm.trans (exists_congr fun a => exists_and_left)

theorem mapM_isOk_iff {f : α → Except ε β} {as : List α} :
    (∃ bs, as.mapM f = .ok bs) ↔ ∀ a ∈ as, ∃ b, f a = .ok b := by
  induction as with
  | nil => simp
  | cons a as ih =>
    rw [List.forall_mem_cons, ← ih]
    constructor
    · rintro ⟨bs, h⟩
      obtain ⟨b, bs', hb, hbs', -⟩ := mapM_cons_eq_ok_iff.mp h
      exact ⟨⟨b, hb⟩, bs', hbs'⟩
    · rintro ⟨⟨b, hb⟩, bs', hbs'⟩
      exact ⟨b :: bs', mapM_cons_eq_ok_iff.mpr ⟨b, bs', hb, hbs', rfl⟩⟩

/-- A `mapM` succeeds when every element does, with the list of their results. -/
theorem mapM_map_eq_ok {f : α → Except ε β} {g : γ → α} {h : γ → β} {cs : List γ}
    (hf : ∀ c ∈ cs, f (g c) = .ok (h c)) : (cs.map g).mapM f = .ok (cs.map h) := by
  induction cs with
  | nil => rfl
  | cons c cs ih =>
    rw [List.forall_mem_cons] at hf
    exact mapM_cons_eq_ok_iff.mpr ⟨h c, cs.map h, hf.1, ih hf.2, rfl⟩

/-- A `mapM` that goes through where another one does, with what `h` makes of its results. -/
theorem toOption_mapM_map {f : α → Except ε β} {g : α → Except ε γ} {h : γ → β}
    (hf : ∀ a, (f a).toOption = (g a).toOption.map h) (as : List α) :
    (as.mapM f).toOption = (as.mapM g).toOption.map (List.map h) := by
  induction as with
  | nil => rfl
  | cons a as ih =>
    have ha := hf a
    rw [List.mapM_cons, List.mapM_cons]
    rcases hfa : f a with e | b <;> rcases hga : g a with e' | c <;>
      simp only [hfa, hga, Except.toOption, Option.map_none, Option.map_some, reduceCtorEq,
        Option.some.injEq] at ha
    · rfl
    · subst ha
      rcases hfs : as.mapM f with e | bs <;> rcases hgs : as.mapM g with e' | cs <;>
        simp only [hfs, hgs, Except.toOption, Option.map_none, Option.map_some, reduceCtorEq,
          Option.some.injEq] at ih
      · rfl
      · rw [ih]
        rfl

/-- The elements that pass a test which may raise. -/
def filterExcept (p : α → Except ε Bool) : List α → Except ε (List α)
  | [] => .ok []
  | a :: as =>
    match p a with
    | .error e => .error e
    | .ok keep => (filterExcept p as).map fun kept => if keep then a :: kept else kept

/-- A test that does not raise on the elements filters them. -/
theorem filterExcept_map {p : α → Except ε Bool} {g : γ → α} {q : γ → Bool} {cs : List γ}
    (h : ∀ c ∈ cs, p (g c) = .ok (q c)) :
    filterExcept p (cs.map g) = .ok ((cs.filter q).map g) := by
  induction cs with
  | nil => rfl
  | cons c cs ih =>
    rw [List.forall_mem_cons] at h
    rw [List.map_cons, filterExcept, h.1]
    rcases hc : q c <;> simp [ih h.2, Except.map, hc]

/-- A codec that round-trips elements round-trips lists. -/
theorem mapM_decode_encode {encode : α → β} {decode : β → Except ε α}
    (h : ∀ a, decode (encode a) = .ok a) (as : List α) :
    (as.map encode).mapM decode = .ok as := by
  have hid : ∀ a ∈ as, decode (encode a) = .ok (id a) := fun a _ => h a
  simpa using mapM_map_eq_ok hid

end Lib
