import Mathlib.Data.List.Infix
import Mathlib.Data.List.TakeWhile

/-!
# Regular expressions that backtrack

Patterns with classes, repetition of a class, sequences, alternatives and groups, matched from the
left with backtracking. `results` lists all matches of a pattern at the beginning of a text in the
order in which a backtracking matcher meets them, so that the first of the list is the match that it
reports (`matchStart`), and `search` tries one place of the text after the other.

`Matches` says what a pattern matches without an order: `results` has exactly these matches
(`mem_results_iff`), so that a text has a match when there is any (`isSome_matchStart_iff`). Which
one comes first is computed with the continuation of the matcher, `first`: it goes through a
sequence part by part (`first_seq`), a greedy repetition takes all it can where what follows goes
along (`first_many_of_isSome`), and a lazy one as little as what follows allows
(`first_lazy_eq_some_iff`).
-/

namespace Lib

variable {α β : Type*}

/-- Regular expressions over an alphabet. -/
inductive Pattern (α : Type*) where
  | empty
  /-- An element of a class. -/
  | one (p : α → Bool)
  /-- Elements of a class, as many as possible or as few. -/
  | many (greedy : Bool) (p : α → Bool)
  | seq (r r' : Pattern α)
  | alt (r r' : Pattern α)
  | group (r : Pattern α)
  /-- A test of what is left of the text. -/
  | ahead (p : List α → Bool)

/-- A match: what has been matched, what is left, and the groups in their order. -/
@[ext]
structure Match (α : Type*) where
  text : List α
  rest : List α
  groups : List (List α) := []

namespace Match

def push (a : α) (m : Match α) : Match α := { m with text := a :: m.text }

/-- A match and one that follows it. -/
def append (m m' : Match α) : Match α := ⟨m.text ++ m'.text, m'.rest, m.groups ++ m'.groups⟩

/-- A match that is captured. -/
def capture (m : Match α) : Match α := { m with groups := m.text :: m.groups }

end Match

namespace Pattern

/-- A repetition of a class, the longest or the shortest one first. -/
def repeats (greedy : Bool) (p : α → Bool) : List α → List (Match α)
  | [] => [⟨[], [], []⟩]
  | a :: l =>
    let more := if p a then (repeats greedy p l).map (Match.push a) else []
    if greedy then more ++ [⟨[], a :: l, []⟩] else ⟨[], a :: l, []⟩ :: more

/-- The matches at the beginning of a text, in the order in which they are met. -/
def results : Pattern α → List α → List (Match α)
  | empty, l => [⟨[], l, []⟩]
  | one _, [] => []
  | one p, a :: l => if p a then [⟨[a], l, []⟩] else []
  | many greedy p, l => repeats greedy p l
  | seq r r', l => (results r l).flatMap fun m => (results r' m.rest).map m.append
  | alt r r', l => results r l ++ results r' l
  | group r, l => (results r l).map Match.capture
  | ahead p, l => if p l then [⟨[], l, []⟩] else []

/-- The match at the beginning of a text. -/
def matchStart (r : Pattern α) (l : List α) : Option (Match α) := (results r l).head?

/-- The match at the first place of a text that has one. -/
def search (r : Pattern α) (l : List α) : Option (Match α) := l.tails.findSome? (matchStart r)

/-- At least one element of a class, as many as possible. -/
def plus (p : α → Bool) : Pattern α := seq (one p) (many true p)

/-- The elements of a list, one after the other. -/
def literal [DecidableEq α] : List α → Pattern α
  | [] => empty
  | a :: l => seq (one fun b => b = a) (literal l)

/-- A pattern that may be left out. -/
def opt (r : Pattern α) : Pattern α := alt r empty

/-! ### What a pattern matches -/

/-- A pattern matches a text in front of another one, with some groups. -/
inductive Matches : Pattern α → (text rest : List α) → List (List α) → Prop
  | empty {l : List α} : Matches empty [] l []
  | one {p : α → Bool} {a : α} {l : List α} (h : p a = true) : Matches (one p) [a] l []
  | many {greedy : Bool} {p : α → Bool} {t l : List α} (h : ∀ a ∈ t, p a = true) :
      Matches (many greedy p) t l []
  | seq {r r' : Pattern α} {t t' l : List α} {gs gs' : List (List α)}
      (h : Matches r t (t' ++ l) gs) (h' : Matches r' t' l gs') :
      Matches (seq r r') (t ++ t') l (gs ++ gs')
  | left {r r' : Pattern α} {t l : List α} {gs : List (List α)} (h : Matches r t l gs) :
      Matches (alt r r') t l gs
  | right {r r' : Pattern α} {t l : List α} {gs : List (List α)} (h : Matches r' t l gs) :
      Matches (alt r r') t l gs
  | group {r : Pattern α} {t l : List α} {gs : List (List α)} (h : Matches r t l gs) :
      Matches (group r) t l (t :: gs)
  | ahead {p : List α → Bool} {l : List α} (h : p l = true) : Matches (ahead p) [] l []

theorem mem_repeats_iff {greedy : Bool} {p : α → Bool} {l : List α} {m : Match α} :
    m ∈ repeats greedy p l ↔
      (∀ a ∈ m.text, p a = true) ∧ m.text ++ m.rest = l ∧ m.groups = [] := by
  induction l generalizing m with
  | nil =>
    rw [repeats, List.mem_singleton, List.append_eq_nil_iff]
    constructor
    · rintro rfl
      simp
    · rintro ⟨-, ⟨htext, hrest⟩, hgroups⟩
      exact Match.ext htext hrest hgroups
  | cons a l ih =>
    have hmore : m ∈ (if p a then (repeats greedy p l).map (Match.push a) else []) ↔
        ∃ t, m.text = a :: t ∧ p a = true ∧ (∀ b ∈ t, p b = true) ∧ t ++ m.rest = l ∧
          m.groups = [] := by
      split_ifs with ha
      · rw [List.mem_map]
        constructor
        · rintro ⟨m', hm', rfl⟩
          obtain ⟨htext, hrest, hgroups⟩ := ih.mp hm'
          exact ⟨m'.text, rfl, ha, htext, hrest, hgroups⟩
        · rintro ⟨t, htext, -, ht, hrest, hgroups⟩
          exact ⟨⟨t, m.rest, m.groups⟩, ih.mpr ⟨ht, hrest, hgroups⟩, Match.ext htext.symm rfl rfl⟩
      · simp [ha]
    have hstop : m = ⟨[], a :: l, []⟩ ↔ m.text = [] ∧ m.rest = a :: l ∧ m.groups = [] :=
      Match.ext_iff
    have hall : m ∈ repeats greedy p (a :: l) ↔
        m ∈ (if p a then (repeats greedy p l).map (Match.push a) else []) ∨
          m = ⟨[], a :: l, []⟩ := by
      rw [repeats]
      cases greedy with
      | true => rw [if_pos rfl, List.mem_append, List.mem_singleton]
      | false => rw [if_neg Bool.false_ne_true, List.mem_cons, or_comm]
    rw [hall, hmore, hstop]
    constructor
    · rintro (⟨t, htext, ha, ht, rfl, hgroups⟩ | ⟨htext, hrest, hgroups⟩)
      · rw [htext]
        exact ⟨by simpa using ⟨ha, ht⟩, rfl, hgroups⟩
      · rw [htext, hrest]
        exact ⟨by simp, rfl, hgroups⟩
    · rintro ⟨hp, hsplit, hgroups⟩
      rcases htext : m.text with _ | ⟨b, t⟩
      · rw [htext] at hsplit
        exact .inr ⟨rfl, hsplit, hgroups⟩
      · rw [htext] at hp hsplit
        obtain ⟨rfl, hrest⟩ := List.cons_eq_cons.mp hsplit
        rw [List.forall_mem_cons] at hp
        exact .inl ⟨t, rfl, hp.1, hp.2, hrest, hgroups⟩

/-- **All matches**: a matcher that backtracks meets what the pattern matches at the beginning of
the text, and nothing else. -/
theorem mem_results_iff {r : Pattern α} {l : List α} {m : Match α} :
    m ∈ results r l ↔ Matches r m.text m.rest m.groups ∧ m.text ++ m.rest = l := by
  induction r generalizing l m with
  | empty =>
    rw [results, List.mem_singleton]
    constructor
    · rintro rfl
      exact ⟨.empty, rfl⟩
    · rcases m with ⟨t, s, gs⟩
      rintro ⟨⟨⟩, rfl⟩
      rfl
  | one p =>
    rcases m with ⟨t, s, gs⟩
    cases l with
    | nil =>
      rw [results]
      constructor
      · rintro ⟨⟩
      · rintro ⟨⟨⟩, hl⟩
        cases hl
    | cons a l =>
      rw [results]
      constructor
      · split_ifs with ha
        · intro h
          cases List.mem_singleton.mp h
          exact ⟨.one ha, rfl⟩
        · rintro ⟨⟩
      · rintro ⟨h, hl⟩
        cases h with
        | one ha =>
          obtain ⟨rfl, rfl⟩ := List.cons_eq_cons.mp hl
          rw [if_pos ha]
          exact List.mem_singleton_self _
  | many greedy p =>
    rw [results, mem_repeats_iff]
    constructor
    · rintro ⟨hp, hl, hgroups⟩
      exact ⟨hgroups ▸ .many hp, hl⟩
    · rcases m with ⟨t, s, gs⟩
      rintro ⟨h, hl⟩
      cases h with
      | many hp => exact ⟨hp, hl, rfl⟩
  | seq r r' ih ih' =>
    rw [results, List.mem_flatMap]
    constructor
    · rintro ⟨m₁, hm₁, hm⟩
      obtain ⟨m₂, hm₂, rfl⟩ := List.mem_map.mp hm
      obtain ⟨h₁, rfl⟩ := ih.mp hm₁
      obtain ⟨h₂, hrest⟩ := ih'.mp hm₂
      rw [← hrest] at h₁
      exact ⟨.seq h₁ h₂, by rw [Match.append, List.append_assoc, hrest]⟩
    · rcases m with ⟨t, s, gs⟩
      rintro ⟨h, rfl⟩
      cases h with
      | @seq _ _ t t' _ gs gs' h h' =>
        refine ⟨⟨t, t' ++ s, gs⟩, ih.mpr ⟨h, (List.append_assoc ..).symm⟩, List.mem_map.mpr ?_⟩
        exact ⟨⟨t', s, gs'⟩, ih'.mpr ⟨h', rfl⟩, rfl⟩
  | alt r r' ih ih' =>
    rw [results, List.mem_append, ih, ih', ← or_and_right]
    refine and_congr_left fun _ => ⟨fun h => h.elim .left .right, fun h => ?_⟩
    rcases m with ⟨t, s, gs⟩
    cases h with
    | left h => exact .inl h
    | right h => exact .inr h
  | group r ih =>
    rw [results, List.mem_map]
    constructor
    · rintro ⟨m', hm', rfl⟩
      obtain ⟨h, hl⟩ := ih.mp hm'
      exact ⟨.group h, hl⟩
    · rcases m with ⟨t, s, gs⟩
      rintro ⟨h, hl⟩
      dsimp only at h
      cases h with
      | @group _ _ _ gs h => exact ⟨⟨t, s, gs⟩, ih.mpr ⟨h, hl⟩, rfl⟩
  | ahead p =>
    rcases m with ⟨t, s, gs⟩
    rw [results]
    constructor
    · split_ifs with hp
      · intro h
        cases List.mem_singleton.mp h
        exact ⟨.ahead hp, rfl⟩
      · rintro ⟨⟩
    · rintro ⟨h, rfl⟩
      cases h with
      | ahead hp =>
        rw [List.nil_append, if_pos hp]
        exact List.mem_singleton_self _

theorem matches_of_matchStart {r : Pattern α} {l : List α} {m : Match α}
    (h : matchStart r l = some m) : Matches r m.text m.rest m.groups ∧ m.text ++ m.rest = l :=
  mem_results_iff.mp (List.mem_of_head? h)

/-- A text has a match at its beginning where the pattern matches some beginning of it. -/
theorem isSome_matchStart_iff {r : Pattern α} {l : List α} :
    (matchStart r l).isSome ↔ ∃ t s gs, Matches r t s gs ∧ t ++ s = l := by
  rw [matchStart, List.isSome_head?]
  constructor
  · intro h
    obtain ⟨m, hm⟩ := List.exists_mem_of_ne_nil _ h
    exact ⟨m.text, m.rest, m.groups, mem_results_iff.mp hm⟩
  · rintro ⟨t, s, gs, h⟩
    exact List.ne_nil_of_mem (mem_results_iff (m := ⟨t, s, gs⟩) |>.mpr h)

/-! ### What a pattern says of its matches -/

/-- The shortest text that a pattern may match, at least. -/
def minLength : Pattern α → ℕ
  | empty | many _ _ | ahead _ => 0
  | one _ => 1
  | seq r r' => minLength r + minLength r'
  | alt r r' => min (minLength r) (minLength r')
  | group r => minLength r

/-- The groups that a match has, at least. -/
def minGroups : Pattern α → ℕ
  | empty | many _ _ | ahead _ | one _ => 0
  | seq r r' => minGroups r + minGroups r'
  | alt r r' => min (minGroups r) (minGroups r')
  | group r => minGroups r + 1

/-- No group matches the empty text. -/
def fullGroups : Pattern α → Bool
  | empty | many _ _ | ahead _ | one _ => true
  | seq r r' | alt r r' => fullGroups r && fullGroups r'
  | group r => 0 < minLength r && fullGroups r

theorem Matches.minLength_le {r : Pattern α} {t l : List α} {gs : List (List α)}
    (h : Matches r t l gs) : r.minLength ≤ t.length := by
  induction h with
  | empty | many | ahead => exact Nat.zero_le _
  | one => exact le_rfl
  | seq _ _ ih ih' =>
    rw [List.length_append]
    exact Nat.add_le_add ih ih'
  | left _ ih => exact (min_le_left _ _).trans ih
  | right _ ih => exact (min_le_right _ _).trans ih
  | group _ ih => exact ih

theorem Matches.minGroups_le {r : Pattern α} {t l : List α} {gs : List (List α)}
    (h : Matches r t l gs) : r.minGroups ≤ gs.length := by
  induction h with
  | empty | many | ahead | one => exact Nat.zero_le _
  | seq _ _ ih ih' =>
    rw [List.length_append]
    exact Nat.add_le_add ih ih'
  | left _ ih => exact (min_le_left _ _).trans ih
  | right _ ih => exact (min_le_right _ _).trans ih
  | group _ ih => exact Nat.succ_le_succ ih

theorem Matches.ne_nil_of_mem {r : Pattern α} {t l : List α} {gs : List (List α)}
    (h : Matches r t l gs) (hfull : r.fullGroups = true) {g : List α} (hg : g ∈ gs) : g ≠ [] := by
  induction h with
  | empty | many | ahead | one => cases hg
  | seq _ _ ih ih' =>
    rw [fullGroups, Bool.and_eq_true] at hfull
    exact (List.mem_append.mp hg).elim (ih hfull.1) (ih' hfull.2)
  | left _ ih =>
    rw [fullGroups, Bool.and_eq_true] at hfull
    exact ih hfull.1 hg
  | right _ ih =>
    rw [fullGroups, Bool.and_eq_true] at hfull
    exact ih hfull.2 hg
  | group h ih =>
    rw [fullGroups, Bool.and_eq_true, decide_eq_true_eq] at hfull
    rcases List.mem_cons.mp hg with rfl | hg
    · exact List.length_pos_iff.mp (hfull.1.trans_le h.minLength_le)
    · exact ih hfull.2 hg

/-! ### Which match comes first -/

/-- The first match that something can be made of. -/
def first (r : Pattern α) (l : List α) (k : Match α → Option β) : Option β :=
  (results r l).findSome? k

variable {r r' : Pattern α} {p : α → Bool} {l : List α} {k : Match α → Option β}

theorem matchStart_eq_first (r : Pattern α) (l : List α) : matchStart r l = first r l some := by
  rw [matchStart, first]
  cases results r l <;> rfl

theorem findSome?_flatMap {γ : Type*} (f : γ → List (Match α)) (k : Match α → Option β)
    (cs : List γ) : (cs.flatMap f).findSome? k = cs.findSome? fun c => (f c).findSome? k := by
  induction cs with
  | nil => rfl
  | cons c cs ih =>
    rw [List.flatMap_cons, List.findSome?_append, ih, List.findSome?_cons]
    cases (f c).findSome? k <;> rfl

@[simp]
theorem first_empty : first empty l k = k ⟨[], l, []⟩ := by
  rw [first, results, List.findSome?_singleton]

@[simp]
theorem first_one_nil : first (one p) [] k = none := rfl

theorem first_one_cons {a : α} (ha : p a = true) : first (one p) (a :: l) k = k ⟨[a], l, []⟩ := by
  rw [first, results, if_pos ha, List.findSome?_singleton]

theorem first_one_cons_of_not {a : α} (ha : ¬ p a = true) : first (one p) (a :: l) k = none := by
  rw [first, results, if_neg ha, List.findSome?_nil]

/-- A sequence goes on with its second part where its first part has matched. -/
theorem first_seq : first (seq r r') l k = first r l fun m => first r' m.rest (k ∘ m.append) := by
  rw [first, results, findSome?_flatMap, first]
  refine congrArg (List.findSome? · _) (funext fun m => ?_)
  rw [List.findSome?_map, first]

theorem first_alt : first (alt r r') l k = (first r l k).or (first r' l k) := by
  rw [first, results, List.findSome?_append, first, first]

theorem first_opt : first (opt r) l k = (first r l k).or (k ⟨[], l, []⟩) := by
  rw [opt, first_alt, first_empty]

theorem first_group : first (group r) l k = first r l (k ∘ Match.capture) := by
  rw [first, results, List.findSome?_map, first]

/-- Where a pattern that may be left out is there, what follows cannot do without it. -/
theorem first_opt_eq_some_iff {b : β} (h : (first r l k).isSome → k ⟨[], l, []⟩ = none) :
    first (opt r) l k = some b ↔ first r l k = some b ∨ k ⟨[], l, []⟩ = some b := by
  rw [first_opt]
  rcases hr : first r l k with _ | b'
  · simp
  · rw [hr] at h
    simp [h rfl]

theorem first_one_eq_some_iff {b : β} :
    first (one p) l k = some b ↔ ∃ a s, l = a :: s ∧ p a = true ∧ k ⟨[a], s, []⟩ = some b := by
  cases l with
  | nil => simp
  | cons a l =>
    by_cases ha : p a = true
    · rw [first_one_cons ha]
      constructor
      · intro h
        exact ⟨a, l, rfl, ha, h⟩
      · rintro ⟨a', s, hl, -, h⟩
        obtain ⟨rfl, rfl⟩ := List.cons_eq_cons.mp hl
        exact h
    · rw [first_one_cons_of_not ha]
      constructor
      · rintro ⟨⟩
      · rintro ⟨a', s, hl, ha', -⟩
        obtain ⟨rfl, -⟩ := List.cons_eq_cons.mp hl
        exact absurd ha' ha

theorem first_ahead {q : List α → Bool} :
    first (ahead q) l k = if q l then k ⟨[], l, []⟩ else none := by
  rw [first, results]
  split_ifs
  · exact List.findSome?_singleton
  · rfl

theorem map_first {γ : Type*} (f : β → γ) :
    (first r l k).map f = first r l fun m => (k m).map f := by
  rw [first, first]
  induction results r l with
  | nil => rfl
  | cons m ms ih =>
    rw [List.findSome?_cons, List.findSome?_cons]
    cases k m with
    | none => exact ih
    | some b => rfl

/-- A pattern that cannot match. -/
theorem first_eq_none (h : ∀ t s gs, Matches r t s gs → t ++ s = l → k ⟨t, s, gs⟩ = none) :
    first r l k = none := by
  rw [first, List.findSome?_eq_none_iff]
  intro m hm
  obtain ⟨hmatches, hl⟩ := mem_results_iff.mp hm
  exact h m.text m.rest m.groups hmatches hl

theorem head?_repeats_greedy (p : α → Bool) (l : List α) :
    (repeats true p l).head? = some ⟨l.takeWhile p, l.dropWhile p, []⟩ := by
  induction l with
  | nil => rfl
  | cons a l ih =>
    rw [repeats, if_pos rfl, List.takeWhile_cons, List.dropWhile_cons]
    by_cases ha : p a = true
    · rw [if_pos ha, if_pos ha, if_pos ha, List.head?_append, List.head?_map, ih]
      rfl
    · rw [if_neg ha, if_neg ha, if_neg ha]
      rfl

/-- A greedy repetition takes all it can, where what follows goes along. -/
theorem first_many_of_isSome (h : (k ⟨l.takeWhile p, l.dropWhile p, []⟩).isSome) :
    first (many true p) l k = k ⟨l.takeWhile p, l.dropWhile p, []⟩ := by
  have hhead := head?_repeats_greedy p l
  rw [first, results]
  cases hrepeats : repeats true p l with
  | nil =>
    rw [hrepeats] at hhead
    cases hhead
  | cons m ms =>
    rw [hrepeats, List.head?_cons, Option.some.injEq] at hhead
    rw [hhead, List.findSome?_cons_of_isSome h]

/-- At least one element of a class, where what follows goes along. -/
theorem first_plus_of_isSome (hne : l.takeWhile p ≠ [])
    (h : (k ⟨l.takeWhile p, l.dropWhile p, []⟩).isSome) :
    first (plus p) l k = k ⟨l.takeWhile p, l.dropWhile p, []⟩ := by
  cases l with
  | nil => exact absurd rfl hne
  | cons a l =>
    by_cases ha : p a = true
    · rw [List.takeWhile_cons_of_pos ha, List.dropWhile_cons_of_pos ha] at h ⊢
      rw [plus, first_seq, first_one_cons ha]
      exact first_many_of_isSome h
    · rw [List.takeWhile_cons_of_neg ha] at hne
      exact absurd rfl hne

theorem first_plus_of_eq_nil (h : l.takeWhile p = []) : first (plus p) l k = none := by
  cases l with
  | nil => rfl
  | cons a l =>
    by_cases ha : p a = true
    · rw [List.takeWhile_cons_of_pos ha] at h
      cases h
    · rw [plus, first_seq, first_one_cons_of_not ha]

/-- A run of a class that does not go on in what follows. -/
structure IsRun (p : α → Bool) (run rest : List α) : Prop where
  ne_nil : run ≠ []
  mem : ∀ a ∈ run, p a = true
  stop : ∀ a ∈ rest.head?, p a = false

theorem isRun_takeWhile (h : l.takeWhile p ≠ []) : IsRun p (l.takeWhile p) (l.dropWhile p) where
  ne_nil := h
  mem _ ha := List.mem_takeWhile_imp ha
  stop a ha := by
    have hstop := List.head?_dropWhile_not p l
    rw [Option.mem_def.mp ha] at hstop
    exact hstop

theorem IsRun.takeWhile {run rest : List α} (h : IsRun p run rest) :
    (run ++ rest).takeWhile p = run ∧ (run ++ rest).dropWhile p = rest := by
  rw [List.takeWhile_append_of_pos h.mem, List.dropWhile_append_of_pos h.mem]
  cases rest with
  | nil => exact ⟨List.append_nil _, rfl⟩
  | cons a rest =>
    have ha : ¬ p a = true := by simp [h.stop a rfl]
    rw [List.takeWhile_cons_of_neg ha, List.dropWhile_cons_of_neg ha, List.append_nil]
    exact ⟨rfl, rfl⟩

theorem matches_plus {t s : List α} {gs : List (List α)} (h : Matches (plus p) t s gs) :
    t ≠ [] ∧ (∀ a ∈ t, p a = true) ∧ gs = [] := by
  cases h with
  | seq h h' =>
    cases h with
    | one ha =>
      cases h' with
      | many ht => exact ⟨List.cons_ne_nil _ _, List.forall_mem_cons.mpr ⟨ha, ht⟩, rfl⟩

/-- A repetition that takes a longest run or none at all. -/
theorem first_plus_eq_some_iff_of_longest {b : β} (h : l.takeWhile p ≠ [] →
      first (plus p) l k = k ⟨l.takeWhile p, l.dropWhile p, []⟩) :
    first (plus p) l k = some b ↔
      ∃ run rest, l = run ++ rest ∧ IsRun p run rest ∧ k ⟨run, rest, []⟩ = some b := by
  by_cases hne : l.takeWhile p = []
  · rw [first_plus_of_eq_nil hne]
    constructor
    · rintro ⟨⟩
    · rintro ⟨run, rest, rfl, hrun, -⟩
      rw [hrun.takeWhile.1] at hne
      exact absurd hne hrun.ne_nil
  · rw [h hne]
    constructor
    · intro hb
      exact ⟨_, _, (List.takeWhile_append_dropWhile).symm, isRun_takeWhile hne, hb⟩
    · rintro ⟨run, rest, rfl, hrun, hb⟩
      rwa [hrun.takeWhile.1, hrun.takeWhile.2]

theorem matches_plus_of {t s : List α} (ht : t ≠ []) (h : ∀ a ∈ t, p a = true) :
    Matches (plus p) t s [] := by
  obtain ⟨a, t, rfl⟩ := List.exists_cons_of_ne_nil ht
  obtain ⟨ha, ht⟩ := List.forall_mem_cons.mp h
  exact .seq (.one ha) (.many ht)

/-- A greedy run, where what follows goes along with any. -/
theorem first_plus_eq_some_iff_of_isSome {b : β} (hk : ∀ m, (k m).isSome) :
    first (plus p) l k = some b ↔
      ∃ run rest, l = run ++ rest ∧ IsRun p run rest ∧ k ⟨run, rest, []⟩ = some b :=
  first_plus_eq_some_iff_of_longest fun hne => first_plus_of_isSome hne (hk _)

/-- A greedy run, where what follows does not go on in the middle of one. -/
theorem first_plus_eq_some_iff {b : β}
    (hk : ∀ t a s, l = t ++ a :: s → p a = true → k ⟨t, a :: s, []⟩ = none) :
    first (plus p) l k = some b ↔
      ∃ run rest, l = run ++ rest ∧ IsRun p run rest ∧ k ⟨run, rest, []⟩ = some b := by
  refine first_plus_eq_some_iff_of_longest fun hne => ?_
  by_cases hsome : (k ⟨l.takeWhile p, l.dropWhile p, []⟩).isSome
  · exact first_plus_of_isSome hne hsome
  rw [Option.not_isSome_iff_eq_none] at hsome
  rw [hsome]
  refine first_eq_none fun t s gs hmatches hl => ?_
  obtain ⟨htne, ht, rfl⟩ := matches_plus hmatches
  by_cases hs : ∃ a s', s = a :: s' ∧ p a = true
  · obtain ⟨a, s, rfl, ha⟩ := hs
    exact hk t a s hl.symm ha
  · -- this is the longest run
    have hrun : IsRun p t s := ⟨htne, ht, fun a ha => by
      obtain ⟨s', rfl⟩ := List.head?_eq_some_iff.mp ha
      exact Bool.eq_false_iff.mpr fun hp => hs ⟨a, s', rfl, hp⟩⟩
    rw [← hl, hrun.takeWhile.1, hrun.takeWhile.2] at hsome
    exact hsome

/-- A lazy repetition takes as little as what follows allows. -/
theorem first_lazy_eq_some_iff {b : β} : first (many false p) l k = some b ↔
    ∃ t s, t ++ s = l ∧ (∀ a ∈ t, p a = true) ∧ k ⟨t, s, []⟩ = some b ∧
      ∀ t' s', t' ++ s' = l → t'.length < t.length → k ⟨t', s', []⟩ = none := by
  induction l generalizing k with
  | nil =>
    rw [first, results, repeats, List.findSome?_singleton]
    constructor
    · intro h
      exact ⟨[], [], rfl, by simp, h, fun _ _ _ hlt => absurd hlt (Nat.not_lt_zero _)⟩
    · rintro ⟨t, s, hl, -, h, -⟩
      obtain ⟨rfl, rfl⟩ := List.append_eq_nil_iff.mp hl
      exact h
  | cons a l ih =>
    have hmore : ∀ k : Match α → Option β,
        ((repeats false p l).map (Match.push a)).findSome? k =
          first (many false p) l (k ∘ Match.push a) := fun k => List.findSome?_map
    rw [first, results, repeats, if_neg Bool.false_ne_true]
    rcases hstop : k ⟨[], a :: l, []⟩ with _ | b'
    · rw [List.findSome?_cons_of_isNone (by rw [hstop]; rfl)]
      constructor
      · split_ifs with ha
        · rw [hmore, ih]
          rintro ⟨t, s, rfl, ht, hk, hleast⟩
          refine ⟨a :: t, s, rfl, List.forall_mem_cons.mpr ⟨ha, ht⟩, hk, fun t' s' hl hlt => ?_⟩
          cases t' with
          | nil =>
            rw [List.nil_append] at hl
            rw [hl, hstop]
          | cons a' t' =>
            obtain ⟨rfl, hl'⟩ := List.cons_eq_cons.mp hl
            exact hleast t' s' hl' (Nat.lt_of_succ_lt_succ hlt)
        · rintro ⟨⟩
      · rintro ⟨t, s, hl, ht, hk, hleast⟩
        cases t with
        | nil =>
          rw [List.nil_append] at hl
          rw [hl, hstop] at hk
          cases hk
        | cons a' t =>
          obtain ⟨rfl, rfl⟩ := List.cons_eq_cons.mp hl
          obtain ⟨ha, ht⟩ := List.forall_mem_cons.mp ht
          rw [if_pos ha, hmore, ih]
          refine ⟨t, s, rfl, ht, hk, fun t' s' hl hlt => ?_⟩
          exact hleast (a' :: t') s' (congrArg (a' :: ·) hl) (Nat.succ_lt_succ hlt)
    · rw [List.findSome?_cons_of_isSome (by rw [hstop]; rfl), hstop]
      constructor
      · rintro ⟨⟩
        exact ⟨[], a :: l, rfl, by simp, hstop, fun _ _ _ hlt => absurd hlt (Nat.not_lt_zero _)⟩
      · rintro ⟨t, s, hl, -, hk, hleast⟩
        cases t with
        | nil =>
          rw [List.nil_append] at hl
          rw [hl, hstop] at hk
          exact hk
        | cons a' t =>
          have hnone := hleast [] (a :: l) rfl (Nat.succ_pos _)
          rw [hstop] at hnone
          cases hnone

section

variable [DecidableEq α]

theorem matches_literal (w l : List α) : Matches (literal w) w l [] := by
  induction w with
  | nil => exact .empty
  | cons a w ih =>
    have ha : Matches (one fun b => b = a) [a] (w ++ l) [] := .one (decide_eq_true rfl)
    exact ha.seq ih

theorem first_literal_append {w : List α} :
    first (literal w) (w ++ l) k = k ⟨w, l, []⟩ := by
  induction w generalizing k with
  | nil => exact first_empty
  | cons a w ih =>
    rw [literal, first_seq, List.cons_append,
      first_one_cons (p := fun b => decide (b = a)) (decide_eq_true rfl), ih]
    rfl

theorem first_literal_of_ne_append {w : List α} (h : ¬ w <+: l) :
    first (literal w) l k = none := by
  induction w generalizing l k with
  | nil => exact absurd (List.nil_prefix) h
  | cons a w ih =>
    rw [literal, first_seq]
    cases l with
    | nil => rfl
    | cons b l =>
      by_cases hb : b = a
      · subst hb
        rw [first_one_cons (p := fun a => decide (a = b)) (decide_eq_true rfl)]
        exact ih fun hw => h (List.cons_prefix_cons.mpr ⟨rfl, hw⟩)
      · rw [first_one_cons_of_not (by simpa using hb)]

/-- A literal is there, and what follows goes on behind it. -/
theorem first_literal_eq_some_iff {w : List α} {b : β} :
    first (literal w) l k = some b ↔ ∃ s, l = w ++ s ∧ k ⟨w, s, []⟩ = some b := by
  constructor
  · intro h
    by_cases hw : w <+: l
    · obtain ⟨s, rfl⟩ := hw
      rw [first_literal_append] at h
      exact ⟨s, rfl, h⟩
    · rw [first_literal_of_ne_append hw] at h
      cases h
  · rintro ⟨s, rfl, h⟩
    rwa [first_literal_append]

end

/-! ### Tests one after the other -/

/-- Where tests that succeed agree, the first one that succeeds is any of them. -/
theorem findSome?_eq_some_iff_of_agree {γ : Type*} {f : γ → Option β} {cs : List γ}
    (hagree : ∀ c ∈ cs, ∀ c' ∈ cs, ∀ b b', f c = some b → f c' = some b' → b = b') {b : β} :
    cs.findSome? f = some b ↔ ∃ c ∈ cs, f c = some b := by
  constructor
  · exact List.exists_of_findSome?_eq_some
  · rintro ⟨c, hc, hb⟩
    rcases h : cs.findSome? f with _ | b'
    · rw [List.findSome?_eq_none_iff.mp h c hc] at hb
      cases hb
    · obtain ⟨c', hc', hb'⟩ := List.exists_of_findSome?_eq_some h
      rw [hagree c' hc' c hc b' b hb' hb]

/-- Their order does not matter. -/
theorem findSome?_eq_of_perm {γ : Type*} {f : γ → Option β} {cs cs' : List γ} (h : cs.Perm cs')
    (hagree : ∀ c ∈ cs, ∀ c' ∈ cs, ∀ b b', f c = some b → f c' = some b' → b = b') :
    cs.findSome? f = cs'.findSome? f := by
  have hagree' : ∀ c ∈ cs', ∀ c' ∈ cs', ∀ b b', f c = some b → f c' = some b' → b = b' :=
    fun c hc c' hc' => hagree c (h.mem_iff.mpr hc) c' (h.mem_iff.mpr hc')
  refine Option.ext fun b => ?_
  rw [findSome?_eq_some_iff_of_agree hagree, findSome?_eq_some_iff_of_agree hagree']
  simp only [h.mem_iff]

/-! ### Searching -/

theorem search_nil : search r [] = matchStart r [] := List.findSome?_singleton

theorem search_cons (a : α) : search r (a :: l) = (matchStart r (a :: l)).or (search r l) := by
  rw [search, List.tails, List.findSome?_cons]
  cases matchStart r (a :: l) <;> rfl

/-- The search stops at the first place that has a match. -/
theorem search_eq_some_iff {m : Match α} : search r l = some m ↔
    ∃ pre post, l = pre ++ post ∧ matchStart r post = some m ∧
      ∀ pre' post', l = pre' ++ post' → pre'.length < pre.length → matchStart r post' = none := by
  induction l with
  | nil =>
    rw [search_nil]
    constructor
    · intro h
      exact ⟨[], [], rfl, h, fun _ _ _ hlt => absurd hlt (Nat.not_lt_zero _)⟩
    · rintro ⟨pre, post, hl, h, -⟩
      obtain ⟨rfl, rfl⟩ := List.append_eq_nil_iff.mp hl.symm
      exact h
  | cons a l ih =>
    rw [search_cons]
    rcases hhere : matchStart r (a :: l) with _ | m'
    · rw [Option.none_or, ih]
      constructor
      · rintro ⟨pre, post, rfl, h, hleast⟩
        refine ⟨a :: pre, post, rfl, h, fun pre' post' hl hlt => ?_⟩
        cases pre' with
        | nil =>
          rw [List.nil_append] at hl
          rwa [← hl]
        | cons a' pre' =>
          obtain ⟨-, hl'⟩ := List.cons_eq_cons.mp hl
          exact hleast pre' post' hl' (Nat.lt_of_succ_lt_succ hlt)
      · rintro ⟨pre, post, hl, h, hleast⟩
        cases pre with
        | nil =>
          rw [List.nil_append] at hl
          rw [← hl, hhere] at h
          cases h
        | cons a' pre =>
          obtain ⟨rfl, rfl⟩ := List.cons_eq_cons.mp hl
          refine ⟨pre, post, rfl, h, fun pre' post' hl hlt => ?_⟩
          exact hleast (a :: pre') post' (congrArg (a :: ·) hl) (Nat.succ_lt_succ hlt)
    · rw [Option.some_or, Option.some.injEq]
      constructor
      · rintro rfl
        exact ⟨[], a :: l, rfl, hhere, fun _ _ _ hlt => absurd hlt (Nat.not_lt_zero _)⟩
      · rintro ⟨pre, post, hl, h, hleast⟩
        cases pre with
        | nil =>
          rw [List.nil_append] at hl
          rw [← hl, hhere, Option.some.injEq] at h
          exact h
        | cons a' pre =>
          have hnone := hleast [] (a :: l) rfl (Nat.succ_pos _)
          rw [hhere] at hnone
          cases hnone

end Pattern

end Lib
