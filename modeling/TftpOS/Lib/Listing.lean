import Mathlib.Data.List.Lex
import TftpOS.Lib.Dict
import TftpOS.Lib.Except

/-!
# Listing files by name

A directory keeps objects in files that are named after them, and a listing reads the files in the
order of their own names. The listing is in the order of the objects' names exactly when the files
are (`listsByName_iff`). For a file name that is a name with an ending behind it, the order of two
files is not the order of the names only where one of the names starts with the other, and its rest
sorts before the ending once it has the ending behind it (`forall_append_lt_iff`).
-/

namespace Lib

section

variable {ν κ ε : Type*} {τ α : Type*} [LinearOrder ν] [LinearOrder κ]

/-- A listing has one object for each name that is taken, and is in the order of the names. -/
def ListsByName (named : ν → α → Prop) (taken : ν → Prop) (listing : Except ε (List α)) : Prop :=
  ∃ objs names, listing = .ok objs ∧ List.Forall₂ named names objs ∧ names.Pairwise (· < ·) ∧
    ∀ n, n ∈ names ↔ taken n

/-- Every file is named after the object in it, if there is one. -/
def FiledByName (file : ν → κ) (read : τ → Except ε α) (named : ν → α → Prop) (d : Dict κ τ) :
    Prop :=
  ∀ f t, d.get? f = some t → ∃ n, f = file n ∧ ∀ a, read t = .ok a → named n a

end

variable {ν κ : Type} {ε : Type} {τ α : Type} [LinearOrder ν] [LinearOrder κ]
  {file : ν → κ} {read : τ → Except ε α} {named : ν → α → Prop} {d : Dict κ τ}

/-- In a list ordered by two relations, they agree. -/
theorem rel_of_pairwise {R : ν → ν → Prop} {l : List ν} (hlt : l.Pairwise (· < ·))
    (hR : l.Pairwise R) {n m : ν} (hn : n ∈ l) (hm : m ∈ l) (h : n < m) : R n m := by
  have : Std.Symm fun a b : ν => (a < b → R a b) ∧ (b < a → R b a) :=
    ⟨fun _ _ hand => ⟨hand.2, hand.1⟩⟩
  have hboth : l.Pairwise fun a b => (a < b → R a b) ∧ (b < a → R b a) :=
    (hlt.and hR).imp fun hand => ⟨fun _ => hand.2, fun hgt => absurd hgt hand.1.asymm⟩
  exact (hboth.forall hn hm h.ne).1 h

theorem forall₂_comp {α' β' γ' : Type} {R : α' → β' → Prop} {S : β' → γ' → Prop}
    {T : α' → γ' → Prop} (h : ∀ a b c, R a b → S b c → T a c) {as : List α'} {bs : List β'}
    {cs : List γ'} (hR : List.Forall₂ R as bs) (hS : List.Forall₂ S bs cs) :
    List.Forall₂ T as cs := by
  induction hR generalizing cs with
  | nil =>
    cases hS
    exact .nil
  | cons hab _ ih =>
    rcases hS with _ | ⟨hbc, hS⟩
    exact .cons (h _ _ _ hab hbc) (ih hS)

omit [LinearOrder ν] in
/-- The files in order, by the names they are named after. -/
theorem exists_names (hd : FiledByName file read named d) :
    ∃ names, d.sortKeys.keys = names.map file ∧
      List.Forall₂ (fun n t => ∀ a, read t = .ok a → named n a) names d.sortKeys.values := by
  have hlist : ∀ entries : List (κ × τ),
      (∀ e ∈ entries, ∃ n, e.1 = file n ∧ ∀ a, read e.2 = .ok a → named n a) →
      ∃ names, entries.map Prod.fst = names.map file ∧
        List.Forall₂ (fun n t => ∀ a, read t = .ok a → named n a) names
          (entries.map Prod.snd) := by
    intro entries
    induction entries with
    | nil => exact fun _ => ⟨[], rfl, .nil⟩
    | cons e entries ih =>
      intro hentries
      rw [List.forall_mem_cons] at hentries
      obtain ⟨n, hfile, hnamed⟩ := hentries.1
      obtain ⟨names, hkeys, hrest⟩ := ih hentries.2
      exact ⟨n :: names, by rw [List.map_cons, List.map_cons, hfile, hkeys], .cons hnamed hrest⟩
  refine hlist _ ?_
  rintro ⟨f, t⟩ he
  exact hd f t (Dict.get?_eq_some_iff.mpr (Dict.mem_entries_sortKeys.mp he))

theorem mem_keys_sortKeys {f : κ} : f ∈ d.sortKeys.keys ↔ f ∈ d.keys := by
  rw [Dict.mem_keys_iff, Dict.mem_keys_iff, Dict.get?_sortKeys]

theorem pairwise_keys_sortKeys (d : Dict κ τ) : d.sortKeys.keys.Pairwise (· < ·) := by
  have hle : d.sortKeys.keys.Pairwise (· ≤ ·) :=
    List.pairwise_map.mpr (List.pairwise_insertionSort _ _)
  exact (hle.and d.sortKeys.nodup).imp fun hand => lt_of_le_of_ne hand.1 hand.2

/-- **Listing by name**: the listing is in order exactly when every file can be read and the files
are in the order of the names. -/
theorem listsByName_iff (hfile : Function.Injective file)
    (hnamed : ∀ n m a, named n a → named m a → n = m) (hd : FiledByName file read named d) :
    ListsByName named (fun n => file n ∈ d.keys) (d.sortKeys.values.mapM read) ↔
      (∀ t ∈ d.values, ∃ a, read t = .ok a) ∧
        ∀ n m, file n ∈ d.keys → file m ∈ d.keys → n < m → file n < file m := by
  obtain ⟨names, hkeys, hread⟩ := exists_names hd
  have hmem : ∀ n, n ∈ names ↔ file n ∈ d.keys := by
    intro n
    rw [← mem_keys_sortKeys, hkeys, List.mem_map_of_injective hfile]
  have hvalues : ∀ t, t ∈ d.sortKeys.values ↔ t ∈ d.values := by
    intro t
    rw [Dict.mem_values_iff, Dict.mem_values_iff]
    simp only [Dict.get?_sortKeys]
  have hsorted : names.Pairwise fun n m => file n < file m := by
    have hpairwise := pairwise_keys_sortKeys d
    rwa [hkeys, List.pairwise_map] at hpairwise
  have hobjs : ∀ {objs}, d.sortKeys.values.mapM read = .ok objs →
      List.Forall₂ named names objs := fun hlist =>
    forall₂_comp (fun _ _ a hn ha => hn a ha) hread (mapM_eq_ok_iff.mp hlist)
  constructor
  · rintro ⟨objs, names', hlist, hobjs', hlt, -⟩
    obtain rfl : names' = names :=
      List.left_unique_forall₂' (fun n m a hn hm => hnamed n m a hn hm) hobjs' (hobjs hlist)
    refine ⟨fun t ht => ?_, fun n m hn hm h => ?_⟩
    · exact mapM_isOk_iff.mp ⟨objs, hlist⟩ t ((hvalues t).mpr ht)
    · exact rel_of_pairwise hlt hsorted ((hmem n).mpr hn) ((hmem m).mpr hm) h
  · rintro ⟨hok, horder⟩
    obtain ⟨objs, hlist⟩ :=
      mapM_isOk_iff.mpr fun t ht => hok t ((hvalues t).mp ht)
    refine ⟨objs, names, hlist, hobjs hlist, ?_, hmem⟩
    refine hsorted.imp_of_mem fun {n m} hn hm hlt => ?_
    rcases lt_trichotomy n m with h | rfl | h
    · exact h
    · exact absurd hlt (lt_irrefl _)
    · exact absurd hlt (horder m n ((hmem m).mp hm) ((hmem n).mp hn) h).asymm

/-! ### Endings -/

section

variable {β : Type} [LinearOrder β] {a b s : List β}

/-- Behind an ending, the later of two texts comes first only where it starts with the other. -/
theorem append_lt_append_iff (h : a < b) :
    b ++ s < a ++ s ↔ ∃ r, b = a ++ r ∧ r ++ s < s := by
  induction a generalizing b with
  | nil => exact ⟨fun hlt => ⟨b, rfl, hlt⟩, fun ⟨r, hr, hlt⟩ => hr ▸ hlt⟩
  | cons x a ih =>
    rcases b with _ | ⟨y, b⟩
    · exact absurd h (List.not_lt_nil _)
    · rcases List.cons_lt_cons_iff.mp h with hxy | ⟨rfl, hab⟩
      · refine iff_of_false ?_ ?_
        · rw [List.cons_append, List.cons_append, List.cons_lt_cons_iff, not_or]
          exact ⟨hxy.asymm, fun hand => hxy.ne' hand.1⟩
        · rintro ⟨r, hr, -⟩
          exact hxy.ne' (List.cons.inj hr).1
      · rw [List.cons_append, List.cons_append, List.cons_lt_cons_iff]
        simp [ih hab]

/-- With an ending behind them, texts keep their order unless one of them is another one with a
rest that comes before the ending. -/
theorem forall_append_lt_iff {taken : List β → Prop} :
    (∀ a b, taken a → taken b → a < b → a ++ s < b ++ s) ↔
      ∀ a r, taken a → taken (a ++ r) → ¬ r ++ s < s := by
  constructor
  · intro horder a r ha hr hlt
    have hne : r ≠ [] := by
      rintro rfl
      exact lt_irrefl _ hlt
    have hbelow : a < a ++ r := by
      have hnil : a ++ [] < a ++ (r.head hne :: r.tail) :=
        List.append_left_lt (List.nil_lt_cons _ _)
      rwa [List.append_nil, List.cons_head_tail] at hnil
    have habove : a ++ (r ++ s) < a ++ s := List.append_left_lt hlt
    rw [← List.append_assoc] at habove
    exact absurd habove (horder a (a ++ r) ha hr hbelow).asymm
  · intro hrest a b ha hb hlt
    by_contra hnot
    have hne : a ++ s ≠ b ++ s := fun heq => hlt.ne (List.append_cancel_right heq)
    have hgt : b ++ s < a ++ s := lt_of_le_of_ne (not_lt.mp hnot) hne.symm
    obtain ⟨r, rfl, hr⟩ := (append_lt_append_iff hlt).mp hgt
    exact hrest a r ha hb hr

end

end Lib
