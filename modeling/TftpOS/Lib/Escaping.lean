import Mathlib.Data.List.Infix
import Mathlib.Data.List.Pairwise

/-!
# Escaping with a table

A table gives codes to some symbols. `escape` puts the code in the place of each such symbol;
`replaceEach` makes a pass over the whole text for every entry of the table instead, which is the
same as long as no pass finds a symbol of its own in a code that an earlier one has written
(`EscapeTable.replaceEach_eq`).

Every code starts with the mark of the table and holds no other symbol that has a code. So the
marks of an escaped text are the starts of its codes, and `unescape` reads the text back.
-/

namespace Lib

variable {α : Type*} [DecidableEq α]

/-- Put a code in the place of a symbol. -/
def replaceSymbol (a : α) (code s : List α) : List α :=
  s.flatMap fun c => if c = a then code else [c]

/-- One pass for each entry, in order. -/
def replaceEach (entries : List (α × List α)) (s : List α) : List α :=
  entries.foldl (fun s e => replaceSymbol e.1 e.2 s) s

/-- The code of a symbol, or the symbol itself. -/
def codeOf (entries : List (α × List α)) (c : α) : List α := (entries.lookup c).getD [c]

/-- Symbols and their codes. -/
structure EscapeTable (α : Type*) where
  entries : List (α × List α)
  /-- The symbol that every code starts with. -/
  mark : α
  mark_mem : ∃ e ∈ entries, e.1 = mark
  starts : ∀ e ∈ entries, e.2.head? = some mark
  tails : ∀ e ∈ entries, ∀ e' ∈ entries, e'.1 ∉ e.2.tail
  passes : entries.Pairwise fun e e' => e'.1 ∉ e.2
  apart : entries.Pairwise fun e e' => ¬ e.2 <+: e'.2 ∧ ¬ e'.2 <+: e.2

namespace EscapeTable

variable (table : EscapeTable α)

/-- Escape every symbol that has a code. -/
def escape (s : List α) : List α := s.flatMap (codeOf table.entries)

/-- Read a text after the symbols that the code before it takes. -/
def unescapeAfter : ℕ → List α → List α
  | _, [] => []
  | skip + 1, _ :: s => unescapeAfter skip s
  | 0, c :: s =>
    match table.entries.find? fun e => e.2.isPrefixOf (c :: s) with
    | some e => e.1 :: unescapeAfter (e.2.length - 1) s
    | none => c :: unescapeAfter 0 s

/-- Put the symbols back in the place of their codes. -/
def unescape (s : List α) : List α := table.unescapeAfter 0 s

end EscapeTable

/-! ### Codes -/

theorem codeOf_of_forall_ne {entries : List (α × List α)} {c : α} (h : ∀ e ∈ entries, e.1 ≠ c) :
    codeOf entries c = [c] := by
  have hnone : entries.lookup c = none :=
    List.lookup_eq_none_iff.mpr fun e he => bne_iff_ne.mpr (h e he).symm
  rw [codeOf, hnone, Option.getD_none]

theorem codeOf_cons (e : α × List α) (entries : List (α × List α)) (c : α) :
    codeOf (e :: entries) c = if c = e.1 then e.2 else codeOf entries c := by
  obtain ⟨a, code⟩ := e
  split_ifs with h
  · rw [codeOf, h, List.lookup_cons_self, Option.getD_some]
  · have hbeq : (c == a) = false := beq_false_of_ne h
    rw [codeOf, List.lookup_cons, hbeq, codeOf]

/-- A symbol has a code in the table, or stands for itself. -/
theorem codeOf_cases (entries : List (α × List α)) (c : α) :
    (∃ e ∈ entries, e.1 = c ∧ codeOf entries c = e.2) ∨
      (∀ e ∈ entries, e.1 ≠ c) ∧ codeOf entries c = [c] := by
  induction entries with
  | nil => exact .inr ⟨fun e he => absurd he List.not_mem_nil, rfl⟩
  | cons e entries ih =>
    rw [codeOf_cons]
    split_ifs with h
    · exact .inl ⟨e, List.mem_cons_self, h.symm, rfl⟩
    · rcases ih with ⟨e', he', hkey, hcode⟩ | ⟨hnone, hcode⟩
      · exact .inl ⟨e', List.mem_cons_of_mem _ he', hkey, hcode⟩
      · exact .inr ⟨List.forall_mem_cons.mpr ⟨fun heq => h heq.symm, hnone⟩, hcode⟩

/-- The passes leave alone what the earlier ones have written. -/
theorem replaceEach_eq {entries : List (α × List α)}
    (h : entries.Pairwise fun e e' => e'.1 ∉ e.2) (s : List α) :
    replaceEach entries s = s.flatMap (codeOf entries) := by
  induction entries generalizing s with
  | nil =>
    have hid : ∀ c ∈ s, codeOf [] c = [c] := fun c _ => rfl
    rw [replaceEach, List.foldl_nil, List.flatMap_congr hid, List.flatMap_singleton']
  | cons e entries ih =>
    obtain ⟨hfirst, hrest⟩ := List.pairwise_cons.mp h
    have hkept : e.2.flatMap (codeOf entries) = e.2 := by
      have hself : ∀ c ∈ e.2, codeOf entries c = [c] := fun c hc =>
        codeOf_of_forall_ne fun e' he' heq => hfirst e' he' (heq ▸ hc)
      rw [List.flatMap_congr hself, List.flatMap_singleton']
    have hpass := ih hrest (replaceSymbol e.1 e.2 s)
    rw [replaceEach, List.foldl_cons, ← replaceEach, hpass, replaceSymbol, List.flatMap_assoc]
    refine List.flatMap_congr fun c _ => ?_
    rw [codeOf_cons]
    split_ifs
    · exact hkept
    · exact List.flatMap_singleton _ _

namespace EscapeTable

variable {table : EscapeTable α}

/-- The passes escape the text. -/
theorem replaceEach_eq (table : EscapeTable α) (s : List α) :
    replaceEach table.entries s = table.escape s :=
  Lib.replaceEach_eq table.passes s

theorem escape_cons (c : α) (s : List α) :
    table.escape (c :: s) = codeOf table.entries c ++ table.escape s :=
  List.flatMap_cons

theorem escape_append (s t : List α) :
    table.escape (s ++ t) = table.escape s ++ table.escape t :=
  List.flatMap_append

omit [DecidableEq α] in
theorem eq_mark_cons {e : α × List α} (he : e ∈ table.entries) :
    e.2 = table.mark :: e.2.tail :=
  (List.cons_head?_tail (table.starts e he)).symm

/-- Of the symbols that have a code, an escaped text holds the mark only. -/
theorem eq_mark_of_mem_escape {s : List α} {e : α × List α} (he : e ∈ table.entries)
    (h : e.1 ∈ table.escape s) : e.1 = table.mark := by
  obtain ⟨c, -, hc⟩ := List.mem_flatMap.mp h
  rcases codeOf_cases table.entries c with ⟨e', he', -, hcode⟩ | ⟨hnone, hcode⟩
  · rw [hcode, eq_mark_cons he'] at hc
    exact (List.mem_cons.mp hc).resolve_right (table.tails e' he' e he)
  · rw [hcode, List.mem_singleton] at hc
    exact absurd hc (hnone e he)

omit [DecidableEq α] in
/-- A code that stands in front of a text is the only one that does. -/
theorem eq_of_isPrefix {e e' : α × List α} (he : e ∈ table.entries) (he' : e' ∈ table.entries)
    {s : List α} (h : e'.2 <+: e.2 ++ s) : e' = e := by
  by_contra hne
  have : Std.Symm fun e e' : α × List α => ¬ e.2 <+: e'.2 ∧ ¬ e'.2 <+: e.2 :=
    ⟨fun _ _ hand => ⟨hand.2, hand.1⟩⟩
  have hapart := table.apart.forall he' he hne
  rcases List.prefix_or_prefix_of_prefix h (List.prefix_append e.2 s) with hsub | hsub
  · exact hapart.1 hsub
  · exact hapart.2 hsub

/-- Every mark of an escaped text starts a code. -/
theorem exists_code_of_escape_eq {s before after : List α}
    (h : table.escape s = before ++ table.mark :: after) :
    ∃ e ∈ table.entries, e.2 <+: table.mark :: after := by
  obtain ⟨e₀, he₀, hmark⟩ := table.mark_mem
  induction s generalizing before with
  | nil => simp [escape] at h
  | cons c s ih =>
    rw [escape_cons] at h
    rcases List.append_eq_append_iff.mp h with ⟨rest, hbefore, hs⟩ | ⟨rest, hcode, hafter⟩
    · exact ih hs
    · rcases rest with _ | ⟨a, rest⟩
      · exact @ih [] (by simpa using hafter.symm)
      · obtain ⟨rfl, rfl⟩ := List.cons.inj (by simpa using hafter)
        rcases codeOf_cases table.entries c with ⟨e, he, -, heq⟩ | ⟨hnone, heq⟩
        · -- the mark is the first symbol of the code
          rcases before with _ | ⟨b, before⟩
          · refine ⟨e, he, ?_⟩
            rw [← heq, hcode, List.nil_append, ← List.cons_append]
            exact List.prefix_append _ _
          · rw [heq, eq_mark_cons he, List.cons_append, List.cons.injEq] at hcode
            refine absurd ?_ (table.tails e he e₀ he₀)
            rw [hcode.2, hmark]
            exact List.mem_append_right _ List.mem_cons_self
        · rw [heq] at hcode
          have hmem : table.mark ∈ [c] := by
            rw [hcode]
            exact List.mem_append_right _ List.mem_cons_self
          rw [List.mem_singleton] at hmem
          exact absurd (hmark.trans hmem) (hnone e₀ he₀)

/-! ### Reading back -/

theorem unescapeAfter_append (code s : List α) :
    table.unescapeAfter code.length (code ++ s) = table.unescapeAfter 0 s := by
  induction code with
  | nil => rfl
  | cons c code ih =>
    rw [List.length_cons, List.cons_append, unescapeAfter]
    exact ih

theorem unescape_code_append {e : α × List α} (he : e ∈ table.entries) (s : List α) :
    table.unescape (e.2 ++ s) = e.1 :: table.unescape s := by
  have hcode := eq_mark_cons he
  have hfind : (table.entries.find? fun e' => e'.2.isPrefixOf (e.2 ++ s)) = some e := by
    rcases hfound : table.entries.find? fun e' => e'.2.isPrefixOf (e.2 ++ s) with _ | e'
    · refine absurd ?_ (List.find?_eq_none.mp hfound e he)
      exact List.isPrefixOf_iff_prefix.mpr (List.prefix_append _ _)
    · have hstart : e'.2.isPrefixOf (e.2 ++ s) = true :=
        List.find?_some (p := fun e' : α × List α => e'.2.isPrefixOf (e.2 ++ s)) hfound
      have hpre := List.isPrefixOf_iff_prefix.mp hstart
      rw [hfound, eq_of_isPrefix he (List.mem_of_find?_eq_some hfound) hpre]
  have hlength : e.2.length - 1 = e.2.tail.length := List.length_tail.symm
  rw [hcode, List.cons_append] at hfind ⊢
  rw [unescape, unescapeAfter, hfind]
  simp only [hlength]
  rw [unescapeAfter_append, unescape]

theorem unescape_cons_of_ne {c : α} (h : c ≠ table.mark) (s : List α) :
    table.unescape (c :: s) = c :: table.unescape s := by
  have hfind : (table.entries.find? fun e => e.2.isPrefixOf (c :: s)) = none := by
    refine List.find?_eq_none.mpr fun e he hpre => ?_
    rw [eq_mark_cons he] at hpre
    exact h (List.cons_prefix_cons.mp (List.isPrefixOf_iff_prefix.mp hpre)).1.symm
  rw [unescape, unescapeAfter, hfind]
  rfl

/-- **Round trip**: an escaped text is read back as it was. -/
theorem unescape_escape (s : List α) : table.unescape (table.escape s) = s := by
  induction s with
  | nil => rfl
  | cons c s ih =>
    rw [escape_cons]
    rcases codeOf_cases table.entries c with ⟨e, he, rfl, hcode⟩ | ⟨hnone, hcode⟩
    · rw [hcode, unescape_code_append he, ih]
    · obtain ⟨e₀, he₀, hmark⟩ := table.mark_mem
      have hne : c ≠ table.mark := fun heq => hnone e₀ he₀ (hmark.trans heq.symm)
      rw [hcode, List.singleton_append, unescape_cons_of_ne hne, ih]

theorem escape_injective (table : EscapeTable α) : Function.Injective table.escape :=
  Function.LeftInverse.injective fun s => table.unescape_escape s

end EscapeTable

end Lib
