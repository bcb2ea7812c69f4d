import Mathlib.Data.List.Infix

/-!
# Quoted values that are not escaped

A list of names with quoted values, separated and closed, is written by `after` from the end of
its first value on. The values are written as they are, so a value may spell the end of itself and
the name behind it (`SpellsEnd`), or a name and the start of its value (`SpellsStart`). A text has
two readings only where one value does the one and another value does the other: where no value
spells an end, or none spells a start, the values and the names are read back
(`append_after_inj`).
-/

namespace Lib

variable {α : Type*}

/-- The symbols that stand between names and values. -/
structure Marks (α : Type*) where
  quote : α
  separator : α
  equals : α
  close : α
  /-- What no value contains. -/
  stop : α
  quote_ne_separator : quote ≠ separator
  quote_ne_equals : quote ≠ equals
  quote_ne_close : quote ≠ close
  quote_ne_stop : quote ≠ stop
  separator_ne_close : separator ≠ close

/-- A text up to an element that is not in another one, which the other text starts with. -/
theorem append_cons_eq_append {a : α} {v r c r' : List α} (ha : a ∉ c)
    (h : v ++ a :: r = c ++ r') : ∃ v', v = c ++ v' ∧ r' = v' ++ a :: r := by
  rcases List.append_eq_append_iff.mp h with ⟨c', rfl, hc⟩ | ⟨v', rfl, hr⟩
  · cases c' with
    | nil => exact ⟨[], by simp, hc.symm⟩
    | cons b c' =>
      obtain ⟨rfl, -⟩ := List.cons.inj hc
      exact absurd (by simp) ha
  · exact ⟨v', rfl, hr⟩

/-- The texts up to the first of an element. -/
theorem append_cons_inj {a : α} {v r v' r' : List α} (hv : a ∉ v) (hv' : a ∉ v')
    (h : v ++ a :: r = v' ++ a :: r') : v = v' ∧ r = r' := by
  obtain ⟨w, rfl, hw⟩ := append_cons_eq_append hv' h
  cases w with
  | nil => exact ⟨by simp, (List.cons.inj hw).2.symm⟩
  | cons b w =>
    obtain ⟨rfl, -⟩ := List.cons.inj hw
    exact absurd (by simp) hv

namespace Marks

variable (marks : Marks α)

/-- What follows the quote at the end of a value: the names and values that are left, and what
comes behind the list. -/
def after : List (List α × List α) → List α → List α
  | [], tail => marks.close :: tail
  | (name, v) :: rest, tail =>
    marks.separator :: (name ++ marks.equals :: marks.quote :: (v ++ marks.quote ::
      after rest tail))

/-- There is no quote before the first stop. -/
def Closed [DecidableEq α] (tail : List α) : Prop :=
  marks.quote ∉ tail.takeWhile (· ≠ marks.stop)

/-- A value spells its own end and a name. -/
def SpellsEnd (Name : List α → Prop) (v : List α) : Prop :=
  ∃ name, Name name ∧ marks.quote :: marks.separator :: (name ++ [marks.equals]) <:+: v

/-- A value spells a name and the start of another value. -/
def SpellsStart (Name : List α → Prop) (v : List α) : Prop :=
  ∃ name, Name name ∧ marks.separator :: (name ++ [marks.equals, marks.quote]) <:+: v

/-- A value without a stop that does not spell something. -/
def Plain (Spells : List α → Prop) (v : List α) : Prop := marks.stop ∉ v ∧ ¬ Spells v

/-- Names and values that are as required. -/
def Fields (Name Value : List α → Prop) (rest : List (List α × List α)) : Prop :=
  ∀ e ∈ rest, Name e.1 ∧ Value e.2

variable {marks} {Name : List α → Prop} {rest rest' : List (List α × List α)}
  {v w tail tail' : List α}

/-- What is in no name and in no value is not in the text of a list. -/
theorem not_mem_after {a : α}
    (hmarks : a ∉ [marks.quote, marks.separator, marks.equals, marks.close])
    (hrest : ∀ e ∈ rest, a ∉ e.1 ∧ a ∉ e.2) (htail : a ∉ tail) : a ∉ marks.after rest tail := by
  simp only [List.mem_cons, List.not_mem_nil, or_false, not_or] at hmarks
  obtain ⟨hquote, hseparator, hequals, hclose⟩ := hmarks
  induction rest with
  | nil => simp [after, hclose, htail]
  | cons e rest ih =>
    rw [List.forall_mem_cons] at hrest
    simp [after, hquote, hseparator, hequals, hrest.1.1, hrest.1.2, ih hrest.2]

/-- A value that goes on behind a quote takes the name there. -/
theorem append_quote_eq_after {name r u : List α} (hname : marks.quote ∉ name)
    (h : v ++ marks.quote :: r = marks.separator :: (name ++ marks.equals :: u)) :
    ∃ v', v = marks.separator :: (name ++ [marks.equals]) ++ v' ∧ u = v' ++ marks.quote :: r := by
  have hmarks : marks.quote ∉ marks.separator :: (name ++ [marks.equals]) := by
    simp [marks.quote_ne_separator, marks.quote_ne_equals, hname]
  exact append_cons_eq_append hmarks (by simpa using h)

variable [DecidableEq α]

/-- A value does not reach across the end of a list. -/
theorem append_quote_ne_close {r : List α} (hv : marks.stop ∉ v) (htail : marks.Closed tail) :
    v ++ marks.quote :: r ≠ marks.close :: tail := by
  intro h
  cases v with
  | nil => exact marks.quote_ne_close (List.cons.inj h).1
  | cons a v =>
    have hrest : v ++ marks.quote :: r = tail := (List.cons.inj h).2
    have hpos : ∀ b ∈ v, decide (b ≠ marks.stop) = true := by
      intro b hb
      rw [decide_eq_true_iff]
      rintro rfl
      exact hv (List.mem_cons_of_mem _ hb)
    refine htail ?_
    rw [← hrest, List.takeWhile_append_of_pos hpos, List.takeWhile_cons, if_pos (by
      simpa using marks.quote_ne_stop)]
    simp

/-- Where no value spells a start, a text that is read from the start of a value is not one that
is read from the end of a value. -/
theorem append_quote_ne_after (hquote : ∀ name, Name name → marks.quote ∉ name)
    (hrest : Fields Name (marks.Plain (marks.SpellsStart Name)) rest)
    (hrest' : Fields Name (marks.Plain (marks.SpellsStart Name)) rest')
    (hv : marks.Plain (marks.SpellsStart Name) v) (htail : marks.Closed tail)
    (htail' : marks.Closed tail') :
    v ++ marks.quote :: marks.after rest tail ≠ marks.after rest' tail' := by
  -- both readings lose a value in turn
  induction hn : rest.length + rest'.length generalizing rest rest' v tail tail' with
  | zero =>
    obtain rfl : rest' = [] := by
      rw [← List.length_eq_zero_iff]
      omega
    exact append_quote_ne_close hv.1 htail'
  | succ n ih =>
    cases rest' with
    | nil => exact append_quote_ne_close hv.1 htail'
    | cons e rest' =>
      obtain ⟨⟨hname, hvalue⟩, hrest'⟩ := List.forall_mem_cons.mp hrest'
      intro h
      obtain ⟨v', rfl, hu⟩ := append_quote_eq_after (hquote _ hname) h
      cases v' with
      | nil =>
        obtain ⟨-, hu⟩ := List.cons.inj hu
        refine ih hrest' hrest hvalue htail' htail ?_ hu
        simp only [List.length_cons] at hn
        omega
      | cons a v' =>
        obtain ⟨rfl, -⟩ := List.cons.inj hu
        exact hv.2 ⟨_, hname, [], v', by simp⟩

/-- What the values of a list may not spell, so that they are read back. -/
def Readable (marks : Marks α) (Name : List α → Prop) (Value : List α → Prop) : Prop :=
  (∀ v, Value v → marks.Plain (marks.SpellsEnd Name) v) ∨
    ∀ v, Value v → marks.Plain (marks.SpellsStart Name) v

/-- A value is not read on behind its end. -/
theorem append_after_ne_longer {Value : List α → Prop} (hvalues : Readable marks Name Value)
    (hquote : ∀ name, Name name → marks.quote ∉ name) (hrest : Fields Name Value rest)
    (hrest' : Fields Name Value rest') {w' : List α} (hw : Value (v ++ marks.quote :: w'))
    (htail : marks.Closed tail) (htail' : marks.Closed tail') :
    w' ++ marks.quote :: marks.after rest' tail' ≠ marks.after rest tail := by
  have hpart : w' <:+: v ++ marks.quote :: w' := ⟨v ++ [marks.quote], [], by simp⟩
  rcases hvalues with hvalues | hvalues
  · -- no value spells an end, and this one would
    have hstop : marks.stop ∉ w' := fun h => (hvalues _ hw).1 (hpart.subset h)
    cases rest with
    | nil => exact append_quote_ne_close hstop htail
    | cons e rest =>
      intro h
      have hname := (hrest e List.mem_cons_self).1
      obtain ⟨w', rfl, -⟩ := append_quote_eq_after (hquote _ hname) h
      exact (hvalues _ hw).2 ⟨_, hname, v, w', by simp⟩
  · have hplain : ∀ {rest : List (List α × List α)}, Fields Name Value rest →
        Fields Name (marks.Plain (marks.SpellsStart Name)) rest := fun h e he =>
      ⟨(h e he).1, hvalues _ (h e he).2⟩
    have hw' : marks.Plain (marks.SpellsStart Name) w' := by
      refine ⟨fun h => (hvalues _ hw).1 (hpart.subset h), ?_⟩
      rintro ⟨name, hname, hspells⟩
      exact (hvalues _ hw).2 ⟨name, hname, hspells.trans hpart⟩
    exact append_quote_ne_after hquote (hplain hrest') (hplain hrest) hw' htail' htail

/-- The first of the values ends at the same place. -/
theorem eq_of_append_after {Value : List α → Prop} (hvalues : Readable marks Name Value)
    (hquote : ∀ name, Name name → marks.quote ∉ name) (hrest : Fields Name Value rest)
    (hrest' : Fields Name Value rest') (hv : Value v) (hw : Value w) (htail : marks.Closed tail)
    (htail' : marks.Closed tail')
    (h : v ++ marks.quote :: marks.after rest tail = w ++ marks.quote :: marks.after rest' tail') :
    v = w ∧ marks.after rest tail = marks.after rest' tail' := by
  rcases List.append_eq_append_iff.mp h with ⟨u, rfl, hu⟩ | ⟨u, rfl, hu⟩
  · cases u with
    | nil => exact ⟨by simp, (List.cons.inj hu).2⟩
    | cons a u =>
      obtain ⟨rfl, hlonger⟩ := List.cons.inj hu
      exact absurd hlonger.symm (append_after_ne_longer hvalues hquote hrest hrest' hw htail htail')
  · cases u with
    | nil => exact ⟨by simp, (List.cons.inj hu).2.symm⟩
    | cons a u =>
      obtain ⟨rfl, hlonger⟩ := List.cons.inj hu
      exact absurd hlonger.symm (append_after_ne_longer hvalues hquote hrest' hrest hv htail' htail)

/-- **Reading back**: where no value spells an end, or none spells a start, a list is read back
from its text. -/
theorem append_after_inj {Value : List α → Prop} (hvalues : Readable marks Name Value)
    (hname : ∀ name, Name name → marks.quote ∉ name ∧ marks.equals ∉ name)
    (hrest : Fields Name Value rest) (hrest' : Fields Name Value rest') (hv : Value v)
    (hw : Value w) (htail : marks.Closed tail) (htail' : marks.Closed tail')
    (h : v ++ marks.quote :: marks.after rest tail = w ++ marks.quote :: marks.after rest' tail') :
    v = w ∧ rest = rest' ∧ tail = tail' := by
  have hquote : ∀ name, Name name → marks.quote ∉ name := fun name hn => (hname name hn).1
  obtain ⟨rfl, hafter⟩ := eq_of_append_after hvalues hquote hrest hrest' hv hw htail htail' h
  refine ⟨rfl, ?_⟩
  clear h hv hw
  induction rest generalizing rest' with
  | nil =>
    cases rest' with
    | nil => exact ⟨rfl, (List.cons.inj hafter).2⟩
    | cons e' rest' => exact absurd (List.cons.inj hafter).1.symm marks.separator_ne_close
  | cons e rest ih =>
    cases rest' with
    | nil => exact absurd (List.cons.inj hafter).1 marks.separator_ne_close
    | cons e' rest' =>
      obtain ⟨⟨hn, hu⟩, hrest⟩ := List.forall_mem_cons.mp hrest
      obtain ⟨⟨hn', hu'⟩, hrest'⟩ := List.forall_mem_cons.mp hrest'
      obtain ⟨hnames, htexts⟩ :=
        append_cons_inj (hname _ hn).2 (hname _ hn').2 (List.cons.inj hafter).2
      obtain ⟨hvals, hafter⟩ := eq_of_append_after hvalues hquote hrest hrest' hu hu' htail htail'
        (List.cons.inj htexts).2
      obtain ⟨rfl, rfl⟩ := ih hrest hrest' hafter
      exact ⟨by rw [Prod.ext hnames hvals], rfl⟩

end Marks

end Lib
