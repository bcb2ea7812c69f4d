import Mathlib.Algebra.Order.Ring.Rat
import Mathlib.Data.List.Lex
import Mathlib.Data.Prod.Lex
import Mathlib.Data.String.Basic
import TftpOS.Lib.Dict
import TftpOS.Lib.Quoting
import TftpOS.Lib.Run
import TftpOS.Lib.Splitting
import TftpOS.Python.Text

/-!
# Counters

`_Counter` of `tftpos/metrics.py` and its text in the exposition format. Label values are written
between quotes as they are, so the text may be read in two ways. `counter_text_iff` says for which
label values it may not.
-/

namespace TftpOS

open Lib

/-- Floats, and `str` of a float. -/
structure Floats (F : Type*) where
  zero : F
  one : F
  add : F → F → F
  add_one_ne : add zero one ≠ zero
  text : F → String
  text_injective : Function.Injective text
  /-- The characters of numbers, infinities and NaNs. -/
  text_chars : ∀ q, ∀ c ∈ (text q).toList, c ∈ "0123456789.e+-infa".toList
  /-- A float shows that it is none of the integers. -/
  text_ne_zero : ∀ q, text q ≠ "0"

/-- The first character of a label name. -/
def isKeywordStart (c : Char) : Bool :=
  65 ≤ c.toNat && c.toNat ≤ 90 || c.toNat == 95 || 97 ≤ c.toNat && c.toNat ≤ 122

/-- A character of a label name. -/
def isKeywordChar (c : Char) : Bool := isKeywordStart c || 48 ≤ c.toNat && c.toNat ≤ 57

/-- A valid label name. -/
def isLabelName : List Char → Bool
  | [] => false
  | c :: cs => isKeywordStart c && cs.all isKeywordChar

/-- A label name that can be given to `inc`, which has two parameters of its own. -/
def isKeyword (name : List Char) : Bool :=
  isLabelName name && name != "self".toList && name != "amount".toList

/-- The labels of a sample, sorted by name. -/
abbrev LabelPairs := List (String × String)

/-- `_Counter`. -/
structure Counter (F : Type*) where
  name : String
  helpText : String
  values : Dict LabelPairs F := ∅

/-- `tuple(sorted(labels.items()))`. Labels have distinct names, so their values do not matter to
the order. -/
def labelKey (labels : Dict String String) : LabelPairs := sortOn Prod.fst labels.entries

variable {F : Type*}

namespace Counter

variable (float : Floats F)

/-- `get`. -/
def get (c : Counter F) (labels : Dict String String) : F :=
  (c.values.get? (labelKey labels)).getD float.zero

/-- `inc`. -/
def inc (c : Counter F) (amount : F) (labels : Dict String String) : Counter F :=
  { c with values := c.values.set (labelKey labels) (float.add (c.get float labels) amount) }

/-- `_format_labels`. -/
def formatLabels (pairs : LabelPairs) : String :=
  if pairs = [] then ""
  else "\x7b" ++ ",".intercalate (pairs.map fun e => e.1 ++ "=\"" ++ e.2 ++ "\"") ++ "\x7d"

/-- The samples in the order of their labels. -/
def sortedItems (c : Counter F) : List (LabelPairs × F) :=
  sortOn (fun e => e.1.map toLex) c.values.entries

/-- The line of a sample. -/
def sampleLine (name : String) (item : LabelPairs × F) : String :=
  name ++ formatLabels item.1 ++ " " ++ float.text item.2

/-- The lines of the samples. -/
def sampleLines (c : Counter F) : List String :=
  if c.values.entries = [] then [c.name ++ " 0"]
  else c.sortedItems.map (sampleLine float c.name)

/-- `render`. -/
def render (c : Counter F) : String :=
  "\n".intercalate (["# HELP " ++ c.name ++ " " ++ c.helpText,
    "# TYPE " ++ c.name ++ " counter"] ++ c.sampleLines float)

end Counter

/-- A call of `inc`. -/
structure IncCall (F : Type*) where
  amount : F
  labels : Dict String String := ∅

namespace Counter

variable (float : Floats F)

/-- One call of `inc`. -/
def step (c : Counter F) (call : IncCall F) : Unit × Counter F :=
  ((), c.inc float call.amount call.labels)

/-- A counter after some calls of `inc`. -/
def after (name helpText : String) (calls : List (IncCall F)) : Counter F :=
  run (step float) { name, helpText } calls

end Counter

/-! ### What a label value may spell -/

/-- The marks between label names and label values. -/
def labelMarks : Marks Char where
  quote := '"'
  separator := ','
  equals := '='
  close := '\x7d'
  stop := '\n'
  quote_ne_separator := by decide
  quote_ne_equals := by decide
  quote_ne_close := by decide
  quote_ne_stop := by decide
  separator_ne_close := by decide

/-- The name of a label that is not the first one. No name comes before `A`. -/
def LaterName (name : List Char) : Prop := isKeyword name = true ∧ name ≠ ['A']

/-- The calls have valid label names, and label values that are parts of given ones. -/
def UsesParts (vocabulary : Set String) (calls : List (IncCall F)) : Prop :=
  ∀ call ∈ calls, ∀ e ∈ call.labels.entries, isKeyword e.1.toList = true ∧
    ∃ v ∈ vocabulary, e.2.toList <:+: v.toList

/-- Counters with the same text have the same values. The two may differ in their help texts, as
long as the name has no line break. -/
def TextDetermines (float : Floats F) (vocabulary : Set String) : Prop :=
  ∀ name helpText helpText' calls calls', UsesParts vocabulary calls →
    UsesParts vocabulary calls' → (helpText = helpText' ∨ hasChar '\n' name = false) →
      (Counter.after float name helpText calls).render float =
        (Counter.after float name helpText' calls').render float →
      ∀ labels, (Counter.after float name helpText calls).get float labels =
        (Counter.after float name helpText' calls').get float labels

/-- Every label set has one line: the text has two lines above and no others. -/
def OneLineEach (float : Floats F) (vocabulary : Set String) : Prop :=
  ∀ name helpText calls, UsesParts vocabulary calls → hasChar '\n' name = false →
    hasChar '\n' helpText = false →
      ((Counter.after float name helpText calls).render float).toList.count '\n' + 1 =
        2 + max 1 (Counter.after float name helpText calls).values.size

/-! ### The keys of a counter -/

variable {float : Floats F}

/-- The labels of a sample: sorted, with valid names and with values that are parts of given
ones. -/
structure GoodKey (vocabulary : Set String) (pairs : LabelPairs) : Prop where
  names : ∀ e ∈ pairs, isKeyword e.1.toList = true
  parts : ∀ e ∈ pairs, ∃ v ∈ vocabulary, e.2.toList <:+: v.toList
  sorted : pairs.Pairwise fun a b => a.1 < b.1

theorem pairwise_labelKey (labels : Dict String String) :
    (labelKey labels).Pairwise fun a b => a.1 < b.1 := by
  have hne : labels.entries.Pairwise fun a b => a.1 ≠ b.1 := List.pairwise_map.mp labels.nodup
  have hsorted : (labelKey labels).Pairwise (KeyThen Prod.fst fun a b => a.1 ≠ b.1) :=
    pairwise_sortOn hne
  refine hsorted.imp fun h => ?_
  rcases h with hlt | ⟨heq, hne⟩
  · exact hlt
  · exact absurd heq hne

theorem UsesParts.goodKey {vocabulary : Set String} {calls : List (IncCall F)}
    (h : UsesParts vocabulary calls) {call : IncCall F} (hcall : call ∈ calls) :
    GoodKey vocabulary (labelKey call.labels) where
  names e he := (h call hcall e (mem_sortOn.mp he)).1
  parts e he := (h call hcall e (mem_sortOn.mp he)).2
  sorted := pairwise_labelKey call.labels

theorem Counter.mem_values_inc {c : Counter F} {amount : F} {labels : Dict String String}
    {item : LabelPairs × F} (h : item ∈ (c.inc float amount labels).values.entries) :
    item.1 = labelKey labels ∨ item ∈ c.values.entries := by
  rcases Dict.mem_set.mp h with rfl | ⟨h, -⟩
  · exact .inl rfl
  · exact .inr h

/-- The keys of a counter are those of its calls. -/
theorem goodKey_after {vocabulary : Set String} {calls : List (IncCall F)} {name helpText : String}
    (h : UsesParts vocabulary calls) :
    ∀ item ∈ (Counter.after float name helpText calls).values.entries,
      GoodKey vocabulary item.1 := by
  have hstart : ∀ item ∈ ({ name, helpText } : Counter F).values.entries,
      GoodKey vocabulary item.1 := fun item hitem => absurd hitem List.not_mem_nil
  refine run_invariant (P := fun c : Counter F => ∀ item ∈ c.values.entries,
      GoodKey vocabulary item.1) (A := fun call => GoodKey vocabulary (labelKey call.labels))
    (fun c call hcall hc item hitem => ?_) hstart fun call hcall => h.goodKey hcall
  rcases Counter.mem_values_inc hitem with hkey | hold
  · rw [hkey]
    exact hcall
  · exact hc item hold

theorem keywordStart_of_isKeyword {name : List Char} (h : isKeyword name = true) :
    ∃ c cs, name = c :: cs ∧ isKeywordStart c = true := by
  cases name with
  | nil => cases h
  | cons c cs =>
    simp only [isKeyword, isLabelName, Bool.and_eq_true] at h
    exact ⟨c, cs, rfl, h.1.1.1⟩

/-- Names but the first come after `A`. -/
theorem laterName_of_lt {name name' : String} (hname : isKeyword name.toList = true)
    (hname' : isKeyword name'.toList = true) (hlt : name < name') : LaterName name'.toList := by
  refine ⟨hname', fun hA => ?_⟩
  rw [String.lt_iff_toList_lt, hA] at hlt
  obtain ⟨c, cs, hchars, hstart⟩ := keywordStart_of_isKeyword hname
  rw [hchars, List.cons_lt_cons_iff] at hlt
  rcases hlt with hlt | ⟨-, hlt⟩
  · have hlow : c.toNat < 65 := hlt
    have hhigh : 65 ≤ c.toNat := by
      simp only [isKeywordStart, Bool.or_eq_true, Bool.and_eq_true, decide_eq_true_eq,
        beq_iff_eq] at hstart
      omega
    omega
  · exact absurd hlt (List.not_lt_nil cs)

/-- No mark is in a label name. -/
theorem not_mem_of_isKeyword {name : List Char} (h : isKeyword name = true) :
    '"' ∉ name ∧ '=' ∉ name ∧ '\n' ∉ name := by
  have hname : isLabelName name = true := by
    simp only [isKeyword, Bool.and_eq_true] at h
    exact h.1.1
  have hchars : ∀ c ∈ name, isKeywordChar c = true := by
    cases name with
    | nil => simp
    | cons c cs =>
      rw [isLabelName, Bool.and_eq_true, List.all_eq_true] at hname
      refine List.forall_mem_cons.mpr ⟨?_, hname.2⟩
      rw [isKeywordChar, hname.1, Bool.true_or]
  exact ⟨fun h => absurd (hchars _ h) (by decide), fun h => absurd (hchars _ h) (by decide),
    fun h => absurd (hchars _ h) (by decide)⟩

/-! ### Reading a text back -/

/-- The characters of labels. -/
def charPairs (pairs : LabelPairs) : List (List Char × List Char) :=
  pairs.map fun e => (e.1.toList, e.2.toList)

theorem charPairs_injective : Function.Injective charPairs := by
  refine List.map_injective_iff.mpr fun e e' h => ?_
  obtain ⟨hname, hvalue⟩ := Prod.mk.inj h
  exact Prod.ext (String.toList_inj.mp hname) (String.toList_inj.mp hvalue)

/-- The text of labels, up to the first value and from its end on. -/
theorem toList_formatLabels (e : String × String) (pairs : LabelPairs) (tail : List Char) :
    (Counter.formatLabels (e :: pairs)).toList ++ tail =
      '\x7b' :: (e.1.toList ++ '=' :: '"' :: (e.2.toList ++ '"' ::
        labelMarks.after (charPairs pairs) tail)) := by
  have hjoin : ∀ e : String × String, (",".intercalate
      ((e :: pairs).map fun e => e.1 ++ "=\"" ++ e.2 ++ "\"")).toList ++ '\x7d' :: tail =
        e.1.toList ++ '=' :: '"' :: (e.2.toList ++ '"' ::
          labelMarks.after (charPairs pairs) tail) := by
    induction pairs with
    | nil =>
      intro e
      simp [charPairs, Marks.after, labelMarks]
    | cons e' pairs ih =>
      intro e
      have hrest := ih e'
      rw [List.map_cons, List.map_cons, String.intercalate_cons_cons]
      rw [List.map_cons] at hrest
      simp only [String.toList_append, List.append_assoc, hrest]
      simp [charPairs, Marks.after, labelMarks]
  rw [Counter.formatLabels, if_neg (List.cons_ne_nil e pairs)]
  simpa using hjoin e

/-- A text stops here, or goes on in the next line. -/
def AtLineEnd (t : List Char) : Prop := t = [] ∨ ∃ rest, t = '\n' :: rest

theorem append_atLineEnd_inj {f f' t t' : List Char} (hf : '\n' ∉ f) (hf' : '\n' ∉ f')
    (ht : AtLineEnd t) (ht' : AtLineEnd t') (h : f ++ t = f' ++ t') : f = f' ∧ t = t' := by
  rcases ht with rfl | ⟨rest, rfl⟩ <;> rcases ht' with rfl | ⟨rest', rfl⟩
  · simpa using h
  · refine absurd ?_ hf
    rw [List.append_nil] at h
    simp [h]
  · refine absurd ?_ hf'
    rw [List.append_nil] at h
    simp [← h]
  · obtain ⟨rfl, rfl⟩ := append_cons_inj hf hf' h
    exact ⟨rfl, rfl⟩

/-- The values that the parts of a vocabulary are. -/
def IsPart (vocabulary : Set String) (v : List Char) : Prop := ∃ s ∈ vocabulary, v <:+: s.toList

/-- **The label values that are read back**: they have no line break, and either none of them
spells the end of a value with a label name behind it, or none spells a label name with the start
of a value. -/
def Distinguishable (vocabulary : Set String) : Prop :=
  (∀ v ∈ vocabulary, hasChar '\n' v = false) ∧
  ((∀ v ∈ vocabulary, ¬ labelMarks.SpellsEnd LaterName v.toList) ∨
    ∀ v ∈ vocabulary, ¬ labelMarks.SpellsStart LaterName v.toList)

theorem Distinguishable.not_newline {vocabulary : Set String} (h : Distinguishable vocabulary)
    {v : List Char} (hv : IsPart vocabulary v) : '\n' ∉ v := by
  obtain ⟨s, hs, hv⟩ := hv
  exact fun hmem => hasChar_eq_false_iff.mp (h.1 s hs) (hv.subset hmem)

theorem Distinguishable.readable {vocabulary : Set String} (h : Distinguishable vocabulary) :
    Marks.Readable labelMarks LaterName (IsPart vocabulary) := by
  rcases h.2 with hspells | hspells
  · refine .inl fun v hv => ⟨h.not_newline hv, ?_⟩
    obtain ⟨s, hs, hv⟩ := hv
    rintro ⟨name, hname, hinfix⟩
    exact hspells s hs ⟨name, hname, hinfix.trans hv⟩
  · refine .inr fun v hv => ⟨h.not_newline hv, ?_⟩
    obtain ⟨s, hs, hv⟩ := hv
    rintro ⟨name, hname, hinfix⟩
    exact hspells s hs ⟨name, hname, hinfix.trans hv⟩

section

variable {vocabulary : Set String} {name : String}
  {item item' : LabelPairs × F} {t t' : List Char}

/-- No text of a float has one of these characters. -/
theorem not_mem_floatText (q : F) {c : Char} (hc : c ∉ "0123456789.e+-infa".toList) :
    c ∉ (float.text q).toList := fun h => hc (float.text_chars q c h)

/-- The text of a value is closed by the end of its line. -/
theorem closed_value (q : F) (ht : AtLineEnd t) :
    labelMarks.Closed (' ' :: ((float.text q).toList ++ t)) := by
  have hline : ∀ c ∈ ' ' :: (float.text q).toList, decide (c ≠ '\n') = true := by
    intro c hc
    rw [decide_eq_true_iff]
    rintro rfl
    rcases List.mem_cons.mp hc with hc | hc
    · exact absurd hc (by decide)
    · exact not_mem_floatText q (by decide) hc
  have hstop : t.takeWhile (fun c => decide (c ≠ '\n')) = [] := by
    rcases ht with rfl | ⟨rest, rfl⟩
    · rfl
    · simp
  have hquote : '"' ∉ ' ' :: (float.text q).toList := by
    rw [List.mem_cons, not_or]
    exact ⟨by decide, not_mem_floatText q (by decide)⟩
  rw [Marks.Closed, ← List.cons_append]
  change '"' ∉ List.takeWhile (fun c => decide (c ≠ '\n')) _
  rw [List.takeWhile_append_of_pos hline, hstop, List.append_nil]
  exact hquote

theorem GoodKey.fields {e : String × String} {pairs : LabelPairs}
    (h : GoodKey vocabulary (e :: pairs)) :
    Marks.Fields LaterName (IsPart vocabulary) (charPairs pairs) := by
  intro f hf
  obtain ⟨e', he', rfl⟩ := List.mem_map.mp hf
  have hmem := List.mem_cons_of_mem e he'
  exact ⟨laterName_of_lt (h.names e List.mem_cons_self) (h.names e' hmem)
    ((List.pairwise_cons.mp h.sorted).1 e' he'), h.parts e' hmem⟩

/-- The labels of a sample and its value are read back from its line. -/
theorem sampleLine_inj (hdist : Distinguishable vocabulary) (hkey : GoodKey vocabulary item.1)
    (hkey' : GoodKey vocabulary item'.1) (ht : AtLineEnd t) (ht' : AtLineEnd t')
    (h : (Counter.sampleLine float name item).toList ++ t =
      (Counter.sampleLine float name item').toList ++ t') : item = item' ∧ t = t' := by
  obtain ⟨pairs, q⟩ := item
  obtain ⟨pairs', q'⟩ := item'
  have hvalue : ∀ {q q' : F}, ' ' :: ((float.text q).toList ++ t) =
      ' ' :: ((float.text q').toList ++ t') → q = q' ∧ t = t' := by
    intro q q' h
    obtain ⟨htext, rfl⟩ := append_atLineEnd_inj (not_mem_floatText q (by decide))
      (not_mem_floatText q' (by decide)) ht ht' (List.cons.inj h).2
    exact ⟨float.text_injective (String.toList_inj.mp htext), rfl⟩
  have hlabels : (Counter.formatLabels pairs).toList ++ ' ' :: ((float.text q).toList ++ t) =
      (Counter.formatLabels pairs').toList ++ ' ' :: ((float.text q').toList ++ t') := by
    simpa [Counter.sampleLine] using h
  cases pairs with
  | nil =>
    cases pairs' with
    | nil =>
      obtain ⟨rfl, rfl⟩ := hvalue hlabels
      exact ⟨rfl, rfl⟩
    | cons e' pairs' =>
      rw [toList_formatLabels] at hlabels
      exact absurd (List.cons.inj hlabels).1 (by decide)
  | cons e pairs =>
    cases pairs' with
    | nil =>
      rw [toList_formatLabels] at hlabels
      exact absurd (List.cons.inj hlabels).1 (by decide)
    | cons e' pairs' =>
      rw [toList_formatLabels, toList_formatLabels] at hlabels
      have hname := not_mem_of_isKeyword (hkey.names e List.mem_cons_self)
      have hname' := not_mem_of_isKeyword (hkey'.names e' List.mem_cons_self)
      obtain ⟨hnames, hrest⟩ := append_cons_inj hname.2.1 hname'.2.1 (List.cons.inj hlabels).2
      obtain ⟨hvalues, hpairs, htail⟩ := Marks.append_after_inj hdist.readable
        (fun name hname => ⟨(not_mem_of_isKeyword hname.1).1, (not_mem_of_isKeyword hname.1).2.1⟩)
        hkey.fields hkey'.fields
        (hkey.parts e List.mem_cons_self) (hkey'.parts e' List.mem_cons_self)
        (closed_value q ht) (closed_value q' ht') (List.cons.inj hrest).2
      obtain ⟨rfl, rfl⟩ := hvalue htail
      obtain rfl := charPairs_injective hpairs
      have he : e = e' := Prod.ext (String.toList_inj.mp hnames) (String.toList_inj.mp hvalues)
      exact ⟨by rw [he], rfl⟩

/-- The text of lines, each behind a line break. -/
def lineTail (lines : List String) : List Char := lines.flatMap fun line => '\n' :: line.toList

theorem atLineEnd_lineTail (lines : List String) : AtLineEnd (lineTail lines) := by
  cases lines with
  | nil => exact .inl rfl
  | cons line lines => exact .inr ⟨_, rfl⟩

/-- Samples are read back from their lines. -/
theorem lineTail_inj (hdist : Distinguishable vocabulary) {items items' : List (LabelPairs × F)}
    (hkeys : ∀ item ∈ items, GoodKey vocabulary item.1)
    (hkeys' : ∀ item ∈ items', GoodKey vocabulary item.1)
    (h : lineTail (items.map (Counter.sampleLine float name)) =
      lineTail (items'.map (Counter.sampleLine float name))) : items = items' := by
  induction items generalizing items' with
  | nil =>
    cases items' with
    | nil => rfl
    | cons item' items' => cases h
  | cons item items ih =>
    cases items' with
    | nil => cases h
    | cons item' items' =>
      rw [List.forall_mem_cons] at hkeys hkeys'
      obtain ⟨rfl, htail⟩ := sampleLine_inj hdist hkeys.1 hkeys'.1 (atLineEnd_lineTail _)
        (atLineEnd_lineTail _) (List.cons.inj h).2
      rw [ih hkeys.2 hkeys'.2 htail]

/-- The line of a counter without samples is not the line of a sample. -/
theorem lineTail_zero_ne {items : List (LabelPairs × F)} (hitems : items ≠ []) :
    lineTail [name ++ " 0"] ≠ lineTail (items.map (Counter.sampleLine float name)) := by
  obtain ⟨⟨pairs, q⟩, items, rfl⟩ := List.exists_cons_of_ne_nil hitems
  intro h
  have hlabels : ' ' :: ['0'] = (Counter.formatLabels pairs).toList ++ ' ' ::
      ((float.text q).toList ++ lineTail (items.map (Counter.sampleLine float name))) := by
    simpa [Counter.sampleLine, lineTail] using h
  cases pairs with
  | nil =>
    have hvalue : ['0'] ++ [] = (float.text q).toList ++
        lineTail (items.map (Counter.sampleLine float name)) := (List.cons.inj hlabels).2
    obtain ⟨htext, -⟩ := append_atLineEnd_inj (by decide) (not_mem_floatText q (by decide))
      (.inl rfl) (atLineEnd_lineTail _) hvalue
    refine float.text_ne_zero q (String.toList_inj.mp ?_)
    rw [← htext]
    rfl
  | cons e pairs =>
    rw [toList_formatLabels] at hlabels
    exact absurd (List.cons.inj hlabels).1 (by decide)

end

namespace Counter

variable {vocabulary : Set String} {c c' : Counter F}

theorem sortedItems_eq_nil_iff : c.sortedItems = [] ↔ c.values.entries = [] :=
  ⟨fun h => List.Perm.eq_nil (h ▸ (perm_sortOn _ _).symm), fun h => by rw [sortedItems, h]; rfl⟩

/-- The samples of a counter are read back from its lines. -/
theorem sampleLines_inj (hdist : Distinguishable vocabulary) (hname : c.name = c'.name)
    (hkeys : ∀ item ∈ c.values.entries, GoodKey vocabulary item.1)
    (hkeys' : ∀ item ∈ c'.values.entries, GoodKey vocabulary item.1)
    (h : lineTail (c.sampleLines float) = lineTail (c'.sampleLines float)) :
    c.sortedItems = c'.sortedItems := by
  have hsorted : ∀ {c : Counter F}, (∀ item ∈ c.values.entries, GoodKey vocabulary item.1) →
      ∀ item ∈ c.sortedItems, GoodKey vocabulary item.1 := fun h item hitem =>
    h item (mem_sortOn.mp hitem)
  rw [sampleLines, sampleLines, hname] at h
  split_ifs at h with hnil hnil' hnil'
  · rw [sortedItems_eq_nil_iff.mpr hnil, sortedItems_eq_nil_iff.mpr hnil']
  · exact absurd h (lineTail_zero_ne (sortedItems_eq_nil_iff.not.mpr hnil'))
  · exact absurd h.symm (lineTail_zero_ne (sortedItems_eq_nil_iff.not.mpr hnil))
  · exact lineTail_inj hdist (hsorted hkeys) (hsorted hkeys') h

/-- The samples of a counter decide its values. -/
theorem get_of_sortedItems (h : c.sortedItems = c'.sortedItems) (labels : Dict String String) :
    c.get float labels = c'.get float labels := by
  have hentries : ∀ e, e ∈ c.values.entries ↔ e ∈ c'.values.entries := by
    intro e
    have hmem : e ∈ c.sortedItems ↔ e ∈ c'.sortedItems := by rw [h]
    rw [sortedItems, sortedItems, mem_sortOn, mem_sortOn] at hmem
    exact hmem
  have hget : c.values.get? (labelKey labels) = c'.values.get? (labelKey labels) := by
    ext v
    rw [Dict.get?_eq_some_iff, Dict.get?_eq_some_iff, hentries]
  rw [get, get, hget]

theorem toList_intercalate_lines (line : String) (lines : List String) :
    ("\n".intercalate (line :: lines)).toList = line.toList ++ lineTail lines := by
  induction lines generalizing line with
  | nil => simp [lineTail]
  | cons line' lines ih =>
    rw [String.intercalate_cons_cons]
    simp [ih, lineTail]

/-- The two lines above the samples. -/
def header (c : Counter F) : List Char :=
  ("# HELP " ++ c.name ++ " " ++ c.helpText).toList ++
    '\n' :: ("# TYPE " ++ c.name ++ " counter").toList

theorem toList_render : (c.render float).toList = c.header ++ lineTail (c.sampleLines float) := by
  rw [render, List.cons_append, toList_intercalate_lines]
  simp [lineTail, header]

/-- A line without a line break. -/
theorem not_newline_sampleLine {name : String} {item : LabelPairs × F}
    (hdist : Distinguishable vocabulary) (hkey : GoodKey vocabulary item.1)
    (hname : '\n' ∉ name.toList) : '\n' ∉ (sampleLine float name item).toList := by
  have hfloat : '\n' ∉ (float.text item.2).toList := not_mem_floatText item.2 (by decide)
  have hpairs : ∀ e ∈ item.1, '\n' ∉ e.1.toList ∧ '\n' ∉ e.2.toList := fun e he =>
    ⟨(not_mem_of_isKeyword (hkey.names e he)).2.2, hdist.not_newline (hkey.parts e he)⟩
  have htail : '\n' ∉ (formatLabels item.1).toList ++ ' ' :: (float.text item.2).toList := by
    rcases hitem : item.1 with _ | ⟨e, pairs⟩
    · simpa [formatLabels] using hfloat
    · rw [hitem, List.forall_mem_cons] at hpairs
      rw [toList_formatLabels]
      have hafter : '\n' ∉ labelMarks.after (charPairs pairs) (' ' :: (float.text item.2).toList) :=
        Marks.not_mem_after (by decide) (List.forall_mem_map.mpr hpairs.2) (by simpa using hfloat)
      simp [hpairs.1.1, hpairs.1.2, hafter]
  simpa [sampleLine, hname] using htail

/-- No line of a sample has a line break if the name has none. -/
theorem not_newline_sampleLines (hdist : Distinguishable vocabulary)
    (hkeys : ∀ item ∈ c.values.entries, GoodKey vocabulary item.1)
    (hname : '\n' ∉ c.name.toList) : ∀ line ∈ c.sampleLines float, '\n' ∉ line.toList := by
  rw [sampleLines]
  split_ifs
  · simpa using hname
  · intro line hline
    obtain ⟨item, hitem, rfl⟩ := List.mem_map.mp hline
    exact not_newline_sampleLine hdist (hkeys item (mem_sortOn.mp hitem)) hname

/-- The lines of samples end in a digit, or in what else ends a number. -/
theorem ne_type_sampleLines (name : String) :
    ∀ line ∈ c.sampleLines float, line ≠ "# TYPE " ++ name ++ " counter" := by
  have hend : ∀ (s : String) (l : List Char), 'r' ∉ ' ' :: l →
      s.toList ++ ' ' :: l ≠ ("# TYPE " ++ name ++ " counter").toList := by
    intro s l hl h
    have hlast := congrArg List.getLast? h
    rw [List.getLast?_append_of_ne_nil _ (List.cons_ne_nil _ _), String.toList_append,
      List.getLast?_append_of_ne_nil _ (by decide)] at hlast
    exact hl (List.mem_of_getLast? hlast)
  rw [sampleLines]
  split_ifs
  · intro line hline hline'
    rw [List.mem_singleton.mp hline] at hline'
    exact hend c.name ['0'] (by decide) (by rw [← hline']; simp)
  · intro line hline hline'
    obtain ⟨item, -, rfl⟩ := List.mem_map.mp hline
    refine hend (c.name ++ formatLabels item.1) (float.text item.2).toList ?_ ?_
    · rw [List.mem_cons, not_or]
      exact ⟨by decide, not_mem_floatText item.2 (by decide)⟩
    · rw [← hline']
      simp [sampleLine]

/-- The lines of a text. -/
theorem splitSeq_render (hlines : ∀ line ∈ c.sampleLines float, '\n' ∉ line.toList)
    (hname : '\n' ∉ c.name.toList) : splitSeq ['\n'] (c.render float).toList =
      splitSeq ['\n'] ("# HELP " ++ c.name ++ " " ++ c.helpText).toList ++
        ("# TYPE " ++ c.name ++ " counter").toList :: (c.sampleLines float).map String.toList := by
  have hone : ∀ lines : List String, (∀ line ∈ lines, '\n' ∉ line.toList) →
      (lines.map String.toList).flatMap (splitSeq ['\n']) = lines.map String.toList := by
    intro lines hlines
    rw [List.flatMap_congr fun line hline => ?_, List.flatMap_singleton']
    obtain ⟨s, hs, rfl⟩ := List.mem_map.mp hline
    exact splitSeq_of_not_mem (hlines s hs)
  have htype : '\n' ∉ ("# TYPE " ++ c.name ++ " counter").toList := by simpa using hname
  have hjoin : (c.render float).toList = ['\n'].intercalate
      (["# HELP " ++ c.name ++ " " ++ c.helpText, "# TYPE " ++ c.name ++ " counter"] ++
        c.sampleLines float |>.map String.toList) := by
    rw [render, String.toList_intercalate]
    rfl
  rw [hjoin, splitSeq_intercalate List.not_mem_nil (by simp), List.cons_append, List.cons_append,
    List.nil_append, List.map_cons, List.flatMap_cons]
  exact congrArg (_ ++ ·) (hone (_ :: _) (List.forall_mem_cons.mpr ⟨htype, hlines⟩))

/-- The lines of the samples are read back from a text. -/
theorem lineTail_of_render (hlines : ∀ line ∈ c.sampleLines float, '\n' ∉ line.toList)
    (hlines' : ∀ line ∈ c'.sampleLines float, '\n' ∉ line.toList) (hname : c.name = c'.name)
    (hline : '\n' ∉ c.name.toList) (h : c.render float = c'.render float) :
    lineTail (c.sampleLines float) = lineTail (c'.sampleLines float) := by
  have htype : ∀ {c : Counter F}, ("# TYPE " ++ c'.name ++ " counter").toList ∉
      ((c.sampleLines float).map String.toList).reverse := by
    intro c hmem
    obtain ⟨line, hline, heq⟩ := List.mem_map.mp (List.mem_reverse.mp hmem)
    exact ne_type_sampleLines c'.name line hline (String.toList_inj.mp heq)
  have hsplit := congrArg (fun s => (splitSeq ['\n'] s.toList).reverse) h
  simp only [splitSeq_render hlines hline, splitSeq_render hlines' (hname ▸ hline), hname,
    List.reverse_append, List.reverse_cons, List.append_assoc, List.singleton_append] at hsplit
  have hsamples := (append_cons_inj htype htype hsplit).1
  have hmap := (List.map_injective_iff.mpr fun _ _ => String.toList_inj.mp)
    (List.reverse_injective hsamples)
  rw [hmap]

theorem name_after (name helpText : String) (calls : List (IncCall F)) :
    (after float name helpText calls).name = name ∧
      (after float name helpText calls).helpText = helpText :=
  run_invariant (P := fun c : Counter F => c.name = name ∧ c.helpText = helpText)
    (A := fun _ => True) (fun _ _ _ h => h) ⟨rfl, rfl⟩ fun _ _ => trivial

theorem count_lineTail {lines : List String} (hlines : ∀ line ∈ lines, '\n' ∉ line.toList) :
    (lineTail lines).count '\n' = lines.length := by
  induction lines with
  | nil => rfl
  | cons line lines ih =>
    rw [List.forall_mem_cons] at hlines
    have hrest := ih hlines.2
    rw [lineTail] at hrest ⊢
    rw [List.flatMap_cons, List.cons_append, List.count_cons_self, List.count_append,
      List.count_eq_zero.mpr hlines.1, hrest, List.length_cons, Nat.zero_add]

theorem length_sampleLines : (c.sampleLines float).length = max 1 c.values.size := by
  rw [sampleLines, Dict.size]
  split_ifs with h
  · rw [h]
    rfl
  · have hpos := List.length_pos_iff.mpr h
    rw [List.length_map, sortedItems, (perm_sortOn _ _).length_eq]
    omega

/-- The line breaks above the samples. -/
theorem count_header (hname : '\n' ∉ c.name.toList) (hhelp : '\n' ∉ c.helpText.toList) :
    c.header.count '\n' = 1 := by
  have hfirst : ("# HELP " ++ c.name ++ " " ++ c.helpText).toList.count '\n' = 0 :=
    List.count_eq_zero.mpr (by simp [hname, hhelp])
  have hsecond : ("# TYPE " ++ c.name ++ " counter").toList.count '\n' = 0 :=
    List.count_eq_zero.mpr (by simp [hname])
  rw [header, List.count_append, List.count_cons_self, hfirst, hsecond]

end Counter

/-- Distinguishable values are read back. -/
theorem textDetermines_of_distinguishable {vocabulary : Set String}
    (hdist : Distinguishable vocabulary) : TextDetermines float vocabulary := by
  intro name helpText helpText' calls calls' hcalls hcalls' hhelp h
  obtain ⟨hname, hhelpText⟩ := Counter.name_after name helpText calls
  obtain ⟨hname', hhelpText'⟩ := Counter.name_after name helpText' calls'
  have hkeys : ∀ item ∈ (Counter.after float name helpText calls).values.entries,
      GoodKey vocabulary item.1 := goodKey_after hcalls
  have hkeys' : ∀ item ∈ (Counter.after float name helpText' calls').values.entries,
      GoodKey vocabulary item.1 := goodKey_after hcalls'
  have hnames := hname.trans hname'.symm
  have hlines : lineTail ((Counter.after float name helpText calls).sampleLines float) =
      lineTail ((Counter.after float name helpText' calls').sampleLines float) := by
    rcases hhelp with rfl | hline
    · have hheader : (Counter.after float name helpText calls).header =
          (Counter.after float name helpText calls').header := by
        rw [Counter.header, Counter.header, hname, hhelpText, hname', hhelpText']
      have htext := congrArg String.toList h
      rw [Counter.toList_render, Counter.toList_render, hheader] at htext
      exact List.append_cancel_left htext
    · rw [hasChar_eq_false_iff] at hline
      have hline' : '\n' ∉ (Counter.after float name helpText' calls').name.toList := by
        rwa [hname']
      rw [← hname] at hline
      exact Counter.lineTail_of_render (Counter.not_newline_sampleLines hdist hkeys hline)
        (Counter.not_newline_sampleLines hdist hkeys' hline') hnames hline h
  exact Counter.get_of_sortedItems (Counter.sampleLines_inj hdist hnames hkeys hkeys' hlines)

theorem oneLineEach_of_distinguishable {vocabulary : Set String}
    (hdist : Distinguishable vocabulary) : OneLineEach float vocabulary := by
  intro name helpText calls hcalls hline hhelp
  obtain ⟨hname, hhelpText⟩ := Counter.name_after name helpText calls
  rw [hasChar_eq_false_iff] at hline hhelp
  rw [← hname] at hline
  rw [← hhelpText] at hhelp
  have hlines : ∀ line ∈ (Counter.after float name helpText calls).sampleLines float,
      '\n' ∉ line.toList := Counter.not_newline_sampleLines hdist (goodKey_after hcalls) hline
  rw [Counter.toList_render, List.count_append, Counter.count_header hline hhelp,
    Counter.count_lineTail hlines, Counter.length_sampleLines]
  omega

/-! ### Values that are not read back -/

/-- The value of a label set that was counted once. -/
def Floats.once (float : Floats F) : F := float.add float.zero float.one

/-- One call. -/
def oneCall (float : Floats F) (labels : Dict String String) : Counter F :=
  .after float "c" "" [{ amount := float.one, labels }]

/-- Labels whose first name is `A`. -/
def labelsFrom (v : String) (rest : List (String × String))
    (h : (("A", v) :: rest).Pairwise fun a b => a.1 < b.1) : Dict String String where
  entries := ("A", v) :: rest
  nodup := List.pairwise_map.mpr (h.imp fun h => h.ne)

section

variable {vocabulary : Set String}

theorem labelKey_labelsFrom {v : String} {rest : List (String × String)}
    (h : (("A", v) :: rest).Pairwise fun a b => a.1 < b.1) :
    labelKey (labelsFrom v rest h) = ("A", v) :: rest :=
  List.Pairwise.insertionSort_eq (h.imp fun h => h.le)

theorem usesParts_oneCall {amount : F} {labels : Dict String String}
    (h : ∀ e ∈ labels.entries, isKeyword e.1.toList = true ∧
      ∃ v ∈ vocabulary, e.2.toList <:+: v.toList) : UsesParts vocabulary [{ amount, labels }] :=
  List.forall_mem_singleton.mpr h

theorem toList_render_oneCall (labels : Dict String String) :
    ((oneCall float labels).render float).toList = (oneCall float ∅).header ++
      '\n' :: (Counter.sampleLine float "c" (labelKey labels, float.once)).toList := by
  have hlines : (oneCall float labels).sampleLines float =
      [Counter.sampleLine float "c" (labelKey labels, float.once)] := rfl
  rw [Counter.toList_render, hlines, lineTail, List.flatMap_singleton]
  rfl

theorem isKeyword_A : isKeyword "A".toList = true := by decide

/-- A line break in a value is one in its line. -/
theorem not_oneLineEach {v : String} (hv : v ∈ vocabulary) (hline : hasChar '\n' v = true) :
    ¬ OneLineEach float vocabulary := by
  intro h
  have hsorted : [("A", v)].Pairwise fun a b : String × String => a.1 < b.1 :=
    List.pairwise_singleton _ _
  have huses : UsesParts vocabulary [{ amount := float.one, labels := labelsFrom v [] hsorted }] :=
    usesParts_oneCall (List.forall_mem_singleton.mpr ⟨isKeyword_A, v, hv, List.infix_refl _⟩)
  have hname : '\n' ∉ "c".toList := by decide
  have hhelp : '\n' ∉ "".toList := by decide
  have hcount := h "c" "" _ huses (by decide) (by decide)
  change ((oneCall float _).render float).toList.count '\n' + 1 = 2 + max 1 1 at hcount
  rw [toList_render_oneCall, List.count_append, List.count_cons_self,
    Counter.count_header hname hhelp, labelKey_labelsFrom] at hcount
  have hmem : '\n' ∈ (Counter.sampleLine float "c" ([("A", v)], float.once)).toList := by
    rw [hasChar, decide_eq_true_iff] at hline
    simp [Counter.sampleLine, Counter.formatLabels, hline]
  have hpos := List.count_pos_iff.mpr hmem
  omega

/-- Later names come after `A`. -/
theorem lt_of_laterName {name : List Char} (h : LaterName name) : "A" < String.ofList name := by
  obtain ⟨c, cs, rfl, hstart⟩ := keywordStart_of_isKeyword h.1
  have hlow : 65 ≤ c.toNat := by
    simp only [isKeywordStart, Bool.or_eq_true, Bool.and_eq_true, decide_eq_true_eq,
      beq_iff_eq] at hstart
    omega
  rw [String.lt_iff_toList_lt, String.toList_ofList, String.toList_ofList, List.cons_lt_cons_iff]
  by_cases hc : c = 'A'
  · refine .inr ⟨hc.symm, ?_⟩
    cases cs with
    | nil => exact absurd (by rw [hc]) h.2
    | cons d cs => exact List.nil_lt_cons d cs
  · have hne : c.toNat ≠ 65 := fun h => hc (Char.toNat_inj.mp h)
    have hlt : 65 < c.toNat := by omega
    exact .inl hlt

/-- Two labels, one with a later name. -/
def twoLabels (v : String) (name : List Char) (w : String) (h : LaterName name) :
    Dict String String :=
  labelsFrom v [(String.ofList name, w)] (List.pairwise_pair.mpr (lt_of_laterName h))

theorem usesParts_twoLabels (amount : F) {v w : String} {name : List Char} (h : LaterName name)
    (hv : IsPart vocabulary v.toList) (hw : IsPart vocabulary w.toList) :
    UsesParts vocabulary [{ amount, labels := twoLabels v name w h }] := by
  refine usesParts_oneCall (List.forall_mem_cons.mpr ⟨⟨isKeyword_A, hv⟩, ?_⟩)
  refine List.forall_mem_singleton.mpr ⟨?_, hw⟩
  rw [String.toList_ofList]
  exact h.1

theorem get_oneCall (labels labels' : Dict String String) :
    (oneCall float labels).get float labels' = if labelKey labels' = labelKey labels then
      float.once else float.zero := by
  change (((∅ : Dict LabelPairs F).set (labelKey labels) float.once).get?
    (labelKey labels')).getD float.zero = _
  rw [Dict.get?_set]
  split_ifs
  · simp
  · rfl

/-- A value that spells an end beside one that spells a start: the text is that of other
values. -/
theorem not_textDetermines {v w : String} (hv : v ∈ vocabulary) (hw : w ∈ vocabulary)
    (hend : labelMarks.SpellsEnd LaterName v.toList)
    (hstart : labelMarks.SpellsStart LaterName w.toList) : ¬ TextDetermines float vocabulary := by
  obtain ⟨k, hk, hkv⟩ := hend
  obtain ⟨m, hm, hmw⟩ := hstart
  intro h
  obtain ⟨endK, hendK⟩ : ∃ s : String, s.toList = '"' :: ',' :: (k ++ ['=']) :=
    ⟨_, String.toList_ofList⟩
  obtain ⟨startM, hstartM⟩ : ∃ s : String, s.toList = ',' :: (m ++ ['=', '"']) :=
    ⟨_, String.toList_ofList⟩
  have hempty : IsPart vocabulary "".toList := ⟨v, hv, List.nil_infix⟩
  have hfirst := usesParts_twoLabels float.one hk hempty ⟨w, hw, hstartM ▸ hmw⟩
  have hsecond := usesParts_twoLabels float.one hm ⟨v, hv, hendK ▸ hkv⟩ hempty
  -- both texts have A="",k=",m=""
  have htext : (oneCall float (twoLabels "" k startM hk)).render float =
      (oneCall float (twoLabels endK m "" hm)).render float := by
    rw [← String.toList_inj, toList_render_oneCall, toList_render_oneCall, twoLabels, twoLabels,
      labelKey_labelsFrom, labelKey_labelsFrom]
    simp [Counter.sampleLine, Counter.formatLabels, String.intercalate_cons_cons, hendK, hstartM]
  have hget := h "c" "" "" _ _ hfirst hsecond (.inl rfl) htext (twoLabels "" k startM hk)
  change (oneCall float _).get float _ = (oneCall float _).get float _ at hget
  have hne : labelKey (twoLabels "" k startM hk) ≠ labelKey (twoLabels endK m "" hm) := by
    rw [twoLabels, twoLabels, labelKey_labelsFrom, labelKey_labelsFrom]
    intro heq
    obtain rfl : "" = endK := (Prod.mk.inj (List.cons.inj heq).1).2
    cases hendK
  rw [get_oneCall, get_oneCall, if_pos rfl, if_neg hne] at hget
  exact float.add_one_ne hget

end

/-- **Rendering is unambiguous** exactly if the label values are distinguishable. -/
theorem counter_text_iff (float : Floats F) (vocabulary : Set String) :
    (TextDetermines float vocabulary ∧ OneLineEach float vocabulary) ↔
      Distinguishable vocabulary := by
  constructor
  · rintro ⟨htext, hone⟩
    refine ⟨fun v hv => ?_, ?_⟩
    · rw [Bool.eq_false_iff]
      exact fun hline => not_oneLineEach hv hline hone
    · by_contra hspells
      rw [not_or] at hspells
      obtain ⟨hend, hstart⟩ := hspells
      push Not at hend hstart
      obtain ⟨v, hv, hend⟩ := hend
      obtain ⟨w, hw, hstart⟩ := hstart
      exact not_textDetermines hv hw hend hstart htext
  · intro hdist
    exact ⟨textDetermines_of_distinguishable hdist, oneLineEach_of_distinguishable hdist⟩

/-- The floats that are whole numbers. -/
def wholeFloats : Floats ℕ where
  zero := 0
  one := 1
  add := (· + ·)
  add_one_ne := by decide
  text n := String.ofList (Nat.toDigits 10 n ++ ['.', '0'])
  text_injective n m h := by
    have hdigits := List.append_cancel_right (String.ofList_injective h)
    rw [← @Nat.ofDigitChars_ten_toDigits n, hdigits, Nat.ofDigitChars_ten_toDigits]
  text_chars n c hc := by
    have hdigit : ∀ k < 58, 48 ≤ k → Char.ofNat k ∈ "0123456789.e+-infa".toList := by decide
    rw [String.toList_ofList, List.mem_append] at hc
    rcases hc with hc | hc
    · have h := Nat.isDigit_of_mem_toDigits (by decide) (by decide) hc
      rw [Char.isDigit, Bool.and_eq_true, decide_eq_true_iff, decide_eq_true_iff] at h
      rw [← Char.ofNat_toNat c]
      exact hdigit c.toNat (Nat.lt_succ_of_le h.2) h.1
    · rcases List.mem_pair.mp hc with rfl | rfl <;> decide
  text_ne_zero n h := by
    have hlast := congrArg (fun s => s.toList.dropLast.getLast?) h
    simp at hlast

/-- A value that spells another label. -/
theorem one_text_of_two_counters :
    (Counter.after wholeFloats "boots" "" [⟨1, ⟨[("a", "x\",b=\"y")], by decide⟩⟩]).render
        wholeFloats =
      (Counter.after wholeFloats "boots" "" [⟨1, ⟨[("a", "x"), ("b", "y")], by decide⟩⟩]).render
        wholeFloats ∧
    (Counter.after wholeFloats "boots" "" [⟨1, ⟨[("a", "x\",b=\"y")], by decide⟩⟩]).get
        wholeFloats ⟨[("a", "x"), ("b", "y")], by decide⟩ ≠
      (Counter.after wholeFloats "boots" "" [⟨1, ⟨[("a", "x"), ("b", "y")], by decide⟩⟩]).get
        wholeFloats ⟨[("a", "x"), ("b", "y")], by decide⟩ := by
  decide +kernel

end TftpOS
