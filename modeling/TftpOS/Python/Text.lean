import Mathlib.Data.List.DropRight
import Mathlib.Data.String.Basic
import Mathlib.Data.List.Infix

/-!
# Python text

The `str` operations the sources use. Those that only look at single ASCII characters
(`replace` of one character by another, `startswith`, `in` for one character) are defined
outright. `str.lower`, the class `\w` of `re` and `repr` depend on the Unicode tables of the
interpreter and are the fields of `StrLib`, together with the documented facts the sources
rely on: lowering never empties a string, and on ASCII text both behave as the ASCII
operations. Every result that takes a `StrLib` holds for all of them.

`filled` is the truth test `if x:` on an optional string: `None` and `""` both count as
absent.
-/

namespace TftpOS

/-- Every character is ASCII. -/
def IsAscii (s : String) : Prop := ∀ c ∈ s.toList, c.toNat < 128

instance (s : String) : Decidable (IsAscii s) :=
  List.decidableBAll (fun c : Char => c.toNat < 128) s.toList

/-- Lower-casing of the ASCII letters. -/
def asciiLower (s : String) : String := String.ofList (s.toList.map Char.toLower)

/-- Upper-casing of the ASCII letters. -/
def asciiUpper (s : String) : String := String.ofList (s.toList.map Char.toUpper)

/-- `s.replace(a, b)` for two single characters. -/
def replaceChar (a b : Char) (s : String) : String :=
  String.ofList (s.toList.map fun c => if c = a then b else c)

/-- `s.startswith(p)`. -/
def startsWith (s p : String) : Bool := p.toList.isPrefixOf s.toList

/-- `c in s` for a single character. -/
def hasChar (c : Char) (s : String) : Bool := decide (c ∈ s.toList)

/-- `".." in s`. -/
def hasDotDot (s : String) : Bool := decide (['.', '.'] <:+: s.toList)

/-- `re.match` of a pattern `^…$`, given the test for what stands between: the `$` also matches
before a final newline. -/
def reLine (p : List Char → Bool) (s : String) : Bool :=
  p s.toList || (s.toList.getLast? == some '\n' && p s.toList.dropLast)

/-- The pattern `[A-Za-z0-9][A-Za-z0-9._-]*`. -/
def isSafeName : List Char → Bool
  | [] => false
  | c :: cs => c.isAlphanum && cs.all fun c => c.isAlphanum || c ∈ ['.', '_', '-']

/-- `c.isspace()`. -/
def isSpace (c : Char) : Bool :=
  let n := c.toNat
  9 ≤ n && n ≤ 13 || 28 ≤ n && n ≤ 32 || n == 0x85 || n == 0xA0 || n == 0x1680 ||
    0x2000 ≤ n && n ≤ 0x200A || n == 0x2028 || n == 0x2029 || n == 0x202F || n == 0x205F ||
    n == 0x3000

/-- `s.strip()`. -/
def strip (s : String) : String :=
  String.ofList ((s.toList.dropWhile isSpace).rdropWhile isSpace)

/-- `s.replace(c, "")` for a single character. -/
def removeChar (c : Char) (s : String) : String := String.ofList (s.toList.filter (· ≠ c))

/-- The parts of `str` that depend on the Unicode tables. -/
structure StrLib where
  /-- `str.lower`. -/
  lower : String → String
  /-- The class `\w` of the `re` module. -/
  isWord : Char → Bool
  /-- `repr` of a string, as `{x!r}` prints it. -/
  repr : String → String
  lower_eq_empty : ∀ s, lower s = "" ↔ s = ""
  lower_ascii : ∀ s, IsAscii s → lower s = asciiLower s
  isWord_ascii : ∀ c : Char, c.toNat < 128 → isWord c = (c.isAlphanum || c == '_')

/-- The same with `str.upper`. -/
structure CaseLib extends StrLib where
  /-- `str.upper`. -/
  upper : String → String
  upper_ascii : ∀ s, IsAscii s → upper s = asciiUpper s

/-- The truth test of an optional string: a present, non-empty value. -/
def filled : Option String → Option String := Option.filter (· ≠ "")

/-- The truth test of an optional list of strings. -/
def filledList : Option (List String) → Option (List String) := Option.filter (· ≠ [])

@[simp]
theorem filled_eq_some_iff {o : Option String} {s : String} :
    filled o = some s ↔ o = some s ∧ s ≠ "" := by
  simp [filled, Option.filter_eq_some_iff]

theorem replaceChar_eq_empty {a b : Char} {s : String} : replaceChar a b s = "" ↔ s = "" := by
  rw [replaceChar, ← String.toList_inj, ← String.toList_inj]
  simp

@[simp]
theorem toList_replaceChar (a b : Char) (s : String) :
    (replaceChar a b s).toList = s.toList.map fun c => if c = a then b else c := by
  rw [replaceChar, String.toList_ofList]

theorem hasChar_eq_false_iff {c : Char} {s : String} : hasChar c s = false ↔ c ∉ s.toList := by
  rw [hasChar, decide_eq_false_iff_not]

theorem replaceChar_eq_self {a b : Char} {s : String} (h : hasChar a s = false) :
    replaceChar a b s = s := by
  have hne : ∀ c ∈ s.toList, (if c = a then b else c) = id c := by
    intro c hc
    refine if_neg ?_
    rintro rfl
    simp [hasChar, hc] at h
  rw [← String.toList_inj, toList_replaceChar, List.map_congr_left hne, List.map_id]

theorem hasChar_replaceChar_self {a b : Char} {s : String} (hab : a ≠ b) :
    hasChar a (replaceChar a b s) = false := by
  simp only [hasChar, toList_replaceChar, decide_eq_false_iff_not, List.mem_map, not_exists,
    not_and]
  intro c _
  split_ifs with h
  · exact hab.symm
  · exact h

theorem hasChar_replaceChar {a b : Char} {s : String} (h : hasChar a s = true) :
    hasChar b (replaceChar a b s) = true := by
  have hmem : a ∈ s.toList := by simpa [hasChar] using h
  simp only [hasChar, toList_replaceChar, decide_eq_true_eq, List.mem_map]
  exact ⟨a, hmem, if_pos rfl⟩

private theorem toLower_of_lt {c : Char} (h : c.toNat < 128) :
    c.toLower.toNat < 128 ∧ c.toLower.toLower = c.toLower := by
  -- there are only 128 code points to look at
  have hall : ∀ n < 128, (Char.ofNat n).toLower.toNat < 128 ∧
      (Char.ofNat n).toLower.toLower = (Char.ofNat n).toLower := by decide
  simpa using hall c.toNat h

theorem isAscii_asciiLower {s : String} (hs : IsAscii s) : IsAscii (asciiLower s) := by
  intro c hc
  rw [asciiLower, String.toList_ofList] at hc
  obtain ⟨d, hd, rfl⟩ := List.mem_map.mp hc
  exact (toLower_of_lt (hs d hd)).1

theorem asciiLower_asciiLower {s : String} (hs : IsAscii s) :
    asciiLower (asciiLower s) = asciiLower s := by
  rw [asciiLower, asciiLower, String.toList_ofList, List.map_map, String.ofList_inj]
  exact List.map_congr_left fun c hc => (toLower_of_lt (hs c hc)).2

theorem startsWith_iff {s p : String} : startsWith s p = true ↔ ∃ r, s = p ++ r := by
  rw [startsWith, List.isPrefixOf_iff_prefix]
  constructor
  · rintro ⟨cs, hcs⟩
    exact ⟨String.ofList cs, by rw [← String.toList_inj, String.toList_append, String.toList_ofList,
      hcs]⟩
  · rintro ⟨r, rfl⟩
    exact ⟨r.toList, String.toList_append.symm⟩

/-- `s[len(p):]` where `s` starts with `p`. -/
theorem ofList_drop_append (p r : String) :
    String.ofList ((p ++ r).toList.drop p.length) = r := by
  rw [String.toList_append, ← String.length_toList, List.drop_left, String.ofList_toList]

/-- The `$` of a pattern also lets a text through that has one newline behind what it matches. -/
theorem reLine_iff {p : List Char → Bool} {s : String} :
    reLine p s = true ↔ p s.toList = true ∨ ∃ t, s = t ++ "\n" ∧ p t.toList = true := by
  have hline : ("\n" : String).toList = ['\n'] := rfl
  rw [reLine, Bool.or_eq_true, Bool.and_eq_true, beq_iff_eq]
  refine or_congr_right ?_
  constructor
  · rintro ⟨hlast, hp⟩
    refine ⟨String.ofList s.toList.dropLast, ?_, by rwa [String.toList_ofList]⟩
    rw [← String.toList_inj, String.toList_append, String.toList_ofList, hline,
      List.dropLast_append_getLast? _ hlast]
  · rintro ⟨t, rfl, hp⟩
    rw [String.toList_append, hline, List.getLast?_append, List.dropLast_append]
    simpa using hp

/-- The characters of a text that is let through are those of the pattern, and a newline. -/
theorem forall_of_reLine {p : List Char → Bool} {P : Char → Prop} {s : String}
    (hp : ∀ cs, p cs = true → ∀ c ∈ cs, P c) (h : reLine p s = true) :
    ∀ c ∈ s.toList, P c ∨ c = '\n' := by
  intro c hc
  rcases reLine_iff.mp h with hs | ⟨t, rfl, ht⟩
  · exact .inl (hp _ hs c hc)
  · rw [String.toList_append, List.mem_append] at hc
    exact hc.imp (hp _ ht c) List.mem_singleton.mp

/-! ### Surrounding whitespace -/

/-- The whitespace before the text. -/
def leading (s : String) : List Char := s.toList.takeWhile isSpace

/-- The whitespace behind the text. -/
def trailing (s : String) : List Char := (s.toList.dropWhile isSpace).rtakeWhile isSpace

theorem toList_strip (s : String) :
    (strip s).toList = (s.toList.dropWhile isSpace).rdropWhile isSpace := by
  rw [strip, String.toList_ofList]

theorem toList_eq_padded (s : String) :
    s.toList = leading s ++ ((strip s).toList ++ trailing s) := by
  rw [toList_strip, trailing, List.rdropWhile_append_rtakeWhile, leading,
    List.takeWhile_append_dropWhile]

theorem isSpace_of_mem_leading {s : String} {c : Char} (h : c ∈ leading s) : isSpace c = true :=
  List.mem_takeWhile_imp h

theorem isSpace_of_mem_trailing {s : String} {c : Char} (h : c ∈ trailing s) : isSpace c = true :=
  List.mem_rtakeWhile_imp h

/-- A stripped text does not end in a newline, so `$` matches at its end alone. -/
theorem reLine_strip (p : List Char → Bool) (s : String) :
    reLine p (strip s) = p (strip s).toList := by
  have hlast : ((strip s).toList.getLast? == some '\n') = false := by
    rw [toList_strip, beq_eq_false_iff_ne]
    intro h
    have hne : (s.toList.dropWhile isSpace).rdropWhile isSpace ≠ [] := fun hnil => by
      rw [hnil] at h
      cases h
    rw [List.getLast?_eq_some_getLast hne, Option.some.injEq] at h
    have hspace := List.rdropWhile_last_not isSpace _ hne
    rw [h] at hspace
    exact hspace rfl
  rw [reLine, hlast, Bool.false_and, Bool.or_false]

/-- Text between spaces, none at its own ends, is determined by the whole. -/
theorem padded_inj {l l' b b' t t' : List Char} (hl : ∀ c ∈ l, isSpace c = true)
    (hl' : ∀ c ∈ l', isSpace c = true) (ht : ∀ c ∈ t, isSpace c = true)
    (ht' : ∀ c ∈ t', isSpace c = true) (hb : b ≠ []) (hb' : b' ≠ [])
    (hsolid : ∀ c ∈ b, isSpace c = false) (hsolid' : ∀ c ∈ b', isSpace c = false) :
    l ++ (b ++ t) = l' ++ (b' ++ t') ↔ l = l' ∧ b = b' ∧ t = t' := by
  have htake : ∀ {l b t : List Char}, (∀ c ∈ l, isSpace c = true) → b ≠ [] →
      (∀ c ∈ b, isSpace c = false) → (l ++ (b ++ t)).takeWhile isSpace = l := by
    intro l b t hl hb hsolid
    obtain ⟨c, b, rfl⟩ := List.exists_cons_of_ne_nil hb
    rw [List.takeWhile_append_of_pos hl, List.cons_append,
      List.takeWhile_cons_of_neg (by simp [hsolid c (List.mem_cons_self ..)]), List.append_nil]
  have hrest : ∀ {b t : List Char}, (∀ c ∈ b, isSpace c = false) → (∀ c ∈ t, isSpace c = true) →
      (b ++ t).takeWhile (fun c => !isSpace c) = b := by
    intro b t hsolid ht
    rw [List.takeWhile_append_of_pos (by simpa using hsolid)]
    rcases t with _ | ⟨c, t⟩
    · simp
    · rw [List.takeWhile_cons_of_neg (by simp [ht c (List.mem_cons_self ..)]), List.append_nil]
  constructor
  · intro h
    have hsame : l = l' := by
      have htook := congrArg (List.takeWhile isSpace) h
      rwa [htake hl hb hsolid, htake hl' hb' hsolid'] at htook
    subst hsame
    rw [List.append_cancel_left_eq] at h
    have hbody : b = b' := by
      have htook := congrArg (List.takeWhile fun c => !isSpace c) h
      rwa [hrest hsolid ht, hrest hsolid' ht'] at htook
    subst hbody
    exact ⟨rfl, rfl, List.append_cancel_left h⟩
  · rintro ⟨rfl, rfl, rfl⟩
    rfl

namespace StrLib

variable (py : StrLib)

/-- On ASCII text, lower-casing twice is lower-casing once. -/
theorem lower_lower {s : String} (hs : IsAscii s) : py.lower (py.lower s) = py.lower s := by
  rw [py.lower_ascii s hs, py.lower_ascii _ (isAscii_asciiLower hs), asciiLower_asciiLower hs]

/-- The ASCII operations themselves, as an interpreter that only knows ASCII. -/
def ascii : StrLib where
  lower := asciiLower
  isWord c := c.isAlphanum || c == '_'
  repr s := "'" ++ s ++ "'"
  lower_eq_empty s := by
    rw [asciiLower, ← String.toList_inj, ← String.toList_inj]
    simp
  lower_ascii _ _ := rfl
  isWord_ascii _ _ := rfl

end StrLib

/-- The ASCII operations, upper-casing included. -/
def CaseLib.ascii : CaseLib := { StrLib.ascii with upper := asciiUpper, upper_ascii _ _ := rfl }

end TftpOS
