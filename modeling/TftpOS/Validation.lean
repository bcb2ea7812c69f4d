import TftpOS.Python.Text
import TftpOS.Python.Value

/-!
# Input validation

`validate_mac` and `normalize_mac` of `tftpos/validation.py`. A MAC is accepted bare, as twelve
hexadecimal digits, or with a `:` or a `-` between each two groups of two, and may stand between
spaces. Its canonical form has lower-case digits and colons.
-/

namespace TftpOS

/-- The class `[0-9a-fA-F]`. -/
def isHexDigit (c : Char) : Bool :=
  c.isDigit || ('a' ≤ c && c ≤ 'f') || ('A' ≤ c && c ≤ 'F')

/-- The pattern `([0-9a-fA-F]{2}[:\-]){n}[0-9a-fA-F]{2}`. -/
def isMacGroups : ℕ → List Char → Bool
  | 0, [a, b] => isHexDigit a && isHexDigit b
  | n + 1, a :: b :: sep :: cs =>
    isHexDigit a && isHexDigit b && (sep == ':' || sep == '-') && isMacGroups n cs
  | _, _ => false

/-- The pattern `[0-9a-fA-F]{12}`. -/
def isBareMac (cs : List Char) : Bool := cs.length == 12 && cs.all isHexDigit

/-- `validate_mac`. -/
def validateMac (mac : String) : Bool :=
  reLine (isMacGroups 5) (strip mac) || reLine isBareMac (strip mac)

/-- `":".join(bare[i : i + 2] for i in range(0, 12, 2))`. -/
def joinGroups (bare : String) : String :=
  ":".intercalate ((List.range 6).map fun i => String.ofList ((bare.toList.drop (2 * i)).take 2))

/-- `normalize_mac`. -/
def normalizeMac (py : StrLib) (mac : String) : Except PyExc String :=
  if !validateMac mac then .error ⟨.valueError, "invalid MAC address: " ++ py.repr mac⟩
  else .ok (joinGroups (py.lower (removeChar '-' (removeChar ':' (strip mac)))))

/-! ### Digits and separators -/

/-- What `mac.lower().replace("-", ":")` makes of a character. -/
def normChar (c : Char) : Char := if c.toLower = '-' then ':' else c.toLower

theorem toNat_of_isHexDigit {c : Char} (h : isHexDigit c = true) : c.toNat < 128 := by
  simp only [isHexDigit, Char.isDigit, Bool.or_eq_true, Bool.and_eq_true, decide_eq_true_eq,
    ge_iff_le, UInt32.le_iff_toNat_le, Char.le_def] at h
  have h9 : ('9' : Char).val.toNat = 57 := rfl
  have hf : ('f' : Char).val.toNat = 102 := rfl
  have hF : ('F' : Char).val.toNat = 70 := rfl
  have hc : c.toNat = c.val.toNat := rfl
  omega

/-- A hexadecimal digit is no separator and no space, also in lower case. -/
theorem facts_of_isHexDigit {c : Char} (h : isHexDigit c = true) :
    c ≠ ':' ∧ c ≠ '-' ∧ normChar c = c.toLower ∧ isSpace c.toLower = false ∧ c.toLower ≠ ':' := by
  have hall : ∀ n < 128, isHexDigit (Char.ofNat n) = true → Char.ofNat n ≠ ':' ∧
      Char.ofNat n ≠ '-' ∧ normChar (Char.ofNat n) = (Char.ofNat n).toLower ∧
        isSpace (Char.ofNat n).toLower = false ∧ (Char.ofNat n).toLower ≠ ':' := by decide
  have hc := hall c.toNat (toNat_of_isHexDigit h)
  rw [Char.ofNat_toNat] at hc
  exact hc h

/-- Whitespace has no letter case and is no separator. -/
theorem normChar_of_isSpace {c : Char} (h : isSpace c = true) : normChar c = c := by
  have hlower : c.toLower = c := by
    refine dif_neg ?_
    rintro ⟨hA, hZ⟩
    have h65 : ('A' : Char).val.toNat = 65 := rfl
    have h90 : ('Z' : Char).val.toNat = 90 := rfl
    have hc : c.toNat = c.val.toNat := rfl
    rw [ge_iff_le, UInt32.le_iff_toNat_le] at hA
    rw [UInt32.le_iff_toNat_le] at hZ
    simp only [isSpace, Bool.or_eq_true, Bool.and_eq_true, decide_eq_true_eq, beq_iff_eq] at h
    omega
  have hsep : c ≠ '-' := by
    rintro rfl
    exact absurd h (by decide)
  rw [normChar, hlower, if_neg hsep]

/-- The digits between the separators. -/
def digits (cs : List Char) : List Char := (cs.filter (· ≠ ':')).filter (· ≠ '-')

/-- Digits in groups of two, with colons between them. -/
def grouped : ℕ → List Char → List Char
  | 0, ds => ds
  | n + 1, a :: b :: ds => a :: b :: ':' :: grouped n ds
  | _ + 1, ds => ds

theorem grouped_inj {n : ℕ} {ds ds' : List Char} (h : ds.length = 2 * n + 2)
    (h' : ds'.length = 2 * n + 2) : grouped n ds = grouped n ds' ↔ ds = ds' := by
  induction n generalizing ds ds' with
  | zero => rfl
  | succ n ih =>
    rcases ds with _ | ⟨a, _ | ⟨b, ds⟩⟩ <;> simp only [List.length_cons, List.length_nil] at h
    · omega
    · omega
    rcases ds' with _ | ⟨a', _ | ⟨b', ds'⟩⟩ <;> simp only [List.length_cons, List.length_nil] at h'
    · omega
    · omega
    simp [grouped, @ih ds ds' (by omega) (by omega)]

theorem length_grouped {n : ℕ} {ds : List Char} (h : ds.length = 2 * n + 2) :
    (grouped n ds).length = 3 * n + 2 := by
  induction n generalizing ds with
  | zero => exact h
  | succ n ih =>
    rcases ds with _ | ⟨a, _ | ⟨b, ds⟩⟩ <;> simp only [List.length_cons, List.length_nil] at h
    · omega
    · omega
    simp only [grouped, List.length_cons, @ih ds (by omega)]
    omega

theorem digits_cons_of_isHexDigit {c : Char} (h : isHexDigit c = true) (cs : List Char) :
    digits (c :: cs) = c :: digits cs := by
  obtain ⟨hcolon, hdash, -⟩ := facts_of_isHexDigit h
  simp [digits, hcolon, hdash]

theorem digits_cons_of_sep {c : Char} (h : c = ':' ∨ c = '-') (cs : List Char) :
    digits (c :: cs) = digits cs := by
  rcases h with rfl | rfl <;> simp [digits]

/-- A list of groups is two digits alone, or two digits, a separator and more groups. -/
theorem isMacGroups_iff {n : ℕ} {cs : List Char} :
    isMacGroups n cs = true ↔
      (n = 0 ∧ ∃ a b, cs = [a, b] ∧ isHexDigit a = true ∧ isHexDigit b = true) ∨
      ∃ m a b sep rest, n = m + 1 ∧ cs = a :: b :: sep :: rest ∧ isHexDigit a = true ∧
        isHexDigit b = true ∧ (sep = ':' ∨ sep = '-') ∧ isMacGroups m rest = true := by
  rcases n with _ | n
  · rcases cs with _ | ⟨a, _ | ⟨b, _ | ⟨c, cs⟩⟩⟩ <;> simp [isMacGroups]
  · rcases cs with _ | ⟨a, _ | ⟨b, _ | ⟨c, cs⟩⟩⟩ <;> simp [isMacGroups, and_assoc]

/-- What the lookups make of the groups of a MAC: its digits in lower case, in groups. -/
theorem facts_of_isMacGroups {n : ℕ} {cs : List Char} (h : isMacGroups n cs = true) :
    cs.map normChar = grouped n ((digits cs).map Char.toLower) ∧
      (digits cs).length = 2 * n + 2 ∧ cs.length = 3 * n + 2 ∧
      (∀ d ∈ digits cs, isHexDigit d = true) ∧
      ∀ c ∈ cs, isHexDigit c = true ∨ c = ':' ∨ c = '-' := by
  have hsep : ∀ {c : Char}, c = ':' ∨ c = '-' → normChar c = ':' := by
    rintro c (rfl | rfl) <;> decide
  induction n generalizing cs with
  | zero =>
    obtain ⟨-, a, b, rfl, ha, hb⟩ | ⟨m, a, b, sep, rest, hm, -⟩ := isMacGroups_iff.mp h
    · rw [digits_cons_of_isHexDigit ha, digits_cons_of_isHexDigit hb]
      simp [grouped, digits, ha, hb, (facts_of_isHexDigit ha).2.2.1, (facts_of_isHexDigit hb).2.2.1]
    · exact absurd hm (Nat.succ_ne_zero m).symm
  | succ n ih =>
    obtain ⟨h0, -⟩ | ⟨m, a, b, sep, rest, hm, rfl, ha, hb, hs, hrest⟩ := isMacGroups_iff.mp h
    · exact absurd h0 (Nat.succ_ne_zero n)
    · obtain rfl := Nat.succ.inj hm
      obtain ⟨hmap, hdigits, hlength, hhex, hall⟩ := ih hrest
      rw [digits_cons_of_isHexDigit ha, digits_cons_of_isHexDigit hb, digits_cons_of_sep hs]
      refine ⟨?_, ?_, ?_, ?_, ?_⟩
      · simp [grouped, hmap, hsep hs, (facts_of_isHexDigit ha).2.2.1,
          (facts_of_isHexDigit hb).2.2.1]
      · simp only [List.length_cons]
        omega
      · simp only [List.length_cons]
        omega
      · simpa [ha, hb] using hhex
      · simpa [ha, hb, hs] using hall

theorem facts_of_isBareMac {cs : List Char} (h : isBareMac cs = true) :
    digits cs = cs ∧ cs.length = 12 ∧ ∀ c ∈ cs, isHexDigit c = true := by
  rw [isBareMac, Bool.and_eq_true, beq_iff_eq, List.all_eq_true] at h
  refine ⟨?_, h.1, h.2⟩
  have hkept : ∀ c ∈ cs, c ≠ ':' ∧ c ≠ '-' := fun c hc =>
    ⟨(facts_of_isHexDigit (h.2 c hc)).1, (facts_of_isHexDigit (h.2 c hc)).2.1⟩
  have hcolon : cs.filter (· ≠ ':') = cs :=
    List.filter_eq_self.mpr fun c hc => decide_eq_true (hkept c hc).1
  rw [digits, hcolon]
  exact List.filter_eq_self.mpr fun c hc => decide_eq_true (hkept c hc).2

/-! ### The canonical form -/

theorem validateMac_iff {mac : String} :
    validateMac mac = true ↔
      isMacGroups 5 (strip mac).toList = true ∨ isBareMac (strip mac).toList = true := by
  rw [validateMac, reLine_strip, reLine_strip, Bool.or_eq_true]

/-- An accepted MAC has twelve digits. -/
theorem facts_of_validateMac {mac : String} (h : validateMac mac = true) :
    (digits (strip mac).toList).length = 12 ∧
      (∀ d ∈ digits (strip mac).toList, isHexDigit d = true) ∧
      ∀ c ∈ (strip mac).toList, isHexDigit c = true ∨ c = ':' ∨ c = '-' := by
  rcases validateMac_iff.mp h with hgroups | hbare
  · obtain ⟨-, hdigits, -, hhex, hall⟩ := facts_of_isMacGroups hgroups
    exact ⟨hdigits, hhex, hall⟩
  · obtain ⟨hdigits, hlength, hhex⟩ := facts_of_isBareMac hbare
    rw [hdigits]
    exact ⟨hlength, hhex, fun c hc => .inl (hhex c hc)⟩

private theorem toList_join_range {n : ℕ} {ds : List Char} (h : ds.length = 2 * n + 2) :
    (":".intercalate ((List.range (n + 1)).map fun i =>
      String.ofList ((ds.drop (2 * i)).take 2))).toList = grouped n ds := by
  induction n generalizing ds with
  | zero => simp [grouped, List.take_of_length_le, h]
  | succ n ih =>
    rcases ds with _ | ⟨a, _ | ⟨b, ds⟩⟩ <;> simp only [List.length_cons, List.length_nil] at h
    · omega
    · omega
    have hrest : ((List.range (n + 1)).map fun i =>
        String.ofList (((a :: b :: ds).drop (2 * (i + 1))).take 2)) =
        (List.range (n + 1)).map fun i => String.ofList ((ds.drop (2 * i)).take 2) := rfl
    rw [List.range_succ_eq_map, List.map_cons, List.map_map, Function.comp_def]
    simp only [Nat.succ_eq_add_one]
    rw [hrest]
    have hgroups := @ih ds (by omega)
    rw [List.range_succ_eq_map, List.map_cons] at hgroups ⊢
    rw [String.intercalate_cons_cons]
    simp only [String.toList_append, hgroups]
    simp [grouped]

theorem toList_joinGroups (bare : String) (h : bare.toList.length = 12) :
    (joinGroups bare).toList = grouped 5 bare.toList :=
  toList_join_range h

theorem normalizeMac_of_validateMac (py : StrLib) {mac : String} (h : validateMac mac = true) :
    normalizeMac py mac =
      .ok (String.ofList (grouped 5 ((digits (strip mac).toList).map Char.toLower))) := by
  obtain ⟨hlength, hhex, -⟩ := facts_of_validateMac h
  have hbare : (removeChar '-' (removeChar ':' (strip mac))).toList =
      digits (strip mac).toList := by
    simp only [removeChar, String.toList_ofList, digits]
  have hascii : IsAscii (removeChar '-' (removeChar ':' (strip mac))) := by
    intro c hc
    rw [hbare] at hc
    exact toNat_of_isHexDigit (hhex c hc)
  have hlower : (py.lower (removeChar '-' (removeChar ':' (strip mac)))).toList =
      (digits (strip mac).toList).map Char.toLower := by
    rw [py.lower_ascii _ hascii, asciiLower, String.toList_ofList, hbare]
  have hjoined := toList_joinGroups (py.lower (removeChar '-' (removeChar ':' (strip mac))))
    (by rw [hlower, List.length_map, hlength])
  rw [hlower] at hjoined
  have haccepted : ¬ (!validateMac mac) = true := by simp [h]
  rw [normalizeMac, if_neg haccepted, ← hjoined, String.ofList_toList]

/-- Two accepted MACs have one canonical form exactly when their digits agree up to letter case. -/
theorem normalizeMac_eq_iff {py : StrLib} {mac mac' : String} (h : validateMac mac = true)
    (h' : validateMac mac' = true) :
    normalizeMac py mac = normalizeMac py mac' ↔
      (digits (strip mac).toList).map Char.toLower =
        (digits (strip mac').toList).map Char.toLower := by
  rw [normalizeMac_of_validateMac py h, normalizeMac_of_validateMac py h', Except.ok.injEq,
    String.ofList_inj]
  refine grouped_inj ?_ ?_
  · rw [List.length_map, (facts_of_validateMac h).1]
  · rw [List.length_map, (facts_of_validateMac h').1]

/-! ### Normal forms -/

/-- The hexadecimal digits of a text. -/
def hexDigitsOf (mac : String) : List Char := mac.toList.filter isHexDigit

/-- The class `[0-9a-f]`. -/
def isLowerHexDigit (c : Char) : Bool := c.isDigit || ('a' ≤ c && c ≤ 'f')

theorem facts_of_toLower {c : Char} (h : isHexDigit c = true) :
    isLowerHexDigit c.toLower = true ∧ isHexDigit c.toLower = true ∧
      c.toLower.toLower = c.toLower := by
  have hall : ∀ n < 128, isHexDigit (Char.ofNat n) = true →
      isLowerHexDigit (Char.ofNat n).toLower = true ∧ isHexDigit (Char.ofNat n).toLower = true ∧
        (Char.ofNat n).toLower.toLower = (Char.ofNat n).toLower := by decide
  have hc := hall c.toNat (toNat_of_isHexDigit h)
  rw [Char.ofNat_toNat] at hc
  exact hc h

theorem isHexDigit_of_isSpace {c : Char} (h : isSpace c = true) : isHexDigit c = false := by
  rw [Bool.eq_false_iff]
  intro hhex
  have hlower : c.toLower = c := by
    have hnorm := normChar_of_isSpace h
    rw [(facts_of_isHexDigit hhex).2.2.1] at hnorm
    exact hnorm
  have hsolid := (facts_of_isHexDigit hhex).2.2.2.1
  rw [hlower, h] at hsolid
  cases hsolid

theorem strip_eq_self {s : String} (h : ∀ c ∈ s.toList, isSpace c = false) : strip s = s := by
  have hdrop : s.toList.dropWhile isSpace = s.toList :=
    List.dropWhile_eq_self_iff.mpr fun hlt => by simp [h _ (List.getElem_mem hlt)]
  have hrdrop : s.toList.rdropWhile isSpace = s.toList :=
    List.rdropWhile_eq_self_iff.mpr fun hne => by simp [h _ (List.getLast_mem hne)]
  rw [strip, hdrop, hrdrop, String.ofList_toList]

/-- Groups of digits are a MAC, and its digits are those of the groups. -/
theorem facts_of_grouped {n : ℕ} {ds : List Char} (h : ds.length = 2 * n + 2)
    (hhex : ∀ d ∈ ds, isHexDigit d = true) :
    isMacGroups n (grouped n ds) = true ∧ digits (grouped n ds) = ds := by
  induction n generalizing ds with
  | zero =>
    rcases ds with _ | ⟨a, _ | ⟨b, _ | ⟨c, ds⟩⟩⟩ <;>
      simp only [List.length_cons, List.length_nil] at h
    · omega
    · omega
    · have ha := hhex a (by simp)
      have hb := hhex b (by simp)
      rw [grouped, digits_cons_of_isHexDigit ha, digits_cons_of_isHexDigit hb]
      exact ⟨by simp [isMacGroups, ha, hb], rfl⟩
    · omega
  | succ n ih =>
    rcases ds with _ | ⟨a, _ | ⟨b, ds⟩⟩ <;> simp only [List.length_cons, List.length_nil] at h
    · omega
    · omega
    have ha := hhex a (by simp)
    have hb := hhex b (by simp)
    obtain ⟨hgroups, hdigits⟩ := @ih ds (by omega) fun d hd => hhex d (by simp [hd])
    rw [grouped, digits_cons_of_isHexDigit ha, digits_cons_of_isHexDigit hb,
      digits_cons_of_sep (.inl rfl), hdigits]
    exact ⟨by simp [isMacGroups, ha, hb, hgroups], rfl⟩

/-- The digits of an accepted MAC are what stands between its separators. -/
theorem hexDigitsOf_eq {mac : String} (h : validateMac mac = true) :
    hexDigitsOf mac = digits (strip mac).toList := by
  obtain ⟨-, hhex, hall⟩ := facts_of_validateMac h
  have hspaces : ∀ {l : List Char}, (∀ c ∈ l, isSpace c = true) → l.filter isHexDigit = [] :=
    fun hl => List.filter_eq_nil_iff.mpr fun c hc => by simp [isHexDigit_of_isSpace (hl c hc)]
  rw [hexDigitsOf, toList_eq_padded, List.filter_append, List.filter_append,
    hspaces fun c => isSpace_of_mem_leading, hspaces fun c => isSpace_of_mem_trailing,
    List.nil_append, List.append_nil, digits, List.filter_filter]
  refine List.filter_congr fun c hc => ?_
  rcases hall c hc with hdigit | rfl | rfl
  · obtain ⟨hcolon, hdash, -⟩ := facts_of_isHexDigit hdigit
    simp [hdigit, hcolon, hdash]
  · decide
  · decide

/-- What an accepted MAC is normalised to, by its digits. -/
theorem normalizeMac_eq_grouped (py : StrLib) {mac : String} (h : validateMac mac = true) :
    normalizeMac py mac =
      .ok (String.ofList (grouped 5 ((hexDigitsOf mac).map Char.toLower))) := by
  rw [normalizeMac_of_validateMac py h, hexDigitsOf_eq h]

/-- The normal form of an accepted MAC is accepted, and its digits are those of the MAC. -/
theorem facts_of_normalForm {ds : List Char} (hlength : ds.length = 12)
    (hhex : ∀ d ∈ ds, isHexDigit d = true) :
    validateMac (String.ofList (grouped 5 (ds.map Char.toLower))) = true ∧
      hexDigitsOf (String.ofList (grouped 5 (ds.map Char.toLower))) = ds.map Char.toLower := by
  have hlower : ∀ d ∈ ds.map Char.toLower, isHexDigit d = true := by
    intro d hd
    obtain ⟨c, hc, rfl⟩ := List.mem_map.mp hd
    exact (facts_of_toLower (hhex c hc)).2.1
  obtain ⟨hgroups, hdigits⟩ :=
    @facts_of_grouped 5 (ds.map Char.toLower) (by rw [List.length_map, hlength]) hlower
  have hsolid : ∀ c ∈ (String.ofList (grouped 5 (ds.map Char.toLower))).toList,
      isSpace c = false := by
    intro c hc
    rw [String.toList_ofList] at hc
    obtain ⟨-, -, -, -, hall⟩ := facts_of_isMacGroups hgroups
    rcases hall c hc with hdigit | rfl | rfl
    · rw [Bool.eq_false_iff]
      intro hspace
      rw [isHexDigit_of_isSpace hspace] at hdigit
      cases hdigit
    · decide
    · decide
  have hvalid : validateMac (String.ofList (grouped 5 (ds.map Char.toLower))) = true := by
    rw [validateMac_iff, strip_eq_self hsolid, String.toList_ofList]
    exact .inl hgroups
  exact ⟨hvalid, by rw [hexDigitsOf_eq hvalid, strip_eq_self hsolid, String.toList_ofList, hdigits]⟩

/-- The groups of a normal form. -/
theorem exists_groups {ds : List Char} (hlength : ds.length = 12)
    (hlower : ∀ d ∈ ds, isLowerHexDigit d = true) :
    ∃ groups : List String, groups.length = 6 ∧
      (∀ g ∈ groups, g.length = 2 ∧ ∀ c ∈ g.toList, isLowerHexDigit c = true) ∧
      String.ofList (grouped 5 ds) = ":".intercalate groups := by
  refine ⟨(List.range 6).map fun i => String.ofList ((ds.drop (2 * i)).take 2), by simp, ?_, ?_⟩
  · intro g hg
    obtain ⟨i, hi, rfl⟩ := List.mem_map.mp hg
    rw [List.mem_range] at hi
    constructor
    · rw [← String.length_toList, String.toList_ofList, List.length_take, List.length_drop]
      omega
    · intro c hc
      rw [String.toList_ofList] at hc
      exact hlower c (List.mem_of_mem_drop (List.mem_of_mem_take hc))
  · have hjoined := toList_joinGroups (String.ofList ds) (by rw [String.toList_ofList, hlength])
    rw [String.toList_ofList] at hjoined
    rw [← hjoined, String.ofList_toList, joinGroups, String.toList_ofList]

/-- **Normal forms**: exactly the accepted texts have one, it is canonical, and two of them agree
exactly when the digits do. -/
theorem normalizeMac_canonical (py : StrLib) (mac : String) :
    ((∃ r, normalizeMac py mac = .ok r) ↔ validateMac mac = true) ∧
      (∀ r, normalizeMac py mac = .ok r →
        (∃ groups : List String, groups.length = 6 ∧
          (∀ g ∈ groups, g.length = 2 ∧ ∀ c ∈ g.toList, isLowerHexDigit c = true) ∧
          r = ":".intercalate groups) ∧
        validateMac r = true ∧ normalizeMac py r = .ok r) ∧
      ∀ mac' r r', normalizeMac py mac = .ok r → normalizeMac py mac' = .ok r' →
        (hexDigitsOf mac).length = 12 ∧ (hexDigitsOf mac').length = 12 ∧
          (r = r' ↔
            (hexDigitsOf mac).map Char.toLower = (hexDigitsOf mac').map Char.toLower) := by
  have haccepted : ∀ {m r}, normalizeMac py m = .ok r → validateMac m = true := by
    intro m r h
    by_contra hrefused
    rw [normalizeMac, if_pos (by simpa using hrefused)] at h
    cases h
  have hfacts : ∀ {m}, validateMac m = true →
      (hexDigitsOf m).length = 12 ∧ ∀ d ∈ hexDigitsOf m, isHexDigit d = true := by
    intro m h
    obtain ⟨hlength, hhex, -⟩ := facts_of_validateMac h
    rw [hexDigitsOf_eq h]
    exact ⟨hlength, hhex⟩
  refine ⟨⟨?_, ?_⟩, ?_, ?_⟩
  · rintro ⟨r, h⟩
    exact haccepted h
  · exact fun h => ⟨_, normalizeMac_eq_grouped py h⟩
  · intro r h
    obtain ⟨hlength, hhex⟩ := hfacts (haccepted h)
    obtain ⟨hvalid, hdigits⟩ := facts_of_normalForm hlength hhex
    rw [normalizeMac_eq_grouped py (haccepted h), Except.ok.injEq] at h
    subst h
    have htwice : ((hexDigitsOf mac).map Char.toLower).map Char.toLower =
        (hexDigitsOf mac).map Char.toLower := by
      rw [List.map_map]
      exact List.map_congr_left fun d hd => (facts_of_toLower (hhex d hd)).2.2
    refine ⟨exists_groups (by rw [List.length_map, hlength]) ?_, hvalid, ?_⟩
    · intro d hd
      obtain ⟨c, hc, rfl⟩ := List.mem_map.mp hd
      exact (facts_of_toLower (hhex c hc)).1
    · rw [normalizeMac_eq_grouped py hvalid, hdigits, htwice]
  · intro mac' r r' h h'
    have hagree := @normalizeMac_eq_iff py mac mac' (haccepted h) (haccepted h')
    rw [h, h', Except.ok.injEq, ← hexDigitsOf_eq (haccepted h),
      ← hexDigitsOf_eq (haccepted h')] at hagree
    exact ⟨(hfacts (haccepted h)).1, (hfacts (haccepted h')).1, hagree⟩

end TftpOS
