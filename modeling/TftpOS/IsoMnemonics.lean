import TftpOS.IsoLabels
import TftpOS.Validation

/-!
# Detected distributions as mnemonics

What the label of an image says, put into the registry of mnemonics: the vendor and the version that
`_detect_volume_label` finds, one behind the other, are a mnemonic of the distribution that it finds
(`resolve_detected_iff`), but for versions that begin with a point and three spellings of Ubuntu
that the table of the registry has for others.
-/

namespace TftpOS

open Lib Pattern

namespace IsoDetect

open MnemonicRegistry

variable {lib : IsoLib} {l : List Char} {d : Distro}

/-! ### What is detected -/

/-- The families and vendors that a label can name. -/
def vendors : List (String × String) := [
  ("fedora", "fedora"), ("fedora", "rhel"), ("fedora", "rocky"), ("fedora", "alma"),
  ("fedora", "centos"), ("ubuntu", "ubuntu"), ("debian", "debian"), ("freebsd", "freebsd"),
  ("openbsd", "openbsd")]

/-- What is detected in a label. -/
structure Found (lib : IsoLib) (l : List Char) (d : Distro) : Prop where
  vendor : (d.osFamily, d.vendor) ∈ vendors
  sublist : ∀ c ∈ d.version.toList, c ∈ l
  chars : ∀ c ∈ d.version.toList, versionChar lib c = true
  dotted : d.vendor = "openbsd" → '.' ∈ d.version.toList

theorem Labelled.found (h : Labelled lib l d) : Found lib l d := by
  cases h with
  | fedora hsep ht hlast hne hnumber hspaces =>
    refine ⟨(by decide : ("fedora", "fedora") ∈ vendors), fun c hc => ?_, fun c hc => ?_,
      fun h => absurd h (by decide : "fedora" ≠ "openbsd")⟩
    · rw [String.toList_ofList] at hc
      simp [hc]
    · rw [String.toList_ofList] at hc
      rw [versionChar, hnumber c hc, Bool.true_or]
  | @named name seps distro hrow sep hsep version rest hrun =>
    have hsame : (∃ f v, (f, v) ∈ vendors ∧ v ≠ "openbsd" ∧ distro = Distro.mk f v) ∨
        distro = fun version => ⟨"debian", "debian", major version⟩ := by
      simp only [spellings, List.mem_cons, Prod.mk.injEq, List.not_mem_nil, or_false] at hrow
      rcases hrow with ⟨-, -, rfl⟩ | ⟨-, -, rfl⟩ | ⟨-, -, rfl⟩ | ⟨-, -, rfl⟩ | ⟨-, -, rfl⟩ |
        ⟨-, -, rfl⟩ | ⟨-, -, rfl⟩ | ⟨-, -, rfl⟩ | ⟨-, -, rfl⟩ | ⟨-, -, rfl⟩
      case inr.inr.inr.inr.inr.inr.inr.inr.inl => exact .inr rfl
      all_goals exact .inl ⟨_, _, by decide, by decide, rfl⟩
    rcases hsame with ⟨f, v, hmem, hv, rfl⟩ | rfl
    · refine ⟨hmem, fun c hc => ?_, fun c hc => ?_, fun h => absurd h hv⟩
      · rw [String.toList_ofList] at hc
        simp [hc]
      · rw [String.toList_ofList] at hc
        exact hrun.mem c hc
    · have hmajor : ∀ c ∈ (major (String.ofList version)).toList, c ∈ version := by
        intro c hc
        rw [major, String.toList_ofList, String.toList_ofList] at hc
        exact (List.takeWhile_prefix _).subset hc
      refine ⟨(by decide : ("debian", "debian") ∈ vendors), fun c hc => ?_, fun c hc => ?_,
        fun h => absurd h (by decide : "debian" ≠ "openbsd")⟩
      · have := hmajor c hc
        simp [this]
      · exact hrun.mem c (hmajor c hc)

theorem Openbsd.found (h : Openbsd lib l d) : Found lib l d := by
  obtain ⟨pre, t, a, c, rest, h, -, -, rfl⟩ := h
  refine ⟨(by decide : ("openbsd", "openbsd") ∈ vendors), fun x hx => ?_, fun x hx => ?_,
    fun _ => ?_⟩
  · rw [String.toList_ofList] at hx
    rw [h.eq]
    rcases List.mem_append.mp hx with hx | hx
    · simp [hx]
    · rcases List.mem_cons.mp hx with rfl | hx <;> simp [*]
  · rw [String.toList_ofList] at hx
    rw [versionChar]
    rcases List.mem_append.mp hx with hx | hx
    · rw [h.major.2 x hx, Bool.true_or]
    · rcases List.mem_cons.mp hx with rfl | hx
      · exact Bool.or_true _
      · rw [h.minor.2 x hx, Bool.true_or]
  · rw [String.toList_ofList]
    simp

theorem found_of_parseVolumeId {volumeId : String} (h : parseVolumeId lib volumeId = some d) :
    Found lib (lib.lower volumeId).toList d := by
  rcases ((parseVolumeId_spec lib volumeId).1 d).mp h with h | ⟨-, h⟩
  · exact h.found
  · exact h.found

/-- The bytes of a label are ASCII, or have been replaced. -/
theorem mem_decodeAscii {bytes : List UInt8} {c : Char} (h : c ∈ (decodeAscii bytes).toList) :
    c.toNat < 128 ∨ c = Char.ofNat 0xFFFD := by
  rw [decodeAscii, String.toList_ofList] at h
  obtain ⟨b, -, rfl⟩ := List.mem_map.mp h
  split_ifs with hb
  · have hall : ∀ n < 128, (Char.ofNat n).toNat < 128 := by decide
    exact .inl (hall b.toNat hb)
  · exact .inr rfl

/-- A version that is detected in an image consists of digits and points. -/
theorem found_of_detectVolumeLabel {image : Option (List UInt8)}
    (h : detectVolumeLabel lib image = some d) :
    (d.osFamily, d.vendor) ∈ vendors ∧ (∀ c ∈ d.version.toList, c.isDigit = true ∨ c = '.') ∧
      (d.vendor = "openbsd" → '.' ∈ d.version.toList) := by
  rcases image with _ | bytes
  · cases h
  simp only [detectVolumeLabel] at h
  split_ifs at h
  have hfound := found_of_parseVolumeId h
  refine ⟨hfound.vendor, fun c hc => ?_, hfound.dotted⟩
  have hlabel :
      ∀ c ∈ (strip (decodeAscii ((((bytes.drop 32768).take 2048).drop 40).take 32))).toList,
      c.toNat < 128 ∨ c = Char.ofNat 0xFFFD := by
    intro c hc
    rw [toList_strip] at hc
    exact mem_decodeAscii
      ((List.dropWhile_suffix _).subset ((List.rdropWhile_prefix _ _).subset hc))
  have hlower := hfound.sublist c hc
  rw [lib.lower_decoded _ hlabel, asciiLower, String.toList_ofList] at hlower
  obtain ⟨c', hc', rfl⟩ := List.mem_map.mp hlower
  have hchar := hfound.chars _ hc
  rw [versionChar, Bool.or_eq_true, beq_iff_eq] at hchar
  refine hchar.imp_left fun hdecimal => ?_
  rcases hlabel c' hc' with hascii | rfl
  · have hlt : c'.toLower.toNat < 128 := isAscii_asciiLower (s := String.ofList [c'])
      (by simpa [IsAscii] using hascii) _ (by simp [asciiLower])
    rwa [lib.isDecimal_ascii _ hlt] at hdecimal
  · have hsame : (Char.ofNat 0xFFFD).toLower = Char.ofNat 0xFFFD := by decide
    rw [hsame, lib.isDecimal_replacement] at hdecimal
    cases hdecimal

/-! ### What the registry makes of it -/

/-- An ASCII character that lower-casing and the dropping of separators leave alone. -/
def IsPlain (c : Char) : Prop :=
  c.toNat < 128 ∧ c.toLower = c ∧ c ≠ '-' ∧ c ≠ '_' ∧ isSpace c = false

instance (c : Char) : Decidable (IsPlain c) := inferInstanceAs (Decidable (_ ∧ _))

theorem isPlain_of_version {c : Char} (h : c.isDigit = true ∨ c = '.') : IsPlain c := by
  have hall : ∀ n < 128, (Char.ofNat n).isDigit = true → IsPlain (Char.ofNat n) := by decide
  rcases h with h | rfl
  · have hlt : c.toNat < 128 := by
      simp only [Char.isDigit, Bool.and_eq_true, decide_eq_true_eq] at h
      have hle : c.toNat ≤ 57 := h.2
      omega
    have hc := hall c.toNat hlt
    rw [Char.ofNat_toNat] at hc
    exact hc h
  · decide

theorem isPlain_of_vendor {family vendor : String} (h : (family, vendor) ∈ vendors) :
    vendor.toList ≠ [] ∧ ∀ c ∈ vendor.toList, IsPlain c ∧ c.isAlpha = true ∧ c.isDigit = false := by
  have hall : ∀ p ∈ vendors, p.2.toList ≠ [] ∧
      p.2.toList.all (fun c => IsPlain c ∧ c.isAlpha = true ∧ c.isDigit = false) = true := by
    decide +kernel
  obtain ⟨hne, hletters⟩ := hall _ h
  exact ⟨hne, fun c hc => of_decide_eq_true (List.all_eq_true.mp hletters c hc)⟩

variable {py : PatternLib} {registry : MnemonicRegistry} {key : String}

theorem lower_of_isPlain (h : ∀ c ∈ key.toList, IsPlain c) : py.lower key = key := by
  rw [py.lower_ascii _ fun c hc => (h c hc).1, asciiLower, ← String.toList_inj,
    String.toList_ofList]
  exact (List.map_congr_left fun c hc => (h c hc).2.1).trans (List.map_id _)

/-- A plain name is its own key. -/
theorem resolve_of_isPlain (hne : key ≠ "") (h : ∀ c ∈ key.toList, IsPlain c) :
    resolve py registry key = answer py registry key := by
  have hlower : py.lower key = key := lower_of_isPlain h
  have hkey : keyOf py key = key := by
    rw [keyOf_eq_lower_iff.mpr, hlower]
    rw [hlower]
    exact fun c hc => ⟨(h c hc).2.2.1, (h c hc).2.2.2.1⟩
  have hblank : ¬ IsBlank key := by
    rintro (hempty | hempty)
    · exact hne hempty
    · rw [strip_eq_self fun c hc => (h c hc).2.2.2.2] at hempty
      exact hne hempty
  rw [resolve_of_not_isBlank hblank, hkey]

/-- Letters with a version behind them. -/
theorem matchFamily_append {letters version : List Char} (hne : letters ≠ [])
    (hletters : ∀ c ∈ letters, c.toNat < 128 ∧ c.isAlpha = true ∧ c.isDigit = false)
    (hversion : isVersion py version = true ∨ ∀ c ∈ version.head?, isFamilyLetter c = false) :
    matchFamily py (letters ++ version) =
      if isVersion py version then some (letters, version) else none := by
  induction letters with
  | nil => exact absurd rfl hne
  | cons c letters ih =>
    obtain ⟨hc, hletters⟩ := List.forall_mem_cons.mp hletters
    have hfamily : isFamilyLetter c = true := by
      rw [isFamilyLetter, hc.2.1, Bool.true_or]
    rw [List.cons_append, matchFamily, hfamily, Bool.not_true, if_neg Bool.false_ne_true]
    cases letters with
    | nil =>
      rw [List.nil_append]
      by_cases hv : isVersion py version = true
      · rw [if_pos hv, if_pos hv]
      · rw [if_neg hv, if_neg hv]
        cases version with
        | nil => rfl
        | cons x version =>
          have hx := hversion.resolve_left hv x rfl
          rw [matchFamily, hx, Bool.not_false, if_pos rfl, Option.map_none]
    | cons c' letters =>
      obtain ⟨hc', -⟩ := List.forall_mem_cons.mp hletters
      have hnot : isVersion py (c' :: letters ++ version) = false := by
        rw [List.cons_append, isVersion, py.isDecimal_ascii c' hc'.1, hc'.2.2, Bool.false_and]
      rw [hnot, if_neg Bool.false_ne_true, ih (List.cons_ne_nil _ _) hletters]
      split_ifs <;> rfl

/-- The prefixes that the pattern knows. -/
theorem familyPrefixes_of_vendor {family vendor : String} (h : (family, vendor) ∈ vendors) :
    familyPrefixes.get? vendor = some (family, vendor) := by
  have hall : ∀ p ∈ vendors, familyPrefixes.get? p.2 = some p := by decide +kernel
  exact hall _ h

/-- A vendor with a version behind it. -/
theorem tryParse_append {family vendor version : String} (hvendor : (family, vendor) ∈ vendors)
    (hversion : ∀ c ∈ version.toList, c.isDigit = true ∨ c = '.') :
    tryParse py (vendor ++ version) =
      if version.toList.head?.any Char.isDigit = true then some (builtin family vendor version)
      else none := by
  obtain ⟨hne, hletters⟩ := isPlain_of_vendor hvendor
  have hplain : ∀ c ∈ (vendor ++ version).toList, IsPlain c := by
    intro c hc
    rw [String.toList_append] at hc
    exact (List.mem_append.mp hc).elim (fun hc => (hletters c hc).1)
      fun hc => isPlain_of_version (hversion c hc)
  have hisVersion : isVersion py version.toList = version.toList.head?.any Char.isDigit := by
    rcases hlist : version.toList with _ | ⟨c, cs⟩
    · rfl
    · have hdecimal : ∀ x ∈ c :: cs, py.isDecimal x = x.isDigit := fun x hx =>
        py.isDecimal_ascii x (isPlain_of_version (hversion x (hlist ▸ hx))).1
      have hrest : (cs.all fun x => py.isDecimal x || x == '.') = true := by
        rw [List.all_eq_true]
        intro x hx
        rw [hdecimal x (List.mem_cons_of_mem _ hx), Bool.or_eq_true, beq_iff_eq]
        exact hversion x (hlist ▸ List.mem_cons_of_mem _ hx)
      rw [isVersion, hdecimal c (List.mem_cons_self ..), hrest, Bool.and_true]
      rfl
  have hhead : isVersion py version.toList = true ∨
      ∀ c ∈ version.toList.head?, isFamilyLetter c = false := by
    rw [hisVersion, or_iff_not_imp_left]
    intro hdigit c hc
    rcases hversion c (List.mem_of_head? hc) with h | rfl
    · exact absurd ((Option.any_eq_true ..).mpr ⟨c, hc, h⟩) hdigit
    · decide
  have hmatch : matchFamily py (vendor.toList ++ version.toList) =
      if isVersion py version.toList = true then some (vendor.toList, version.toList) else none :=
    matchFamily_append hne (fun c hc => ⟨(hletters c hc).1.1, (hletters c hc).2⟩) hhead
  have hnewline : (vendor ++ version).toList.getLast? ≠ some '\n' := fun h =>
    absurd (hplain _ (List.mem_of_getLast? h)).2.2.2.2 (by decide)
  rw [tryParse, matchPattern, if_neg hnewline, String.toList_append, hmatch]
  by_cases hv : isVersion py version.toList = true
  · rw [if_pos hv, if_pos (hisVersion ▸ hv)]
    have hlower : py.lower vendor = vendor := lower_of_isPlain fun c hc => (hletters c hc).1
    change (familyPrefixes.get? (py.lower (String.ofList vendor.toList))).map _ = _
    rw [String.ofList_toList, String.ofList_toList, hlower, familyPrefixes_of_vendor hvendor,
      Option.map_some]
  · rw [if_neg hv, if_neg (hisVersion ▸ hv)]
    rfl

/-- The three fields of an alias. -/
def fieldsOf : DistroAlias → Option (String × String × String)
  | ⟨.str osFamily, .str vendor, .str version⟩ => some (osFamily, vendor, version)
  | _ => none

theorem eq_builtin_of_fieldsOf {a : DistroAlias} {osFamily vendor version : String}
    (h : fieldsOf a = some (osFamily, vendor, version)) : a = builtin osFamily vendor version := by
  rcases a with ⟨_ | _ | _ | _ | _ | _ | _ | _, _ | _ | _ | _ | _ | _ | _ | _,
    _ | _ | _ | _ | _ | _ | _ | _⟩ <;> cases h
  rfl

/-- The versions that the table has for another one. -/
def respelled : List String := ["2204", "2404", "2410"]

/-- What the table says of a vendor with a version behind it. -/
theorem table_of_vendor : ∀ e ∈ builtinAliases.entries, ∀ p ∈ vendors, p.2.toList <+: e.1.toList →
    let version := String.ofList (e.1.toList.drop p.2.toList.length)
    version.toList.head?.any Char.isDigit = true ∧
      (p.2 = "openbsd" → '.' ∉ version.toList) ∧
      (p.2 ≠ "openbsd" → if p.2 = "ubuntu" ∧ version ∈ respelled
        then (fieldsOf e.2).any (·.2.2 ≠ version)
        else fieldsOf e.2 = some (p.1, p.2, version)) := by
  decide +kernel

/-- **Mnemonics for what is detected**: the vendor and the version of a label, one behind the other,
resolve to the distribution that was detected exactly where the version begins with a digit and is
not one of the three that the table spells in another way. -/
theorem resolve_detected_iff (lib : IsoLib) {image : Option (List UInt8)}
    (h : detectVolumeLabel lib image = some d) :
    resolve lib.toPatternLib {} (d.vendor ++ d.version) = some d.alias ↔
      (∃ c ∈ d.version.toList.head?, c.isDigit = true) ∧
        ¬ (d.vendor = "ubuntu" ∧ d.version ∈ respelled) := by
  obtain ⟨hvendor, hversion, hdotted⟩ := found_of_detectVolumeLabel h
  obtain ⟨hne, hletters⟩ := isPlain_of_vendor hvendor
  have hplain : ∀ c ∈ (d.vendor ++ d.version).toList, IsPlain c := by
    intro c hc
    rw [String.toList_append] at hc
    exact (List.mem_append.mp hc).elim (fun hc => (hletters c hc).1)
      fun hc => isPlain_of_version (hversion c hc)
  have hkey : d.vendor ++ d.version ≠ "" := by
    rw [Ne, ← String.toList_inj, String.toList_append]
    exact List.append_ne_nil_of_left_ne_nil hne _
  rw [resolve_of_isPlain hkey hplain, answer, tryParse_append hvendor hversion]
  have haliases : ({} : MnemonicRegistry).aliases = builtinAliases := rfl
  rw [haliases]
  rcases hget : builtinAliases.get? (d.vendor ++ d.version) with _ | a
  · have hspelled : ¬ (d.vendor = "ubuntu" ∧ d.version ∈ respelled) := by
      rintro ⟨hubuntu, hmem⟩
      have hknown : ∀ v ∈ respelled, (builtinAliases.get? ("ubuntu" ++ v)).isSome := by
        decide +kernel
      have hsome := hknown _ hmem
      rw [← hubuntu, hget] at hsome
      cases hsome
    rw [show (none <|> _ : Option DistroAlias) = _ from rfl]
    split_ifs with hdigit
    · exact ⟨fun _ => ⟨(Option.any_eq_true ..).mp hdigit, hspelled⟩, fun _ => rfl⟩
    · refine ⟨fun hnone => ?_, fun hboth => ?_⟩
      · cases hnone
      · exact absurd ((Option.any_eq_true ..).mpr hboth.1) hdigit
  · have hmem := Dict.get?_eq_some_iff.mp hget
    have htable := table_of_vendor _ hmem _ hvendor (by simp)
    simp only [String.toList_append, List.drop_left, String.ofList_toList] at htable
    obtain ⟨hfirst, hopen, hrest⟩ := htable
    have hdigit := (Option.any_eq_true ..).mp hfirst
    have hother := hrest fun heq => hopen heq (hdotted heq)
    rw [show (some a <|> _ : Option DistroAlias) = some a from rfl, Option.some.injEq]
    split_ifs at hother with hspelled
    · refine ⟨?_, fun hboth => absurd hspelled hboth.2⟩
      rintro rfl
      simp [fieldsOf, Distro.alias, builtin] at hother
    · exact ⟨fun _ => ⟨hdigit, hspelled⟩, fun _ => eq_builtin_of_fieldsOf hother⟩

/-- An image with the label of a Rocky Linux. -/
def rockyImage : List UInt8 :=
  List.replicate 32768 0 ++ ([1] ++ "CD001".toUTF8.toList ++ List.replicate 34 0 ++
    "Rocky-9.3-x86_64-dvd            ".toUTF8.toList)

theorem detectVolumeLabel_rocky :
    detectVolumeLabel asciiIso (some rockyImage) = some ⟨"fedora", "rocky", "9.3"⟩ := by
  rw [detectVolumeLabel, rockyImage, List.drop_left' List.length_replicate]
  decide +kernel

theorem resolve_rocky :
    resolve asciiIso.toPatternLib {} ("rocky" ++ "9.3") =
        some (Distro.mk "fedora" "rocky" "9.3").alias ↔
      (∃ c ∈ "9.3".toList.head?, c.isDigit = true) ∧
        ¬ ("rocky" = "ubuntu" ∧ "9.3" ∈ respelled) :=
  resolve_detected_iff asciiIso detectVolumeLabel_rocky

end IsoDetect

end TftpOS
