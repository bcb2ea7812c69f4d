import TftpOS.Lib.Pattern
import TftpOS.Mnemonics

/-!
# Volume labels

`_detect_volume_label` and `_parse_volume_id` of `tftpos/iso_detect.py`: the distribution that the
label of an ISO image names. Nine patterns are tried one after the other, the last one anywhere in
the label.

`Labelled` says what the labels look like that the first eight patterns take, and `Openbsd` what
the last one takes. No label is of two of the first eight kinds, so that the order of their patterns
does not matter (`parseVolumeId_spec`).
-/

namespace TftpOS

open Lib Pattern

/-- The parts of `str` and `re` that the detection takes. -/
structure IsoLib extends PatternLib where
  isDecimal_of_isSpace : ∀ c, isSpace c = true → isDecimal c = false
  /-- What stands for a byte that is not ASCII has no case, and is no digit. -/
  lower_decoded : ∀ s : String, (∀ c ∈ s.toList, c.toNat < 128 ∨ c = Char.ofNat 0xFFFD) →
    lower s = asciiLower s
  isDecimal_replacement : isDecimal (Char.ofNat 0xFFFD) = false

/-- A `DistroAlias` of three texts. -/
structure Distro where
  osFamily : String
  vendor : String
  version : String
  deriving DecidableEq

/-- The alias of the registry of mnemonics. -/
def Distro.alias (d : Distro) : DistroAlias := builtin d.osFamily d.vendor d.version

namespace IsoDetect

section

variable (lib : IsoLib)

/-! ### The patterns -/

/-- The class `[\d.]`. -/
def versionChar (c : Char) : Bool := lib.isDecimal c || c == '.'

/-- A text as it stands. -/
def text (s : String) : Pattern Char := .literal s.toList

/-- One of some characters. -/
def oneOf (cs : List Char) : Pattern Char := .one fun c => c ∈ cs

/-- `.*?`. -/
def anyLazy : Pattern Char := .many false fun c => c ≠ '\n'

/-- `$`, which also matches before a final newline. -/
def endOfText : Pattern Char := .ahead fun l => l = [] || l = ['\n']

/-- `m.group(1)` of a match. -/
def group1 (m : Match Char) : String := String.ofList (m.groups.headD [])

/-- `name[seps]infix([\d.]+)`. -/
def versionPattern (name : Pattern Char) (seps : List Char) (infix' : Pattern Char) :
    Pattern Char :=
  .seq name (.seq (oneOf seps) (.seq infix' (.group (.plus (versionChar lib)))))

/-- `fedora[- ].*?(\d+)\s*$`. -/
def fedoraPattern : Pattern Char :=
  .seq (text "fedora") (.seq (oneOf ['-', ' ']) (.seq anyLazy
    (.seq (.group (.plus lib.isDecimal)) (.seq (.many true isSpace) endOfText))))

/-- `openbsd.*?(\d+\.\d+)`. -/
def openbsdPattern : Pattern Char :=
  .seq (text "openbsd") (.seq anyLazy
    (.group (.seq (.plus lib.isDecimal) (.seq (oneOf ['.']) (.plus lib.isDecimal)))))

/-- `version.split(".")[0]`. -/
def major (version : String) : String := String.ofList (version.toList.takeWhile (· ≠ '.'))

/-- A pattern that is tried at the beginning of a label, and the distribution for its group. -/
structure LabelTest where
  pattern : Pattern Char
  distro : String → Distro

/-- What a test makes of a label. -/
def LabelTest.detect (t : LabelTest) (label : List Char) : Option Distro :=
  (matchStart t.pattern label).map fun m => t.distro (group1 m)

/-- The tests of `_parse_volume_id` but for the last one. -/
def labelTests : List LabelTest := [
  ⟨fedoraPattern lib, Distro.mk "fedora" "fedora"⟩,
  ⟨versionPattern lib (text "rhel") ['-', ' '] .empty, Distro.mk "fedora" "rhel"⟩,
  ⟨versionPattern lib (text "rocky") ['-', ' '] .empty, Distro.mk "fedora" "rocky"⟩,
  ⟨versionPattern lib (.seq (text "alma") (opt (text "linux"))) ['-', ' '] .empty,
    Distro.mk "fedora" "alma"⟩,
  ⟨versionPattern lib (text "centos") ['-', ' '] (opt (.seq (text "stream") (oneOf ['-', ' ']))),
    Distro.mk "fedora" "centos"⟩,
  ⟨versionPattern lib (text "ubuntu") ['-', ' '] .empty, Distro.mk "ubuntu" "ubuntu"⟩,
  ⟨versionPattern lib (text "debian") ['-', ' '] .empty,
    fun version => ⟨"debian", "debian", major version⟩⟩,
  ⟨versionPattern lib (text "freebsd") ['_', ' '] .empty, Distro.mk "freebsd" "freebsd"⟩]

/-- The last test, which looks for a place in the label. -/
def detectOpenbsd (label : List Char) : Option Distro :=
  (search (openbsdPattern lib) label).map fun m => ⟨"openbsd", "openbsd", group1 m⟩

/-- `_parse_volume_id`. -/
def parseVolumeId (volumeId : String) : Option Distro :=
  let label := (lib.lower volumeId).toList
  ((labelTests lib).findSome? fun t => t.detect label) <|> detectOpenbsd lib label

/-- `bytes.decode("ascii", errors="replace")`. -/
def decodeAscii (bytes : List UInt8) : String :=
  String.ofList (bytes.map fun b => if b < 128 then Char.ofNat b.toNat else Char.ofNat 0xFFFD)

/-- `_detect_volume_label`, given what the file holds; `none` is an `OSError`. -/
def detectVolumeLabel (image : Option (List UInt8)) : Option Distro :=
  match image with
  | none => none
  | some bytes =>
    let pvd := (bytes.drop 32768).take 2048
    if pvd.length < 72 then none
    else if pvd.take 1 ≠ [1] ∨ (pvd.drop 1).take 5 ≠ "CD001".toUTF8.toList then none
    else
      let volumeId := strip (decodeAscii ((pvd.drop 40).take 32))
      if volumeId = "" then none else parseVolumeId lib volumeId

/-! ### The labels -/

/-- The labels that consist of a name, a separator and a version: the spellings of the names, the
separators, and the distribution. -/
def spellings : List (String × List Char × (String → Distro)) := [
  ("rhel", ['-', ' '], Distro.mk "fedora" "rhel"),
  ("rocky", ['-', ' '], Distro.mk "fedora" "rocky"),
  ("almalinux", ['-', ' '], Distro.mk "fedora" "alma"),
  ("alma", ['-', ' '], Distro.mk "fedora" "alma"),
  ("centos-stream", ['-', ' '], Distro.mk "fedora" "centos"),
  ("centos stream", ['-', ' '], Distro.mk "fedora" "centos"),
  ("centos", ['-', ' '], Distro.mk "fedora" "centos"),
  ("ubuntu", ['-', ' '], Distro.mk "ubuntu" "ubuntu"),
  ("debian", ['-', ' '], fun version => ⟨"debian", "debian", major version⟩),
  ("freebsd", ['_', ' '], Distro.mk "freebsd" "freebsd")]

/-- The labels that the patterns are for, in lower case. -/
inductive Labelled : List Char → Distro → Prop
  /-- The number at the end, on the line of the name. -/
  | fedora {sep : Char} {t number spaces : List Char} (hsep : sep ∈ ['-', ' ']) (ht : '\n' ∉ t)
      (hlast : ∀ c ∈ t.getLast?, lib.isDecimal c = false) (hne : number ≠ [])
      (hnumber : ∀ c ∈ number, lib.isDecimal c = true) (hspaces : ∀ c ∈ spaces, isSpace c = true) :
      Labelled ("fedora".toList ++ sep :: (t ++ (number ++ spaces)))
        ⟨"fedora", "fedora", String.ofList number⟩
  /-- The version behind the name. -/
  | named {name : String} {seps : List Char} {distro : String → Distro}
      (hrow : (name, seps, distro) ∈ spellings) {sep : Char} (hsep : sep ∈ seps)
      {version rest : List Char} (hrun : IsRun (versionChar lib) version rest) :
      Labelled (name.toList ++ sep :: (version ++ rest)) (distro (String.ofList version))

end

variable {lib : IsoLib} {t t' : LabelTest} {l : List Char} {d d' : Distro} {β : Type}
  {k : Match Char → Option β} {b : β}

theorem detect_eq_first (t : LabelTest) (l : List Char) :
    t.detect l = first t.pattern l fun m => some (t.distro (group1 m)) := by
  rw [LabelTest.detect, matchStart_eq_first, map_first]
  rfl

theorem first_text {s : String} :
    first (text s) l k = some b ↔ ∃ r, l = s.toList ++ r ∧ k ⟨s.toList, r, []⟩ = some b :=
  first_literal_eq_some_iff

theorem first_oneOf {cs : List Char} :
    first (oneOf cs) l k = some b ↔ ∃ c r, l = c :: r ∧ c ∈ cs ∧ k ⟨[c], r, []⟩ = some b := by
  simp [oneOf, first_one_eq_some_iff]

/-- The group of a version. -/
theorem first_version (hk : ∀ m, (k m).isSome) :
    first (.group (.plus (versionChar lib))) l k = some b ↔
      ∃ version rest, l = version ++ rest ∧ IsRun (versionChar lib) version rest ∧
        k ⟨version, rest, [version]⟩ = some b := by
  rw [first_group, first_plus_eq_some_iff_of_isSome (k := k ∘ Match.capture) fun m => hk _]
  rfl

/-- A version begins with no letter. -/
theorem versionChar_eq_false (lib : IsoLib) {c : Char} (h : c.toNat < 128) (hdigit : ¬ c.isDigit)
    (hdot : c ≠ '.') : versionChar lib c = false := by
  rw [versionChar, lib.isDecimal_ascii c h, Bool.or_eq_false_iff]
  exact ⟨by simpa using hdigit, by simpa using hdot⟩

/-- A separator, a version behind it, and what is made of them. -/
theorem first_sep_version {seps : List Char} (hk : ∀ m, (k m).isSome) :
    first (.seq (oneOf seps) (.seq .empty (.group (.plus (versionChar lib))))) l k = some b ↔
      ∃ sep version rest, l = sep :: (version ++ rest) ∧ sep ∈ seps ∧
        IsRun (versionChar lib) version rest ∧ k ⟨sep :: version, rest, [version]⟩ = some b := by
  rw [first_seq, first_oneOf]
  simp only [Function.comp_def, first_seq, first_empty]
  constructor
  · rintro ⟨sep, r, rfl, hsep, h⟩
    rw [first_version fun m => hk _] at h
    obtain ⟨version, rest, rfl, hrun, h⟩ := h
    exact ⟨sep, version, rest, rfl, hsep, hrun, h⟩
  · rintro ⟨sep, version, rest, rfl, hsep, hrun, h⟩
    refine ⟨sep, _, rfl, hsep, ?_⟩
    rw [first_version fun m => hk _]
    exact ⟨version, rest, rfl, hrun, h⟩

/-- A name with a separator and a version behind it. -/
def Named (lib : IsoLib) (name : String) (seps : List Char) (distro : String → Distro)
    (l : List Char) (d : Distro) : Prop :=
  ∃ sep version rest, l = name.toList ++ sep :: (version ++ rest) ∧ sep ∈ seps ∧
    IsRun (versionChar lib) version rest ∧ distro (String.ofList version) = d

theorem detect_named {name : String} {seps : List Char} {distro : String → Distro} :
    LabelTest.detect ⟨versionPattern lib (text name) seps .empty, distro⟩ l = some d ↔
      Named lib name seps distro l d := by
  rw [detect_eq_first, versionPattern, first_seq, first_text]
  simp only [Function.comp_def]
  constructor
  · rintro ⟨r, rfl, h⟩
    rw [first_sep_version fun m => rfl] at h
    obtain ⟨sep, version, rest, rfl, hsep, hrun, h⟩ := h
    exact ⟨sep, version, rest, rfl, hsep, hrun, Option.some.inj h⟩
  · rintro ⟨sep, version, rest, rfl, hsep, hrun, rfl⟩
    refine ⟨_, rfl, ?_⟩
    rw [first_sep_version fun m => rfl]
    exact ⟨sep, version, rest, rfl, hsep, hrun, rfl⟩

/-- `alma(?:linux)?`: the separator does not begin with `linux`. -/
theorem detect_alma {distro : String → Distro} :
    LabelTest.detect ⟨versionPattern lib (.seq (text "alma") (opt (text "linux"))) ['-', ' ']
        .empty, distro⟩ l = some d ↔
      Named lib "almalinux" ['-', ' '] distro l d ∨ Named lib "alma" ['-', ' '] distro l d := by
  have hexclusive : ∀ {r : List Char} {k k' : Match Char → Option Distro},
      (first (text "linux") r k).isSome → first (.seq (oneOf ['-', ' '])
        (.seq .empty (.group (.plus (versionChar lib))))) r k' = none := by
    intro r k k' h
    obtain ⟨b, hb⟩ := Option.isSome_iff_exists.mp h
    obtain ⟨s, rfl, -⟩ := first_text.mp hb
    rw [first_seq, oneOf]
    exact first_one_cons_of_not (by decide)
  rw [detect_eq_first, versionPattern, first_seq, first_seq, first_text]
  simp only [Function.comp_def]
  constructor
  · rintro ⟨r, rfl, h⟩
    rw [first_opt_eq_some_iff fun h => hexclusive h, first_text] at h
    rcases h with ⟨r, rfl, h⟩ | h
    · rw [first_sep_version fun m => rfl] at h
      obtain ⟨sep, version, rest, rfl, hsep, hrun, h⟩ := h
      exact .inl ⟨sep, version, rest, rfl, hsep, hrun, Option.some.inj h⟩
    · rw [first_sep_version fun m => rfl] at h
      obtain ⟨sep, version, rest, rfl, hsep, hrun, h⟩ := h
      exact .inr ⟨sep, version, rest, rfl, hsep, hrun, Option.some.inj h⟩
  · rintro (⟨sep, version, rest, rfl, hsep, hrun, rfl⟩ | ⟨sep, version, rest, rfl, hsep, hrun, rfl⟩)
    · refine ⟨"linux".toList ++ sep :: (version ++ rest), rfl, ?_⟩
      rw [first_opt_eq_some_iff fun h => hexclusive h, first_text]
      refine .inl ⟨_, rfl, ?_⟩
      rw [first_sep_version fun m => rfl]
      exact ⟨sep, version, rest, rfl, hsep, hrun, rfl⟩
    · refine ⟨_, rfl, ?_⟩
      rw [first_opt_eq_some_iff fun h => hexclusive h]
      refine .inr ?_
      rw [first_sep_version fun m => rfl]
      exact ⟨sep, version, rest, rfl, hsep, hrun, rfl⟩

/-- `centos[- ](?:stream[- ])?`: the version does not begin with `stream`. -/
theorem detect_centos {distro : String → Distro} :
    LabelTest.detect ⟨versionPattern lib (text "centos") ['-', ' ']
        (opt (.seq (text "stream") (oneOf ['-', ' ']))), distro⟩ l = some d ↔
      Named lib "centos-stream" ['-', ' '] distro l d ∨
        Named lib "centos stream" ['-', ' '] distro l d ∨
          Named lib "centos" ['-', ' '] distro l d := by
  have hexclusive : ∀ {r : List Char} {k k' : Match Char → Option Distro},
      (first (.seq (text "stream") (oneOf ['-', ' '])) r k).isSome →
        first (.group (.plus (versionChar lib))) r k' = none := by
    intro r k k' h
    obtain ⟨b, hb⟩ := Option.isSome_iff_exists.mp h
    rw [first_seq, first_text] at hb
    obtain ⟨s, rfl, -⟩ := hb
    have hs : versionChar lib 's' = false :=
      versionChar_eq_false lib (by decide) (by decide) (by decide)
    rw [first_group]
    exact first_plus_of_eq_nil (List.takeWhile_cons_of_neg (Bool.eq_false_iff.mp hs))
  rw [detect_eq_first, versionPattern, first_seq, first_text]
  simp only [Function.comp_def, first_seq (r := oneOf _), first_oneOf]
  constructor
  · rintro ⟨-, rfl, sep, r, rfl, hsep, h⟩
    rw [first_seq, first_opt_eq_some_iff fun h => hexclusive h, first_seq, first_text] at h
    rcases h with ⟨r, rfl, h⟩ | h
    · simp only [Function.comp_def, first_oneOf] at h
      obtain ⟨sep', r, rfl, hsep', h⟩ := h
      rw [first_version fun m => rfl] at h
      obtain ⟨version, rest, rfl, hrun, h⟩ := h
      have hd := Option.some.inj h
      rcases List.mem_cons.mp hsep with rfl | hsep
      · exact .inl ⟨sep', version, rest, rfl, hsep', hrun, hd⟩
      · obtain rfl := List.mem_singleton.mp hsep
        exact .inr (.inl ⟨sep', version, rest, rfl, hsep', hrun, hd⟩)
    · simp only [Function.comp_def] at h
      rw [first_version fun m => rfl] at h
      obtain ⟨version, rest, rfl, hrun, h⟩ := h
      exact .inr (.inr ⟨sep, version, rest, rfl, hsep, hrun, Option.some.inj h⟩)
  · have hstream : ∀ sep {sep' version rest}, sep ∈ ['-', ' '] → sep' ∈ ['-', ' '] →
        IsRun (versionChar lib) version rest →
        ∃ r, "centos".toList ++ sep :: ("stream".toList ++ sep' :: (version ++ rest)) =
            "centos".toList ++ r ∧ ∃ c s, r = c :: s ∧ c ∈ ['-', ' '] ∧
          first (.seq (opt (.seq (text "stream") (oneOf ['-', ' '])))
            (.group (.plus (versionChar lib)))) s (fun m => some (distro (group1
              (Match.append ⟨"centos".toList, r, []⟩ (Match.append ⟨[c], s, []⟩ m))))) =
            some (distro (String.ofList version)) := by
      intro sep sep' version rest hsep hsep' hrun
      refine ⟨_, rfl, sep, _, rfl, hsep, ?_⟩
      rw [first_seq, first_opt_eq_some_iff fun h => hexclusive h, first_seq, first_text]
      refine .inl ⟨_, rfl, ?_⟩
      simp only [Function.comp_def, first_oneOf]
      refine ⟨sep', _, rfl, hsep', ?_⟩
      rw [first_version fun m => rfl]
      exact ⟨version, rest, rfl, hrun, rfl⟩
    rintro (⟨sep, version, rest, rfl, hsep, hrun, rfl⟩ |
      ⟨sep, version, rest, rfl, hsep, hrun, rfl⟩ |
      ⟨sep, version, rest, rfl, hsep, hrun, rfl⟩)
    · exact hstream '-' (by decide) hsep hrun
    · exact hstream ' ' (by decide) hsep hrun
    · refine ⟨_, rfl, sep, _, rfl, hsep, ?_⟩
      rw [first_seq, first_opt_eq_some_iff fun h => hexclusive h]
      refine .inr ?_
      simp only [Function.comp_def]
      rw [first_version fun m => rfl]
      exact ⟨version, rest, rfl, hrun, rfl⟩

theorem isDecimal_eq_false (lib : IsoLib) {c : Char} (h : c.toNat < 128) (hdigit : ¬ c.isDigit) :
    lib.isDecimal c = false := by
  rw [lib.isDecimal_ascii c h]
  exact Bool.eq_false_iff.mpr hdigit

/-- `\s*$`. -/
theorem first_spaces_end (hk : ∀ m, (k m).isSome) :
    first (.seq (.many true isSpace) endOfText) l k = some b ↔
      (∀ c ∈ l, isSpace c = true) ∧ k ⟨l, [], []⟩ = some b := by
  by_cases hall : ∀ c ∈ l, isSpace c = true
  · have htake : l.takeWhile isSpace = l := List.takeWhile_eq_self_iff.mpr hall
    have hdrop : l.dropWhile isSpace = [] := List.dropWhile_eq_nil_iff.mpr hall
    have hlast : first endOfText [] (k ∘ Match.append ⟨l, [], []⟩) = k ⟨l, [], []⟩ := by
      rw [endOfText, first_ahead]
      simp [Match.append]
    rw [first_seq, first_many_of_isSome, htake, hdrop, hlast]
    · exact ⟨fun h => ⟨hall, h⟩, fun h => h.2⟩
    · rw [htake, hdrop, hlast]
      exact hk _
  · have hnone : first (.seq (.many true isSpace) endOfText) l k = none := by
      refine first_eq_none fun t s gs hmatches hl => absurd ?_ hall
      cases hmatches with
      | seq h h' =>
        cases h with
        | many ht =>
          cases h' with
          | ahead hend =>
            -- a final newline is a space as well
            have hs : ∀ c ∈ s, isSpace c = true := by
              rcases (by simpa using hend : s = [] ∨ s = ['\n']) with rfl | rfl <;> simp [isSpace]
            intro c hc
            rw [← hl, List.append_nil] at hc
            exact (List.mem_append.mp hc).elim (ht c) (hs c)
    rw [hnone]
    constructor
    · rintro ⟨⟩
    · exact fun h => absurd h.1 hall

/-- `(\d+)\s*$`. -/
theorem first_number_end (hk : ∀ m, (k m).isSome) :
    first (.seq (.group (.plus lib.isDecimal)) (.seq (.many true isSpace) endOfText)) l k = some b ↔
      ∃ number spaces, l = number ++ spaces ∧ number ≠ [] ∧ (∀ c ∈ number, lib.isDecimal c = true) ∧
        (∀ c ∈ spaces, isSpace c = true) ∧ k ⟨l, [], [number]⟩ = some b := by
  rw [first_seq, first_group]
  simp only [Function.comp_def]
  have hmiddle : ∀ (t : List Char) (c : Char) (s : List Char), l = t ++ c :: s →
      lib.isDecimal c = true → first (.seq (.many true isSpace) endOfText) (c :: s)
        (fun m => k (Match.append (Match.capture ⟨t, c :: s, []⟩) m)) = none := by
    intro t c s _ hc
    refine Option.eq_none_iff_forall_ne_some.mpr fun b h => ?_
    have hspace := ((first_spaces_end fun m => hk _).mp h).1 c (List.mem_cons_self ..)
    rw [lib.isDecimal_of_isSpace c hspace] at hc
    cases hc
  rw [first_plus_eq_some_iff hmiddle]
  simp only [Match.capture, first_spaces_end fun m => hk _]
  constructor
  · rintro ⟨number, spaces, rfl, hrun, hspaces, h⟩
    refine ⟨number, spaces, rfl, hrun.ne_nil, hrun.mem, hspaces, ?_⟩
    simpa [Match.append] using h
  · rintro ⟨number, spaces, rfl, hne, hnumber, hspaces, h⟩
    refine ⟨number, spaces, rfl, ⟨hne, hnumber, fun c hc => ?_⟩, hspaces, ?_⟩
    · exact lib.isDecimal_of_isSpace c (hspaces c (List.mem_of_head? hc))
    · simpa [Match.append] using h

/-- `.*?(\d+)\s*$`: the number at the end, as far to the left as it goes. -/
theorem first_last_number {k : Match Char → Match Char → Option β} (hk : ∀ m m', (k m m').isSome) :
    first anyLazy l (fun m => first
        (.seq (.group (.plus lib.isDecimal)) (.seq (.many true isSpace) endOfText)) m.rest (k m)) =
          some b ↔
      ∃ t number spaces, l = t ++ (number ++ spaces) ∧ '\n' ∉ t ∧
        (∀ c ∈ t.getLast?, lib.isDecimal c = false) ∧ number ≠ [] ∧
        (∀ c ∈ number, lib.isDecimal c = true) ∧ (∀ c ∈ spaces, isSpace c = true) ∧
        k ⟨t, number ++ spaces, []⟩ ⟨number ++ spaces, [], [number]⟩ = some b := by
  have hline : ∀ t : List Char, (∀ c ∈ t, decide (c ≠ '\n') = true) ↔ '\n' ∉ t := by
    intro t
    simp only [decide_eq_true_eq]
    exact ⟨fun h hmem => h _ hmem rfl, fun h c hc heq => h (heq ▸ hc)⟩
  rw [anyLazy, first_lazy_eq_some_iff]
  simp only [hline]
  constructor
  · rintro ⟨t, s, rfl, ht, h, hleast⟩
    obtain ⟨number, spaces, rfl, hne, hnumber, hspaces, h⟩ := (first_number_end (hk _)).mp h
    refine ⟨t, number, spaces, rfl, ht, fun c hc => ?_, hne, hnumber, hspaces, h⟩
    -- a digit in front of the number would be part of it
    by_contra hdigit
    obtain ⟨t', rfl⟩ := List.getLast?_eq_some_iff.mp hc
    have hnone := hleast t' (c :: (number ++ spaces)) (by simp) (by simp)
    obtain ⟨b', hb'⟩ := Option.isSome_iff_exists.mp
      (hk ⟨t', c :: (number ++ spaces), []⟩ ⟨c :: (number ++ spaces), [], [c :: number]⟩)
    have hsome := (first_number_end (hk _)).mpr ⟨c :: number, spaces, rfl, List.cons_ne_nil _ _,
      List.forall_mem_cons.mpr ⟨by simpa using hdigit, hnumber⟩, hspaces, hb'⟩
    exact Option.some_ne_none _ (hsome.symm.trans hnone)
  · rintro ⟨t, number, spaces, rfl, ht, hlast, hne, hnumber, hspaces, h⟩
    refine ⟨t, number ++ spaces, rfl, ht, (first_number_end (hk _)).mpr
      ⟨number, spaces, rfl, hne, hnumber, hspaces, h⟩, fun t' s' hl hlt => ?_⟩
    refine Option.eq_none_iff_forall_ne_some.mpr fun b' hb' => ?_
    obtain ⟨number', spaces', rfl, -, hnumber', hspaces', -⟩ :=
      (first_number_end (hk _)).mp hb'
    obtain ⟨u, rfl⟩ : t' <+: t := List.prefix_of_prefix_length_le ⟨_, hl⟩ ⟨_, rfl⟩ hlt.le
    rw [List.append_assoc, List.append_cancel_left_eq] at hl
    have hu : u ≠ [] := by
      rintro rfl
      simp at hlt
    obtain ⟨u, c, rfl⟩ := (List.eq_nil_or_concat u).resolve_left hu
    have hc : lib.isDecimal c = false := hlast c (by simp)
    rcases List.append_eq_append_iff.mp hl with ⟨a, ha, hspace⟩ | ⟨a, ha, hnum⟩
    · -- the number is among the spaces at the end
      obtain ⟨x, hx⟩ := List.exists_mem_of_ne_nil _ hne
      have hxspace := hspaces' x (by rw [hspace]; simp [hx])
      have hxnumber := hnumber x hx
      rw [lib.isDecimal_of_isSpace x hxspace] at hxnumber
      cases hxnumber
    · -- the character that is no digit is in the number
      have hcnumber := hnumber' c (by rw [ha]; simp)
      rw [hc] at hcnumber
      cases hcnumber

/-- `fedora[- ].*?(\d+)\s*$`: the number at the end. -/
theorem detect_fedora {distro : String → Distro} :
    LabelTest.detect ⟨fedoraPattern lib, distro⟩ l = some d ↔
      ∃ sep t number spaces, l = "fedora".toList ++ sep :: (t ++ (number ++ spaces)) ∧
        sep ∈ ['-', ' '] ∧ '\n' ∉ t ∧ (∀ c ∈ t.getLast?, lib.isDecimal c = false) ∧ number ≠ [] ∧
        (∀ c ∈ number, lib.isDecimal c = true) ∧ (∀ c ∈ spaces, isSpace c = true) ∧
        distro (String.ofList number) = d := by
  rw [detect_eq_first, fedoraPattern, first_seq, first_text]
  simp only [Function.comp_def, first_seq (r := oneOf _), first_oneOf, first_seq (r := anyLazy)]
  constructor
  · rintro ⟨-, rfl, sep, r, rfl, hsep, h⟩
    rw [first_last_number fun m m' => rfl] at h
    obtain ⟨t, number, spaces, rfl, ht, hlast, hne, hnumber, hspaces, h⟩ := h
    exact ⟨sep, t, number, spaces, rfl, hsep, ht, hlast, hne, hnumber, hspaces, Option.some.inj h⟩
  · rintro ⟨sep, t, number, spaces, rfl, hsep, ht, hlast, hne, hnumber, hspaces, rfl⟩
    refine ⟨_, rfl, sep, _, rfl, hsep, ?_⟩
    rw [first_last_number fun m m' => rfl]
    exact ⟨t, number, spaces, rfl, ht, hlast, hne, hnumber, hspaces, rfl⟩

/-- Where a digit, a point and a digit come behind `openbsd`, on one line. -/
structure Occurs (lib : IsoLib) (l pre t a c rest : List Char) : Prop where
  eq : l = pre ++ ("openbsd".toList ++ (t ++ (a ++ '.' :: (c ++ rest))))
  line : '\n' ∉ t
  major : a ≠ [] ∧ ∀ x ∈ a, lib.isDecimal x = true
  minor : c ≠ [] ∧ ∀ x ∈ c, lib.isDecimal x = true

/-- The first such place, and the first version there, with all its digits. -/
def Openbsd (lib : IsoLib) (l : List Char) (d : Distro) : Prop :=
  ∃ pre t a c rest, Occurs lib l pre t a c rest ∧ (∀ x ∈ rest.head?, lib.isDecimal x = false) ∧
    (∀ pre' t' a' c' rest', Occurs lib l pre' t' a' c' rest' →
      pre.length < pre'.length ∨ pre.length = pre'.length ∧ t.length ≤ t'.length) ∧
    d = ⟨"openbsd", "openbsd", String.ofList (a ++ '.' :: c)⟩

/-- `(\d+\.\d+)`. -/
theorem first_decimal (hk : ∀ m, (k m).isSome) :
    first (.group (.seq (.plus lib.isDecimal) (.seq (oneOf ['.']) (.plus lib.isDecimal)))) l k =
        some b ↔
      ∃ a c rest, l = a ++ '.' :: (c ++ rest) ∧ (a ≠ [] ∧ ∀ x ∈ a, lib.isDecimal x = true) ∧
        IsRun lib.isDecimal c rest ∧ k ⟨a ++ '.' :: c, rest, [a ++ '.' :: c]⟩ = some b := by
  have hdot : lib.isDecimal '.' = false := isDecimal_eq_false lib (by decide) (by decide)
  rw [first_group, first_seq]
  simp only [Function.comp_def, first_seq (r := oneOf _)]
  rw [first_plus_eq_some_iff]
  · simp only [first_oneOf, List.mem_singleton]
    constructor
    · rintro ⟨a, -, rfl, ha, x, r, rfl, rfl, h⟩
      rw [first_plus_eq_some_iff_of_isSome fun m => hk _] at h
      obtain ⟨c, rest, rfl, hc, h⟩ := h
      exact ⟨a, c, rest, rfl, ⟨ha.ne_nil, ha.mem⟩, hc, h⟩
    · rintro ⟨a, c, rest, rfl, ha, hc, h⟩
      refine ⟨a, _, rfl, ⟨ha.1, ha.2, fun x hx => ?_⟩, '.', _, rfl, rfl, ?_⟩
      · obtain rfl := Option.some.inj hx
        exact hdot
      · rw [first_plus_eq_some_iff_of_isSome fun m => hk _]
        exact ⟨c, rest, rfl, hc, h⟩
  · intro t x s _ hx
    refine Option.eq_none_iff_forall_ne_some.mpr fun b' hb' => ?_
    obtain ⟨c, r, hl, hc, -⟩ := first_oneOf.mp hb'
    obtain ⟨rfl, -⟩ := List.cons_eq_cons.mp hl
    rw [List.mem_singleton.mp hc, hdot] at hx
    cases hx

theorem Occurs.append_nil {pre t a c rest : List Char} (h : Occurs lib l [] t a c rest) :
    Occurs lib (pre ++ l) pre t a c rest :=
  ⟨congrArg (pre ++ ·) h.eq, h.line, h.major, h.minor⟩

theorem Occurs.drop {pre t a c rest : List Char} (h : Occurs lib (pre ++ l) pre t a c rest) :
    Occurs lib l [] t a c rest :=
  ⟨List.append_cancel_left h.eq, h.line, h.major, h.minor⟩

theorem Occurs.isSome_matchStart {t a c rest : List Char} (h : Occurs lib l [] t a c rest) :
    (matchStart (openbsdPattern lib) l).isSome := by
  have hline : ∀ x ∈ t, decide (x ≠ '\n') = true := fun x hx =>
    decide_eq_true fun heq => h.line (heq ▸ hx)
  rw [isSome_matchStart_iff]
  refine ⟨_, rest, _, .seq (matches_literal _ _) (.seq (.many hline) (.group
    (.seq (matches_plus_of h.major.1 h.major.2)
      (.seq (.one (decide_eq_true (List.mem_singleton_self _)))
      (matches_plus_of h.minor.1 h.minor.2))))), ?_⟩
  rw [h.eq]
  simp

theorem matchStart_openbsd_iff {m : Match Char} : matchStart (openbsdPattern lib) l = some m ↔
    ∃ t a c rest, Occurs lib l [] t a c rest ∧ (∀ x ∈ rest.head?, lib.isDecimal x = false) ∧
      (∀ t' a' c' rest', Occurs lib l [] t' a' c' rest' → t.length ≤ t'.length) ∧
      m = ⟨"openbsd".toList ++ (t ++ (a ++ '.' :: c)), rest, [a ++ '.' :: c]⟩ := by
  have hline : ∀ t : List Char, (∀ c ∈ t, decide (c ≠ '\n') = true) ↔ '\n' ∉ t := by
    intro t
    simp only [decide_eq_true_eq]
    exact ⟨fun h hmem => h _ hmem rfl, fun h c hc heq => h (heq ▸ hc)⟩
  rw [matchStart_eq_first, openbsdPattern, first_seq, first_text]
  simp only [Function.comp_def, first_seq (r := anyLazy)]
  constructor
  · rintro ⟨r, rfl, h⟩
    rw [anyLazy, first_lazy_eq_some_iff] at h
    obtain ⟨t, s, rfl, ht, h, hleast⟩ := h
    obtain ⟨a, c, rest, rfl, ha, hc, h⟩ := (first_decimal fun m => rfl).mp h
    refine ⟨t, a, c, rest, ⟨rfl, (hline t).mp ht, ha, hc.ne_nil, hc.mem⟩, hc.stop, ?_,
      (Option.some.inj h).symm⟩
    intro t' a' c' rest' h'
    by_contra hlt
    rw [not_le] at hlt
    have hl := List.append_cancel_left h'.eq
    have hnone := hleast t' _ hl.symm hlt
    -- all digits that are there
    have hne : (c' ++ rest').takeWhile lib.isDecimal ≠ [] := by
      rw [List.takeWhile_append_of_pos h'.minor.2]
      exact List.append_ne_nil_of_left_ne_nil h'.minor.1 _
    refine Option.eq_none_iff_forall_ne_some.mp hnone _ ((first_decimal fun m => rfl).mpr
      ⟨a', _, _, ?_, h'.major, isRun_takeWhile hne, rfl⟩)
    rw [List.takeWhile_append_dropWhile]
  · rintro ⟨t, a, c, rest, h, hstop, hleast, rfl⟩
    refine ⟨_, h.eq, ?_⟩
    rw [anyLazy, first_lazy_eq_some_iff]
    refine ⟨t, _, rfl, (hline t).mpr h.line, (first_decimal fun m => rfl).mpr
      ⟨a, c, rest, rfl, h.major, ⟨h.minor.1, h.minor.2, hstop⟩, rfl⟩, fun t' s' hl hlt => ?_⟩
    refine Option.eq_none_iff_forall_ne_some.mpr fun m hm => ?_
    obtain ⟨a', c', rest', rfl, ha', hc', -⟩ := (first_decimal fun m => rfl).mp hm
    have hline' : '\n' ∉ t' := fun hmem => by
      obtain ⟨u, rfl⟩ : t' <+: t := List.prefix_of_prefix_length_le ⟨_, hl⟩ ⟨_, rfl⟩ hlt.le
      exact h.line (List.mem_append_left _ hmem)
    have hle := hleast t' a' c' rest'
      ⟨h.eq.trans (congrArg ("openbsd".toList ++ ·) hl.symm), hline', ha', hc'.ne_nil, hc'.mem⟩
    omega

theorem detectOpenbsd_iff : detectOpenbsd lib l = some d ↔ Openbsd lib l d := by
  rw [detectOpenbsd, Option.map_eq_some_iff]
  simp only [search_eq_some_iff, matchStart_openbsd_iff]
  constructor
  · rintro ⟨m, ⟨pre, post, rfl, ⟨t, a, c, rest, h, hstop, hleast, rfl⟩, hfirst⟩, rfl⟩
    refine ⟨pre, t, a, c, rest, h.append_nil, hstop, fun pre' t' a' c' rest' h' => ?_, rfl⟩
    rcases lt_trichotomy pre.length pre'.length with hlt | heq | hgt
    · exact .inl hlt
    · obtain ⟨rfl, -⟩ := List.append_inj h'.eq heq
      exact .inr ⟨rfl, hleast t' a' c' rest' h'.drop⟩
    · have hnone := hfirst pre' _ h'.eq hgt
      have hat : Occurs lib _ [] t' a' c' rest' := ⟨rfl, h'.line, h'.major, h'.minor⟩
      have hsome := hat.isSome_matchStart
      rw [List.nil_append, hnone] at hsome
      cases hsome
  · rintro ⟨pre, t, a, c, rest, h, hstop, hleast, rfl⟩
    refine ⟨_, ⟨pre, _, h.eq, ⟨t, a, c, rest, ⟨rfl, h.line, h.major, h.minor⟩, hstop, ?_, rfl⟩,
      fun pre' post' hl hlt => ?_⟩, rfl⟩
    · intro t' a' c' rest' h'
      have hle := hleast pre t' a' c' rest' (h.eq ▸ h'.append_nil)
      omega
    · refine Option.eq_none_iff_forall_ne_some.mpr fun m hm => ?_
      obtain ⟨t', a', c', rest', h', -⟩ := matchStart_openbsd_iff.mp hm
      have hle := hleast pre' t' a' c' rest' (hl ▸ h'.append_nil)
      omega

/-! ### One kind of label at most -/

theorem labelled_iff : Labelled lib l d ↔
    (∃ sep t number spaces, l = "fedora".toList ++ sep :: (t ++ (number ++ spaces)) ∧
      sep ∈ ['-', ' '] ∧ '\n' ∉ t ∧ (∀ c ∈ t.getLast?, lib.isDecimal c = false) ∧ number ≠ [] ∧
      (∀ c ∈ number, lib.isDecimal c = true) ∧ (∀ c ∈ spaces, isSpace c = true) ∧
      Distro.mk "fedora" "fedora" (String.ofList number) = d) ∨
    ∃ row ∈ spellings, Named lib row.1 row.2.1 row.2.2 l d := by
  constructor
  · rintro (⟨hsep, ht, hlast, hne, hnumber, hspaces⟩ | ⟨hrow, hsep, hrun⟩)
    · exact .inl ⟨_, _, _, _, rfl, hsep, ht, hlast, hne, hnumber, hspaces, rfl⟩
    · exact .inr ⟨_, hrow, _, _, _, rfl, hsep, hrun, rfl⟩
  · rintro (⟨sep, t, number, spaces, rfl, hsep, ht, hlast, hne, hnumber, hspaces, rfl⟩ |
      ⟨⟨name, seps, distro⟩, hrow, sep, version, rest, rfl, hsep, hrun, rfl⟩)
    · exact .fedora hsep ht hlast hne hnumber hspaces
    · exact .named hrow hsep hrun

theorem exists_detect_iff :
    (∃ t ∈ labelTests lib, t.detect l = some d) ↔ Labelled lib l d := by
  rw [labelled_iff]
  simp only [labelTests, spellings, List.mem_cons, List.not_mem_nil, or_false, exists_eq_or_imp,
    exists_eq_left, detect_fedora, detect_named, detect_alma, detect_centos, or_assoc]

/-- The tests and the letters that a label begins with where they succeed. -/
def initials (lib : IsoLib) : List (String × LabelTest) :=
  ["fe", "rh", "ro", "al", "ce", "ub", "de", "fr"].zip (labelTests lib)

/-- A test that begins with a name. -/
theorem prefix_of_detect {name : String} {r : Pattern Char} {distro : String → Distro}
    (h : LabelTest.detect ⟨.seq (text name) r, distro⟩ l = some d) : name.toList <+: l := by
  rw [detect_eq_first, first_seq, first_text] at h
  obtain ⟨r, rfl, -⟩ := h
  exact List.prefix_append _ _

theorem mem_initials (ht : t ∈ labelTests lib) (h : t.detect l = some d) :
    (String.ofList (l.take 2), t) ∈ initials lib := by
  simp only [labelTests, List.mem_cons, List.not_mem_nil, or_false] at ht
  rcases ht with rfl | rfl | rfl | rfl | rfl | rfl | rfl | rfl
  case inr.inr.inr.inl =>
    rw [detect_eq_first, versionPattern, first_seq, first_seq, first_text] at h
    obtain ⟨r, rfl, -⟩ := h
    simp [initials, labelTests]
  all_goals
    obtain ⟨r, rfl⟩ := prefix_of_detect h
    simp [initials, labelTests]

/-- No label is of two kinds. -/
theorem detect_agree (ht : t ∈ labelTests lib) (ht' : t' ∈ labelTests lib) (h : t.detect l = some d)
    (h' : t'.detect l = some d') : d = d' := by
  have hkeys : (initials lib).map Prod.fst = ["fe", "rh", "ro", "al", "ce", "ub", "de", "fr"] := rfl
  have hnodup : ((initials lib).map Prod.fst).Nodup := by
    rw [hkeys]
    decide
  have hsame := List.inj_on_of_nodup_map hnodup (mem_initials ht h) (mem_initials ht' h') rfl
  rw [Prod.mk.injEq] at hsame
  rw [← hsame.2, h, Option.some.injEq] at h'
  exact h'

theorem findSome?_detect_iff {tests : List LabelTest} (h : tests.Perm (labelTests lib)) :
    (tests.findSome? fun t => t.detect l) = some d ↔ Labelled lib l d := by
  rw [← exists_detect_iff, findSome?_eq_some_iff_of_agree]
  · simp only [h.mem_iff]
  · intro t ht t' ht' d d' hd hd'
    exact detect_agree (h.mem_iff.mp ht) (h.mem_iff.mp ht') hd hd'

/-- **Volume labels**: a label names a distribution where it has the form of one of the labels that
have one, or else the version of an OpenBSD; no label has two of the forms, and in whatever order
the eight patterns are tried, the result is the same. -/
theorem parseVolumeId_spec (lib : IsoLib) (volumeId : String) :
    let label := (lib.lower volumeId).toList
    (∀ d, parseVolumeId lib volumeId = some d ↔
      Labelled lib label d ∨ (∀ d', ¬ Labelled lib label d') ∧ Openbsd lib label d) ∧
    (∀ d d', Labelled lib label d → Labelled lib label d' → d = d') ∧
    ∀ tests : List LabelTest, tests.Perm (labelTests lib) →
      ((tests.findSome? fun t => t.detect label) <|> detectOpenbsd lib label) =
        parseVolumeId lib volumeId := by
  intro label
  refine ⟨fun d => ?_, fun d d' h h' => ?_, fun tests htests => ?_⟩
  · rw [parseVolumeId, Option.orElse_eq_some, findSome?_detect_iff (.refl _), detectOpenbsd_iff]
    refine or_congr_right (and_congr_left fun _ => ?_)
    rw [Option.eq_none_iff_forall_ne_some]
    exact forall_congr' fun d' => not_congr (findSome?_detect_iff (.refl _))
  · obtain ⟨t, ht, hd⟩ := exists_detect_iff.mpr h
    obtain ⟨t', ht', hd'⟩ := exists_detect_iff.mpr h'
    exact detect_agree ht ht' hd hd'
  · have hsame : (tests.findSome? fun t => t.detect label) =
        (labelTests lib).findSome? fun t => t.detect label :=
      Option.ext fun d => by rw [findSome?_detect_iff htests, findSome?_detect_iff (.refl _)]
    rw [hsame, parseVolumeId]

/-- An interpreter that only knows ASCII. -/
def asciiIso : IsoLib :=
  { MnemonicRegistry.asciiPatterns with
    isDecimal_of_isSpace := fun c h => by
      simp only [isSpace, Bool.or_eq_true, Bool.and_eq_true, decide_eq_true_eq, beq_iff_eq] at h
      simp only [MnemonicRegistry.asciiPatterns, Char.isDigit, Bool.and_eq_false_iff,
        decide_eq_false_iff_not]
      rw [ge_iff_le, UInt32.le_iff_toNat_le, UInt32.le_iff_toNat_le]
      have hnat : c.toNat = c.val.toNat := rfl
      have hlow : '0'.val.toNat = 48 := rfl
      have hhigh : '9'.val.toNat = 57 := rfl
      omega
    lower_decoded := fun _ _ => rfl
    isDecimal_replacement := by decide }

end IsoDetect

end TftpOS
