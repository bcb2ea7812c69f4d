import TftpOS.IsoLabels
import TftpOS.Lib.StableSort

/-!
# Detecting what is on an ISO

`detect_iso` and `is_live_iso` of `tftpos/iso_detect.py`. A mounted image is asked for seven kinds
of metadata, one after the other, and the image file for its label. What the operating system
answers is a `Mount`: which paths are files and directories, what they hold, and the names in a
directory in the order in which it happens to list them.

The entries of the table for `.treeinfo` may be tried in any order (`treeinfoFamily_perm`). The
order in which directories are listed matters at one place alone, the sets of an OpenBSD
(`detectIso_listing_iff`).
-/

namespace TftpOS

open Lib Pattern

/-- What the operating system says of a mounted image; `none` is an `OSError`. -/
structure Mount where
  isFile : List String → Bool
  isDir : List String → Bool
  read : List String → Option (List UInt8)
  /-- The names in a directory, in the order of the operating system. -/
  iterdir : List String → Option (List String)

/-- A parsed INI file. -/
structure Ini (ε : Type) where
  hasSection : String → Bool
  /-- `get` without its fallback; it raises where an interpolation fails. -/
  get : String → String → Except ε (Option String)

/-- What the detection takes beside `IsoLib`. -/
structure DetectLib (ε : Type) extends IsoLib where
  /-- `bytes.decode("utf-8")`, with the newlines translated; `none` is a `UnicodeDecodeError`. -/
  decode : List UInt8 → Option String
  /-- The same with `errors="replace"`. -/
  decodeReplace : List UInt8 → String
  /-- `ConfigParser.read_string`; `none` is a `configparser.Error`. -/
  parseIni : String → Option (Ini ε)
  /-- What `iterdir` raises. -/
  osError : ε

namespace IsoDetect

/-! ### Text -/

/-- The characters that end a line. -/
def isLineEnd (c : Char) : Bool :=
  c ∈ ['\n', '\r', Char.ofNat 0x0B, Char.ofNat 0x0C, Char.ofNat 0x1C, Char.ofNat 0x1D,
    Char.ofNat 0x1E, Char.ofNat 0x85, Char.ofNat 0x2028, Char.ofNat 0x2029]

/-- The lines of a text, given the beginning of the first one. -/
def splitLinesAux (line : List Char) : List Char → List (List Char)
  | [] => if line = [] then [] else [line]
  | '\r' :: '\n' :: l => line :: splitLinesAux [] l
  | c :: l => if isLineEnd c then line :: splitLinesAux [] l else splitLinesAux (line ++ [c]) l

/-- `s.splitlines()`. -/
def splitLines (s : String) : List String := (splitLinesAux [] s.toList).map String.ofList

/-- `s.partition(":")`, where there is a colon. -/
def partitionColon (s : String) : Option (String × String) :=
  if ':' ∈ s.toList then
    some (String.ofList (s.toList.takeWhile (· ≠ ':')),
      String.ofList ((s.toList.dropWhile (· ≠ ':')).drop 1))
  else none

/-- `s.split()[0]` for a text that does not begin with a space. -/
def firstWord (s : String) : String := String.ofList (s.toList.takeWhile fun c => !isSpace c)

/-- `s.endswith(p)`. -/
def endsWith (s p : String) : Bool := p.toList.isSuffixOf s.toList

/-- `p in s`. -/
def hasText (p s : String) : Bool := decide (p.toList <:+: s.toList)

section

variable {ε : Type} (lib : DetectLib ε) (mount : Mount)

/-- `path.read_text(encoding="utf-8", errors="replace")`. -/
def readText (path : List String) : Option String := (mount.read path).map lib.decodeReplace

/-! ### `.treeinfo` -/

/-- `_TREEINFO_FAMILY_MAP`. -/
def treeinfoFamilyMap : List (String × String × String) := [
  ("fedora", "fedora", "fedora"), ("red hat enterprise linux", "fedora", "rhel"),
  ("rhel", "fedora", "rhel"), ("centos", "fedora", "centos"), ("centos stream", "fedora", "centos"),
  ("centos linux", "fedora", "centos"), ("rocky", "fedora", "rocky"),
  ("rocky linux", "fedora", "rocky"), ("almalinux", "fedora", "alma"), ("alma", "fedora", "alma")]

/-- The loop over the map: the first entry that the family is, or begins with. -/
def treeinfoFamily (map : List (String × String × String)) (familyLower : String) :
    Option (String × String) :=
  map.findSome? fun e =>
    if familyLower = e.1 ∨ startsWith familyLower e.1 = true then some e.2 else none

/-- What `_parse_treeinfo` makes of the three values. -/
def treeinfoDistro (family version name : String) : Option Distro :=
  let family := if family = "" ∧ name ≠ "" then firstWord name else family
  if family = "" ∨ version = "" then none
  else
    let familyLower := lib.lower family
    let (osFamily, vendor) :=
      (treeinfoFamily treeinfoFamilyMap familyLower).getD (familyLower, familyLower)
    some ⟨osFamily, vendor, version⟩

/-- `_parse_treeinfo`. -/
def parseTreeinfo (path : List String) : Except ε (Option Distro) :=
  match (mount.read path).bind lib.decode >>= lib.parseIni with
  | none => .ok none
  | some ini =>
    if !ini.hasSection "general" then .ok none
    else do
      let family ← ini.get "general" "family"
      let version ← ini.get "general" "version"
      let name ← ini.get "general" "name"
      return treeinfoDistro lib (strip (family.getD "")) (strip (version.getD ""))
        (strip (name.getD ""))

/-- `_detect_treeinfo`. -/
def detectTreeinfo : Except ε (Option Distro) :=
  if mount.isFile [".treeinfo"] then parseTreeinfo lib mount [".treeinfo"]
  else if mount.isFile ["treeinfo"] then parseTreeinfo lib mount ["treeinfo"]
  else .ok none

/-! ### `.discinfo` -/

/-- `\d[\d.]*` in a group. -/
def numberGroup : Pattern Char :=
  .group (.seq (.one lib.isDecimal) (.many true (versionChar lib.toIsoLib)))

/-- `\s+`. -/
def spaces : Pattern Char := .plus isSpace

/-- `_DISCINFO_PATTERNS`. -/
def discinfoPatterns : List LabelTest := [
  ⟨.seq (text "red") (.seq spaces (.seq (text "hat") (.seq spaces (.seq (text "enterprise")
    (.seq spaces (.seq (text "linux") (.seq spaces (numberGroup lib)))))))),
    Distro.mk "fedora" "rhel"⟩,
  ⟨.seq (text "centos") (.seq spaces (.seq (opt (.alt (.seq (text "stream") spaces)
    (.seq (text "linux") spaces))) (numberGroup lib))), Distro.mk "fedora" "centos"⟩,
  ⟨.seq (text "rocky") (.seq spaces (.seq (opt (.seq (text "linux") spaces)) (numberGroup lib))),
    Distro.mk "fedora" "rocky"⟩,
  ⟨.seq (text "alma") (.seq (.many true isSpace) (.seq (text "linux") (.seq spaces
    (numberGroup lib)))), Distro.mk "fedora" "alma"⟩,
  ⟨.seq (text "fedora") (.seq spaces (.seq (opt (.seq (text "linux") spaces)) (numberGroup lib))),
    Distro.mk "fedora" "fedora"⟩]

/-- `_parse_release_string`. -/
def parseReleaseString (release : String) : Option Distro :=
  let line := (lib.lower release).toList
  (discinfoPatterns lib).findSome? fun t =>
    (search t.pattern line).map fun m => t.distro (group1 m)

/-- `_detect_discinfo`. -/
def detectDiscinfo : Option Distro :=
  if !mount.isFile [".discinfo"] then none
  else
    match readText lib mount [".discinfo"] with
    | none => none
    | some content =>
      match splitLines content with
      | _ :: line :: _ => if strip line = "" then none else parseReleaseString lib (strip line)
      | _ => none

/-! ### `README.diskdefines` -/

/-- `#define\s+name\s+` and a group. -/
def definePattern (name : String) (value : Pattern Char) : Pattern Char :=
  .seq (text "#define") (.seq spaces (.seq (text name) (.seq spaces (.group value))))

/-- `m.group(1)` of a match at the beginning of a line. -/
def matchGroup (r : Pattern Char) (line : String) : Option String :=
  (matchStart r line.toList).map group1

/-- The value that the last line with a definition gives a name. -/
def lastDefine (name : String) (lines : List String) : Option String :=
  lines.foldl (fun last line =>
    ((matchGroup (definePattern name (.plus fun c => !isSpace c)) (strip line)).map strip).or last)
    none

/-- `_parse_diskname`. -/
def parseDiskname (diskname : String) : Option Distro :=
  let r := .seq (.group (.plus lib.isWord))
    (.seq spaces (.group (.plus (versionChar lib.toIsoLib))))
  (matchStart r diskname.toList).map fun m =>
    let name := lib.lower (group1 m)
    ⟨name, name, String.ofList (m.groups.tail.headD [])⟩

/-- `_detect_diskdefines`. The branches for Ubuntu are those for the others at the name `ubuntu`. -/
def detectDiskdefines : Option Distro :=
  if !mount.isFile ["README.diskdefines"] then none
  else
    match readText lib mount ["README.diskdefines"] with
    | none => none
    | some content =>
      let lines := splitLines content
      match filled (lastDefine "DISTRIB_ID" lines), filled (lastDefine "DISTRIB_RELEASE" lines) with
      | some distribId, some distribRelease =>
        some ⟨lib.lower distribId, lib.lower distribId, distribRelease⟩
      | _, _ =>
        (lines.findSome? fun line =>
          matchGroup (definePattern "DISKNAME" (.many true fun c => c ≠ '\n')) line).bind
            fun diskname => parseDiskname lib (strip diskname)

/-! ### `dists/` -/

/-- The fields of a `Release` file: the last line with a key gives its value. -/
def releaseFields (content : String) : Dict String String :=
  (splitLines content).foldl (fun fields line =>
    match partitionColon line with
    | none => fields
    | some (key, value) => fields.set (lib.lower (strip key)) (strip value)) ∅

/-- `_parse_debian_release`. -/
def parseDebianRelease (path : List String) : Option Distro :=
  (readText lib mount path).bind fun content =>
    let fields := releaseFields lib content
    let field := fun key => (fields.get? key).getD ""
    let label := lib.lower (field "label")
    let origin := lib.lower (field "origin")
    let name := if label = "ubuntu" ∨ hasText "ubuntu" origin = true then "ubuntu" else "debian"
    let detectedVersion :=
      if field "version" ≠ "" then field "version"
      else if field "codename" ≠ "" then field "codename" else field "suite"
    if detectedVersion = "" then none else some ⟨name, name, detectedVersion⟩

/-- `_detect_debian_dists`. -/
def detectDebianDists : Except ε (Option Distro) :=
  if !mount.isDir ["dists"] then .ok none
  else
    match mount.iterdir ["dists"] with
    | none => .error lib.osError
    | some names => .ok ((sortOn id names).findSome? fun name =>
      if mount.isDir ["dists", name] && mount.isFile ["dists", name, "Release"] then
        parseDebianRelease lib mount ["dists", name, "Release"]
      else none)

/-! ### `install.amd/` -/

/-- A letter without regard to case; beside the ASCII letters, two others have `i` for a lower or
upper case. -/
def anyCase (letter : Char) : Pattern Char :=
  .one fun c => c.toLower = letter ||
    (letter = 'i' && c ∈ [Char.ofNat 0x130, Char.ofNat 0x131])

/-- A text in lower case, matched without regard to case. -/
def textAnyCase : List Char → Pattern Char
  | [] => .empty
  | c :: cs => .seq (anyCase c) (textAnyCase cs)

/-- `Debian\s+GNU/Linux\s+([\d.]+)`, with `re.IGNORECASE`. -/
def netinstPattern : Pattern Char :=
  .seq (textAnyCase "debian".toList) (.seq spaces (.seq (textAnyCase "gnu/linux".toList)
    (.seq spaces (.group (.plus (versionChar lib.toIsoLib))))))

/-- What `.disk/info` says, if it is there. -/
def diskInfo : String :=
  if mount.isFile [".disk", "info"] then strip ((readText lib mount [".disk", "info"]).getD "")
  else ""

/-- `_detect_debian_netinst`; the pattern does not match an empty text. -/
def detectDebianNetinst : Option Distro :=
  if !mount.isDir ["install.amd"] then none
  else
    match matchGroup (netinstPattern lib) (diskInfo lib mount) with
    | some version => some ⟨"debian", "debian", major version⟩
    | none => some ⟨"debian", "debian", "unknown"⟩

/-! ### OpenBSD and FreeBSD -/

/-- `path.stem`. -/
def stem (name : String) : String :=
  let base := name.toList
  let suffix := base.rtakeWhile (· ≠ '.')
  let front := base.rdropWhile (· ≠ '.')
  if front.length ≤ 1 ∨ suffix = [] then name else String.ofList front.dropLast

/-- The names that the pattern `pre*.tgz` is for. -/
def isTgz (pre name : String) : Bool :=
  startsWith name pre && endsWith name ".tgz" && pre.length + 4 ≤ name.length

/-- `mount_point.glob(pre + "*.tgz")`. -/
def globTgz (pre : String) : List String := ((mount.iterdir []).getD []).filter (isTgz pre)

/-- `(?:base|man)(\d+)`. -/
def setPattern : Pattern Char :=
  .seq (.alt (text "base") (text "man")) (.group (.plus lib.isDecimal))

/-- The version that the number of a set stands for. -/
def setVersion (ver : String) : String :=
  match ver.toList with
  | [a, b] => String.ofList [a, '.', b]
  | _ => ver

/-- `_openbsd_version_from_sets`. -/
def openbsdVersionFromSets : Option String :=
  ["base", "man"].findSome? fun pre =>
    (globTgz mount pre).head?.bind fun name =>
      (matchGroup (setPattern lib) (stem name)).map setVersion

/-- `_detect_openbsd`. -/
def detectOpenbsdSets : Option Distro :=
  if !(mount.isFile ["MANIFEST"] || mount.isFile ["bsd.rd"]) then none
  else some ⟨"openbsd", "openbsd", (openbsdVersionFromSets lib mount).getD "unknown"⟩

/-- `(\d+\.\d+)`. -/
def freebsdPattern : Pattern Char :=
  .group (.seq (.plus lib.isDecimal) (.seq (oneOf ['.']) (.plus lib.isDecimal)))

/-- `_freebsd_version`. -/
def freebsdVersion : Option String :=
  ["RELEASE", "release"].findSome? fun name =>
    if mount.isFile [name] then
      (readText lib mount [name]).bind fun content =>
        (search (freebsdPattern lib) (strip content).toList).map group1
    else none

/-- `_detect_freebsd`. -/
def detectFreebsd : Option Distro :=
  if !(mount.isFile ["base.txz"] || mount.isFile ["usr", "freebsd-dist", "base.txz"]) then none
  else some ⟨"freebsd", "freebsd", (freebsdVersion lib mount).getD "unknown"⟩

/-! ### All of them -/

/-- The detectors, in the order in which they are asked. -/
def detectors : List (Except ε (Option Distro)) := [
  detectTreeinfo lib mount, .ok (detectDiscinfo lib mount), .ok (detectDiskdefines lib mount),
  detectDebianDists lib mount, .ok (detectDebianNetinst lib mount),
  .ok (detectOpenbsdSets lib mount), .ok (detectFreebsd lib mount)]

/-- The loop over the detectors. -/
def firstDetected : List (Except ε (Option Distro)) → Except ε (Option Distro)
  | [] => .ok none
  | .error e :: _ => .error e
  | .ok (some d) :: _ => .ok (some d)
  | .ok none :: rest => firstDetected rest

/-- `detect_iso`; `image` is the image file, where its path is given, and what it holds. -/
def detectIso (image : Option (Option (List UInt8))) : Except ε (Option Distro) := do
  match ← firstDetected (detectors lib mount) with
  | some d => return some d
  | none => return image.bind (detectVolumeLabel lib.toIsoLib)

end

variable {ε : Type} {lib : DetectLib ε} {mount mount' : Mount} {d : Distro}

/-! ### The table of `.treeinfo` -/

/-- **The order of the table** of `.treeinfo` does not matter, although some of its keys begin with
others. -/
theorem treeinfoFamily_perm {map : List (String × String × String)}
    (h : map.Perm treeinfoFamilyMap) (familyLower : String) :
    treeinfoFamily map familyLower = treeinfoFamily treeinfoFamilyMap familyLower := by
  have htable : ∀ e ∈ treeinfoFamilyMap, ∀ e' ∈ treeinfoFamilyMap, e.1.toList <+: e'.1.toList →
      e.2 = e'.2 := by decide +kernel
  have hstart : ∀ {e : String × String × String} {b},
      (if familyLower = e.1 ∨ startsWith familyLower e.1 = true then some e.2 else none) = some b →
        e.1.toList <+: familyLower.toList ∧ e.2 = b := by
    intro e b he
    split_ifs at he with hkey
    refine ⟨?_, Option.some.inj he⟩
    rcases hkey with rfl | hstarts
    · exact List.prefix_rfl
    · exact List.isPrefixOf_iff_prefix.mp hstarts
  refine (findSome?_eq_of_perm h.symm fun e he e' he' b b' hb hb' => ?_).symm
  obtain ⟨hkey, rfl⟩ := hstart hb
  obtain ⟨hkey', rfl⟩ := hstart hb'
  rcases List.prefix_or_prefix_of_prefix hkey hkey' with hle | hle
  · exact htable e he e' he' hle
  · exact (htable e' he' e he hle).symm

/-! ### The order of the listings -/

/-- The same mount, with its directories listed in another order. -/
structure Relisted (mount mount' : Mount) : Prop where
  isFile : mount'.isFile = mount.isFile
  isDir : mount'.isDir = mount.isDir
  read : mount'.read = mount.read
  iterdir : ∀ path, Option.Rel List.Perm (mount'.iterdir path) (mount.iterdir path)

/-- The names that may come first among some, or none if there are none. -/
def choices (names : List String) : List (Option String) :=
  if names = [] then [none] else names.map some

/-- The version that the names of two sets stand for. -/
def versionOfSets (lib : DetectLib ε) (base man : Option String) : String :=
  let versionOf := fun (name : Option String) => name.bind fun name =>
    (matchGroup (setPattern lib) (stem name)).map setVersion
  ((versionOf base).or (versionOf man)).getD "unknown"

/-- Whichever names come first, the sets stand for the same version. -/
def SetsAgree (lib : DetectLib ε) (mount : Mount) : Prop :=
  ∀ base ∈ choices (globTgz mount "base"), ∀ base' ∈ choices (globTgz mount "base"),
    ∀ man ∈ choices (globTgz mount "man"), ∀ man' ∈ choices (globTgz mount "man"),
      versionOfSets lib base man = versionOfSets lib base' man'

theorem firstDetected_append {l : List (Except ε (Option Distro))} (h : firstDetected l = .ok none)
    (r : List (Except ε (Option Distro))) : firstDetected (l ++ r) = firstDetected r := by
  induction l with
  | nil => rfl
  | cons x l ih =>
    rcases x with e | _ | d
    · cases h
    · exact ih h
    · cases h

theorem firstDetected_append_of_ne {l : List (Except ε (Option Distro))}
    (h : firstDetected l ≠ .ok none) (r : List (Except ε (Option Distro))) :
    firstDetected (l ++ r) = firstDetected l := by
  induction l with
  | nil => exact absurd rfl h
  | cons x l ih =>
    rcases x with e | _ | d
    · rfl
    · exact ih h
    · rfl

theorem openbsdVersion_eq (lib : DetectLib ε) (mount : Mount) :
    (openbsdVersionFromSets lib mount).getD "unknown" =
      versionOfSets lib (globTgz mount "base").head? (globTgz mount "man").head? := by
  rw [openbsdVersionFromSets, versionOfSets, List.findSome?_cons, List.findSome?_cons,
    List.findSome?_nil]
  dsimp only
  cases (globTgz mount "base").head?.bind fun name =>
      (matchGroup (setPattern lib) (stem name)).map setVersion with
  | some v => rfl
  | none =>
    cases (globTgz mount "man").head?.bind fun name =>
      (matchGroup (setPattern lib) (stem name)).map setVersion <;> rfl

theorem mem_choices_iff {names : List String} {o : Option String} :
    o ∈ choices names ↔ names = [] ∧ o = none ∨ ∃ name ∈ names, o = some name := by
  rw [choices]
  split_ifs with h
  · simp [h]
  · simp [h, eq_comm]

theorem head?_mem_choices (names : List String) : names.head? ∈ choices names := by
  cases names <;> simp [mem_choices_iff]

theorem mem_choices_of_perm {names names' : List String} (h : names.Perm names')
    {o : Option String} : o ∈ choices names ↔ o ∈ choices names' := by
  have hnil : names = [] ↔ names' = [] := by
    rw [← List.length_eq_zero_iff, ← List.length_eq_zero_iff, h.length_eq]
  simp only [mem_choices_iff, hnil, h.mem_iff]

theorem Relisted.globTgz (h : Relisted mount mount') (pre : String) :
    (globTgz mount' pre).Perm (globTgz mount pre) := by
  have hroot := h.iterdir []
  rw [IsoDetect.globTgz, IsoDetect.globTgz]
  rcases hnames : mount.iterdir [] with _ | names <;>
    rcases hnames' : mount'.iterdir [] with _ | names'
  · exact .refl _
  · rw [hnames, hnames'] at hroot
    cases hroot
  · rw [hnames, hnames'] at hroot
    cases hroot
  · rw [hnames, hnames'] at hroot
    cases hroot with
    | some hperm => exact hperm.filter _

/-- Two detectors read listings, and one of them sorts what it reads. -/
theorem Relisted.take_detectors (h : Relisted mount mount') :
    (detectors lib mount').take 5 = (detectors lib mount).take 5 := by
  have hdists : detectDebianDists lib mount' = detectDebianDists lib mount := by
    have hnames := h.iterdir ["dists"]
    simp only [detectDebianDists, parseDebianRelease, readText, h.isFile, h.isDir, h.read]
    revert hnames
    generalize mount'.iterdir ["dists"] = names'
    generalize mount.iterdir ["dists"] = names
    rintro (hperm | _)
    · dsimp only
      rw [sortOn_id_eq_of_perm hperm]
    · rfl
  simp only [detectors, List.take_succ_cons, List.take_zero, hdists]
  simp only [detectTreeinfo, parseTreeinfo, detectDiscinfo, detectDiskdefines, detectDebianNetinst,
    diskInfo, readText, h.isFile, h.isDir, h.read]

/-- What is detected, by what the first five detectors say. -/
theorem detectIso_of_eq_none (image : Option (Option (List UInt8)))
    (h : firstDetected ((detectors lib mount).take 5) = .ok none)
    (hsets : mount.isFile ["MANIFEST"] = true ∨ mount.isFile ["bsd.rd"] = true) :
    detectIso lib mount image = .ok (some ⟨"openbsd", "openbsd",
      versionOfSets lib (IsoDetect.globTgz mount "base").head?
        (IsoDetect.globTgz mount "man").head?⟩) := by
  have hsplit : detectors lib mount = (detectors lib mount).take 5 ++
      [.ok (detectOpenbsdSets lib mount), .ok (detectFreebsd lib mount)] := rfl
  have hfound : detectOpenbsdSets lib mount = some ⟨"openbsd", "openbsd",
      versionOfSets lib (IsoDetect.globTgz mount "base").head?
        (IsoDetect.globTgz mount "man").head?⟩ := by
    rw [detectOpenbsdSets, openbsdVersion_eq, if_neg]
    rcases hsets with h | h <;> simp [h]
  rw [detectIso, hsplit, firstDetected_append h, hfound]
  rfl

theorem detectIso_relisted_of_ne (h : Relisted mount mount') (image : Option (Option (List UInt8)))
    (hne : firstDetected ((detectors lib mount).take 5) ≠ .ok none) :
    detectIso lib mount' image = detectIso lib mount image := by
  have hsplit : ∀ m, detectors lib m = (detectors lib m).take 5 ++ (detectors lib m).drop 5 :=
    fun m => (List.take_append_drop 5 _).symm
  rw [detectIso, detectIso, hsplit mount', hsplit mount, h.take_detectors,
    firstDetected_append_of_ne hne, firstDetected_append_of_ne hne]

theorem detectIso_relisted_of_no_sets (h : Relisted mount mount')
    (image : Option (Option (List UInt8)))
    (hsets : mount.isFile ["MANIFEST"] = false ∧ mount.isFile ["bsd.rd"] = false) :
    detectIso lib mount' image = detectIso lib mount image := by
  have hopenbsd : ∀ m, m.isFile = mount.isFile → detectOpenbsdSets lib m = none := by
    intro m hm
    rw [detectOpenbsdSets, hm, hsets.1, hsets.2]
    rfl
  have hfreebsd : detectFreebsd lib mount' = detectFreebsd lib mount := by
    simp only [detectFreebsd, freebsdVersion, readText, h.isFile, h.read]
  have hsplit : ∀ m, detectors lib m = (detectors lib m).take 5 ++
      [.ok (detectOpenbsdSets lib m), .ok (detectFreebsd lib m)] := fun _ => rfl
  rw [detectIso, detectIso, hsplit mount', hsplit mount, h.take_detectors, hopenbsd _ h.isFile,
    hopenbsd _ rfl, hfreebsd]

/-- Names that are wanted in front of a list. -/
theorem exists_perm_append {front names : List String} (hnodup : front.Nodup)
    (h : ∀ name ∈ front, name ∈ names) : ∃ rest, names.Perm (front ++ rest) := by
  obtain ⟨l, hl, hsub⟩ := List.subperm_of_subset hnodup h
  obtain ⟨rest, hrest⟩ := hsub.exists_perm_append
  exact ⟨rest, hrest.trans (hl.append_right rest)⟩

/-- A name that is in front comes first, and none where there is none. -/
theorem head?_filter_of_perm {names front rest : List String} {p : String → Bool}
    {o : Option String} (hperm : names.Perm (front ++ rest)) (ho : o ∈ choices (names.filter p))
    (hfront : front.filter p = o.toList) : ((front ++ rest).filter p).head? = o := by
  cases o with
  | none =>
    have hnil : names.filter p = [] := by simpa [mem_choices_iff] using ho
    have hperm' := hperm.filter p
    rw [hnil] at hperm'
    rw [← hperm'.nil_eq]
    rfl
  | some name =>
    rw [List.filter_append, hfront]
    rfl

theorem filter_toList {p : String → Bool} {o : Option String} (h : ∀ name ∈ o, p name = true) :
    o.toList.filter p = o.toList := by
  rw [List.filter_eq_self]
  intro name hname
  exact h name (Option.mem_toList.mp hname)

theorem filter_toList_eq_nil {p : String → Bool} {o : Option String}
    (h : ∀ name ∈ o, p name = false) : o.toList.filter p = [] := by
  rw [List.filter_eq_nil_iff]
  intro name hname
  rw [h name (Option.mem_toList.mp hname)]
  exact Bool.false_ne_true

/-- Any two names may come first. -/
theorem exists_relisted {base man : Option String}
    (hbase : base ∈ choices (IsoDetect.globTgz mount "base"))
    (hman : man ∈ choices (IsoDetect.globTgz mount "man")) :
    ∃ mount', Relisted mount mount' ∧ (IsoDetect.globTgz mount' "base").head? = base ∧
      (IsoDetect.globTgz mount' "man").head? = man := by
  rcases hroot : mount.iterdir [] with _ | names
  · have hnone : ∀ {pre o}, o ∈ choices (IsoDetect.globTgz mount pre) →
        (IsoDetect.globTgz mount pre).head? = o := by
      intro pre o ho
      have hnil : IsoDetect.globTgz mount pre = [] := by
        rw [IsoDetect.globTgz, hroot]
        rfl
      rw [hnil] at ho ⊢
      simpa [mem_choices_iff, eq_comm] using ho
    exact ⟨mount, ⟨rfl, rfl, rfl, fun path => by cases mount.iterdir path <;> constructor; rfl⟩,
      hnone hbase, hnone hman⟩
  have hglob : ∀ pre, IsoDetect.globTgz mount pre = names.filter (isTgz pre) := fun pre => by
    rw [IsoDetect.globTgz, hroot]
    rfl
  rw [hglob] at hbase hman
  have hmem : ∀ {pre o}, o ∈ choices (names.filter (isTgz pre)) → ∀ name ∈ o,
      name ∈ names ∧ isTgz pre name = true := by
    rintro pre o ho name rfl
    simpa [mem_choices_iff] using ho
  -- no name is that of both sets
  have hother : ∀ {name}, isTgz "base" name = true → isTgz "man" name = false := by
    intro name hname
    simp only [isTgz, Bool.and_eq_true] at hname
    obtain ⟨r, rfl⟩ := startsWith_iff.mp hname.1.1
    rw [isTgz, Bool.and_eq_false_iff, Bool.and_eq_false_iff]
    refine .inl (.inl (Bool.eq_false_iff.mpr fun h => ?_))
    rw [startsWith, String.toList_append] at h
    cases h
  have hother' : ∀ {name}, isTgz "man" name = true → isTgz "base" name = false := fun hname =>
    Bool.eq_false_iff.mpr fun h => by
      rw [hother h] at hname
      cases hname
  have hnodup : (base.toList ++ man.toList).Nodup := by
    rcases base with _ | b <;> rcases man with _ | m
    · simp
    · simp
    · simp
    · have hb := hother (hmem hbase b rfl).2
      have hm := (hmem hman m rfl).2
      have hne : b ≠ m := fun heq => by
        rw [heq, hm] at hb
        cases hb
      simpa using hne
  have hsub : ∀ name ∈ base.toList ++ man.toList, name ∈ names := by
    intro name hname
    rcases List.mem_append.mp hname with h | h
    · exact (hmem hbase name (Option.mem_toList.mp h)).1
    · exact (hmem hman name (Option.mem_toList.mp h)).1
  obtain ⟨rest, hperm⟩ := exists_perm_append hnodup hsub
  refine ⟨{ mount with iterdir := fun path =>
    if path = [] then some (base.toList ++ man.toList ++ rest) else mount.iterdir path },
    ⟨rfl, rfl, rfl, fun path => ?_⟩, ?_, ?_⟩
  · by_cases hpath : path = []
    · subst hpath
      rw [hroot]
      exact .some hperm.symm
    · simp only [if_neg hpath]
      cases mount.iterdir path <;> constructor
      rfl
  · refine head?_filter_of_perm hperm hbase ?_
    rw [List.filter_append, filter_toList fun name h => (hmem hbase name h).2,
      filter_toList_eq_nil fun name h => hother' (hmem hman name h).2, List.append_nil]
  · refine head?_filter_of_perm hperm hman ?_
    rw [List.filter_append, filter_toList_eq_nil fun name h => hother (hmem hbase name h).2,
      filter_toList fun name h => (hmem hman name h).2, List.nil_append]

/-- **The order of the listings**: in whatever order the operating system lists the directories, the
same is detected, exactly where an OpenBSD is not reached, or all of its sets are of one version. -/
theorem detectIso_listing_iff (lib : DetectLib ε) (mount : Mount)
    (image : Option (Option (List UInt8))) :
    (∀ mount', Relisted mount mount' → detectIso lib mount' image = detectIso lib mount image) ↔
      firstDetected ((detectors lib mount).take 5) ≠ .ok none ∨
        (mount.isFile ["MANIFEST"] = false ∧ mount.isFile ["bsd.rd"] = false) ∨
          SetsAgree lib mount := by
  constructor
  · intro hall
    rw [or_iff_not_imp_left, or_iff_not_imp_left, not_not]
    intro hnone hsets base hbase base' hbase' man hman man' hman'
    have hfiles : mount.isFile ["MANIFEST"] = true ∨ mount.isFile ["bsd.rd"] = true := by
      by_contra hno
      exact hsets (by simpa using hno)
    have hdetect : ∀ {base man}, base ∈ choices (IsoDetect.globTgz mount "base") →
        man ∈ choices (IsoDetect.globTgz mount "man") → detectIso lib mount image =
          .ok (some ⟨"openbsd", "openbsd", versionOfSets lib base man⟩) := by
      intro base man hbase hman
      obtain ⟨mount', h, rfl, rfl⟩ := exists_relisted hbase hman
      rw [← hall mount' h]
      exact detectIso_of_eq_none image (h.take_detectors ▸ hnone) (h.isFile ▸ hfiles)
    have hsame := (hdetect hbase hman).symm.trans (hdetect hbase' hman')
    simpa using hsame
  · rintro hcases mount' h
    by_cases hnone : firstDetected ((detectors lib mount).take 5) = .ok none
    · rcases hcases.resolve_left (not_not.mpr hnone) with hsets | hagree
      · exact detectIso_relisted_of_no_sets h image hsets
      · by_cases hsets : mount.isFile ["MANIFEST"] = false ∧ mount.isFile ["bsd.rd"] = false
        · exact detectIso_relisted_of_no_sets h image hsets
        · have hfiles : mount.isFile ["MANIFEST"] = true ∨ mount.isFile ["bsd.rd"] = true := by
            by_contra hno
            exact hsets (by simpa using hno)
          rw [detectIso_of_eq_none image hnone hfiles,
            detectIso_of_eq_none image (h.take_detectors ▸ hnone) (h.isFile ▸ hfiles)]
          have hbase := (mem_choices_of_perm (h.globTgz "base")).mp (head?_mem_choices _)
          have hman := (mem_choices_of_perm (h.globTgz "man")).mp (head?_mem_choices _)
          rw [hagree _ hbase _ (head?_mem_choices _) _ hman _ (head?_mem_choices _)]
    · exact detectIso_relisted_of_ne h image hnone

end IsoDetect

end TftpOS
