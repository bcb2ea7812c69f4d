import TftpOS.IsoDetect

/-!
# The fields of a detected distribution

Whatever is on a mounted image, what `detect_iso` finds has a family and a vendor, and it has a
version but for a Debian whose version text begins with a point (`detectIso_fields`). That text is
the one that the patterns for `.disk/info` and for volume labels take out (`DebianText`); what is
kept of it is the part before its first point.
-/

namespace TftpOS

open Lib Pattern

namespace IsoDetect

variable {ε : Type} {lib : DetectLib ε} {mount : Mount} {image : Option (Option (List UInt8))}
  {d : Distro}

/-- The volume id in an image file. -/
def volumeId (bytes : List UInt8) : String :=
  strip (decodeAscii ((((bytes.drop 32768).take 2048).drop 40).take 32))

/-- The version texts of a Debian: behind its name in `.disk/info` of an installer, or behind its
name and a separator in the volume id. -/
inductive DebianText (lib : DetectLib ε) (mount : Mount) (image : Option (Option (List UInt8))) :
    String → Prop
  | netinst {text : String} (hdir : mount.isDir ["install.amd"] = true)
      (hinfo : matchGroup (netinstPattern lib) (diskInfo lib mount) = some text) :
      DebianText lib mount image text
  | label {bytes : List UInt8} {sep : Char} {version rest : List Char}
      (himage : image = some (some bytes)) (hsep : sep ∈ ['-', ' '])
      (hlabel : (lib.lower (volumeId bytes)).toList = "debian".toList ++ sep :: (version ++ rest))
      (hrun : IsRun (versionChar lib.toIsoLib) version rest) :
      DebianText lib mount image (String.ofList version)

/-- The three fields are there, the version but for a Debian whose version text begins with a
point. -/
structure HasFields (lib : DetectLib ε) (mount : Mount) (image : Option (Option (List UInt8)))
    (d : Distro) : Prop where
  osFamily : d.osFamily ≠ ""
  vendor : d.vendor ≠ ""
  version : d.version = "" → d = ⟨"debian", "debian", ""⟩ ∧
    ∃ text, DebianText lib mount image text ∧ text.toList.head? = some '.'

theorem hasFields_of_version {osFamily vendor version : String} (hfamily : osFamily ≠ "")
    (hvendor : vendor ≠ "") (hversion : version ≠ "") :
    HasFields lib mount image ⟨osFamily, vendor, version⟩ :=
  ⟨hfamily, hvendor, fun h => absurd h hversion⟩

theorem ofList_ne_empty {cs : List Char} (h : cs ≠ []) : String.ofList cs ≠ "" := by
  rwa [Ne, ← String.toList_inj, String.toList_ofList]

/-- The group of a pattern whose groups are not empty. -/
theorem group1_ne_empty {r : Pattern Char} {m : Match Char} {l : List Char}
    (hgroups : 0 < r.minGroups) (hfull : r.fullGroups = true) (h : matchStart r l = some m) :
    group1 m ≠ "" := by
  have hmatches := (matches_of_matchStart h).1
  obtain ⟨g, gs, heq⟩ := List.exists_cons_of_length_pos (hgroups.trans_le hmatches.minGroups_le)
  have hne := hmatches.ne_nil_of_mem hfull (g := g) (heq ▸ List.mem_cons_self ..)
  rw [group1, heq, List.headD_cons]
  exact ofList_ne_empty hne

theorem group1_search_ne_empty {r : Pattern Char} {m : Match Char} {l : List Char}
    (hgroups : 0 < r.minGroups) (hfull : r.fullGroups = true) (h : search r l = some m) :
    group1 m ≠ "" := by
  obtain ⟨-, post, -, hmatch, -⟩ := search_eq_some_iff.mp h
  exact group1_ne_empty hgroups hfull hmatch

theorem lower_ne_empty {s : String} (h : s ≠ "") : lib.lower s ≠ "" :=
  fun hempty => h ((lib.lower_eq_empty s).mp hempty)

theorem ne_empty_of_treeinfoFamily {familyLower osFamily vendor : String}
    (h : treeinfoFamily treeinfoFamilyMap familyLower = some (osFamily, vendor)) :
    osFamily ≠ "" ∧ vendor ≠ "" := by
  have htable : ∀ e ∈ treeinfoFamilyMap, e.2.1 ≠ "" ∧ e.2.2 ≠ "" := by decide
  obtain ⟨e, he, heq⟩ := List.exists_of_findSome?_eq_some h
  split_ifs at heq
  have := htable e he
  rwa [Option.some.inj heq] at this

theorem hasFields_of_treeinfoDistro {family version name : String}
    (h : treeinfoDistro lib family version name = some d) : HasFields lib mount image d := by
  rw [treeinfoDistro] at h
  generalize (if family = "" ∧ name ≠ "" then firstWord name else family) = family' at h
  dsimp only at h
  split_ifs at h with hempty
  obtain ⟨hfamily, hversion⟩ := not_or.mp hempty
  obtain rfl := Option.some.inj h
  rcases hmap : treeinfoFamily treeinfoFamilyMap (lib.lower family') with _ | ⟨osFamily, vendor⟩
  · exact hasFields_of_version (lower_ne_empty hfamily) (lower_ne_empty hfamily) hversion
  · obtain ⟨hosFamily, hvendor⟩ := ne_empty_of_treeinfoFamily hmap
    exact hasFields_of_version hosFamily hvendor hversion

theorem hasFields_of_detectTreeinfo (h : detectTreeinfo lib mount = .ok (some d)) :
    HasFields lib mount image d := by
  have hparse : ∀ {path}, parseTreeinfo lib mount path = .ok (some d) →
      HasFields lib mount image d := by
    intro path h
    rw [parseTreeinfo] at h
    rcases hini : (mount.read path).bind lib.decode >>= lib.parseIni with _ | ini
    · rw [hini] at h
      cases h
    rw [hini] at h
    dsimp only at h
    split_ifs at h
    · cases h
    · rcases hfamily : ini.get "general" "family" with e | family
      · rw [hfamily] at h
        cases h
      rcases hversion : ini.get "general" "version" with e | version
      · rw [hfamily, hversion] at h
        cases h
      rcases hname : ini.get "general" "name" with e | name
      · rw [hfamily, hversion, hname] at h
        cases h
      rw [hfamily, hversion, hname] at h
      exact hasFields_of_treeinfoDistro (Except.ok.inj h)
  rw [detectTreeinfo] at h
  split_ifs at h
  · exact hparse h
  · exact hparse h
  · cases h

/-- The groups of the patterns for a release. -/
theorem fullGroups_discinfo {t : LabelTest} (ht : t ∈ discinfoPatterns lib) :
    0 < t.pattern.minGroups ∧ t.pattern.fullGroups = true ∧
      ∃ f v, f ≠ "" ∧ v ≠ "" ∧ t.distro = Distro.mk f v := by
  simp only [discinfoPatterns, List.mem_cons, List.not_mem_nil, or_false] at ht
  rcases ht with rfl | rfl | rfl | rfl | rfl
  all_goals exact ⟨Nat.one_pos, rfl, _, _, by decide, by decide, rfl⟩

theorem hasFields_of_parseReleaseString {release : String}
    (h : parseReleaseString lib release = some d) : HasFields lib mount image d := by
  obtain ⟨t, ht, hd⟩ := List.exists_of_findSome?_eq_some h
  obtain ⟨m, hm, rfl⟩ := Option.map_eq_some_iff.mp hd
  obtain ⟨hgroups, hfull, f, v, hf, hv, hdistro⟩ := fullGroups_discinfo ht
  rw [hdistro]
  exact hasFields_of_version hf hv (group1_search_ne_empty hgroups hfull hm)

theorem hasFields_of_detectDiscinfo (h : detectDiscinfo lib mount = some d) :
    HasFields lib mount image d := by
  rw [detectDiscinfo] at h
  split_ifs at h
  rcases htext : readText lib mount [".discinfo"] with _ | content
  · rw [htext] at h
    cases h
  rw [htext] at h
  dsimp only at h
  split at h
  · split_ifs at h
    exact hasFields_of_parseReleaseString h
  · cases h

theorem hasFields_of_parseDiskname {diskname : String} (h : parseDiskname lib diskname = some d) :
    HasFields lib mount image d := by
  obtain ⟨m, hm, rfl⟩ := Option.map_eq_some_iff.mp h
  have hmatches := (matches_of_matchStart hm).1
  have hfull : ∀ g ∈ m.groups, g ≠ [] := fun g => hmatches.ne_nil_of_mem rfl
  have htwo : 2 ≤ m.groups.length := hmatches.minGroups_le
  obtain ⟨g, gs, hg⟩ := List.exists_cons_of_length_pos (Nat.zero_lt_of_lt htwo)
  rw [hg, List.length_cons] at htwo
  obtain ⟨g', gs, rfl⟩ := List.exists_cons_of_length_pos (Nat.lt_of_succ_lt_succ htwo)
  have hne : ∀ g ∈ m.groups, String.ofList g ≠ "" := fun g hmem => ofList_ne_empty (hfull g hmem)
  have hname : lib.lower (group1 m) ≠ "" := by
    refine lower_ne_empty ?_
    rw [group1, hg]
    exact hne g (by simp [hg])
  refine hasFields_of_version hname hname ?_
  rw [hg]
  exact hne g' (by simp [hg])

theorem hasFields_of_detectDiskdefines (h : detectDiskdefines lib mount = some d) :
    HasFields lib mount image d := by
  rw [detectDiskdefines] at h
  split_ifs at h
  rcases htext : readText lib mount ["README.diskdefines"] with _ | content
  · rw [htext] at h
    cases h
  rw [htext] at h
  dsimp only at h
  split at h
  · rename_i distribId distribRelease hid hrelease
    obtain rfl := Option.some.inj h
    have hname : lib.lower distribId ≠ "" := lower_ne_empty (filled_eq_some_iff.mp hid).2
    exact hasFields_of_version hname hname (filled_eq_some_iff.mp hrelease).2
  · obtain ⟨diskname, -, h⟩ := Option.bind_eq_some_iff.mp h
    exact hasFields_of_parseDiskname h

theorem hasFields_of_parseDebianRelease {path : List String}
    (h : parseDebianRelease lib mount path = some d) : HasFields lib mount image d := by
  obtain ⟨content, -, h⟩ := Option.bind_eq_some_iff.mp h
  dsimp only at h
  split_ifs at h
  all_goals
    obtain rfl := Option.some.inj h
    exact hasFields_of_version (by decide) (by decide) (by assumption)

theorem hasFields_of_detectDebianDists (h : detectDebianDists lib mount = .ok (some d)) :
    HasFields lib mount image d := by
  rw [detectDebianDists] at h
  split_ifs at h
  · cases h
  rcases hnames : mount.iterdir ["dists"] with _ | names
  · rw [hnames] at h
    cases h
  rw [hnames] at h
  obtain ⟨name, -, h⟩ := List.exists_of_findSome?_eq_some (Except.ok.inj h)
  split_ifs at h
  exact hasFields_of_parseDebianRelease h

/-- What is kept of a version is empty only if it begins with a point. -/
theorem head?_of_major_eq_empty {text : String} (hne : text ≠ "") (h : major text = "") :
    text.toList.head? = some '.' := by
  have hbefore : text.toList.takeWhile (· ≠ '.') = [] := by
    rw [← String.toList_inj, major, String.toList_ofList] at h
    exact h
  rcases htext : text.toList with _ | ⟨c, cs⟩
  · exact absurd (String.toList_inj.mp htext) hne
  · by_contra hpoint
    rw [htext, List.takeWhile_cons_of_pos (by simpa using hpoint)] at hbefore
    cases hbefore

theorem hasFields_debian {text : String} (hne : text ≠ "")
    (htext : DebianText lib mount image text) :
    HasFields lib mount image ⟨"debian", "debian", major text⟩ where
  osFamily := (by decide : "debian" ≠ "")
  vendor := (by decide : "debian" ≠ "")
  version h := by
    have hmajor : major text = "" := h
    exact ⟨by rw [hmajor], text, htext, head?_of_major_eq_empty hne hmajor⟩

theorem hasFields_of_detectDebianNetinst (h : detectDebianNetinst lib mount = some d) :
    HasFields lib mount image d := by
  rw [detectDebianNetinst] at h
  split_ifs at h with hdir
  have hdir' : mount.isDir ["install.amd"] = true := by simpa using hdir
  split at h
  · next text hinfo =>
    obtain rfl := Option.some.inj h
    obtain ⟨m, hm, hgroup⟩ := Option.map_eq_some_iff.mp hinfo
    have hne : text ≠ "" :=
      hgroup ▸ group1_ne_empty (r := netinstPattern lib) Nat.one_pos rfl hm
    exact hasFields_debian hne (.netinst hdir' hinfo)
  · obtain rfl := Option.some.inj h
    exact hasFields_of_version (by decide) (by decide) (by decide)

theorem hasFields_of_detectOpenbsdSets (h : detectOpenbsdSets lib mount = some d) :
    HasFields lib mount image d := by
  rw [detectOpenbsdSets] at h
  split_ifs at h
  obtain rfl := Option.some.inj h
  refine hasFields_of_version (by decide) (by decide) ?_
  rcases hversion : openbsdVersionFromSets lib mount with _ | version
  · exact (by decide : "unknown" ≠ "")
  obtain ⟨pre, -, hpre⟩ := List.exists_of_findSome?_eq_some hversion
  obtain ⟨name, -, hname⟩ := Option.bind_eq_some_iff.mp hpre
  obtain ⟨ver, hver, rfl⟩ := Option.map_eq_some_iff.mp hname
  obtain ⟨m, hm, rfl⟩ := Option.map_eq_some_iff.mp hver
  have hne := group1_ne_empty (r := setPattern lib) Nat.one_pos rfl hm
  rw [Option.getD_some, setVersion]
  split
  · exact ofList_ne_empty (List.cons_ne_nil _ _)
  · exact hne

theorem hasFields_of_detectFreebsd (h : detectFreebsd lib mount = some d) :
    HasFields lib mount image d := by
  rw [detectFreebsd] at h
  split_ifs at h
  obtain rfl := Option.some.inj h
  refine hasFields_of_version (by decide) (by decide) ?_
  rcases hversion : freebsdVersion lib mount with _ | version
  · exact (by decide : "unknown" ≠ "")
  obtain ⟨name, -, hname⟩ := List.exists_of_findSome?_eq_some hversion
  split_ifs at hname
  obtain ⟨content, -, hfound⟩ := Option.bind_eq_some_iff.mp hname
  obtain ⟨m, hm, rfl⟩ := Option.map_eq_some_iff.mp hfound
  exact group1_search_ne_empty (r := freebsdPattern lib) Nat.one_pos rfl hm

theorem hasFields_of_labelled {bytes : List UInt8} (himage : image = some (some bytes))
    {label : List Char} (hlabel : (lib.lower (volumeId bytes)).toList = label)
    (h : Labelled lib.toIsoLib label d) : HasFields lib mount image d := by
  cases h with
  | fedora hsep ht hlast hne hnumber hspaces =>
    exact hasFields_of_version (by decide) (by decide) (ofList_ne_empty hne)
  | named hrow hsep hrun =>
    have hne := ofList_ne_empty hrun.ne_nil
    simp only [spellings, List.mem_cons, Prod.mk.injEq, List.not_mem_nil, or_false] at hrow
    rcases hrow with ⟨-, -, rfl⟩ | ⟨-, -, rfl⟩ | ⟨-, -, rfl⟩ | ⟨-, -, rfl⟩ | ⟨-, -, rfl⟩ |
      ⟨-, -, rfl⟩ | ⟨-, -, rfl⟩ | ⟨-, -, rfl⟩ | ⟨rfl, rfl, rfl⟩ | ⟨-, -, rfl⟩
    case inr.inr.inr.inr.inr.inr.inr.inr.inl =>
      exact hasFields_debian hne (.label himage hsep hlabel hrun)
    all_goals exact hasFields_of_version (by decide) (by decide) hne

theorem hasFields_of_parseVolumeId {bytes : List UInt8} (himage : image = some (some bytes))
    (h : parseVolumeId lib.toIsoLib (volumeId bytes) = some d) : HasFields lib mount image d := by
  rcases ((parseVolumeId_spec lib.toIsoLib (volumeId bytes)).1 d).mp h with h | ⟨-, h⟩
  · exact hasFields_of_labelled himage rfl h
  · obtain ⟨pre, t, a, c, rest, -, -, -, rfl⟩ := h
    refine hasFields_of_version (by decide) (by decide) (ofList_ne_empty ?_)
    exact List.append_ne_nil_of_right_ne_nil _ (List.cons_ne_nil _ _)

theorem hasFields_of_detectVolumeLabel {held : Option (List UInt8)} (himage : image = some held)
    (h : detectVolumeLabel lib.toIsoLib held = some d) : HasFields lib mount image d := by
  rcases held with _ | bytes
  · cases h
  simp only [detectVolumeLabel] at h
  split_ifs at h
  exact hasFields_of_parseVolumeId himage h

/-- What the first detector finds that finds something. -/
theorem mem_of_firstDetected {l : List (Except ε (Option Distro))}
    (h : firstDetected l = .ok (some d)) : .ok (some d) ∈ l := by
  induction l with
  | nil => cases h
  | cons x l ih =>
    rcases x with e | _ | d'
    · cases h
    · exact List.mem_cons_of_mem _ (ih h)
    · rw [show firstDetected (.ok (some d') :: l) = .ok (some d') from rfl] at h
      exact h ▸ List.mem_cons_self ..

/-- **The fields**: whatever is on the image, what is detected has a family and a vendor, and it has
a version unless it is a Debian whose version text begins with a point. -/
theorem detectIso_fields (lib : DetectLib ε) (mount : Mount) (image : Option (Option (List UInt8)))
    (h : detectIso lib mount image = .ok (some d)) : HasFields lib mount image d := by
  rw [detectIso] at h
  rcases hfirst : firstDetected (detectors lib mount) with e | _ | d'
  · rw [hfirst] at h
    cases h
  · rw [hfirst] at h
    obtain ⟨held, himage, hlabel⟩ := Option.bind_eq_some_iff.mp (Except.ok.inj h)
    exact hasFields_of_detectVolumeLabel himage hlabel
  · rw [hfirst] at h
    obtain rfl := Option.some.inj (Except.ok.inj h)
    have hmem := mem_of_firstDetected hfirst
    simp only [detectors, List.mem_cons, Except.ok.injEq, List.not_mem_nil, or_false] at hmem
    rcases hmem with h | h | h | h | h | h | h
    · exact hasFields_of_detectTreeinfo h.symm
    · exact hasFields_of_detectDiscinfo h.symm
    · exact hasFields_of_detectDiskdefines h.symm
    · exact hasFields_of_detectDebianDists h.symm
    · exact hasFields_of_detectDebianNetinst h.symm
    · exact hasFields_of_detectOpenbsdSets h.symm
    · exact hasFields_of_detectFreebsd h.symm

/-- An interpreter that only knows ASCII, and no INI files. -/
def asciiDetect : DetectLib Unit :=
  { asciiIso with
    decode := fun bytes => some (decodeAscii bytes)
    decodeReplace := decodeAscii
    parseIni := fun _ => none
    osError := () }

/-- An installer of Debian. -/
def netinst (info : String) : Mount where
  isFile path := path = [".disk", "info"]
  isDir path := path = ["install.amd"]
  read _ := some info.toUTF8.toList
  iterdir _ := none

/-- A version is kept up to its first point, and so is one that begins with a point. -/
theorem detectIso_netinst :
    detectIso asciiDetect (netinst "Debian GNU/Linux 12.5.0 _Bookworm_") none =
        .ok (some ⟨"debian", "debian", "12"⟩) ∧
      detectIso asciiDetect (netinst "debian gnu/linux .5") none =
        .ok (some ⟨"debian", "debian", ""⟩) := by
  decide +kernel

theorem hasFields_netinst :
    HasFields asciiDetect (netinst "Debian GNU/Linux 12.5.0 _Bookworm_") none
        ⟨"debian", "debian", "12"⟩ ∧
      HasFields asciiDetect (netinst "debian gnu/linux .5") none ⟨"debian", "debian", ""⟩ :=
  ⟨detectIso_fields asciiDetect _ none detectIso_netinst.1,
    detectIso_fields asciiDetect _ none detectIso_netinst.2⟩

end IsoDetect

end TftpOS
