import TftpOS.Plugins

/-!
# Firmware paths

Which file a built-in plugin looks for. Every segment that passes `_validate_segment` is a name
that a directory can hold, so without symbolic links the path is the root of the plugin followed
by the segments (`resolveFirmware_eq`). Paths with different segments are different as texts, and
for OpenWrt the segments determine the `arch` of the profile but for `t` and `t-generic`
(`splitArch_eq_splitArch_iff`).
-/

namespace TftpOS

open Lib

/-- A name that an entry of a directory can have. -/
structure FileName (n : String) : Prop where
  clean : CleanName n
  nul : hasChar '\x00' n = false

/-- A string that `_validate_segment` accepts. -/
structure IsSegment (py : StrLib) (s : String) : Prop where
  ne_empty : s ≠ ""
  ne_dots : ¬ (s = "." ∨ s = "..")
  matches_pattern : reLine (isSegment py) s = true

variable {py : StrLib} {cwd : Loc String} {fs : FS}

theorem validateSegment_eq_ok_iff {v : Toml} {label s : String} :
    validateSegment py v label = .ok s ↔ v = .str s ∧ IsSegment py s := by
  cases v with
  | str s' =>
    rw [validateSegment]
    constructor
    · intro h
      split_ifs at h with hempty hdots hpattern
      obtain rfl := Except.ok.inj h
      exact ⟨rfl, hempty, hdots, by simpa using hpattern⟩
    · rintro ⟨heq, hempty, hdots, hpattern⟩
      cases heq
      rw [if_neg hempty, if_neg hdots, if_neg (by simp [hpattern])]
  | _ => simp [validateSegment]

/-- The characters of a segment. The last one may be a newline, which `$` allows for. -/
theorem IsSegment.char {s : String} (h : IsSegment py s) {c : Char} (hc : c ∈ s.toList) :
    py.isWord c = true ∨ c = '.' ∨ c = '-' ∨ c = '\n' := by
  have hall : ∀ cs, isSegment py cs = true → ∀ c ∈ cs, py.isWord c = true ∨ c = '.' ∨ c = '-' := by
    intro cs hcs c hc
    simp only [isSegment, Bool.and_eq_true, List.all_eq_true, Bool.or_eq_true, beq_iff_eq,
      or_assoc] at hcs
    exact hcs.2 c hc
  have hchar := forall_of_reLine hall h.matches_pattern c hc
  rwa [or_assoc, or_assoc] at hchar

theorem IsSegment.hasChar_eq_false {s : String} (h : IsSegment py s) {c : Char}
    (hword : py.isWord c = false) (hother : c ∉ ['.', '-', '\n']) : hasChar c s = false := by
  rw [hasChar_eq_false_iff]
  intro hc
  have hchar := h.char hc
  simp only [hword, Bool.false_eq_true, false_or] at hchar
  exact hother (by simpa using hchar)

theorem isWord_slash : py.isWord '/' = false := by
  rw [py.isWord_ascii _ (by decide)]
  decide

theorem isWord_nul : py.isWord '\x00' = false := by
  rw [py.isWord_ascii _ (by decide)]
  decide

theorem IsSegment.fileName {s : String} (h : IsSegment py s) : FileName s where
  clean := ⟨h.ne_empty, fun hs => h.ne_dots (.inl hs), fun hs => h.ne_dots (.inr hs),
    h.hasChar_eq_false isWord_slash (by decide)⟩
  nul := h.hasChar_eq_false isWord_nul (by decide)

/-! ### The path of segments -/

/-- The path of names below a root. -/
def pathBelow (root : Loc String) (parts : List String) : PyPath :=
  ⟨true, (absPath root).comps ++ parts.map .name⟩

theorem foldl_joinPath {parts : List String} (h : ∀ n ∈ parts, FileName n) (p : PyPath) :
    parts.foldl joinPath p = ⟨p.absolute, p.comps ++ parts.map .name⟩ := by
  induction parts generalizing p with
  | nil => simp
  | cons n parts ih =>
    rw [List.forall_mem_cons] at h
    rw [List.foldl_cons, ih h.2, joinPath, parsePath_of_cleanName h.1.clean, joinPaths]
    simp

theorem pathBelow_eq_absPath (root : Loc String) (parts : List String) :
    pathBelow root parts = absPath (parts.reverse ++ root) := by
  simp [pathBelow, absPath]

theorem hasNul_pathBelow {root : Loc String} {parts : List String}
    (hroot : ∀ n ∈ root, FileName n) (hparts : ∀ n ∈ parts, FileName n) :
    hasNul (pathBelow root parts) = false := by
  simp only [hasNul, pathBelow, absPath, List.any_append, List.any_map, List.any_reverse,
    Bool.or_eq_false_iff, List.any_eq_false]
  constructor
  · intro n hn
    simpa [compText] using (hroot n hn).nul
  · intro n hn
    simpa [compText] using (hparts n hn).nul

/-- **What the plugins look for.** Without links the guard against paths that lead out of the root
never fires: the path is that of the segments below the root, and it is returned if and only if a
file is there. -/
theorem resolveFirmware_eq (hlinks : fs.NoLinks) {root : Loc String} {parts : List String}
    (hroot : ∀ n ∈ root, FileName n) (hparts : ∀ n ∈ parts, FileName n) :
    resolveFirmware py cwd fs root parts =
      if pathIsFile cwd fs (pathBelow root parts) then .ok (pathBelow root parts)
      else .error ⟨.fileNotFoundError,
        "firmware not found: " ++ pathText (pathBelow root parts)⟩ := by
  have hpath : joinPaths (absPath root) (parts.foldl joinPath ⟨false, []⟩) =
      pathBelow root parts := by
    rw [foldl_joinPath hparts, joinPaths]
    rfl
  have hreal : realpath cwd py fs (pathBelow root parts) = .ok (parts.reverse ++ root) := by
    have hres := FileSystem.resolve_eq_ok.mpr
      (hlinks.leads ((pathBelow root parts).base cwd) (pathBelow root parts).comps)
    have hroot : fs.isDir ((pathBelow root parts).base cwd) = true := FileSystem.isDir_root
    rw [← abspath_eq_foldl, pathBelow_eq_absPath, abspath_absPath, ← pathBelow_eq_absPath] at hres
    rw [realpath, hasNul_pathBelow ‹_› hparts, hroot, hres]
    rfl
  have hbelow : root.isSuffixOf (parts.reverse ++ root) = true :=
    List.isSuffixOf_iff_suffix.mpr (List.suffix_append _ _)
  rw [resolveFirmware, hpath, hreal, ok_bind, ← pathBelow_eq_absPath, hbelow]
  cases pathIsFile cwd fs (pathBelow root parts) <;> rfl

/-- The texts of two paths below a root are equal only if the segments are. -/
theorem pathText_pathBelow_inj {root : Loc String} {parts parts' : List String}
    (hroot : ∀ n ∈ root, FileName n) (hparts : ∀ n ∈ parts, FileName n)
    (hparts' : ∀ n ∈ parts', FileName n) :
    pathText (pathBelow root parts) = pathText (pathBelow root parts') ↔ parts = parts' := by
  have hclean : ∀ parts : List String, (∀ n ∈ parts, FileName n) →
      CleanPath (pathBelow root parts) := by
    intro parts hparts n hn
    rcases List.mem_append.mp hn with hn | hn
    · obtain ⟨m, hm, heq⟩ := List.mem_map.mp hn
      obtain rfl := Comp.name.inj heq
      exact (hroot m (List.mem_reverse.mp hm)).clean
    · obtain ⟨m, hm, heq⟩ := List.mem_map.mp hn
      obtain rfl := Comp.name.inj heq
      exact (hparts m hm).clean
  constructor
  · intro h
    have hpath := congrArg parsePath h
    rw [parsePath_pathText (hclean parts hparts), parsePath_pathText (hclean parts' hparts')]
      at hpath
    have hnames : Function.Injective (Comp.name (ν := String)) := fun a b hab => by
      cases hab
      rfl
    exact List.map_injective_iff.mpr hnames (List.append_cancel_left (Lib.Path.mk.inj hpath).2)
  · rintro rfl
    rfl

/-! ### The architecture of OpenWrt -/

private theorem takeWhile_hyphen {s : String} (h : hasChar '-' s = false) (cs : List Char) :
    (s.toList ++ '-' :: cs).takeWhile (fun c => decide (c ≠ '-')) = s.toList ∧
      (s.toList ++ '-' :: cs).dropWhile (fun c => decide (c ≠ '-')) = '-' :: cs := by
  have hne : ∀ c ∈ s.toList, decide (c ≠ '-') = true := by
    intro c hc
    rw [decide_eq_true_iff]
    rintro rfl
    simp [hasChar, hc] at h
  rw [List.takeWhile_append_of_pos hne, List.dropWhile_append_of_pos hne]
  simp

private theorem not_hasChar_takeWhile_hyphen (cs : List Char) :
    hasChar '-' (String.ofList (cs.takeWhile fun c => decide (c ≠ '-'))) = false := by
  rw [hasChar_eq_false_iff, String.toList_ofList]
  intro hmem
  simpa using List.mem_takeWhile_imp hmem

/-- What is dropped in front of the first hyphen leaves that hyphen. -/
private theorem dropWhile_hyphen {cs : List Char} (h : '-' ∈ cs) :
    cs.dropWhile (fun c => decide (c ≠ '-')) =
      '-' :: (cs.dropWhile fun c => decide (c ≠ '-')).tail := by
  rcases hcs : cs.dropWhile (fun c => decide (c ≠ '-')) with _ | ⟨c, rest⟩
  · rw [List.dropWhile_eq_nil_iff] at hcs
    exact absurd (hcs _ h) (by simp)
  · have hc := List.head?_dropWhile_not (fun c => decide (c ≠ '-')) cs
    rw [hcs] at hc
    simpa using hc

/-- The split of an `arch` at its first hyphen. -/
theorem splitArch_eq_iff {arch target subtarget : String} :
    splitArch arch = (target, subtarget) ↔ hasChar '-' target = false ∧
      (arch = target ++ "-" ++ subtarget ∨ arch = target ∧ subtarget = "generic") := by
  have hhyphen : "-".toList = ['-'] := rfl
  rw [splitArch]
  split_ifs with harch
  · constructor
    · intro h
      obtain ⟨rfl, rfl⟩ := Prod.mk.inj h
      refine ⟨not_hasChar_takeWhile_hyphen arch.toList, .inl ?_⟩
      have hmem : '-' ∈ arch.toList := by simpa [hasChar] using harch
      have harch' := List.takeWhile_append_dropWhile (p := fun c => decide (c ≠ '-'))
        (l := arch.toList)
      rw [dropWhile_hyphen hmem] at harch'
      rw [← String.toList_inj]
      simpa [hhyphen] using harch'.symm
    · rintro ⟨hfree, rfl | ⟨rfl, -⟩⟩
      · obtain ⟨htake, hdrop⟩ := takeWhile_hyphen hfree subtarget.toList
        rw [String.toList_append, String.toList_append, hhyphen, List.append_assoc,
          List.singleton_append, htake, hdrop]
        simp
      · rw [hfree] at harch
        cases harch
  · rw [Bool.not_eq_true] at harch
    constructor
    · intro h
      obtain ⟨rfl, rfl⟩ := Prod.mk.inj h
      exact ⟨harch, .inr ⟨rfl, rfl⟩⟩
    · rintro ⟨hfree, rfl | ⟨rfl, rfl⟩⟩
      · simp [hasChar] at harch
      · rfl

/-- **The split determines the architecture**, but for `t` and `t-generic`. -/
theorem splitArch_eq_splitArch_iff {arch arch' : String} :
    splitArch arch = splitArch arch' ↔ arch = arch' ∨ ∃ t, hasChar '-' t = false ∧
      (arch = t ∧ arch' = t ++ "-generic" ∨ arch = t ++ "-generic" ∧ arch' = t) := by
  have hgeneric : ∀ t : String, t ++ "-" ++ "generic" = t ++ "-generic" := fun t => by
    rw [String.append_assoc]
    rfl
  constructor
  · intro h
    obtain ⟨hfree, hcase⟩ := splitArch_eq_iff.mp (rfl : splitArch arch = _)
    obtain ⟨-, hcase'⟩ := splitArch_eq_iff.mp h.symm
    rcases hcase with heq | ⟨heq, hsub⟩ <;> rcases hcase' with heq' | ⟨heq', hsub'⟩
    · exact .inl (heq.trans heq'.symm)
    · rw [hsub', hgeneric] at heq
      exact .inr ⟨_, hfree, .inr ⟨heq, heq'⟩⟩
    · rw [hsub, hgeneric] at heq'
      exact .inr ⟨_, hfree, .inl ⟨heq, heq'⟩⟩
    · exact .inl (heq.trans heq'.symm)
  · have hsplit : ∀ t, hasChar '-' t = false → splitArch t = splitArch (t ++ "-generic") := by
      intro t ht
      rw [splitArch_eq_iff.mpr ⟨ht, .inr ⟨rfl, rfl⟩⟩,
        splitArch_eq_iff.mpr ⟨ht, .inl (hgeneric t).symm⟩]
    rintro (rfl | ⟨t, ht, ⟨rfl, rfl⟩ | ⟨rfl, rfl⟩⟩)
    · rfl
    · exact hsplit _ ht
    · exact (hsplit _ ht).symm

/-- The root of a plugin, which its constructor resolves, has such names. -/
theorem fileName_of_realpath (hlinks : fs.NoLinks) (hcwd : ∀ n ∈ cwd, FileName n) {s : String}
    {root : Loc String} (h : realpath cwd py fs (parsePath s) = .ok root) :
    ∀ n ∈ root, FileName n := by
  have hnul : hasNul (parsePath s) = false := by
    rw [realpath] at h
    split_ifs at h with hnul
    exact Bool.eq_false_iff.mpr hnul
  rw [realpath_eq_abspath hlinks h]
  refine forall_mem_abspath hcwd fun n hn => ⟨cleanPath_parsePath s n hn, ?_⟩
  exact Bool.eq_false_iff.mpr (List.any_eq_false.mp hnul _ hn)

/-! ### The static plugin -/

/-- The text of a field that is a string. -/
def textOf (v : Toml) : String := v.asStr.getD ""

theorem textOf_of_validateSegment {v : Toml} {label s : String}
    (h : validateSegment py v label = .ok s) : s = textOf v ∧ IsSegment py (textOf v) := by
  obtain ⟨rfl, hs⟩ := validateSegment_eq_ok_iff.mp h
  exact ⟨rfl, hs⟩

namespace StaticFirmwarePlugin

variable {plugin : StaticFirmwarePlugin py} {profile : ProvisionProfile}

/-- The profile passes the segment checks. -/
structure Passes (plugin : StaticFirmwarePlugin py) (profile : ProvisionProfile) : Prop where
  osFamily : ∃ s, validateSegment py profile.osFamily "os_family" = .ok s
  osVersion : ∃ s, validateSegment py profile.osVersion "os_version" = .ok s
  arch : plugin.includeArch = true → ∃ s, validateSegment py profile.arch "arch" = .ok s

/-- The components below the root. -/
def components (plugin : StaticFirmwarePlugin py) (profile : ProvisionProfile) : List String :=
  [textOf profile.osFamily, textOf profile.osVersion] ++
    (if plugin.includeArch then [textOf profile.arch] else []) ++ [plugin.filename]

/-- The path that the plugin builds. -/
def builtPath (plugin : StaticFirmwarePlugin py) (profile : ProvisionProfile) : PyPath :=
  pathBelow plugin.distroRoot (plugin.components profile)

theorem Passes.fileName (h : plugin.Passes profile) {n : String}
    (hn : n ∈ plugin.components profile) : FileName n := by
  obtain ⟨family, hfamily⟩ := h.osFamily
  obtain ⟨version, hversion⟩ := h.osVersion
  rw [components, List.mem_append, List.mem_append] at hn
  rcases hn with (hn | hn) | hn
  · rcases List.mem_pair.mp hn with rfl | rfl
    · exact (textOf_of_validateSegment hfamily).2.fileName
    · exact (textOf_of_validateSegment hversion).2.fileName
  · split_ifs at hn with harch
    · obtain rfl := List.mem_singleton.mp hn
      obtain ⟨arch, harch⟩ := h.arch harch
      exact (textOf_of_validateSegment harch).2.fileName
    · cases hn
  · obtain rfl := List.mem_singleton.mp hn
    exact (validateSegment_eq_ok_iff.mp plugin.filename_valid).2.fileName

/-- The checks hand the components on. -/
theorem Passes.firmwarePath_eq (h : plugin.Passes profile) : plugin.firmwarePath cwd fs profile =
    resolveFirmware py cwd fs plugin.distroRoot (plugin.components profile) := by
  obtain ⟨family, hfamily⟩ := h.osFamily
  obtain ⟨version, hversion⟩ := h.osVersion
  have harch : plugin.archParts profile =
      .ok (if plugin.includeArch then [textOf profile.arch] else []) := by
    rw [archParts]
    split_ifs with hinclude
    · obtain ⟨arch, harch⟩ := h.arch hinclude
      rw [harch, (textOf_of_validateSegment harch).1]
      rfl
    · rfl
  rw [firmwarePath, hfamily, hversion, harch, (textOf_of_validateSegment hfamily).1,
    (textOf_of_validateSegment hversion).1]
  rfl

end StaticFirmwarePlugin

/-! ### The OpenWrt plugin -/

namespace OpenWrtPlugin

variable {plugin : OpenWrtPlugin py} {profile : ProvisionProfile}

/-- The profile passes the segment checks. -/
structure Passes (plugin : OpenWrtPlugin py) (profile : ProvisionProfile) : Prop where
  osVersion : ∃ s, validateSegment py profile.osVersion "os_version" = .ok s
  arch : ∃ s, validateSegment py profile.arch "arch" = .ok s
  target : ∃ s, validateSegment py (.str (splitArch (textOf profile.arch)).1) "target" = .ok s
  subtarget : ∃ s,
    validateSegment py (.str (splitArch (textOf profile.arch)).2) "subtarget" = .ok s
  filename : ∃ s, plugin.filename profile = .ok s

/-- The name of the file. -/
def fileOf (plugin : OpenWrtPlugin py) (profile : ProvisionProfile) : String :=
  match plugin.filename profile with
  | .ok s => s
  | .error _ => ""

/-- The components below the root. -/
def components (plugin : OpenWrtPlugin py) (profile : ProvisionProfile) : List String :=
  ["openwrt", textOf profile.osVersion, "targets", (splitArch (textOf profile.arch)).1,
    (splitArch (textOf profile.arch)).2, plugin.fileOf profile]

/-- The path that the plugin builds. -/
def builtPath (plugin : OpenWrtPlugin py) (profile : ProvisionProfile) : PyPath :=
  pathBelow plugin.distroRoot (plugin.components profile)

/-- The image type and the extension make a name. -/
theorem fileName_imageType (plugin : OpenWrtPlugin py) : FileName (plugin.imageType ++ ".bin") := by
  have htype := (validateSegment_eq_ok_iff.mp plugin.imageType_valid).2.fileName
  have hshort : ∀ t : String, t.length < 4 → plugin.imageType ++ ".bin" ≠ t := by
    intro t ht heq
    have hlength := congrArg String.length heq
    rw [String.length_append] at hlength
    have hbin : ".bin".length = 4 := rfl
    omega
  have hchar : ∀ c, hasChar c plugin.imageType = false → c ∉ ".bin".toList →
      hasChar c (plugin.imageType ++ ".bin") = false := by
    intro c hc hbin
    rw [hasChar_eq_false_iff] at hc ⊢
    rw [String.toList_append, List.mem_append, not_or]
    exact ⟨hc, hbin⟩
  exact ⟨⟨hshort _ (by decide), hshort _ (by decide), hshort _ (by decide),
    hchar _ htype.clean.2.2.2 (by decide)⟩, hchar _ htype.nul (by decide)⟩

theorem fileName_of_filename {s : String} (h : plugin.filename profile = .ok s) : FileName s := by
  obtain ⟨named, -, h⟩ := bind_eq_ok_iff.mp h
  split_ifs at h
  · exact (validateSegment_eq_ok_iff.mp h).2.fileName
  · obtain rfl := Except.ok.inj h
    exact plugin.fileName_imageType

theorem Passes.fileName (h : plugin.Passes profile) {n : String}
    (hn : n ∈ plugin.components profile) : FileName n := by
  obtain ⟨version, hversion⟩ := h.osVersion
  obtain ⟨target, htarget⟩ := h.target
  obtain ⟨subtarget, hsubtarget⟩ := h.subtarget
  obtain ⟨filename, hfilename⟩ := h.filename
  simp only [components, List.mem_cons, List.not_mem_nil, or_false] at hn
  rcases hn with rfl | rfl | rfl | rfl | rfl | rfl
  · exact ⟨⟨by decide, by decide, by decide, by decide⟩, by decide⟩
  · exact (textOf_of_validateSegment hversion).2.fileName
  · exact ⟨⟨by decide, by decide, by decide, by decide⟩, by decide⟩
  · exact (textOf_of_validateSegment htarget).2.fileName
  · exact (textOf_of_validateSegment hsubtarget).2.fileName
  · rw [fileOf, hfilename]
    exact fileName_of_filename hfilename

/-- The checks hand the components on. -/
theorem Passes.firmwarePath_eq (h : plugin.Passes profile) : plugin.firmwarePath cwd fs profile =
    resolveFirmware py cwd fs plugin.distroRoot (plugin.components profile) := by
  obtain ⟨version, hversion⟩ := h.osVersion
  obtain ⟨arch, harch⟩ := h.arch
  obtain ⟨target, htarget⟩ := h.target
  obtain ⟨subtarget, hsubtarget⟩ := h.subtarget
  obtain ⟨filename, hfilename⟩ := h.filename
  obtain ⟨rfl, -⟩ := textOf_of_validateSegment harch
  obtain ⟨rfl, -⟩ := textOf_of_validateSegment htarget
  obtain ⟨rfl, -⟩ := textOf_of_validateSegment hsubtarget
  rw [firmwarePath, hversion, harch, ok_bind, ok_bind, htarget, hsubtarget, ok_bind, ok_bind,
    hfilename, ok_bind, (textOf_of_validateSegment hversion).1, components, fileOf, hfilename]
  rfl

end OpenWrtPlugin

/-! ### The paths of the built-in plugins -/

/-- What the paths that a plugin builds should be. -/
structure BuildsPaths (cwd : Loc String) (fs : FS) (root : Loc String)
    (firmwarePath : ProvisionProfile → Except PyExc PyPath)
    (components : ProvisionProfile → List String) (profile : ProvisionProfile) : Prop where
  /-- No component is empty or a step, or has a slash. -/
  clean : ∀ n ∈ components profile, CleanName n
  /-- The path is the root followed by the components; it is returned if a file is there, and
  missing otherwise. -/
  built : firmwarePath profile =
    if pathIsFile cwd fs (pathBelow root (components profile)) then
      .ok (pathBelow root (components profile))
    else .error ⟨.fileNotFoundError,
      "firmware not found: " ++ pathText (pathBelow root (components profile))⟩

/-- **The firmware paths of the built-in plugins.** Without links, the path for a profile that
passes the segment checks is the root followed by the components, all of them clean, so the guard
never fires. The texts of two such paths of `StaticFirmwarePlugin` are equal if and only if the
components are, and those of `OpenWrtPlugin` if and only if version and file are, and the
architectures are too or are `t` and `t-generic`. -/
theorem firmware_paths (cwd : Loc String) (fs : FS) (hlinks : fs.NoLinks) :
    (∀ plugin : StaticFirmwarePlugin py, (∀ n ∈ plugin.distroRoot, FileName n) →
      (∀ profile, plugin.Passes profile → BuildsPaths cwd fs plugin.distroRoot
        (plugin.firmwarePath cwd fs) plugin.components profile) ∧
      ∀ profile profile', plugin.Passes profile → plugin.Passes profile' →
        (pathText (plugin.builtPath profile) = pathText (plugin.builtPath profile') ↔
          plugin.components profile = plugin.components profile')) ∧
    ∀ plugin : OpenWrtPlugin py, (∀ n ∈ plugin.distroRoot, FileName n) →
      (∀ profile, plugin.Passes profile → BuildsPaths cwd fs plugin.distroRoot
        (plugin.firmwarePath cwd fs) plugin.components profile) ∧
      ∀ profile profile', plugin.Passes profile → plugin.Passes profile' →
        (pathText (plugin.builtPath profile) = pathText (plugin.builtPath profile') ↔
          textOf profile.osVersion = textOf profile'.osVersion ∧
          plugin.fileOf profile = plugin.fileOf profile' ∧
          (textOf profile.arch = textOf profile'.arch ∨ ∃ t, hasChar '-' t = false ∧
            (textOf profile.arch = t ∧ textOf profile'.arch = t ++ "-generic" ∨
              textOf profile.arch = t ++ "-generic" ∧ textOf profile'.arch = t))) := by
  refine ⟨fun plugin hroot => ⟨fun profile h => ⟨fun n hn => (h.fileName hn).clean, ?_⟩, ?_⟩,
    fun plugin hroot => ⟨fun profile h => ⟨fun n hn => (h.fileName hn).clean, ?_⟩, ?_⟩⟩
  · rw [h.firmwarePath_eq]
    exact resolveFirmware_eq hlinks hroot fun n hn => h.fileName hn
  · intro profile profile' h h'
    exact pathText_pathBelow_inj hroot (fun n hn => h.fileName hn) fun n hn => h'.fileName hn
  · rw [h.firmwarePath_eq]
    exact resolveFirmware_eq hlinks hroot fun n hn => h.fileName hn
  · intro profile profile' h h'
    rw [← splitArch_eq_splitArch_iff, Prod.ext_iff, OpenWrtPlugin.builtPath,
      OpenWrtPlugin.builtPath, pathText_pathBelow_inj hroot (fun n hn => h.fileName hn) fun n hn =>
        h'.fileName hn]
    simp only [OpenWrtPlugin.components, List.cons.injEq]
    tauto

/-- A plugin with its root at `/srv`. -/
private def releases : OpenWrtPlugin .ascii where
  distroRoot := ["srv"]
  supportedVersions := []
  imageType := "sysupgrade"
  imageType_valid := rfl

/-- A profile of an architecture. -/
private def archProfile (arch : String) : ProvisionProfile :=
  { name := .str "lab", osFamily := .str "openwrt", osVersion := .str "23.05", arch := .str arch }

/-- A release of one file. -/
private def releaseNodes : List (Loc String × Node String Bytes) :=
  [(["srv"], .dir), (["openwrt", "srv"], .dir), (["23.05", "openwrt", "srv"], .dir),
    (["targets", "23.05", "openwrt", "srv"], .dir),
    (["ath79", "targets", "23.05", "openwrt", "srv"], .dir),
    (["generic", "ath79", "targets", "23.05", "openwrt", "srv"], .dir),
    (["sysupgrade.bin", "generic", "ath79", "targets", "23.05", "openwrt", "srv"], .file [1])]

/-- A profile for `ath79` gets the file of one for `ath79-generic`, and one for `x86` no file. -/
theorem firmware_paths_generic :
    let fs : FS := .ofNodes releaseNodes
    (BuildsPaths [] fs ["srv"] (releases.firmwarePath [] fs) releases.components
        (archProfile "ath79") ∧
      (releases.firmwarePath [] fs (archProfile "ath79")).isOk = true) ∧
    (BuildsPaths [] fs ["srv"] (releases.firmwarePath [] fs) releases.components
        (archProfile "x86") ∧
      (releases.firmwarePath [] fs (archProfile "x86")).isOk = false) ∧
    pathText (releases.builtPath (archProfile "ath79")) =
      pathText (releases.builtPath (archProfile "ath79-generic")) := by
  intro fs
  have hlinks : fs.NoLinks := FileSystem.noLinks_ofNodes (by simp [releaseNodes])
  have hroot : ∀ n ∈ releases.distroRoot, FileName n := by
    intro n hn
    obtain rfl := List.mem_singleton.mp hn
    exact ⟨⟨by decide, by decide, by decide, by decide⟩, by decide⟩
  have hpasses : ∀ arch ∈ ["ath79", "ath79-generic", "x86"],
      releases.Passes (archProfile arch) := by
    intro arch harch
    simp only [List.mem_cons, List.not_mem_nil, or_false] at harch
    rcases harch with rfl | rfl | rfl <;> exact ⟨⟨_, rfl⟩, ⟨_, rfl⟩, ⟨_, rfl⟩, ⟨_, rfl⟩, ⟨_, rfl⟩⟩
  obtain ⟨hbuilt, hsame⟩ := (firmware_paths [] fs hlinks).2 releases hroot
  refine ⟨⟨hbuilt _ (hpasses _ (by simp)), by decide +kernel⟩,
    ⟨hbuilt _ (hpasses _ (by simp)), by decide +kernel⟩,
    (hsame _ _ (hpasses _ (by simp)) (hpasses _ (by simp))).mpr
      ⟨rfl, rfl, .inr ⟨"ath79", rfl, .inl ⟨rfl, rfl⟩⟩⟩⟩

end TftpOS
