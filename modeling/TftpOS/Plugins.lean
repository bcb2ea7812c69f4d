import TftpOS.Config

/-!
# Firmware plugins

The base class `FirmwarePlugin` and the built-in plugins of `tftpos/plugins`, which look for
firmware below a root directory: `StaticFirmwarePlugin` and `OpenWrtPlugin`. A profile is not
type-checked before it gets here, so the plugins check each segment they build a path from.
-/

namespace TftpOS

open Lib

/-- `FirmwarePlugin`. -/
structure FirmwarePlugin where
  osFamily : String
  supportedVersions : List String
  validateProfile : ProvisionProfile → List String
  /-- `firmware_path`, which looks at the file system. -/
  firmwarePath : FS → ProvisionProfile → Except PyExc PyPath

/-- `repr` of a list of strings. -/
def reprList (py : StrLib) (l : List String) : String :=
  "[" ++ ", ".intercalate (l.map py.repr) ++ "]"

/-- `type(v).__name__`. -/
def typeName : Toml → String := Value.typeName DateTime.cls

section

variable (py : StrLib) (toml : TomlLib)

/-- `FirmwarePlugin.validate_profile`. -/
def validateProfile (osFamily : String) (supportedVersions : List String)
    (profile : ProvisionProfile) : List String :=
  (if profile.name.truthy then [] else ["profile name is required"]) ++
  (if profile.osFamily.asStr = some osFamily then []
    else ["os_family mismatch: expected " ++ osFamily ++ ", got " ++ toml.text profile.osFamily]) ++
  (if supportedVersions = [] ∨ ∃ v ∈ supportedVersions, profile.osVersion.asStr = some v then []
    else ["unsupported version " ++ toml.repr profile.osVersion ++ "; supported: " ++
      reprList py supportedVersions])

/-! ### Segments -/

/-- The pattern `[\w.\-]+`. -/
def isSegment (cs : List Char) : Bool :=
  !cs.isEmpty && cs.all fun c => py.isWord c || c == '.' || c == '-'

/-- `_validate_segment`, of which each plugin has its own copy: the segment it accepts. -/
def validateSegment (value : Toml) (label : String) : Except PyExc String :=
  match value with
  | .null => .error ⟨.valueError, label ++ " must not be empty"⟩
  | .str s =>
    if s = "" then .error ⟨.valueError, label ++ " must not be empty"⟩
    else if s = "." ∨ s = ".." then
      .error ⟨.valueError, label ++ " contains invalid characters: " ++ py.repr s⟩
    else if !reLine (isSegment py) s then
      .error ⟨.valueError, label ++ " contains invalid characters: " ++ py.repr s⟩
    else .ok s
  | v => .error ⟨.valueError, label ++ " must be a string, got " ++ typeName v⟩

/-- The end of `firmware_path`, which the plugins share: resolve the path of the segments below
the root and check that a file is there. -/
def resolveFirmware (cwd : Loc String) (fs : FS) (distroRoot : Loc String) (parts : List String) :
    Except PyExc PyPath := do
  let path := joinPaths (absPath distroRoot) (parts.foldl joinPath ⟨false, []⟩)
  let resolved ← realpath cwd py fs path
  -- the segments are clean, but links below the root may lead out of it
  if !distroRoot.isSuffixOf resolved then
    .error ⟨.valueError, "resolved path escapes distro_root: " ++ pathText (absPath resolved)⟩
  else if !pathIsFile cwd fs (absPath resolved) then
    .error ⟨.fileNotFoundError, "firmware not found: " ++ pathText (absPath resolved)⟩
  else .ok (absPath resolved)

/-! ### The built-in plugins -/

/-- `StaticFirmwarePlugin`. -/
structure StaticFirmwarePlugin where
  /-- The resolved root. -/
  distroRoot : Loc String
  osFamily : String
  supportedVersions : List String
  filename : String
  includeArch : Bool
  filename_valid : validateSegment py (.str filename) "filename" = .ok filename

/-- `OpenWrtPlugin`. -/
structure OpenWrtPlugin where
  /-- The resolved root. -/
  distroRoot : Loc String
  supportedVersions : List String
  imageType : String
  imageType_valid : validateSegment py (.str imageType) "image_type" = .ok imageType

variable {py}

/-- The segment for the architecture, where the plugin has one. -/
def StaticFirmwarePlugin.archParts (plugin : StaticFirmwarePlugin py)
    (profile : ProvisionProfile) : Except PyExc (List String) :=
  if plugin.includeArch then (validateSegment py profile.arch "arch").map fun a => [a] else .ok []

/-- `StaticFirmwarePlugin.firmware_path`. -/
def StaticFirmwarePlugin.firmwarePath (plugin : StaticFirmwarePlugin py) (cwd : Loc String)
    (fs : FS) (profile : ProvisionProfile) : Except PyExc PyPath := do
  let osFamily ← validateSegment py profile.osFamily "os_family"
  let osVersion ← validateSegment py profile.osVersion "os_version"
  let arch ← plugin.archParts profile
  resolveFirmware py cwd fs plugin.distroRoot ([osFamily, osVersion] ++ arch ++ [plugin.filename])

/-- The target and the subtarget that an `arch` stands for. -/
def splitArch (arch : String) : String × String :=
  if hasChar '-' arch then
    (String.ofList (arch.toList.takeWhile (· ≠ '-')),
      String.ofList (arch.toList.dropWhile (· ≠ '-')).tail)
  else (arch, "generic")

/-- The file name: that of the profile's `extra`, or that of the image type. -/
def OpenWrtPlugin.filename (plugin : OpenWrtPlugin py) (profile : ProvisionProfile) :
    Except PyExc String := do
  let extra : Toml := if profile.extra.isDict then profile.extra else .dict []
  let named ← extra.getItem "filename" .null
  if named.truthy then validateSegment py named "filename" else .ok (plugin.imageType ++ ".bin")

/-- `OpenWrtPlugin.firmware_path`. -/
def OpenWrtPlugin.firmwarePath (plugin : OpenWrtPlugin py) (cwd : Loc String) (fs : FS)
    (profile : ProvisionProfile) : Except PyExc PyPath := do
  let osVersion ← validateSegment py profile.osVersion "os_version"
  let arch ← validateSegment py profile.arch "arch"
  let target ← validateSegment py (.str (splitArch arch).1) "target"
  let subtarget ← validateSegment py (.str (splitArch arch).2) "subtarget"
  let filename ← plugin.filename profile
  resolveFirmware py cwd fs plugin.distroRoot
    ["openwrt", osVersion, "targets", target, subtarget, filename]

/-- The plugins that come with the package. -/
inductive BuiltinPlugin (py : StrLib) where
  | static (plugin : StaticFirmwarePlugin py)
  | openWrt (plugin : OpenWrtPlugin py)

namespace BuiltinPlugin

/-- The root below which a plugin looks. -/
def distroRoot : BuiltinPlugin py → Loc String
  | static plugin => plugin.distroRoot
  | openWrt plugin => plugin.distroRoot

/-- `os_family`. -/
def osFamily : BuiltinPlugin py → String
  | static plugin => plugin.osFamily
  | openWrt _ => "openwrt"

/-- `supported_versions`. -/
def supportedVersions : BuiltinPlugin py → List String
  | static plugin => plugin.supportedVersions
  | openWrt plugin => plugin.supportedVersions

/-- `firmware_path`. -/
def firmwarePath (cwd : Loc String) : BuiltinPlugin py → FS → ProvisionProfile → Except PyExc PyPath
  | static plugin => plugin.firmwarePath cwd
  | openWrt plugin => plugin.firmwarePath cwd

/-- The plugin as the engine sees it: the built-in ones keep the base class' validation. -/
def toPlugin (cwd : Loc String) (plugin : BuiltinPlugin py) : FirmwarePlugin where
  osFamily := plugin.osFamily
  supportedVersions := plugin.supportedVersions
  validateProfile := TftpOS.validateProfile py toml plugin.osFamily plugin.supportedVersions
  firmwarePath := plugin.firmwarePath cwd

end BuiltinPlugin

/-! ### What the plugins return -/

variable {toml} {cwd : Loc String} {fs : FS} {profile : ProvisionProfile} {p : PyPath}

/-- A profile passes the base validation exactly when it has a name, is of the plugin's family
and, where versions are listed, of one of them. -/
theorem validateProfile_eq_nil_iff {osFamily : String} {supportedVersions : List String} :
    validateProfile py toml osFamily supportedVersions profile = [] ↔
      profile.name.truthy = true ∧ profile.osFamily = .str osFamily ∧
        (supportedVersions ≠ [] → ∃ v ∈ supportedVersions, profile.osVersion = .str v) := by
  simp only [validateProfile, List.append_eq_nil_iff, ite_eq_left_iff, List.cons_ne_nil, imp_false,
    not_not, Value.asStr_eq_some_iff, and_assoc, or_iff_not_imp_left, ne_eq]

/-- What is joined to an absolute path is absolute. -/
theorem absolute_joinPaths {q : PyPath} (hp : p.absolute = true) :
    (joinPaths p q).absolute = true := by
  rw [joinPaths]
  split_ifs with hq
  · exact hq
  · exact hp

/-- **Confinement.** What `resolveFirmware` returns is the path of a file at or below the root,
without links on the way. -/
theorem resolveFirmware_eq_ok {distroRoot : Loc String} {parts : List String}
    (h : resolveFirmware py cwd fs distroRoot parts = .ok p) :
    ∃ l, p = absPath l ∧ distroRoot <:+ l ∧ Reaches cwd fs (· <:+ l) p l ∧
      (fs.bytes? l).isSome := by
  rw [resolveFirmware] at h
  obtain ⟨l, hl, h⟩ := bind_eq_ok_iff.mp h
  split_ifs at h with hroot hfile
  simp only [Bool.not_eq_true', Bool.not_eq_false, List.isSuffixOf_iff_suffix] at hroot hfile
  -- what was resolved has no links left, so the kernel arrives at the very same location
  have hfree : fs.LinkFree l := linkFree_of_realpath hl (absolute_joinPaths rfl)
  obtain ⟨b, hb⟩ := pathIsFile_iff.mp hfile
  obtain ⟨l', hl', hbytes⟩ := readBytes_eq_ok.mp hb
  obtain rfl := hl'.eq_of_linkFree hfree
  obtain rfl := Except.ok.inj h
  have hthere : (fs.get? l').isSome := by
    rw [FileSystem.bytes?_eq_some_iff.mp hbytes]
    rfl
  have hfound : (fs.bytes? l').isSome := by
    rw [hbytes]
    rfl
  exact ⟨l', rfl, hroot, ⟨hl'.nul, hl'.base, hfree.leads hthere⟩, hfound⟩

/-- The built-in plugins return files at or below their roots, whatever the profile says. -/
theorem BuiltinPlugin.firmwarePath_eq_ok {plugin : BuiltinPlugin py}
    (h : plugin.firmwarePath cwd fs profile = .ok p) :
    ∃ l, p = absPath l ∧ plugin.distroRoot <:+ l ∧ Reaches cwd fs (· <:+ l) p l ∧
      (fs.bytes? l).isSome := by
  cases plugin with
  | static plugin =>
    rw [firmwarePath, StaticFirmwarePlugin.firmwarePath] at h
    obtain ⟨osFamily, -, h⟩ := bind_eq_ok_iff.mp h
    obtain ⟨osVersion, -, h⟩ := bind_eq_ok_iff.mp h
    obtain ⟨arch, -, h⟩ := bind_eq_ok_iff.mp h
    exact resolveFirmware_eq_ok h
  | openWrt plugin =>
    rw [firmwarePath, OpenWrtPlugin.firmwarePath] at h
    obtain ⟨osVersion, -, h⟩ := bind_eq_ok_iff.mp h
    obtain ⟨arch, -, h⟩ := bind_eq_ok_iff.mp h
    obtain ⟨target, -, h⟩ := bind_eq_ok_iff.mp h
    obtain ⟨subtarget, -, h⟩ := bind_eq_ok_iff.mp h
    obtain ⟨filename, -, h⟩ := bind_eq_ok_iff.mp h
    exact resolveFirmware_eq_ok h

end

end TftpOS
