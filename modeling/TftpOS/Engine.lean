import TftpOS.Cache
import TftpOS.Matcher
import TftpOS.Plugins
import TftpOS.Staging

/-!
# The firmware engine

`FirmwareEngine` of `tftpos/engine.py` with the `PluginRegistry` it asks. To serve a host is to
match a rule, to load the profile the rule names, and to ask the plugin of the rule's family
for the firmware of the profile.

What a call of the engine can change is an `EngineState`: the file system, the cache in front
of the profile files, and a record of the profile files that were opened.
-/

namespace TftpOS

open Lib

/-- What the engine runs on: the interpreter, the libraries and the working directory. -/
structure Platform where
  py : StrLib
  net : NetLib
  toml : TomlLib
  cwd : Loc String

/-! ### The registry -/

/-- `PluginRegistry`. -/
structure PluginRegistry where
  instances : Dict String FirmwarePlugin := ∅

namespace PluginRegistry

/-- `PluginRegistry.register` of an instance. -/
def register (py : StrLib) (r : PluginRegistry) (plugin : FirmwarePlugin) : PluginRegistry :=
  ⟨r.instances.set (py.lower plugin.osFamily) plugin⟩

/-- `PluginRegistry.get`. -/
def get (py : StrLib) (r : PluginRegistry) (osFamily : String) : Except PyExc FirmwarePlugin :=
  match r.instances.get? (py.lower osFamily) with
  | some plugin => .ok plugin
  | none => .error ⟨.valueError, "unknown os_family " ++ py.repr osFamily ++ "; available: " ++
      reprList py (sortOn id r.instances.keys)⟩

/-- A registered plugin is found under its family, whatever the case. -/
theorem get_register {py : StrLib} {r : PluginRegistry} {plugin : FirmwarePlugin}
    {osFamily : String} (h : py.lower osFamily = py.lower plugin.osFamily) :
    (r.register py plugin).get py osFamily = .ok plugin := by
  rw [get, register, h, Dict.get?_set_self]

end PluginRegistry

/-! ### The engine -/

/-- `FirmwareEngine`. -/
structure FirmwareEngine where
  registry : PluginRegistry
  matcher : HostMatcher
  config : TftpOSConfig

/-- What a call of the engine can change. -/
structure EngineState where
  fs : FS
  /-- The cache of `_cached_load_profile`. -/
  profiles : TTLCache PyPath ProvisionProfile
  /-- The profile files opened so far. -/
  loads : List PyPath := []

/-- The cache of `_cached_load_profile` before its first call. -/
def profileLoader : TTLCache PyPath ProvisionProfile where
  maxsize := 64
  ttl := 300

/-- `_cached_load_profile`. -/
def cachedLoadProfile (sys : Platform) (clock : CacheClock) (path : PyPath) :
    Action PyExc EngineState ProvisionProfile := ⟨fun w =>
  let load := fun path => (loadProfile sys.py sys.toml sys.cwd w.fs path).map some
  match w.profiles.call clock load path with
  | (result, evaluated, profiles) =>
    let w' := { w with profiles, loads := if evaluated then w.loads ++ [path] else w.loads }
    match result with
    | .ok (some profile) => (.ok profile, w')
    | .ok none => (.error ⟨.attributeError, "'NoneType' object has no attribute 'name'"⟩, w')
    | .error e => (.error e, w')⟩

namespace FirmwareEngine

/-- `FirmwareEngine.get_rule`. -/
def getRule (sys : Platform) (e : FirmwareEngine) (mac : String) (req : Request) :
    Option HostRule :=
  e.matcher.matchRequest sys.py sys.net { req with mac := some mac }

/-- `FirmwareEngine.resolve_rule`. -/
def resolveRule (sys : Platform) (e : FirmwareEngine) (mac : String) (req : Request) :
    Except PyExc HostRule :=
  match e.getRule sys mac req with
  | some rule => .ok rule
  | none => .error ⟨.valueError, "no matching host rule for MAC " ++ sys.py.repr mac⟩

/-- The directory of the profile files. -/
def profilesDir (e : FirmwareEngine) : PyPath := joinPath e.config.dataDir "profiles"

/-- `FirmwareEngine.load_profile_for_rule`. -/
def loadProfileForRule (sys : Platform) (e : FirmwareEngine) (clock : CacheClock)
    (rule : HostRule) : Action PyExc EngineState ProvisionProfile := do
  let invalid : PyExc := ⟨.valueError, "invalid profile name: " ++ sys.py.repr rule.profile⟩
  let profilePath := joinPath e.profilesDir (rule.profile ++ ".toml")
  if hasDotDot rule.profile || hasChar '/' rule.profile then throw invalid
  else do
    let resolved ← .read fun w => realpath sys.cwd sys.py w.fs profilePath
    let dir ← .read fun w => realpath sys.cwd sys.py w.fs e.profilesDir
    -- the profile file may be a link, but only to a file of the same directory
    if resolved.tail ≠ dir then throw invalid
    else do
      let found ← .read fun w => .ok (pathExists sys.cwd w.fs profilePath)
      if found then cachedLoadProfile sys clock profilePath
      else
        return {
          name := .str rule.profile
          osFamily := .str rule.osFamily
          osVersion := .str rule.osVersion
          vendor := .str rule.vendor }

/-- `FirmwareEngine.serve`. -/
def serve (sys : Platform) (e : FirmwareEngine) (clock : CacheClock) (mac : String)
    (req : Request) : Action PyExc EngineState PyPath := do
  let rule ← .read fun _ => e.resolveRule sys mac req
  let profile ← e.loadProfileForRule sys clock rule
  let plugin ← .read fun _ => e.registry.get sys.py rule.osFamily
  let errors := plugin.validateProfile profile
  if errors ≠ [] then
    throw ⟨.valueError,
      "invalid profile " ++ sys.toml.repr profile.name ++ ": " ++ "; ".intercalate errors⟩
  else .read fun w => plugin.firmwarePath w.fs profile

/-- `FirmwareEngine.stage`. -/
def stage (sys : Platform) (e : FirmwareEngine) (env : StageEnv) (clock : CacheClock)
    (mac : String) (req : Request) (name : Option String) (symlink : Bool) :
    Action PyExc EngineState PyPath := do
  let firmwarePath ← e.serve sys clock mac req
  .zoom EngineState.fs (fun fs w => { w with fs })
    (TftpOS.stage sys.cwd sys.py env firmwarePath e.config.tftpRoot name symlink)

/-! ### What `serve` reads and returns -/

variable {sys : Platform} {e : FirmwareEngine} {clock : CacheClock} {w w' : EngineState}
  {mac : String} {req : Request} {rule : HostRule} {p : PyPath}

variable (sys e) in
/-- The path leads to an entry of the directory of the profile files. -/
def IsProfilePath (fs : FS) (path : PyPath) : Prop :=
  ∃ l, realpath sys.cwd sys.py fs path = .ok l ∧
    realpath sys.cwd sys.py fs e.profilesDir = .ok l.tail

variable (sys e) in
/-- A call left the file system alone and opened profile files in their directory only. -/
def ReadsProfiles (w w' : EngineState) : Prop :=
  w'.fs = w.fs ∧ ∃ new, w'.loads = w.loads ++ new ∧ ∀ path ∈ new, e.IsProfilePath sys w.fs path

theorem ReadsProfiles.refl (w : EngineState) : e.ReadsProfiles sys w w :=
  ⟨rfl, [], (List.append_nil _).symm, nofun⟩

private theorem cachedLoadProfile_reads {r : Except PyExc ProvisionProfile}
    (hpath : e.IsProfilePath sys w.fs p)
    (h : (cachedLoadProfile sys clock p).run w = (r, w')) : e.ReadsProfiles sys w w' := by
  simp only [cachedLoadProfile] at h
  rcases hcall : w.profiles.call clock (fun path =>
      (loadProfile sys.py sys.toml sys.cwd w.fs path).map some) p with ⟨result, evaluated, profiles⟩
  simp only [hcall] at h
  have hw' : w' = { w with
      profiles := profiles
      loads := if evaluated then w.loads ++ [p] else w.loads } := by
    rcases result with e | _ | profile
    · exact (Prod.mk.inj h).2.symm
    · exact (Prod.mk.inj h).2.symm
    · exact (Prod.mk.inj h).2.symm
  subst hw'
  cases evaluated with
  | false => exact ⟨rfl, [], (List.append_nil _).symm, nofun⟩
  | true =>
    refine ⟨rfl, [p], rfl, fun path hp => ?_⟩
    rwa [List.mem_singleton.mp hp]

/-- `load_profile_for_rule` opens nothing but a file in the directory of the profile files,
whatever the rule says. -/
theorem loadProfileForRule_reads {r : Except PyExc ProvisionProfile}
    (h : (e.loadProfileForRule sys clock rule).run w = (r, w')) : e.ReadsProfiles sys w w' := by
  have hstop {e'} (h : (Except.error e', w) = (r, w')) : e.ReadsProfiles sys w w' :=
    (Prod.mk.inj h).2 ▸ .refl w
  rw [loadProfileForRule] at h
  split_ifs at h with hname
  · exact hstop h
  · rcases hpath : realpath sys.cwd sys.py w.fs (joinPath e.profilesDir (rule.profile ++ ".toml"))
      with e' | resolved
    · rw [Action.bind_of_error (by rw [Action.run_read, hpath])] at h
      exact hstop h
    · rw [Action.bind_of_ok (by rw [Action.run_read, hpath])] at h
      rcases hdir : realpath sys.cwd sys.py w.fs e.profilesDir with e' | dir
      · rw [Action.bind_of_error (by rw [Action.run_read, hdir])] at h
        exact hstop h
      · rw [Action.bind_of_ok (by rw [Action.run_read, hdir])] at h
        split_ifs at h with hparent
        · exact hstop h
        · rw [Action.bind_of_ok (by rw [Action.run_read])] at h
          have hin : e.IsProfilePath sys w.fs
              (joinPath e.profilesDir (rule.profile ++ ".toml")) := by
            rw [ne_eq, not_not] at hparent
            exact ⟨resolved, hpath, hparent ▸ hdir⟩
          split_ifs at h
          · exact cachedLoadProfile_reads hin h
          · exact (Prod.mk.inj h).2 ▸ .refl w

/-- `serve` opens nothing else than `load_profile_for_rule`, also when it raises. -/
theorem serve_reads {r : Except PyExc PyPath}
    (h : (e.serve sys clock mac req).run w = (r, w')) : e.ReadsProfiles sys w w' := by
  rw [serve] at h
  rcases hrule : e.resolveRule sys mac req with e' | rule
  · rw [Action.bind_of_error (by rw [Action.run_read, hrule])] at h
    exact (Prod.mk.inj h).2 ▸ .refl w
  · rw [Action.bind_of_ok (by rw [Action.run_read, hrule])] at h
    rcases hload : (e.loadProfileForRule sys clock rule).run w with ⟨e' | profile, w₁⟩
    · rw [Action.bind_of_error hload] at h
      obtain rfl := (Prod.mk.inj h).2
      exact loadProfileForRule_reads hload
    · rw [Action.bind_of_ok hload] at h
      -- what comes after the profile was loaded changes nothing
      have hw' : w' = w₁ := by
        rcases hplugin : e.registry.get sys.py rule.osFamily with e' | plugin
        · rw [Action.bind_of_error (by rw [Action.run_read, hplugin])] at h
          exact (Prod.mk.inj h).2.symm
        · rw [Action.bind_of_ok (by rw [Action.run_read, hplugin])] at h
          dsimp only at h
          split_ifs at h
          · exact (Prod.mk.inj h).2.symm
          · exact (Prod.mk.inj h).2.symm
      rw [hw']
      exact loadProfileForRule_reads hload

/-- The steps of a call of `serve` that returns. -/
theorem serve_eq_ok (h : (e.serve sys clock mac req).run w = (.ok p, w')) :
    ∃ rule profile plugin, e.getRule sys mac req = some rule ∧
      (e.loadProfileForRule sys clock rule).run w = (.ok profile, w') ∧
      e.registry.get sys.py rule.osFamily = .ok plugin ∧ plugin.validateProfile profile = [] ∧
      plugin.firmwarePath w'.fs profile = .ok p := by
  rw [serve] at h
  obtain ⟨rule, w₁, hread, h⟩ := Action.bind_eq_ok_iff.mp h
  obtain ⟨hrule, rfl⟩ := Prod.mk.inj hread
  obtain ⟨profile, w₂, hprofile, h⟩ := Action.bind_eq_ok_iff.mp h
  obtain ⟨plugin, w₃, hread', h⟩ := Action.bind_eq_ok_iff.mp h
  obtain ⟨hplugin, rfl⟩ := Prod.mk.inj hread'
  dsimp only at h
  split_ifs at h with herrors
  · cases h
  · obtain ⟨hpath, rfl⟩ := Prod.mk.inj h
    rw [resolveRule] at hrule
    split at hrule
    · next hget =>
      obtain rfl := Except.ok.inj hrule
      exact ⟨_, profile, plugin, hget, hprofile, hplugin, not_not.mp herrors, hpath⟩
    · cases hrule

/-- **Confinement.** With a built-in plugin, whatever the rule and the profile files say, a call
of `serve` that returns has opened no profile file but in the directory of the profile files,
returns the path of a regular file at or below the plugin's root, and has used a profile of the
plugin's family and, where it lists versions, of one of them. -/
theorem serve_confined {plugin : BuiltinPlugin sys.py} (hrule : e.getRule sys mac req = some rule)
    (hplugin : e.registry.get sys.py rule.osFamily = .ok (plugin.toPlugin sys.toml sys.cwd))
    (hserve : (e.serve sys clock mac req).run w = (.ok p, w')) :
    e.ReadsProfiles sys w w' ∧
      (∃ l, p = absPath l ∧ locate sys.cwd w.fs p = .ok l ∧ (w.fs.bytes? l).isSome ∧
        plugin.distroRoot <:+ l) ∧
      ∃ profile, (e.loadProfileForRule sys clock rule).run w = (.ok profile, w') ∧
        plugin.firmwarePath sys.cwd w.fs profile = .ok p ∧
        profile.osFamily = .str plugin.osFamily ∧
        (plugin.supportedVersions ≠ [] →
          ∃ v ∈ plugin.supportedVersions, profile.osVersion = .str v) := by
  obtain ⟨rule', profile, plugin', hrule', hload, hplugin', hvalid, hpath⟩ := serve_eq_ok hserve
  obtain rfl := Option.some.inj (hrule.symm.trans hrule')
  obtain rfl := Except.ok.inj (hplugin.symm.trans hplugin')
  have hreads : e.ReadsProfiles sys w w' := loadProfileForRule_reads hload
  -- the plugin looks at the file system that the call started in
  rw [hreads.1] at hpath
  obtain ⟨l, hl, hroot, hreach, hfile⟩ := BuiltinPlugin.firmwarePath_eq_ok hpath
  obtain ⟨-, hfamily, hversion⟩ := validateProfile_eq_nil_iff.mp hvalid
  exact ⟨hreads, ⟨l, hl, locate_eq_ok.mpr hreach.anywhere, hfile, hroot⟩, profile, hload, hpath,
    hfamily, hversion⟩

/-! ### A lab -/

/-- The text of a profile file. -/
def labProfile : Bytes :=
  "name = \"first\"\nos_family = \"openwrt\"\nos_version = \"23.05\"\n".toList.map fun c =>
    UInt8.ofNat c.toNat

/-- A platform that knows ASCII alone, no networks, and one profile file. -/
def labPlatform : Platform where
  py := .ascii
  net := {
    fnmatch := fun _ _ => false
    Network := Unit
    Address := Unit
    ipNetwork := fun _ => none
    ipAddress := fun _ => none
    contains := fun _ _ => false }
  toml := {
    loads := fun bytes =>
      if bytes = labProfile then
        .ok [("name", .str "first"), ("os_family", .str "openwrt"), ("os_version", .str "23.05")]
      else .error (.malformed "")
    text := fun _ => ""
    repr := fun _ => "" }
  cwd := []

/-- A plugin that serves `/distros/<family>/<version>/firmware.bin`. -/
def labPlugin : BuiltinPlugin labPlatform.py := .static {
  distroRoot := ["distros"]
  osFamily := "openwrt"
  supportedVersions := ["23.05", "24.10"]
  filename := "firmware.bin"
  includeArch := false
  filename_valid := by decide +kernel }

/-- An engine with that plugin and two hosts of different versions; the first has a profile
file. -/
def labEngine : FirmwareEngine where
  registry := ({} : PluginRegistry).register labPlatform.py
    (labPlugin.toPlugin labPlatform.toml labPlatform.cwd)
  matcher := .init [
    { profile := "first", osFamily := "openwrt", osVersion := "23.05", mac := some "01" },
    { profile := "second", osFamily := "openwrt", osVersion := "24.10", mac := some "02" }]
  config := { tftpRoot := absPath ["tftp", "srv"], dataDir := absPath ["etc"] }

/-- The firmware of both versions, and the profile file. -/
def labState : EngineState where
  fs := .ofNodes [(["srv"], .dir), (["etc"], .dir), (["profiles", "etc"], .dir),
    (["first.toml", "profiles", "etc"], .file labProfile), (["distros"], .dir),
    (["openwrt", "distros"], .dir),
    (["23.05", "openwrt", "distros"], .dir), (["24.10", "openwrt", "distros"], .dir),
    (["firmware.bin", "23.05", "openwrt", "distros"], .file [1]),
    (["firmware.bin", "24.10", "openwrt", "distros"], .file [2])]
  profiles := profileLoader

/-- The first host of the lab. -/
theorem serve_confined_lab :
    let firmware := absPath ["firmware.bin", "23.05", "openwrt", "distros"]
    let result := (labEngine.serve labPlatform ⟨0, 0, 0⟩ "01" {}).run labState
    result.1 = .ok firmware ∧ labEngine.ReadsProfiles labPlatform labState result.2 ∧
      (∃ l, firmware = absPath l ∧ locate [] labState.fs firmware = .ok l ∧
        (labState.fs.bytes? l).isSome ∧ labPlugin.distroRoot <:+ l) ∧
      ∃ profile, (labEngine.loadProfileForRule labPlatform ⟨0, 0, 0⟩
          { profile := "first", osFamily := "openwrt", osVersion := "23.05", mac := some "01" }).run
            labState = (.ok profile, result.2) ∧
        labPlugin.firmwarePath [] labState.fs profile = .ok firmware ∧
        profile.osFamily = .str labPlugin.osFamily ∧
        (labPlugin.supportedVersions ≠ [] →
          ∃ v ∈ labPlugin.supportedVersions, profile.osVersion = .str v) := by
  intro firmware result
  have hrule : labEngine.getRule labPlatform "01" {} = some
      { profile := "first", osFamily := "openwrt", osVersion := "23.05", mac := some "01" } := by
    decide +kernel
  have hserve : result.1 = .ok firmware := by decide +kernel
  exact ⟨hserve, serve_confined hrule (PluginRegistry.get_register rfl) (Prod.ext hserve rfl)⟩

end FirmwareEngine

end TftpOS
