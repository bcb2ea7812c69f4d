import TftpOS.CachedCalls
import TftpOS.Engine
import TftpOS.HostIdentity

/-!
# What is served and what is tracked

`FirmwareEngine.serve` follows the profile that a rule names, `FirmwareEngine.ensure_tracked` the
rule itself. The record it registers describes the served profile where the engine makes that
profile up from the rule, that is, where there is no profile file (`tracked_after_serve`). A file
may give another name and another version; its family is that of the rule up to letter case, since
the plugin of the rule's family has accepted it.
-/

namespace TftpOS

open Lib

/-! ### The plugin of a family -/

namespace PluginRegistry

variable {py : StrLib} {plugins : List FirmwarePlugin} {plugin : FirmwarePlugin} {osFamily : String}

/-- The registry of the plugins registered one after the other. -/
def ofPlugins (py : StrLib) (plugins : List FirmwarePlugin) : PluginRegistry :=
  plugins.foldl (register py) {}

/-- The registry has plugins of the list, each under its lower-cased family. -/
def Holds (py : StrLib) (r : PluginRegistry) (plugins : List FirmwarePlugin) : Prop :=
  ∀ key plugin, r.instances.get? key = some plugin →
    plugin ∈ plugins ∧ key = py.lower plugin.osFamily

theorem Holds.register {r : PluginRegistry} (h : r.Holds py plugins) :
    (r.register py plugin).Holds py (plugins ++ [plugin]) := by
  intro key plugin' hget
  rw [PluginRegistry.register, Dict.get?_set] at hget
  split_ifs at hget with hkey
  · obtain rfl := Option.some.inj hget
    exact ⟨by simp, hkey⟩
  · obtain ⟨hmem, hlower⟩ := h key plugin' hget
    exact ⟨List.mem_append_left _ hmem, hlower⟩

theorem holds_ofPlugins (py : StrLib) (plugins : List FirmwarePlugin) :
    (ofPlugins py plugins).Holds py plugins := by
  rw [ofPlugins]
  induction plugins using List.reverseRecOn with
  | nil => exact fun _ _ h => by cases h
  | append_singleton plugins plugin ih =>
    rw [List.foldl_append]
    exact ih.register

/-- A plugin is found under the spellings of its family. -/
theorem get_ofPlugins (h : (ofPlugins py plugins).get py osFamily = .ok plugin) :
    plugin ∈ plugins ∧ py.lower osFamily = py.lower plugin.osFamily := by
  rw [get] at h
  rcases hget : (ofPlugins py plugins).instances.get? (py.lower osFamily) with _ | plugin'
  · rw [hget] at h
    cases h
  · rw [hget] at h
    obtain rfl := Except.ok.inj h
    exact holds_ofPlugins py plugins _ _ hget

end PluginRegistry

/-- The plugin accepts no profile that the base class refuses. -/
def FirmwarePlugin.KeepsBaseChecks (sys : Platform) (plugin : FirmwarePlugin) : Prop :=
  ∀ profile, plugin.validateProfile profile = [] →
    TftpOS.validateProfile sys.py sys.toml plugin.osFamily plugin.supportedVersions profile = []

/-! ### The profile of a rule -/

namespace FirmwareEngine

variable {sys : Platform} {e : FirmwareEngine} {clock : CacheClock} {w w' : EngineState}
  {rule : HostRule} {profile : ProvisionProfile} {path : PyPath}

/-- The file of the profile that a rule names. -/
def profilePath (e : FirmwareEngine) (rule : HostRule) : PyPath :=
  joinPath e.profilesDir (rule.profile ++ ".toml")

/-- The profile is what the file at the path says, now or when it was cached. -/
def Reads (sys : Platform) (w : EngineState) (path : PyPath) (profile : ProvisionProfile) : Prop :=
  loadProfile sys.py sys.toml sys.cwd w.fs path = .ok profile ∨
    ∃ timestamp, w.profiles.entries.get? path = some (timestamp, some profile)

theorem cachedLoadProfile_eq_ok (h : (cachedLoadProfile sys clock path).run w = (.ok profile, w')) :
    Reads sys w path profile := by
  simp only [cachedLoadProfile] at h
  rcases hcall : w.profiles.call clock (fun path =>
      (loadProfile sys.py sys.toml sys.cwd w.fs path).map some) path with
    ⟨result, evaluated, profiles⟩
  simp only [hcall] at h
  have hresult : result = .ok (some profile) := by
    rcases result with e | _ | profile'
    · cases (Prod.mk.inj h).1
    · cases (Prod.mk.inj h).1
    · rw [Except.ok.inj (Prod.mk.inj h).1]
  rcases TTLCache.call_eq_ok ((congrArg Prod.fst hcall).trans hresult) with hload | hcached
  · obtain ⟨profile', hprofile, hsome⟩ := map_eq_ok_iff.mp hload
    exact .inl (Option.some.inj hsome ▸ hprofile)
  · exact .inr hcached

/-- **Where a profile comes from**: its file, or the rule when there is none. -/
theorem loadProfileForRule_eq_ok
    (h : (e.loadProfileForRule sys clock rule).run w = (.ok profile, w')) :
    (pathExists sys.cwd w.fs (e.profilePath rule) = true ∧
      Reads sys w (e.profilePath rule) profile) ∨
    (pathExists sys.cwd w.fs (e.profilePath rule) = false ∧ profile.name = .str rule.profile ∧
      profile.osFamily = .str rule.osFamily ∧ profile.osVersion = .str rule.osVersion) := by
  rw [loadProfileForRule] at h
  split_ifs at h with hname
  · cases h
  · obtain ⟨resolved, w₁, hresolved, h⟩ := Action.bind_eq_ok_iff.mp h
    obtain ⟨-, rfl⟩ := Prod.mk.inj hresolved
    obtain ⟨dir, w₁, hdir, h⟩ := Action.bind_eq_ok_iff.mp h
    obtain ⟨-, rfl⟩ := Prod.mk.inj hdir
    split_ifs at h with hparent
    · cases h
    · obtain ⟨found, w₁, hfound, h⟩ := Action.bind_eq_ok_iff.mp h
      obtain ⟨hexists, rfl⟩ := Prod.mk.inj hfound
      have hexists' := Except.ok.inj hexists
      cases found with
      | true => exact .inl ⟨hexists', cachedLoadProfile_eq_ok h⟩
      | false =>
        obtain rfl := Except.ok.inj (Prod.mk.inj h).1
        exact .inr ⟨hexists', rfl, rfl, rfl⟩

end FirmwareEngine

/-! ### The record of a rule -/

/-- A host that is new to the tracker gets the record of the rule. -/
theorem get_ensureTracked {σ : Type} [StorageBackend σ] {py : StrLib} {t : ProvisionTracker σ}
    {now : ℚ} {mac : String} {rule : HostRule} (hnew : t.get py mac = none) :
    (ensureTracked py t now mac rule).2.get py mac =
      some (.fresh mac rule.profile rule.osFamily rule.osVersion now) := by
  rw [ensureTracked, hnew]
  have hstored : (t.register py now mac rule.profile rule.osFamily rule.osVersion).2 =
      (t.update (py.lower mac)
        (.fresh mac rule.profile rule.osFamily rule.osVersion now)).2 :=
    ProvisionTracker.register_snd ..
  have hrecords : (t.register py now mac rule.profile rule.osFamily rule.osVersion).2.records =
      t.records.set (py.lower mac) (.fresh mac rule.profile rule.osFamily rule.osVersion now) := by
    rw [hstored, ProvisionTracker.update_records]
  rw [ProvisionTracker.get]
  exact hrecords ▸ Dict.get?_set_self

/-- The record says of the host what the profile says. -/
structure Tracks (r : ProvisionRecord) (profile : ProvisionProfile) : Prop where
  name : profile.name = .str r.profile
  family : profile.osFamily = .str r.osFamily
  version : profile.osVersion = .str r.osVersion

open FirmwareEngine in
/-- **What is tracked of what is served.** When `serve` has returned a path and `ensure_tracked`
then registers the host, the record has the profile name, the family and the version of the rule.
Without a file for the profile of the rule, these are the ones of the served profile. With one, the
served profile is the file's, and with a plugin that keeps the checks of the base class its family
is still the one of the record up to letter case. -/
theorem tracked_after_serve {σ : Type} [StorageBackend σ] (sys : Platform)
    (plugins : List FirmwarePlugin) (matcher : HostMatcher) (config : TftpOSConfig)
    (clock : CacheClock) (mac : String) (req : Request) (w w' : EngineState) (path : PyPath)
    (rule : HostRule) (t : ProvisionTracker σ) (now : ℚ) (r : ProvisionRecord)
    (hserve : (serve sys ⟨.ofPlugins sys.py plugins, matcher, config⟩ clock mac req).run w =
      (.ok path, w'))
    (hrule : getRule sys ⟨.ofPlugins sys.py plugins, matcher, config⟩ mac req = some rule)
    (hnew : t.get sys.py mac = none)
    (hr : (ensureTracked sys.py t now mac rule).2.get sys.py mac = some r) :
    (r.profile = rule.profile ∧ r.osFamily = rule.osFamily ∧ r.osVersion = rule.osVersion) ∧
    ∃ profile, ∃ plugin ∈ plugins, plugin.validateProfile profile = [] ∧
      plugin.firmwarePath w'.fs profile = .ok path ∧
      (plugin.KeepsBaseChecks sys →
        ∃ family, profile.osFamily = .str family ∧ sys.py.lower r.osFamily = sys.py.lower family) ∧
      let file := profilePath ⟨.ofPlugins sys.py plugins, matcher, config⟩ rule
      (pathExists sys.cwd w.fs file = false → Tracks r profile) ∧
      (pathExists sys.cwd w.fs file = true → Reads sys w file profile) := by
  obtain ⟨rule', profile, plugin, hrule', hload, hplugin, hvalid, hpath⟩ := serve_eq_ok hserve
  obtain rfl := Option.some.inj (hrule.symm.trans hrule')
  obtain rfl := Option.some.inj ((get_ensureTracked hnew).symm.trans hr)
  obtain ⟨hmem, hlower⟩ := PluginRegistry.get_ofPlugins hplugin
  refine ⟨⟨rfl, rfl, rfl⟩, profile, plugin, hmem, hvalid, hpath, fun hbase => ?_, ?_⟩
  · exact ⟨plugin.osFamily, (validateProfile_eq_nil_iff.mp (hbase profile hvalid)).2.1, hlower⟩
  · rcases loadProfileForRule_eq_ok hload with ⟨hfile, hreads⟩ | ⟨hfile, hname, hfamily, hversion⟩
    · exact ⟨fun hnone => absurd (hnone.symm.trans hfile) (by decide), fun _ => hreads⟩
    · exact ⟨fun _ => ⟨hname, hfamily, hversion⟩,
        fun hsome => absurd (hfile.symm.trans hsome) (by decide)⟩

/-! ### A profile file that overrides its rule -/

namespace FirmwareEngine

/-- A rule whose profile file gives another name, another version and another spelling of the
family. -/
def edgeRule : HostRule :=
  { profile := "edge", osFamily := "OpenWRT", osVersion := "24.10", mac := some "01" }

private def edgeState : EngineState where
  fs := .ofNodes [(["etc"], .dir), (["profiles", "etc"], .dir),
    (["edge.toml", "profiles", "etc"], .file labProfile), (["distros"], .dir),
    (["openwrt", "distros"], .dir), (["23.05", "openwrt", "distros"], .dir),
    (["firmware.bin", "23.05", "openwrt", "distros"], .file [1])]
  profiles := profileLoader

private def edgeEngine : FirmwareEngine where
  registry := .ofPlugins .ascii [labPlugin.toPlugin labPlatform.toml labPlatform.cwd]
  matcher := .init [edgeRule]
  config := labEngine.config

private def edgeTracker : ProvisionTracker Empty := ⟨none, ∅, fun _ => []⟩

private theorem edge_served :
    ((edgeEngine.serve labPlatform ⟨0, 0, 0⟩ "01" {}).run edgeState).1 =
      .ok (absPath ["firmware.bin", "23.05", "openwrt", "distros"]) := by decide +kernel

private theorem edge_rule : edgeEngine.getRule labPlatform "01" {} = some edgeRule := by
  decide +kernel

theorem tracked_after_serve_edge :
    let result := (edgeEngine.serve labPlatform ⟨0, 0, 0⟩ "01" {}).run edgeState
    let r := ProvisionRecord.fresh "01" "edge" "OpenWRT" "24.10" 0
    (r.profile = "edge" ∧ r.osFamily = "OpenWRT" ∧ r.osVersion = "24.10") ∧
    ∃ profile, ∃ plugin ∈ [labPlugin.toPlugin labPlatform.toml labPlatform.cwd],
      plugin.validateProfile profile = [] ∧
      plugin.firmwarePath result.2.fs profile =
        .ok (absPath ["firmware.bin", "23.05", "openwrt", "distros"]) ∧
      (plugin.KeepsBaseChecks labPlatform → ∃ family, profile.osFamily = .str family ∧
        labPlatform.py.lower r.osFamily = labPlatform.py.lower family) ∧
      (pathExists labPlatform.cwd edgeState.fs (edgeEngine.profilePath edgeRule) = false →
        Tracks r profile) ∧
      (pathExists labPlatform.cwd edgeState.fs (edgeEngine.profilePath edgeRule) = true →
        Reads labPlatform edgeState (edgeEngine.profilePath edgeRule) profile) := by
  intro result r
  have hnew : edgeTracker.get labPlatform.py "01" = none := rfl
  have hserve : (edgeEngine.serve labPlatform ⟨0, 0, 0⟩ "01" {}).run edgeState =
      (.ok (absPath ["firmware.bin", "23.05", "openwrt", "distros"]), result.2) :=
    Prod.ext edge_served rfl
  exact tracked_after_serve labPlatform [labPlugin.toPlugin labPlatform.toml labPlatform.cwd]
    (.init [edgeRule]) labEngine.config ⟨0, 0, 0⟩ "01" {} edgeState result.2 _ edgeRule edgeTracker
    0 r hserve edge_rule hnew (get_ensureTracked hnew)

/-- The record differs from the served profile in all three fields. -/
theorem override_not_tracked :
    ∃ w' profile r,
      (edgeEngine.serve labPlatform ⟨0, 0, 0⟩ "01" {}).run edgeState =
        (.ok (absPath ["firmware.bin", "23.05", "openwrt", "distros"]), w') ∧
      edgeEngine.getRule labPlatform "01" {} = some edgeRule ∧
      (edgeEngine.loadProfileForRule labPlatform ⟨0, 0, 0⟩ edgeRule).run edgeState =
        (.ok profile, w') ∧
      edgeTracker.get labPlatform.py "01" = none ∧
      (ensureTracked labPlatform.py edgeTracker 0 "01" edgeRule).2.get labPlatform.py "01" =
        some r ∧
      profile.name ≠ .str r.profile ∧ profile.osFamily ≠ .str r.osFamily ∧
      profile.osVersion ≠ .str r.osVersion := by
  rcases hrun : (edgeEngine.serve labPlatform ⟨0, 0, 0⟩ "01" {}).run edgeState with ⟨outcome, w'⟩
  obtain rfl : outcome = .ok (absPath ["firmware.bin", "23.05", "openwrt", "distros"]) :=
    (congrArg Prod.fst hrun).symm.trans edge_served
  obtain ⟨rule, profile, plugin, hrule, hload, -, -, -⟩ := serve_eq_ok hrun
  obtain rfl := Option.some.inj (edge_rule.symm.trans hrule)
  have htexts : ((edgeEngine.loadProfileForRule labPlatform ⟨0, 0, 0⟩ edgeRule).run
      edgeState).1.map (fun p => (p.name.asStr, p.osFamily.asStr, p.osVersion.asStr)) =
      .ok (some "first", some "openwrt", some "23.05") := by decide +kernel
  rw [hload] at htexts
  obtain ⟨hname, hrest⟩ := Prod.mk.inj (Except.ok.inj htexts)
  obtain ⟨hfamily, hversion⟩ := Prod.mk.inj hrest
  rw [Value.asStr_eq_some_iff] at hname hfamily hversion
  have hnew : edgeTracker.get labPlatform.py "01" = none := rfl
  refine ⟨w', profile, _, rfl, edge_rule, hload, hnew, get_ensureTracked hnew, ?_, ?_, ?_⟩
  · rw [hname]
    exact fun h => absurd (Value.str.inj h) (by decide)
  · rw [hfamily]
    exact fun h => absurd (Value.str.inj h) (by decide)
  · rw [hversion]
    exact fun h => absurd (Value.str.inj h) (by decide)

end FirmwareEngine

end TftpOS
