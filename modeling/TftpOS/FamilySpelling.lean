import TftpOS.ProfilePaths

/-!
# The spelling of a family

`PluginRegistry` looks families up in lower case, and `validate_profile` compares them as they are
spelled. So a rule without a profile file is served in one spelling of its `os_family` only, that
of the plugin: two spellings are served alike exactly where both or neither are the plugin's own,
or where the rule could not be served in any spelling (`serve_spelling_iff`).
-/

namespace TftpOS

open Lib

variable {sys : Platform}

/-! ### Registries of built-in plugins -/

/-- A registry in which the plugins were registered one after the other. -/
def PluginRegistry.ofBuiltins (sys : Platform) (plugins : List (BuiltinPlugin sys.py)) :
    PluginRegistry :=
  plugins.foldl (fun r plugin => r.register sys.py (plugin.toPlugin sys.toml sys.cwd)) {}

theorem PluginRegistry.get_eq_ok_iff {py : StrLib} {r : PluginRegistry} {osFamily : String}
    {plugin : FirmwarePlugin} :
    r.get py osFamily = .ok plugin ↔ r.instances.get? (py.lower osFamily) = some plugin := by
  rw [PluginRegistry.get]
  rcases r.instances.get? (py.lower osFamily) with _ | plugin' <;> simp

/-- A registry of built-in plugins finds built-in plugins. -/
theorem PluginRegistry.get_ofBuiltins {plugins : List (BuiltinPlugin sys.py)} {osFamily : String}
    {plugin : FirmwarePlugin} (h : (ofBuiltins sys plugins).get sys.py osFamily = .ok plugin) :
    ∃ builtin ∈ plugins, plugin = builtin.toPlugin sys.toml sys.cwd := by
  rw [PluginRegistry.get_eq_ok_iff] at h
  induction plugins using List.reverseRecOn with
  | nil => cases h
  | append_singleton plugins builtin ih =>
    rw [ofBuiltins, List.foldl_concat, PluginRegistry.register, Dict.get?_set] at h
    split_ifs at h with hkey
    · exact ⟨builtin, by simp, (Option.some.inj h).symm⟩
    · obtain ⟨builtin', hmem, hplugin⟩ := ih h
      exact ⟨builtin', List.mem_append_left _ hmem, hplugin⟩

/-! ### Rules in another spelling -/

/-- A rule with another `os_family`. -/
def HostRule.spell (rule : HostRule) (osFamily : String) : HostRule :=
  { rule with osFamily := osFamily }

/-- Matching does not look at the family. -/
theorem eligibleAt_spell {rule : HostRule} {osFamily : String} {req : Request} {t : ℕ} :
    EligibleAt sys.py sys.net (rule.spell osFamily) req t ↔
      EligibleAt sys.py sys.net rule req t := by
  rw [← matchTier_eq_some_iff, ← matchTier_eq_some_iff]
  rfl

/-- The best rule stays best in another spelling. -/
theorem IsBest.spell {rules : List HostRule} {req : Request} {i t : ℕ} {rule : HostRule}
    (h : IsBest sys.py sys.net rules req i t rule) (osFamily : String) :
    IsBest sys.py sys.net (rules.set i (rule.spell osFamily)) req i t (rule.spell osFamily) := by
  have hi : i < rules.length := (List.getElem?_eq_some_iff.mp h.getElem?).1
  refine ⟨by simp [hi], eligibleAt_spell.mpr h.eligible, fun j rule' t' hj heligible => ?_⟩
  by_cases hij : i = j
  · subst hij
    obtain rfl : rule.spell osFamily = rule' := by simpa [hi] using hj
    exact h.le i rule t' h.getElem? (eligibleAt_spell.mp heligible)
  · rw [List.getElem?_set_ne hij] at hj
    exact h.le j rule' t' hj heligible

/-! ### Serving a rule without a profile file -/

namespace FirmwareEngine

variable {e : FirmwareEngine} {clock : CacheClock} {w : EngineState} {fs : FS} {mac : String}
  {req : Request} {rule : HostRule} {p : PyPath}

variable (sys e) in
/-- The name of a profile is accepted, whether there is a file for it or not. -/
def AcceptsName (fs : FS) (name : String) : Prop :=
  AllowedName name ∧ e.IsProfilePath sys fs (e.profileFile name)

/-- Without a file, the profile is made of the rule if its name is accepted. -/
theorem synthesises_of_acceptsName (hnone : e.profilePathForRule sys fs rule = none)
    (haccepts : e.AcceptsName sys fs rule.profile) : e.Synthesises sys fs rule := by
  rintro clock w rfl
  rw [loadProfileForRule_of_isProfilePath haccepts.1 haccepts.2]
  rw [profilePathForRule, if_neg (by rw [haccepts.1]; exact Bool.false_ne_true)] at hnone
  split_ifs at hnone with hfound
  · rw [if_neg hfound]

theorem rejects_of_not_acceptsName (h : ¬ e.AcceptsName sys fs rule.profile) :
    e.Rejects sys fs rule := by
  by_cases hname : AllowedName rule.profile
  · exact rejects_of_not_isProfilePath hname fun hpath => h ⟨hname, hpath⟩
  · exact rejects_of_not_allowed hname

/-- What `serve` returns for a host whose rule has no profile file. -/
theorem serve_without_file (hrule : e.getRule sys mac req = some rule)
    (hnone : e.profilePathForRule sys w.fs rule = none) :
    ((e.serve sys clock mac req).run w).1 = .ok p ↔
      e.AcceptsName sys w.fs rule.profile ∧
        ∃ plugin, e.registry.get sys.py rule.osFamily = .ok plugin ∧
          plugin.validateProfile (synthesised rule) = [] ∧
          plugin.firmwarePath w.fs (synthesised rule) = .ok p := by
  have hresolve : e.resolveRule sys mac req = .ok rule := by rw [resolveRule, hrule]
  rw [serve, Action.bind_of_ok (by rw [Action.run_read, hresolve])]
  by_cases haccepts : e.AcceptsName sys w.fs rule.profile
  · rw [Action.bind_of_ok (synthesises_of_acceptsName hnone haccepts clock w rfl)]
    rcases hplugin : e.registry.get sys.py rule.osFamily with ex | plugin
    · rw [Action.bind_of_error (by rw [Action.run_read])]
      simp
    · rw [Action.bind_of_ok (by rw [Action.run_read])]
      dsimp only
      split_ifs with herrors
      · refine iff_of_false (by simp) ?_
        rintro ⟨-, plugin', hget, hvalid, -⟩
        obtain rfl := Except.ok.inj hget
        exact herrors hvalid
      · rw [ne_eq, not_not] at herrors
        simp [haccepts, herrors]
  · obtain ⟨ex, hraise⟩ := rejects_of_not_acceptsName haccepts clock w rfl
    rw [Action.bind_of_error hraise]
    simp [haccepts]

end FirmwareEngine

/-! ### Two spellings -/

/-- The same path, or failure in both. -/
def SameResult {α : Type} (r r' : Except PyExc α) : Prop := ∀ a, r = .ok a ↔ r' = .ok a

open FirmwareEngine in
/-- A rule without a profile file can be served by a plugin, in the plugin's own spelling of the
family. -/
def FirmwareEngine.Servable (sys : Platform) (e : FirmwareEngine) (fs : FS)
    (plugin : FirmwarePlugin) (rule : HostRule) : Prop :=
  e.AcceptsName sys fs rule.profile ∧ rule.profile ≠ "" ∧
    (plugin.supportedVersions ≠ [] → rule.osVersion ∈ plugin.supportedVersions) ∧
    ∃ p, plugin.firmwarePath fs (synthesised (rule.spell plugin.osFamily)) = .ok p

namespace FirmwareEngine

/-- The engine with built-in plugins and a list of rules. -/
def ofRules (sys : Platform) (plugins : List (BuiltinPlugin sys.py)) (config : TftpOSConfig)
    (rules : List HostRule) : FirmwareEngine where
  registry := .ofBuiltins sys plugins
  matcher := .init rules
  config := config

/-- A rule without a profile file is served in the spelling of its plugin alone. -/
theorem serve_ofRules (plugins : List (BuiltinPlugin sys.py)) (config : TftpOSConfig)
    (clock : CacheClock) {rules : List HostRule} {w : EngineState} {mac : String} {req : Request}
    {i t : ℕ} {rule : HostRule}
    (hbest : IsBest sys.py sys.net rules { req with mac := some mac } i t rule)
    (hnone : (ofRules sys plugins config rules).profilePathForRule sys w.fs rule = none)
    (p : PyPath) :
    (((ofRules sys plugins config rules).serve sys clock mac req).run w).1 = .ok p ↔
      ∃ plugin, (PluginRegistry.ofBuiltins sys plugins).get sys.py rule.osFamily = .ok plugin ∧
        rule.osFamily = plugin.osFamily ∧
        (ofRules sys plugins config rules).Servable sys w.fs plugin rule ∧
        plugin.firmwarePath w.fs (synthesised (rule.spell plugin.osFamily)) = .ok p := by
  have hrule : (ofRules sys plugins config rules).getRule sys mac req = some rule :=
    HostMatcher.matchRequest_eq_some_iff.mpr ⟨i, t, hbest⟩
  rw [serve_without_file hrule hnone]
  constructor
  · rintro ⟨haccepts, plugin, hget, hvalid, hpath⟩
    obtain ⟨builtin, -, rfl⟩ := PluginRegistry.get_ofBuiltins hget
    obtain ⟨hname, hfamily, hversion⟩ := validateProfile_eq_nil_iff.mp hvalid
    have hown : rule.osFamily = builtin.osFamily := by simpa [synthesised] using hfamily
    have hspell : rule.spell builtin.osFamily = rule := by rw [HostRule.spell, ← hown]
    refine ⟨_, hget, hown, ⟨haccepts, ?_, ?_, p, ?_⟩, ?_⟩
    · simpa [synthesised, Value.truthy] using hname
    · intro hversions
      obtain ⟨v, hv, heq⟩ := hversion hversions
      simp only [synthesised, Value.str.injEq] at heq
      exact heq ▸ hv
    · exact hspell.symm ▸ hpath
    · exact hspell.symm ▸ hpath
  · rintro ⟨plugin, hget, hown, ⟨haccepts, hname, hversion, -⟩, hpath⟩
    obtain ⟨builtin, -, rfl⟩ := PluginRegistry.get_ofBuiltins hget
    have hspell : rule.spell builtin.osFamily = rule := by
      rw [HostRule.spell, show builtin.osFamily = rule.osFamily from hown.symm]
    refine ⟨haccepts, _, hget, validateProfile_eq_nil_iff.mpr ⟨?_, ?_, fun hversions => ?_⟩, ?_⟩
    · simpa [synthesised, Value.truthy] using hname
    · exact congrArg Value.str hown
    · exact ⟨rule.osVersion, hversion hversions, rfl⟩
    · exact hspell ▸ hpath

/-- **Two spellings of a family**: replacing the `os_family` of the matched rule by one that is
equal to it ignoring case leaves the result of `serve` as it was exactly where both spellings are
the plugin's own, or neither is, or the plugin could not serve the rule in any spelling. -/
theorem serve_spelling_iff (sys : Platform) (plugins : List (BuiltinPlugin sys.py))
    (config : TftpOSConfig) (rules : List HostRule) (clock : CacheClock) (w : EngineState)
    (mac : String) (req : Request) (i t : ℕ) (rule : HostRule) (osFamily : String)
    (hbest : IsBest sys.py sys.net rules { req with mac := some mac } i t rule)
    (hnone : (ofRules sys plugins config rules).profilePathForRule sys w.fs rule = none)
    (hcase : sys.py.lower osFamily = sys.py.lower rule.osFamily) :
    SameResult (((ofRules sys plugins config rules).serve sys clock mac req).run w).1
        (((ofRules sys plugins config (rules.set i (rule.spell osFamily))).serve sys clock mac
          req).run w).1 ↔
      ∀ plugin, (PluginRegistry.ofBuiltins sys plugins).get sys.py rule.osFamily = .ok plugin →
        (ofRules sys plugins config rules).Servable sys w.fs plugin rule →
          (rule.osFamily = plugin.osFamily ↔ osFamily = plugin.osFamily) := by
  have hserve := serve_ofRules plugins config clock hbest hnone
  have hserve' := serve_ofRules plugins config clock (hbest.spell osFamily) hnone
  -- the registry does not see the difference
  have hget : ∀ plugin, (PluginRegistry.ofBuiltins sys plugins).get sys.py osFamily = .ok plugin ↔
      (PluginRegistry.ofBuiltins sys plugins).get sys.py rule.osFamily = .ok plugin := by
    intro plugin
    rw [PluginRegistry.get_eq_ok_iff, PluginRegistry.get_eq_ok_iff, hcase]
  constructor
  · rintro hsame plugin hplugin hservable
    obtain ⟨p, hp⟩ := hservable.2.2.2
    constructor
    · intro hown
      have hfirst := (hserve p).mpr ⟨plugin, hplugin, hown, hservable, hp⟩
      obtain ⟨plugin', hplugin', hown', -⟩ := (hserve' p).mp ((hsame p).mp hfirst)
      obtain rfl := Except.ok.inj (hplugin.symm.trans ((hget plugin').mp hplugin'))
      exact hown'
    · intro hown
      have hsecond := (hserve' p).mpr ⟨plugin, (hget plugin).mpr hplugin, hown, hservable, hp⟩
      obtain ⟨plugin', hplugin', hown', -⟩ := (hserve p).mp ((hsame p).mpr hsecond)
      obtain rfl := Except.ok.inj (hplugin.symm.trans hplugin')
      exact hown'
  · rintro hboth p
    rw [hserve p, hserve' p]
    refine exists_congr fun plugin => ?_
    constructor
    · rintro ⟨hplugin, hown, hservable, hp⟩
      exact ⟨(hget plugin).mpr hplugin, (hboth plugin hplugin hservable).mp hown, hservable, hp⟩
    · rintro ⟨hplugin, hown, hservable, hp⟩
      have hplugin' := (hget plugin).mp hplugin
      exact ⟨hplugin', (hboth plugin hplugin' hservable).mpr hown, hservable, hp⟩

/-! ### The lab in another spelling -/

theorem isBest_singleton {rule : HostRule} {req : Request} {t : ℕ}
    (h : EligibleAt sys.py sys.net rule req t) : IsBest sys.py sys.net [rule] req 0 t rule := by
  refine ⟨rfl, h, fun j rule' t' hj h' => ?_⟩
  rcases j with _ | j
  · obtain rfl := Option.some.inj hj
    rw [← matchTier_eq_some_iff] at h h'
    rw [Option.some.inj (h.symm.trans h')]
  · cases hj

/-- The second host of the lab, which has no profile file. -/
def labRule : HostRule where
  profile := "second"
  osFamily := "openwrt"
  osVersion := "24.10"
  mac := some "02"

/-- The rule answers the request of its host. -/
theorem labRule_best :
    IsBest labPlatform.py labPlatform.net [labRule] { mac := some "02" } 0 0 labRule := by
  refine @isBest_singleton labPlatform labRule _ 0 (matchTier_eq_some_iff.mp ?_)
  decide +kernel

theorem serve_spelling_iff_lab :
    SameResult (((ofRules labPlatform [labPlugin] labEngine.config [labRule]).serve labPlatform
        ⟨0, 0, 0⟩ "02" {}).run labState).1
      (((ofRules labPlatform [labPlugin] labEngine.config
          ([labRule].set 0 (labRule.spell "OpenWrt"))).serve labPlatform ⟨0, 0, 0⟩ "02"
            {}).run labState).1 ↔
      ∀ plugin, (PluginRegistry.ofBuiltins labPlatform [labPlugin]).get labPlatform.py "openwrt" =
          .ok plugin →
        (ofRules labPlatform [labPlugin] labEngine.config [labRule]).Servable labPlatform
            labState.fs plugin labRule →
          ("openwrt" = plugin.osFamily ↔ "OpenWrt" = plugin.osFamily) :=
  serve_spelling_iff labPlatform [labPlugin] labEngine.config [labRule] ⟨0, 0, 0⟩ labState "02" {}
    0 0 labRule "OpenWrt" labRule_best (by decide +kernel) (by decide +kernel)

/-- The host is served with `openwrt` in its rule, and not with `OpenWrt`. -/
theorem spelling_changes_result :
    IsBest labPlatform.py labPlatform.net [labRule] { mac := some "02" } 0 0 labRule ∧
    (ofRules labPlatform [labPlugin] labEngine.config [labRule]).profilePathForRule labPlatform
      labState.fs labRule = none ∧
    labPlatform.py.lower "OpenWrt" = labPlatform.py.lower labRule.osFamily ∧
    ¬ SameResult (((ofRules labPlatform [labPlugin] labEngine.config [labRule]).serve labPlatform
        ⟨0, 0, 0⟩ "02" {}).run labState).1
      (((ofRules labPlatform [labPlugin] labEngine.config
          ([labRule].set 0 (labRule.spell "OpenWrt"))).serve labPlatform ⟨0, 0, 0⟩ "02"
            {}).run labState).1 := by
  refine ⟨labRule_best, by decide +kernel, by decide +kernel, fun hsame => ?_⟩
  have hserved : (((ofRules labPlatform [labPlugin] labEngine.config [labRule]).serve labPlatform
      ⟨0, 0, 0⟩ "02" {}).run labState).1 =
        .ok (absPath ["firmware.bin", "24.10", "openwrt", "distros"]) := by decide +kernel
  have hboth := (hsame _).mp hserved
  revert hboth
  decide +kernel

end FirmwareEngine

end TftpOS
