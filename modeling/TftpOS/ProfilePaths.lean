import TftpOS.Engine

/-!
# Profile paths

`FirmwareEngine.profile_path_for_rule` against `load_profile_for_rule`. Both decide which file
holds the profile of a rule; only the latter asks where links lead. So the two agree exactly where
the profile file of the rule, if there is one, leads to an entry of the directory of the profile
files (`profile_path_agrees_iff`).
-/

namespace TftpOS

open Lib

namespace FirmwareEngine

section

variable (sys : Platform) (e : FirmwareEngine)

/-- The profile file of a name. -/
def profileFile (name : String) : PyPath := joinPath e.profilesDir (name ++ ".toml")

/-- `FirmwareEngine.profile_path_for_rule`. -/
def profilePathForRule (fs : FS) (rule : HostRule) : Option PyPath :=
  if hasDotDot rule.profile || hasChar '/' rule.profile then none
  else if pathExists sys.cwd fs (e.profileFile rule.profile) then some (e.profileFile rule.profile)
  else none

/-- The profile that `load_profile_for_rule` makes of a rule alone. -/
def synthesised (rule : HostRule) : ProvisionProfile where
  name := .str rule.profile
  osFamily := .str rule.osFamily
  osVersion := .str rule.osVersion
  vendor := .str rule.vendor

/-! ### Where a profile comes from -/

/-- `load_profile_for_rule` loads a file, whatever the cache holds. -/
def TakesFrom (fs : FS) (rule : HostRule) (path : PyPath) : Prop :=
  ∀ clock w, w.fs = fs →
    (e.loadProfileForRule sys clock rule).run w = (cachedLoadProfile sys clock path).run w

/-- `load_profile_for_rule` makes a profile of the rule. -/
def Synthesises (fs : FS) (rule : HostRule) : Prop :=
  ∀ clock w, w.fs = fs → (e.loadProfileForRule sys clock rule).run w = (.ok (synthesised rule), w)

/-- `load_profile_for_rule` raises and has not looked for a profile. -/
def Rejects (fs : FS) (rule : HostRule) : Prop :=
  ∀ clock w, w.fs = fs → ∃ ex, (e.loadProfileForRule sys clock rule).run w = (.error ex, w)

/-- The two functions agree on the profile file of a rule. -/
def ProfilePathAgrees (fs : FS) (rule : HostRule) : Prop :=
  (∀ path, e.profilePathForRule sys fs rule = some path ↔ e.TakesFrom sys fs rule path) ∧
  (e.profilePathForRule sys fs rule = none ↔
    e.Synthesises sys fs rule ∨ e.Rejects sys fs rule)

end

variable {sys : Platform} {e : FirmwareEngine} {fs : FS} {rule : HostRule} {path path' : PyPath}

/-! ### At most one file -/

/-- A state whose cache holds a profile for one path. -/
private def cachedAt (fs : FS) (path : PyPath) (profile : ProvisionProfile) : EngineState where
  fs := fs
  profiles := { profileLoader with entries := (∅ : Dict _ _).set path (0, some profile) }

/-- The path in the cache loads what the cache holds, and opens nothing. -/
private theorem run_cachedAt_self (profile : ProvisionProfile) :
    ((cachedLoadProfile sys ⟨0, 0, 0⟩ path).run (cachedAt fs path profile)).1 = .ok profile ∧
      ((cachedLoadProfile sys ⟨0, 0, 0⟩ path).run (cachedAt fs path profile)).2.loads = [] := by
  have hfresh : ¬ (300 : ℚ) < 0 := by decide
  simp [cachedLoadProfile, cachedAt, TTLCache.call, TTLCache.get, profileLoader, hfresh]

/-- Any other path is opened. -/
private theorem run_cachedAt_of_ne (profile : ProvisionProfile) (hne : path' ≠ path) :
    ((cachedLoadProfile sys ⟨0, 0, 0⟩ path').run (cachedAt fs path profile)).2.loads =
      [path'] := by
  have hmiss : ((∅ : Dict PyPath (ℚ × Option ProvisionProfile)).set path (0, some profile)).get?
      path' = none := by
    rw [Dict.get?_set_of_ne hne, Dict.get?_empty]
  simp only [cachedLoadProfile, cachedAt, TTLCache.call, TTLCache.get, TTLCache.check, hmiss]
  rcases loadProfile sys.py sys.toml sys.cwd fs path' with ex | loaded
  · rfl
  · simp [Except.map, TTLCache.put, profileLoader, Dict.size, Dict.set, Dict.setEntries]

theorem TakesFrom.unique (h : e.TakesFrom sys fs rule path) (h' : e.TakesFrom sys fs rule path') :
    path' = path := by
  by_contra hne
  have hsame := (h ⟨0, 0, 0⟩ (cachedAt fs path (synthesised rule)) rfl).symm.trans
    (h' ⟨0, 0, 0⟩ (cachedAt fs path (synthesised rule)) rfl)
  have hloads := congrArg (fun r => r.2.loads) hsame
  rw [(run_cachedAt_self _).2, run_cachedAt_of_ne _ hne] at hloads
  cases hloads

/-- A profile that the cache holds is neither made of the rule nor rejected. -/
theorem TakesFrom.exclusive (h : e.TakesFrom sys fs rule path) :
    ¬ (e.Synthesises sys fs rule ∨ e.Rejects sys fs rule) := by
  have htaken := h ⟨0, 0, 0⟩ (cachedAt fs path { synthesised rule with name := .null }) rfl
  have hprofile := (congrArg Prod.fst htaken).trans (run_cachedAt_self _).1
  rintro (hmade | hrejected)
  · rw [hmade ⟨0, 0, 0⟩ _ rfl] at hprofile
    have hname := congrArg ProvisionProfile.name (Except.ok.inj hprofile)
    cases hname
  · obtain ⟨ex, hraise⟩ := hrejected ⟨0, 0, 0⟩
      (cachedAt fs path { synthesised rule with name := .null }) rfl
    rw [hraise] at hprofile
    cases hprofile

/-- Where `load_profile_for_rule` takes a profile from a file, it is this one. -/
theorem agrees_of_takesFrom (hpath : e.profilePathForRule sys fs rule = some path)
    (htakes : e.TakesFrom sys fs rule path) : e.ProfilePathAgrees sys fs rule := by
  refine ⟨fun path' => ?_, ?_⟩
  · rw [hpath, Option.some.injEq]
    constructor
    · rintro rfl
      exact htakes
    · exact fun h => h.unique htakes
  · rw [hpath]
    exact iff_of_false (Option.some_ne_none path) htakes.exclusive

/-- Where it takes no file, there is none. -/
theorem agrees_of_none (hpath : e.profilePathForRule sys fs rule = none)
    (hnone : e.Synthesises sys fs rule ∨ e.Rejects sys fs rule) :
    e.ProfilePathAgrees sys fs rule := by
  refine ⟨fun path => ?_, iff_of_true hpath hnone⟩
  rw [hpath]
  exact iff_of_false (Option.some_ne_none path).symm fun h => h.exclusive hnone

/-! ### The check that `profile_path_for_rule` lacks -/

/-- The name of a profile is not refused for its text. -/
def AllowedName (name : String) : Prop := (hasDotDot name || hasChar '/' name) = false

/-- A name that is refused for its text. -/
theorem rejects_of_not_allowed (hname : ¬ AllowedName rule.profile) :
    e.Rejects sys fs rule := by
  intro clock w _
  rw [AllowedName, Bool.not_eq_false] at hname
  rw [loadProfileForRule, if_pos hname]
  exact ⟨_, rfl⟩

/-- A name whose file is that of another directory, or of none. -/
theorem rejects_of_not_isProfilePath (hname : AllowedName rule.profile)
    (hpath : ¬ e.IsProfilePath sys fs (e.profileFile rule.profile)) :
    e.Rejects sys fs rule := by
  rintro clock w rfl
  rw [loadProfileForRule, if_neg (by rw [hname]; exact Bool.false_ne_true)]
  rcases hresolved : realpath sys.cwd sys.py w.fs (joinPath e.profilesDir (rule.profile ++ ".toml"))
    with ex | resolved
  · exact ⟨ex, Action.bind_of_error (by rw [Action.run_read, hresolved])⟩
  · rw [Action.bind_of_ok (by rw [Action.run_read, hresolved])]
    rcases hdir : realpath sys.cwd sys.py w.fs e.profilesDir with ex | dir
    · exact ⟨ex, Action.bind_of_error (by rw [Action.run_read, hdir])⟩
    · rw [Action.bind_of_ok (by rw [Action.run_read, hdir])]
      have hparent : resolved.tail ≠ dir := by
        rintro rfl
        exact hpath ⟨resolved, hresolved, hdir⟩
      rw [if_pos hparent]
      exact ⟨_, rfl⟩

/-- A name whose file, if there is one, is in the directory. -/
theorem loadProfileForRule_of_isProfilePath {clock : CacheClock} {w : EngineState}
    (hname : AllowedName rule.profile)
    (hpath : e.IsProfilePath sys w.fs (e.profileFile rule.profile)) :
    (e.loadProfileForRule sys clock rule).run w =
      if pathExists sys.cwd w.fs (e.profileFile rule.profile) then
        (cachedLoadProfile sys clock (e.profileFile rule.profile)).run w
      else (.ok (synthesised rule), w) := by
  obtain ⟨resolved, hresolved, hdir⟩ := hpath
  rw [profileFile] at hresolved
  rw [loadProfileForRule, if_neg (by rw [hname]; exact Bool.false_ne_true),
    Action.bind_of_ok (by rw [Action.run_read, hresolved]),
    Action.bind_of_ok (by rw [Action.run_read, hdir]), if_neg (not_not.mpr rfl),
    Action.bind_of_ok (by rw [Action.run_read]), profileFile]
  split_ifs <;> rfl

variable (sys e fs rule) in
/-- **The two functions agree** on the profile file of a rule exactly where the file, if the name
is allowed and the file exists, is an entry of the directory of the profile files, links
resolved. -/
theorem profile_path_agrees_iff :
    e.ProfilePathAgrees sys fs rule ↔
      (AllowedName rule.profile → pathExists sys.cwd fs (e.profileFile rule.profile) = true →
        e.IsProfilePath sys fs (e.profileFile rule.profile)) := by
  by_cases hname : AllowedName rule.profile
  · have hsearch : e.profilePathForRule sys fs rule =
        if pathExists sys.cwd fs (e.profileFile rule.profile) then
          some (e.profileFile rule.profile) else none := by
      rw [profilePathForRule, if_neg (by rw [hname]; exact Bool.false_ne_true)]
    by_cases hin : e.IsProfilePath sys fs (e.profileFile rule.profile)
    · refine iff_of_true ?_ fun _ _ => hin
      have hload : ∀ clock w, w.fs = fs → (e.loadProfileForRule sys clock rule).run w =
          if pathExists sys.cwd fs (e.profileFile rule.profile) then
            (cachedLoadProfile sys clock (e.profileFile rule.profile)).run w
          else (.ok (synthesised rule), w) := by
        rintro clock w rfl
        exact loadProfileForRule_of_isProfilePath hname hin
      by_cases hfound : pathExists sys.cwd fs (e.profileFile rule.profile) = true
      · simp only [hfound, if_true] at hsearch hload
        exact agrees_of_takesFrom hsearch hload
      · simp only [hfound, Bool.false_eq_true, if_false] at hsearch hload
        exact agrees_of_none hsearch (.inl hload)
    · have hrejected := @rejects_of_not_isProfilePath sys e fs rule hname hin
      by_cases hfound : pathExists sys.cwd fs (e.profileFile rule.profile) = true
      · refine iff_of_false (fun hagrees => ?_) fun h => hin (h hname hfound)
        rw [if_pos hfound] at hsearch
        exact ((hagrees.1 _).mp hsearch).exclusive (.inr hrejected)
      · rw [if_neg hfound] at hsearch
        exact iff_of_true (agrees_of_none hsearch (.inr hrejected))
          fun _ hfound' => absurd hfound' hfound
  · refine iff_of_true (agrees_of_none ?_ (.inr (rejects_of_not_allowed hname)))
      fun hname' => absurd hname' hname
    rw [AllowedName, Bool.not_eq_false] at hname
    rw [profilePathForRule, if_pos hname]

/-- The lab with a profile file that is a link to a file elsewhere. -/
def linkedProfile : FS :=
  .ofNodes [(["srv"], .dir), (["other.toml", "srv"], .file labProfile), (["etc"], .dir),
    (["profiles", "etc"], .dir),
    (["first.toml", "profiles", "etc"], .link (absPath ["other.toml", "srv"]))]

/-- The linked file is the one that `profile_path_for_rule` returns, and one that
`load_profile_for_rule` does not load. -/
theorem linked_profile_disagrees :
    ¬ labEngine.ProfilePathAgrees labPlatform linkedProfile
      { profile := "first", osFamily := "openwrt", osVersion := "23.05" } := by
  rintro ⟨hpath, -⟩
  have hfound : labEngine.profilePathForRule labPlatform linkedProfile
      { profile := "first", osFamily := "openwrt", osVersion := "23.05" } =
        some (labEngine.profileFile "first") := by decide +kernel
  have htaken := congrArg (fun r => r.1.toOption.isSome)
    ((hpath _).mp hfound ⟨0, 0, 0⟩ ⟨linkedProfile, profileLoader, []⟩ rfl)
  revert htaken
  decide +kernel

end FirmwareEngine

end TftpOS
