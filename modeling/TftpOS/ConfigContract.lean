import TftpOS.ConfigLoadable

/-!
# The contract of the configuration loader

The contract document says that `load_config` raises `ConfigError` for an invalid configuration.
`Valid` says what a valid one is: each value has the type its field is declared with, or converts
to it. The loader returns for every valid file (`Valid.loadable`), and for some others, whose
wrong values it copies. For the rest it raises a built-in exception, and a `ConfigError` never
(`raisesNoConfigError_loadData`). So the contract is met for the valid files and for no others
(`loadConfig_contract_iff`).
-/

namespace TftpOS

open Lib

namespace Loading

variable (lib : ConfigLib)

/-! ### What the contract asks for -/

/-- The values of the type that the field is declared with, and those converted to it. -/
def FieldType.Fits : FieldType → Setting → Prop
  | .flag, v => ∃ b, v = .bool b
  | .text, v => ∃ s, v = .str s
  | .texts, v => ∃ ss : List String, v = .list (ss.map .str)
  | .whole, v => ∃ n, v = .int n
  | .integer, v => IntLike lib v
  | .number, v => FloatLike lib v
  | .path, v | .optionalPath, v | .certificate, v => ∃ s, v = .str s

/-- A valid entry of `[[webhooks]]`. -/
def WebhookFits (v : Setting) : Prop :=
  TableOf (FieldType.Fits lib) webhookFields v ∧
    ∃ kvs url, v = .dict kvs ∧ Value.lookup "url" kvs = some url ∧ WebUrl lib url

/-- A valid configuration: every value has the type its field is declared with, or converts to
it, and every webhook has a URL of one of the two schemes. -/
structure Valid (kvs : List (String × Setting)) : Prop where
  sections : ∀ s ∈ schema, TableOf (FieldType.Fits lib) s.2 (sectionOf kvs s.1)
  webhooks : ∀ v, Value.lookup "webhooks" kvs = some v →
    ∃ xs, v = .list xs ∧ ∀ x ∈ xs, WebhookFits lib x

theorem FieldType.Fits.converts {type : FieldType} {v : Setting} (h : type.Fits lib v) :
    type.Converts lib v := by
  cases type with
  | integer | number | path => exact h
  | optionalPath => exact fun _ => h
  | _ => trivial

theorem TableOf.mono {P Q : FieldType → Setting → Prop} (hPQ : ∀ type v, P type v → Q type v)
    {fields : List (String × FieldType)} {v : Setting} (h : TableOf P fields v) :
    TableOf Q fields v := by
  obtain ⟨kvs, hkvs, hfields⟩ := h
  exact ⟨kvs, hkvs, fun field hfield x hx => hPQ _ _ (hfields field hfield x hx)⟩

/-- A path that may be missing, read from a section of which it is a text. -/
theorem Valid.settingOf {kvs : List (String × Setting)} (h : Valid lib kvs) {name key : String}
    (fields : List (String × FieldType)) (hsection : (name, fields) ∈ schema)
    (hkey : (key, .certificate) ∈ fields) :
    FieldType.optionalPath.Converts lib (settingOf kvs name key) := by
  obtain ⟨section', hsection', hfields⟩ := h.sections _ hsection
  rw [settingOf_eq hsection']
  cases hlookup : Value.lookup key section' with
  | none => exact fun htruthy => by cases htruthy
  | some x => exact fun _ => hfields _ hkey x hlookup

theorem Valid.tlsSettingOf {kvs : List (String × Setting)} (h : Valid lib kvs)
    {key serverKey : String} (hkey : (key, .certificate) ∈ tlsFields)
    (hserver : (serverKey, .certificate) ∈ serverFields) :
    FieldType.optionalPath.Converts lib (tlsSettingOf kvs key serverKey) := by
  rw [Loading.tlsSettingOf]
  split
  · exact h.settingOf lib tlsFields (by simp [schema]) hkey
  · exact h.settingOf lib serverFields (by simp [schema]) hserver

/-- The loader takes every valid configuration. -/
theorem Valid.loadable {kvs : List (String × Setting)} (h : Valid lib kvs) :
    Loadable lib kvs where
  sections s hs := (h.sections s hs).mono fun _ _ => FieldType.Fits.converts lib
  cert := h.tlsSettingOf lib (by simp [tlsFields]) (by simp [serverFields])
  key := h.tlsSettingOf lib (by simp [tlsFields]) (by simp [serverFields])
  webhooks v hv := by
    obtain ⟨xs, rfl, hxs⟩ := h.webhooks v hv
    exact fun x hx => ⟨(hxs x hx).1.mono fun _ _ => FieldType.Fits.converts lib, (hxs x hx).2⟩

/-! ### The exceptions -/

/-- A computation that raises no `ConfigError`. -/
def RaisesNoConfigError {α : Type} (x : Except Raised α) : Prop := ∀ e, x ≠ .error (.config e)

section

variable {α β : Type}

@[simp]
theorem raisesNoConfigError_ok (a : α) : RaisesNoConfigError (.ok a) := fun _ h => by cases h

@[simp]
theorem raisesNoConfigError_error {e : Raised} :
    RaisesNoConfigError (.error e : Except Raised α) ↔ ∀ e', e ≠ .config e' := by
  simp [RaisesNoConfigError]

@[simp]
theorem raisesNoConfigError_bind_iff {x : Except Raised α} {f : α → Except Raised β} :
    RaisesNoConfigError (x >>= f) ↔
      RaisesNoConfigError x ∧ ∀ a, x = .ok a → RaisesNoConfigError (f a) := by
  cases x with
  | error e => simp
  | ok a => simp

@[simp]
theorem RaisesNoConfigError.map {x : Except Raised α} (hx : RaisesNoConfigError x) (f : α → β) :
    RaisesNoConfigError (x.map f) := by
  cases x with
  | error e => exact fun e' h => hx e' (congrArg _ (Except.error.inj h))
  | ok a => exact raisesNoConfigError_ok _

@[simp]
theorem RaisesNoConfigError.mapM {f : α → Except Raised β} (hf : ∀ a, RaisesNoConfigError (f a))
    (as : List α) : RaisesNoConfigError (as.mapM f) := by
  induction as with
  | nil => exact raisesNoConfigError_ok _
  | cons a as ih =>
    rw [List.mapM_cons]
    simp [hf a, ih]

@[simp]
theorem raisesNoConfigError_builtin (x : Except PyExc α) :
    RaisesNoConfigError (x.mapError .builtin) := by
  cases x <;> simp [Except.mapError]

end

@[simp]
theorem raisesNoConfigError_get (table : Setting) (key : String) (default : Setting) :
    RaisesNoConfigError (get table key default) := raisesNoConfigError_builtin _

@[simp]
theorem raisesNoConfigError_toInt (v : Setting) : RaisesNoConfigError (toInt lib v) := by
  cases v with
  | str s => cases h : lib.intOfText s <;> simp [toInt, valueError, h]
  | leaf x => cases x <;> simp [toInt, valueError, typeError]
  | _ => simp [toInt, typeError]

@[simp]
theorem raisesNoConfigError_toFloat (v : Setting) : RaisesNoConfigError (toFloat lib v) := by
  cases v with
  | str s => cases h : lib.floatOfText s <;> simp [toFloat, valueError, h]
  | leaf x => cases x <;> simp [toFloat, typeError]
  | int n => cases h : floatOfInt n <;> simp [toFloat, h]
  | _ => simp [toFloat, typeError]

@[simp]
theorem raisesNoConfigError_toPath (v : Setting) : RaisesNoConfigError (toPath v) := by
  cases v <;> simp [toPath, typeError]

@[simp]
theorem raisesNoConfigError_toOptionalPath (v : Setting) :
    RaisesNoConfigError (toOptionalPath v) := by
  rw [toOptionalPath]
  split
  · exact (raisesNoConfigError_toPath v).map _
  · exact raisesNoConfigError_ok _

@[simp]
theorem raisesNoConfigError_rateLimitSettings (rl : Setting) :
    RaisesNoConfigError (rateLimitSettings lib rl) := by
  simp [rateLimitSettings]

@[simp]
theorem raisesNoConfigError_loggingConfig (log : Setting) :
    RaisesNoConfigError (loggingConfig lib log) := by
  simp [loggingConfig]

@[simp]
theorem raisesNoConfigError_auditConfig (auditData : Setting) :
    RaisesNoConfigError (auditConfig lib auditData) := by
  simp [auditConfig]

@[simp]
theorem raisesNoConfigError_databaseConfig (dbSection : Setting) :
    RaisesNoConfigError (databaseConfig dbSection) := by
  simp [databaseConfig]

@[simp]
theorem raisesNoConfigError_urlScheme (url : Setting) :
    RaisesNoConfigError (urlScheme lib url) := by
  cases url with
  | str s => cases h : lib.urlparse s <;> simp [urlScheme, valueError, h]
  | _ =>
    simp only [urlScheme]
    split <;> simp

@[simp]
theorem raisesNoConfigError_webhookConfig (wh : Setting) :
    RaisesNoConfigError (webhookConfig lib wh) := by
  have hpost : ∀ url, RaisesNoConfigError (postInit lib url) := fun url => by
    refine raisesNoConfigError_bind_iff.mpr ⟨raisesNoConfigError_urlScheme lib url, fun _ _ => ?_⟩
    split
    · exact raisesNoConfigError_ok ()
    · exact fun e h => by cases h
  simp [webhookConfig, hpost]

/-- The loader raises no `ConfigError`, whatever the file holds. -/
theorem raisesNoConfigError_loadData (data : Setting) :
    RaisesNoConfigError (loadData lib data) := by
  have htls : ∀ tlsSection server key serverKey,
      RaisesNoConfigError (tlsSetting tlsSection server key serverKey) := fun _ _ _ _ => by
    refine raisesNoConfigError_bind_iff.mpr ⟨raisesNoConfigError_get _ _ _, fun v _ => ?_⟩
    split
    · exact raisesNoConfigError_ok v
    · exact raisesNoConfigError_get _ _ _
  simp [loadData, htls, webhookConfigs]

/-! ### The contract -/

/-- The outcomes that callers may rely on: a configuration or a `ConfigError`. -/
def Documented (result : Except Raised TftpOSConfig) : Prop :=
  (∃ config, result = .ok config) ∨ ∃ e, result = .error (.config e)

/-- The content of a file that is a valid configuration. -/
def ValidContent (content : Bytes) : Prop :=
  ∃ kvs, lib.loads content = .ok kvs ∧ Valid lib kvs

/-- The contract: one of these outcomes, and a `ConfigError` for an invalid configuration. -/
def MeetsContract (content : Bytes) (result : Except Raised TftpOSConfig) : Prop :=
  Documented result ∧ (¬ ValidContent lib content → ∃ e, result = .error (.config e))

section

variable {lib} {cwd : Loc String} {fs : FS} {path : PyPath} {content : Bytes}

theorem loadConfig_returns_iff (hread : readBytes cwd fs path = .ok content) :
    (∃ config, loadConfig lib cwd fs path = .ok config) ↔
      ∃ kvs, lib.loads content = .ok kvs ∧ Loadable lib kvs := by
  rw [loadConfig, hread]
  dsimp only
  cases hloads : lib.loads content with
  | error e => cases e <;> simp
  | ok kvs => simp [loadData_returns_iff]

theorem raisesNoConfigError_loadConfig (hread : readBytes cwd fs path = .ok content) :
    RaisesNoConfigError (loadConfig lib cwd fs path) := by
  rw [loadConfig, hread]
  dsimp only
  cases hloads : lib.loads content with
  | error e => cases e <;> simp [valueError]
  | ok kvs => exact raisesNoConfigError_loadData lib (.dict kvs)

/-- **Which files meet the contract.** Of a readable file, `load_config` returns or raises
`ConfigError` exactly when the content is loadable, and does what the contract says exactly when
the content is valid. -/
theorem loadConfig_contract_iff (hread : readBytes cwd fs path = .ok content) :
    (Documented (loadConfig lib cwd fs path) ↔
        ∃ kvs, lib.loads content = .ok kvs ∧ Loadable lib kvs) ∧
      (MeetsContract lib content (loadConfig lib cwd fs path) ↔ ValidContent lib content) := by
  have hno := @raisesNoConfigError_loadConfig lib _ _ _ _ hread
  have hdocumented : Documented (loadConfig lib cwd fs path) ↔
      ∃ config, loadConfig lib cwd fs path = .ok config := by
    refine or_iff_left fun hconfig => ?_
    obtain ⟨e, he⟩ := hconfig
    exact hno e he
  constructor
  · rw [hdocumented, loadConfig_returns_iff hread]
  · rw [MeetsContract, hdocumented, loadConfig_returns_iff hread]
    constructor
    · rintro ⟨-, hinvalid⟩
      by_contra hvalid
      obtain ⟨e, he⟩ := hinvalid hvalid
      exact hno e he
    · intro hvalid
      obtain ⟨kvs, hloads, h⟩ := hvalid
      exact ⟨⟨kvs, hloads, h.loadable lib⟩, fun hinvalid => absurd ⟨kvs, hloads, h⟩ hinvalid⟩

end

/-! ### A webhook without a URL -/

/-- A file with one webhook. -/
def labHook : Bytes := "[[webhooks]]\nurl = \"http://lab/hook\"\n".toUTF8.toList

/-- The same with the URL left out. -/
def labNoUrl : Bytes := "[[webhooks]]\nsecret = \"pass\"\n".toUTF8.toList

/-- A file with one webhook, parsed. -/
def labData (webhook : List (String × Setting)) : List (String × Setting) :=
  [("webhooks", .list [.dict webhook])]

/-- A reader of these two files. -/
def labLib : ConfigLib where
  loads content :=
    if content = labHook then .ok (labData [("url", .str "http://lab/hook")])
    else if content = labNoUrl then .ok (labData [("secret", .str "pass")])
    else .error (.malformed "Expected '=' after a key")
  repr _ := "'...'"
  intOfText s := s.toNat?.map Int.ofNat
  floatOfText s := s.toNat?.map fun n => .finite n
  urlparse s :=
    let scheme := s.toList.takeWhile (· ≠ ':')
    some (String.ofList scheme,
      String.ofList (((s.toList.drop scheme.length).drop 3).takeWhile (· ≠ '/')))

/-- The two files, in the working directory. -/
def labFiles : FS := .ofNodes [(["hook.toml"], .file labHook), (["no_url.toml"], .file labNoUrl)]

/-- Both files leave the sections to their defaults. -/
theorem sectionOf_labData {webhook : List (String × Setting)} {name : String}
    (h : name ≠ "webhooks") : sectionOf (labData webhook) name = .dict [] := by
  have hlookup : Value.lookup name (labData webhook) = none := by
    rw [labData, Value.lookup, Dict.ofEntries, List.foldl_cons, List.foldl_nil,
      Dict.get?_set_of_ne h]
    rfl
  rw [sectionOf, hlookup, Option.getD_none]

theorem tableOf_nil (P : FieldType → Setting → Prop) (fields : List (String × FieldType)) :
    TableOf P fields (.dict []) :=
  ⟨[], rfl, fun _ _ _ h => by cases h⟩

theorem loadConfig_contract_iff_lab :
    MeetsContract labLib labHook (loadConfig labLib [] labFiles (parsePath "hook.toml")) := by
  have hread : readBytes [] labFiles (parsePath "hook.toml") = .ok labHook := by decide +kernel
  refine (loadConfig_contract_iff hread).2.mpr ⟨_, if_pos rfl, ?_⟩
  refine { sections := fun s hs => ?_, webhooks := fun v hv => ?_ }
  · have hname : s.1 ≠ "webhooks" := by
      revert s
      decide
    rw [sectionOf_labData hname]
    exact tableOf_nil _ _
  · obtain rfl : .list [.dict [("url", .str "http://lab/hook")]] = v := Option.some.inj hv
    refine ⟨_, rfl, fun x hx => ?_⟩
    obtain rfl := List.mem_singleton.mp hx
    refine ⟨⟨_, rfl, fun field hfield x hx => ?_⟩, _, _, rfl, rfl, "http", "lab", ?_, .inl rfl⟩
    · have hnone : ∀ field ∈ webhookFields,
          (Value.lookup field.1 [("url", (.str "http://lab/hook" : Setting))]).isSome = false := by
        decide +kernel
      have hsome := hnone field hfield
      rw [hx] at hsome
      cases hsome
    · decide +kernel

/-- The missing URL is a `KeyError`. -/
theorem missing_url_is_key_error :
    loadConfig labLib [] labFiles (parsePath "no_url.toml") =
        .error (.builtin ⟨.keyError, "url"⟩) ∧
      ¬ MeetsContract labLib labNoUrl
        (loadConfig labLib [] labFiles (parsePath "no_url.toml")) := by
  have hread : readBytes [] labFiles (parsePath "no_url.toml") = .ok labNoUrl := by decide +kernel
  have hloads : labLib.loads labNoUrl = .ok (labData [("secret", .str "pass")]) := by
    exact (if_neg (by decide +kernel)).trans (if_pos rfl)
  have hkey : loadConfig labLib [] labFiles (parsePath "no_url.toml") =
      .error (.builtin ⟨.keyError, "url"⟩) := by
    rw [loadConfig, hread]
    dsimp only
    rw [hloads]
    dsimp only
    -- the sections give their defaults, and the loop over the webhooks raises
    have hwebhooks : get (.dict (labData [("secret", .str "pass")])) "webhooks" (.list []) =
        .ok (.list [.dict [("secret", .str "pass")]]) := rfl
    have hraise : webhookConfigs labLib (.list [.dict [("secret", .str "pass")]]) =
        .error (.builtin ⟨.keyError, "url"⟩) := rfl
    simp (disch := decide) only [loadData, get_section, sectionOf_labData, ok_bind,
      rateLimitSettings_nil, loggingConfig_nil, auditConfig_nil, databaseConfig_nil, tlsSetting_nil,
      get_nil, hwebhooks, hraise, error_bind]
  refine ⟨hkey, fun h => ?_⟩
  rw [hkey] at h
  rcases h.1 with ⟨_, hconfig⟩ | ⟨_, hconfig⟩
  · cases hconfig
  · cases hconfig

end Loading

end TftpOS
