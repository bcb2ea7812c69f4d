import TftpOS.ConfigLoading

/-!
# What the configuration loader takes

`Loadable` says of a parsed file whether `load_config` returns for it: every section that it
reads is a table, the values that it converts convert, and each webhook has a URL of one of the
two schemes. Values that the loader only copies may have any type. `schema` lists the keys with
their types, and `FieldType.Converts` is what the loader asks of a type.

Each function of the loader has a lemma that says when it returns, and `loadData_returns_iff`
puts them together.
-/

namespace TftpOS

open Lib

namespace Loading

variable (lib : ConfigLib)

/-- What `int` takes. -/
def IntLike : Setting → Prop
  | .bool _ | .int _ | .float _ => True
  | .str s => (lib.intOfText s).isSome
  | _ => False

/-- What `float` takes. -/
def FloatLike : Setting → Prop
  | .bool _ | .float _ | .leaf (.infinite _) | .leaf .nan => True
  | .int n => n.natAbs < 2 ^ maxExp - 2 ^ (maxExp - mantDig - 1)
  | .str s => (lib.floatOfText s).isSome
  | _ => False

/-- What the loader asks of the value of a key. -/
inductive FieldType where
  | flag
  | text
  | texts
  /-- An `int` that is copied. -/
  | whole
  /-- A value that `int` converts. -/
  | integer
  /-- A value that `float` converts. -/
  | number
  | path
  /-- A path that is left out when the value is false. -/
  | optionalPath
  /-- Such a path under one of two keys. -/
  | certificate
  deriving DecidableEq

/-- The values the loader converts. -/
def FieldType.Converts : FieldType → Setting → Prop
  | .integer, v => IntLike lib v
  | .number, v => FloatLike lib v
  | .path, v => ∃ s, v = .str s
  | .optionalPath, v => v.truthy = true → ∃ s, v = .str s
  | _, _ => True

/-- The keys of `[rate_limit]`. -/
def rateLimitFields : List (String × FieldType) :=
  [("enabled", .flag), ("tftp_requests_per_minute", .number), ("tftp_burst", .integer),
    ("api_requests_per_minute", .number), ("api_burst", .integer),
    ("auth_requests_per_minute", .number), ("auth_burst", .integer)]

/-- The keys of `[logging]`. -/
def loggingFields : List (String × FieldType) :=
  [("level", .text), ("json_format", .flag), ("log_file", .optionalPath), ("max_bytes", .integer),
    ("backup_count", .integer), ("syslog_enabled", .flag), ("syslog_address", .text),
    ("journald_enabled", .flag)]

/-- The keys of `[audit]`. -/
def auditFields : List (String × FieldType) :=
  [("enabled", .flag), ("log_file", .optionalPath), ("max_bytes", .integer),
    ("backup_count", .integer), ("log_to_stdout", .flag), ("buffer_size", .integer),
    ("syslog_enabled", .flag), ("syslog_address", .text)]

/-- The keys of `[database]`. -/
def databaseFields : List (String × FieldType) := [("backend", .text), ("url", .text)]

/-- The keys of an entry of `[[webhooks]]` but the URL. -/
def webhookFields : List (String × FieldType) :=
  [("events", .texts), ("secret", .text), ("retry_count", .integer), ("timeout", .number)]

/-- The keys of `[server]`. -/
def serverFields : List (String × FieldType) :=
  [("host", .text), ("port", .whole), ("tls_cert", .certificate), ("tls_key", .certificate)]

/-- The keys of `[tls]`. -/
def tlsFields : List (String × FieldType) :=
  [("cert", .certificate), ("key", .certificate), ("auto_generate", .flag)]

/-- The keys of each section, and of which type their values are. -/
def schema : List (String × List (String × FieldType)) :=
  [("server", serverFields),
    ("paths", [("tftp_root", .path), ("distro_root", .path), ("data_dir", .path)]),
    ("auth", [("enabled", .flag)]),
    ("discovery", [("service_name", .text), ("enabled", .flag)]),
    ("rate_limit", rateLimitFields),
    ("logging", loggingFields),
    ("audit", auditFields),
    ("tls", tlsFields),
    ("database", databaseFields)]

/-- A table whose values are as `P` asks of the types of their keys. Other keys are ignored, and
a key may be missing. -/
def TableOf (P : FieldType → Setting → Prop) (fields : List (String × FieldType)) (v : Setting) :
    Prop :=
  ∃ kvs, v = .dict kvs ∧ ∀ field ∈ fields, ∀ x, Value.lookup field.1 kvs = some x → P field.2 x

/-- A URL of one of the two schemes. -/
def WebUrl : Setting → Prop
  | .str s => ∃ scheme netloc, lib.urlparse s = some (scheme, netloc) ∧
      (scheme = "http" ∨ scheme = "https")
  | _ => False

/-- An entry of `[[webhooks]]` that the loader takes. -/
def WebhookConverts (v : Setting) : Prop :=
  TableOf (FieldType.Converts lib) webhookFields v ∧
    ∃ kvs url, v = .dict kvs ∧ Value.lookup "url" kvs = some url ∧ WebUrl lib url

/-- The value of `webhooks` that the loader takes: a list of tables, or nothing to iterate over. -/
def WebhooksConvert : Setting → Prop
  | .list xs => ∀ x ∈ xs, WebhookConverts lib x
  | .str s => s = ""
  | .dict kvs => kvs = []
  | _ => False

/-- `data.get(section, {})`. -/
def sectionOf (kvs : List (String × Setting)) (name : String) : Setting :=
  (Value.lookup name kvs).getD (.dict [])

/-- The value of a key of a section, or `None`. -/
def settingOf (kvs : List (String × Setting)) (name key : String) : Setting :=
  match sectionOf kvs name with
  | .dict section' => (Value.lookup key section').getD .null
  | _ => .null

/-- The certificate or the key in force. -/
def tlsSettingOf (kvs : List (String × Setting)) (key serverKey : String) : Setting :=
  if (settingOf kvs "tls" key).truthy then settingOf kvs "tls" key
  else settingOf kvs "server" serverKey

/-- What the loader takes: sections that are tables, values that it can convert where it
converts them, and webhooks with a URL of one of the two schemes. -/
structure Loadable (kvs : List (String × Setting)) : Prop where
  sections : ∀ s ∈ schema, TableOf (FieldType.Converts lib) s.2 (sectionOf kvs s.1)
  cert : FieldType.optionalPath.Converts lib (tlsSettingOf kvs "cert" "tls_cert")
  key : FieldType.optionalPath.Converts lib (tlsSettingOf kvs "key" "tls_key")
  webhooks : ∀ v, Value.lookup "webhooks" kvs = some v → WebhooksConvert lib v

/-! ### Conversions -/

theorem mantDig_lt_maxExp : mantDig < maxExp := by
  rw [mantDig, maxExp]
  decide

/-- The integers that `float` takes. -/
theorem floatOfInt_isSome_iff {n : ℤ} :
    (floatOfInt n).isSome ↔ n.natAbs < 2 ^ maxExp - 2 ^ (maxExp - mantDig - 1) := by
  have hpos : 0 < mantDig := by
    rw [mantDig]
    decide
  rw [floatOfInt, ← roundBits_lt_iff hpos mantDig_lt_maxExp]
  split_ifs with h <;> simp [h]

/-- Integers of at most 53 binary digits are floats. -/
theorem floatOfInt_of_natAbs_lt {n : ℤ} (h : n.natAbs < 2 ^ 53) : floatOfInt n = some (n : ℚ) := by
  have hexact : n.natAbs < 2 ^ mantDig := by rwa [mantDig]
  have hrange : n.natAbs < 2 ^ maxExp :=
    hexact.trans (Nat.pow_lt_pow_right (by decide) mantDig_lt_maxExp)
  rw [floatOfInt, roundBits_of_lt hexact, if_pos hrange]
  by_cases hneg : n < 0
  · have habs : (n.natAbs : ℤ) = -n := Int.ofNat_natAbs_of_nonpos hneg.le
    rw [if_pos hneg, ← Int.cast_natCast, habs, Int.cast_neg, neg_neg]
  · have habs : (n.natAbs : ℤ) = n := Int.natAbs_of_nonneg (not_lt.mp hneg)
    rw [if_neg hneg, ← Int.cast_natCast, habs]

theorem toInt_returns_iff {v : Setting} :
    (∃ n, toInt lib v = .ok n) ↔ FieldType.integer.Converts lib v := by
  rw [FieldType.Converts]
  cases v with
  | str s => cases h : lib.intOfText s <;> simp [toInt, IntLike, h]
  | leaf x => cases x <;> simp [toInt, IntLike]
  | _ => simp [toInt, IntLike]

theorem toFloat_returns_iff {v : Setting} :
    (∃ x, toFloat lib v = .ok x) ↔ FieldType.number.Converts lib v := by
  rw [FieldType.Converts]
  cases v with
  | str s => cases h : lib.floatOfText s <;> simp [toFloat, FloatLike, h]
  | leaf x => cases x <;> simp [toFloat, FloatLike]
  | int n =>
    rw [FloatLike, ← floatOfInt_isSome_iff]
    cases h : floatOfInt n <;> simp [toFloat, h]
  | _ => simp [toFloat, FloatLike]

theorem toPath_returns_iff {v : Setting} :
    (∃ p, toPath v = .ok p) ↔ FieldType.path.Converts lib v := by
  rw [FieldType.Converts]
  cases v <;> simp [toPath]

theorem toOptionalPath_returns_iff {v : Setting} :
    (∃ p, toOptionalPath v = .ok p) ↔ FieldType.optionalPath.Converts lib v := by
  rw [toOptionalPath, FieldType.Converts]
  cases h : v.truthy with
  | false => simp
  | true =>
    simp only [if_true, true_imp_iff, map_eq_ok_iff]
    constructor
    · rintro ⟨_, p, hp, _⟩
      exact (toPath_returns_iff lib).mp ⟨p, hp⟩
    · intro hv
      obtain ⟨p, hp⟩ := (toPath_returns_iff lib).mpr hv
      exact ⟨_, p, hp, rfl⟩

/-! ### The sections -/

theorem get_dict (kvs : List (String × Setting)) (key : String) (default : Setting) :
    get (.dict kvs) key default = .ok ((Value.lookup key kvs).getD default) := rfl

/-- A key whose default converts is in the way only if it is there and does not. -/
theorem converts_getD_iff {type : FieldType} {kvs : List (String × Setting)} {key : String}
    {default : Setting} (hdefault : type.Converts lib default) :
    type.Converts lib ((Value.lookup key kvs).getD default) ↔
      ∀ x, Value.lookup key kvs = some x → type.Converts lib x := by
  cases h : Value.lookup key kvs with
  | none => simp [hdefault]
  | some x => simp

section

variable {kvs : List (String × Setting)} {key : String}

theorem integer_getD_iff {n : ℤ} :
    FieldType.integer.Converts lib ((Value.lookup key kvs).getD (.int n)) ↔
      ∀ x, Value.lookup key kvs = some x → FieldType.integer.Converts lib x :=
  converts_getD_iff lib trivial

theorem number_getD_iff {n : ℤ} (h : n.natAbs < 2 ^ 53) :
    FieldType.number.Converts lib ((Value.lookup key kvs).getD (.int n)) ↔
      ∀ x, Value.lookup key kvs = some x → FieldType.number.Converts lib x := by
  refine converts_getD_iff lib (floatOfInt_isSome_iff.mp ?_)
  rw [floatOfInt_of_natAbs_lt h]
  rfl

theorem seconds_getD_iff {q : ℚ} :
    FieldType.number.Converts lib ((Value.lookup key kvs).getD (.float q)) ↔
      ∀ x, Value.lookup key kvs = some x → FieldType.number.Converts lib x :=
  converts_getD_iff lib trivial

theorem path_getD_iff {s : String} :
    FieldType.path.Converts lib ((Value.lookup key kvs).getD (.str s)) ↔
      ∀ x, Value.lookup key kvs = some x → FieldType.path.Converts lib x :=
  converts_getD_iff lib ⟨s, rfl⟩

theorem optionalPath_getD_iff :
    FieldType.optionalPath.Converts lib ((Value.lookup key kvs).getD .null) ↔
      ∀ x, Value.lookup key kvs = some x → FieldType.optionalPath.Converts lib x :=
  converts_getD_iff lib (by simp [FieldType.Converts, Value.truthy])

end

theorem rateLimitSettings_returns_iff {rl : Setting} :
    (∃ r, rateLimitSettings lib rl = .ok r) ↔
      TableOf (FieldType.Converts lib) rateLimitFields rl := by
  cases rl with
  | dict kvs =>
    simp only [rateLimitSettings, get_dict, ok_bind, bind_isOk_iff, pure_eq_ok,
      Except.ok.injEq, exists_eq', and_true, exists_and_right, toInt_returns_iff,
      toFloat_returns_iff, TableOf, rateLimitFields, Value.dict.injEq, exists_eq_left']
    rw [number_getD_iff lib (by decide), number_getD_iff lib (by decide),
      number_getD_iff lib (by decide)]
    simp only [integer_getD_iff]
    simp [FieldType.Converts]
  | _ => simp [rateLimitSettings, get, Value.getItem, Except.mapError, TableOf]

theorem loggingConfig_returns_iff {log : Setting} :
    (∃ r, loggingConfig lib log = .ok r) ↔ TableOf (FieldType.Converts lib) loggingFields log := by
  cases log with
  | dict kvs =>
    simp only [loggingConfig, get_dict, ok_bind, bind_isOk_iff, pure_eq_ok, Except.ok.injEq,
      exists_eq', and_true, exists_and_right, toInt_returns_iff, toOptionalPath_returns_iff lib,
      TableOf, loggingFields, Value.dict.injEq, exists_eq_left', integer_getD_iff,
      optionalPath_getD_iff]
    simp [FieldType.Converts]
  | _ => simp [loggingConfig, get, Value.getItem, Except.mapError, TableOf]

theorem auditConfig_returns_iff {auditData : Setting} :
    (∃ r, auditConfig lib auditData = .ok r) ↔
      TableOf (FieldType.Converts lib) auditFields auditData := by
  cases auditData with
  | dict kvs =>
    simp only [auditConfig, get_dict, ok_bind, bind_isOk_iff, pure_eq_ok, Except.ok.injEq,
      exists_eq', and_true, exists_and_right, toInt_returns_iff, toOptionalPath_returns_iff lib,
      TableOf, auditFields, Value.dict.injEq, exists_eq_left', integer_getD_iff,
      optionalPath_getD_iff]
    simp [FieldType.Converts]
  | _ => simp [auditConfig, get, Value.getItem, Except.mapError, TableOf]

theorem databaseConfig_returns_iff {dbSection : Setting} :
    (∃ r, databaseConfig dbSection = .ok r) ↔
      TableOf (FieldType.Converts lib) databaseFields dbSection := by
  cases dbSection with
  | dict kvs =>
    simp [databaseConfig, get_dict, TableOf, databaseFields, FieldType.Converts]
  | _ => simp [databaseConfig, get, Value.getItem, Except.mapError, TableOf]

theorem postInit_returns_iff {url : Setting} :
    (∃ u, postInit lib url = .ok u) ↔ WebUrl lib url := by
  rw [postInit]
  cases url with
  | str s =>
    rw [WebUrl, urlScheme]
    cases h : lib.urlparse s with
    | none => simp
    | some found =>
      obtain ⟨scheme, netloc⟩ := found
      by_cases hweb : scheme = "http" ∨ scheme = "https" <;> simp [hweb]
  | _ =>
    simp only [urlScheme, WebUrl, iff_false]
    split <;> simp

theorem webhookConfig_returns_iff {wh : Setting} :
    (∃ r, webhookConfig lib wh = .ok r) ↔ WebhookConverts lib wh := by
  cases wh with
  | dict kvs =>
    simp only [webhookConfig, get_dict, ok_bind, bind_isOk_iff, pure_eq_ok, Except.ok.injEq,
      exists_eq', and_true, exists_and_right, toInt_returns_iff, toFloat_returns_iff, TableOf,
      webhookFields, Value.dict.injEq, exists_eq_left', WebhookConverts, integer_getD_iff,
      seconds_getD_iff, postInit_returns_iff]
    cases h : Value.lookup "url" kvs with
    | none => simp [Value.item, h, Except.mapError]
    | some url =>
      simp [Value.item, h, Except.mapError, FieldType.Converts, and_assoc]
  | _ => simp [webhookConfig, Value.item, Except.mapError, WebhookConverts]

theorem webhookConfigs_returns_iff {v : Setting} :
    (∃ r, webhookConfigs lib v = .ok r) ↔ WebhooksConvert lib v := by
  -- an entry that is no table is refused
  have htext : ∀ s, ¬ (∃ r, webhookConfig lib (.str s) = .ok r) := fun s h => by
    obtain ⟨-, kvs, url, htable, -⟩ := (webhookConfig_returns_iff lib).mp h
    cases htable
  cases v with
  | list xs =>
    simp [webhookConfigs, Value.iter, Except.mapError, mapM_isOk_iff, WebhooksConvert,
      webhookConfig_returns_iff]
  | str s =>
    simp only [webhookConfigs, Value.iter, Except.mapError, ok_bind, mapM_isOk_iff,
      List.forall_mem_map, htext, WebhooksConvert]
    rw [← String.toList_eq_nil_iff, List.eq_nil_iff_forall_not_mem]
  | dict kvs =>
    simp only [webhookConfigs, Value.iter, Except.mapError, ok_bind, mapM_isOk_iff,
      List.forall_mem_map, htext, WebhooksConvert]
    rw [← Dict.keys_ofEntries_eq_nil_iff, List.eq_nil_iff_forall_not_mem]
  | _ => simp [webhookConfigs, Value.iter, Except.mapError, WebhooksConvert]

/-! ### The whole file -/

theorem tableOf_dict {P : FieldType → Setting → Prop} {fields : List (String × FieldType)}
    {kvs : List (String × Setting)} :
    TableOf P fields (.dict kvs) ↔
      ∀ field ∈ fields, ∀ x, Value.lookup field.1 kvs = some x → P field.2 x := by
  simp [TableOf]

theorem webhooks_getD_iff {kvs : List (String × Setting)} :
    WebhooksConvert lib ((Value.lookup "webhooks" kvs).getD (.list [])) ↔
      ∀ v, Value.lookup "webhooks" kvs = some v → WebhooksConvert lib v := by
  cases h : Value.lookup "webhooks" kvs <;> simp [WebhooksConvert]

theorem get_section (kvs : List (String × Setting)) (name : String) :
    get (.dict kvs) name (.dict []) = .ok (sectionOf kvs name) := rfl

theorem exists_of_get {table default v : Setting} {key : String}
    (h : get table key default = .ok v) : ∃ kvs, table = .dict kvs := by
  cases table with
  | dict kvs => exact ⟨kvs, rfl⟩
  | _ => cases h

section

variable {kvs server paths auth discovery tls : List (String × Setting)}

theorem settingOf_eq {name : String} {section' : List (String × Setting)}
    (h : sectionOf kvs name = .dict section') (key : String) :
    settingOf kvs name key = (Value.lookup key section').getD .null := by
  rw [settingOf, h]

theorem tlsSetting_eq (htls : sectionOf kvs "tls" = .dict tls)
    (hserver : sectionOf kvs "server" = .dict server) (key serverKey : String) :
    tlsSetting (.dict tls) (.dict server) key serverKey =
      .ok (tlsSettingOf kvs key serverKey) := by
  rw [tlsSetting, tlsSettingOf, settingOf_eq htls, settingOf_eq hserver, get_dict, get_dict,
    ok_bind]
  split <;> rfl

/-- The five sections that the loader reads itself are tables when it returns. -/
theorem tables_of_returns (h : ∃ config, loadData lib (.dict kvs) = .ok config) :
    ∃ server paths auth discovery tls, sectionOf kvs "server" = .dict server ∧
      sectionOf kvs "paths" = .dict paths ∧ sectionOf kvs "auth" = .dict auth ∧
      sectionOf kvs "discovery" = .dict discovery ∧ sectionOf kvs "tls" = .dict tls := by
  simp only [loadData, get_section, ok_bind, bind_isOk_iff] at h
  -- the first key read of each
  obtain ⟨_, _, _, _, _, htls, _, _, _, _, _, _, _, _, _, _, _, _, _, hserver, _, _, _, _, _, _, _,
    hpaths, _, _, _, _, _, _, _, _, _, _, _, hauth, _, hdiscovery, _⟩ := h
  obtain ⟨tls, htls⟩ := exists_of_get htls
  obtain ⟨server, hserver⟩ := exists_of_get hserver
  obtain ⟨paths, hpaths⟩ := exists_of_get hpaths
  obtain ⟨auth, hauth⟩ := exists_of_get hauth
  obtain ⟨discovery, hdiscovery⟩ := exists_of_get hdiscovery
  exact ⟨server, paths, auth, discovery, tls, hserver, hpaths, hauth, hdiscovery, htls⟩

/-- The sections, when the five that the loader reads itself are tables. -/
theorem sections_convert_iff (hserver : sectionOf kvs "server" = .dict server)
    (hpaths : sectionOf kvs "paths" = .dict paths) (hauth : sectionOf kvs "auth" = .dict auth)
    (hdiscovery : sectionOf kvs "discovery" = .dict discovery)
    (htls : sectionOf kvs "tls" = .dict tls) :
    (∀ s ∈ schema, TableOf (FieldType.Converts lib) s.2 (sectionOf kvs s.1)) ↔
      (∀ x, Value.lookup "tftp_root" paths = some x → FieldType.path.Converts lib x) ∧
      (∀ x, Value.lookup "distro_root" paths = some x → FieldType.path.Converts lib x) ∧
      (∀ x, Value.lookup "data_dir" paths = some x → FieldType.path.Converts lib x) ∧
      TableOf (FieldType.Converts lib) rateLimitFields (sectionOf kvs "rate_limit") ∧
      TableOf (FieldType.Converts lib) loggingFields (sectionOf kvs "logging") ∧
      TableOf (FieldType.Converts lib) auditFields (sectionOf kvs "audit") ∧
      TableOf (FieldType.Converts lib) databaseFields (sectionOf kvs "database") := by
  simp only [schema, serverFields, tlsFields, List.forall_mem_cons, hserver, hpaths, hauth,
    hdiscovery, htls, tableOf_dict]
  simp [FieldType.Converts, and_assoc]

theorem loadData_returns_iff_of_tables (hserver : sectionOf kvs "server" = .dict server)
    (hpaths : sectionOf kvs "paths" = .dict paths) (hauth : sectionOf kvs "auth" = .dict auth)
    (hdiscovery : sectionOf kvs "discovery" = .dict discovery)
    (htls : sectionOf kvs "tls" = .dict tls) :
    (∃ config, loadData lib (.dict kvs) = .ok config) ↔ Loadable lib kvs := by
  have hsections := sections_convert_iff lib hserver hpaths hauth hdiscovery htls
  simp only [loadData, get_section, ok_bind]
  rw [hserver, hpaths, hauth, hdiscovery, htls]
  simp only [tlsSetting_eq htls hserver, get_dict, ok_bind, bind_isOk_iff, pure_eq_ok,
    Except.ok.injEq, exists_eq', and_true, exists_and_right, toOptionalPath_returns_iff lib,
    toPath_returns_iff lib, path_getD_iff, rateLimitSettings_returns_iff,
    loggingConfig_returns_iff, auditConfig_returns_iff, databaseConfig_returns_iff lib,
    webhookConfigs_returns_iff, webhooks_getD_iff]
  constructor
  · rintro ⟨hrate, hlogging, haudit, hdatabase, hwebhooks, hcert, hkey, hpaths⟩
    exact
      { sections := hsections.mpr
          ⟨hpaths.1, hpaths.2.1, hpaths.2.2, hrate, hlogging, haudit, hdatabase⟩
        cert := hcert
        key := hkey
        webhooks := hwebhooks }
  · intro h
    obtain ⟨htftp, hdistro, hdata, hrate, hlogging, haudit, hdatabase⟩ := hsections.mp h.sections
    exact ⟨hrate, hlogging, haudit, hdatabase, h.webhooks, h.cert, h.key, htftp, hdistro, hdata⟩

end

/-- **When the loader returns**, of a file that is parsed. -/
theorem loadData_returns_iff {kvs : List (String × Setting)} :
    (∃ config, loadData lib (.dict kvs) = .ok config) ↔ Loadable lib kvs := by
  constructor
  · intro h
    obtain ⟨_, _, _, _, _, hserver, hpaths, hauth, hdiscovery, htls⟩ := tables_of_returns lib h
    exact (loadData_returns_iff_of_tables lib hserver hpaths hauth hdiscovery htls).mp h
  · intro h
    have htable : ∀ s ∈ schema, ∃ kvs', sectionOf kvs s.1 = .dict kvs' := fun s hs => by
      obtain ⟨kvs', hkvs', -⟩ := h.sections s hs
      exact ⟨kvs', hkvs'⟩
    simp only [schema, List.forall_mem_cons] at htable
    obtain ⟨⟨_, hserver⟩, ⟨_, hpaths⟩, ⟨_, hauth⟩, ⟨_, hdiscovery⟩, -, -, -, ⟨_, htls⟩, -⟩ := htable
    exact (loadData_returns_iff_of_tables lib hserver hpaths hauth hdiscovery htls).mpr h

/-! ### Unknown keys -/

theorem get_nil (key : String) (default : Setting) : get (.dict []) key default = .ok default :=
  rfl

theorem rateLimitSettings_nil : rateLimitSettings lib (.dict []) = .ok {} := by
  have hfloat : ∀ n : ℤ, n.natAbs < 2 ^ 53 → toFloat lib (.int n) = .ok (.finite n) :=
    fun n hn => by rw [toFloat, floatOfInt_of_natAbs_lt hn]
  simp (disch := decide) only [rateLimitSettings, get_nil, ok_bind, hfloat]
  rfl

theorem loggingConfig_nil : loggingConfig lib (.dict []) = .ok {} := rfl

theorem auditConfig_nil : auditConfig lib (.dict []) = .ok {} := rfl

theorem databaseConfig_nil : databaseConfig (.dict []) = .ok {} := rfl

theorem tlsSetting_nil (key serverKey : String) :
    tlsSetting (.dict []) (.dict []) key serverKey = .ok .null := rfl

end Loading

end TftpOS
