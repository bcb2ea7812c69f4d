import TftpOS.Models
import TftpOS.Python.Json
import TftpOS.Python.Text

/-!
# Secrets

The two providers and the manager of `tftpos/secrets.py`. A provider works on a state of its own:
the contents of `secrets.json`, absent before the first write, or the environment of the process.
The manager replaces each reference `{{secret:KEY}}` in the fields of a profile by what its
provider has under the key.
-/

namespace TftpOS

open Lib

/-- `SecretsProvider`, on states `σ`. -/
structure SecretsProvider (σ : Type) where
  get : σ → String → Except PyExc (Option String)
  set : σ → String → String → Except PyExc Unit × σ
  delete : σ → String → Except PyExc Unit × σ
  listKeys : σ → Except PyExc (List String)

/-! ### The file -/

namespace FileSecretsProvider

variable (json : JsonText)

/-- `_read`. -/
def read : Option json.Text → Except PyExc (Dict String Json)
  | none => .ok ∅
  | some text =>
    match json.loads text with
    | none => .error ⟨.valueError, "malformed JSON"⟩
    | some (.dict kvs) => .ok (.ofEntries kvs)
    | some _ => .error ⟨.typeError, "not a dict"⟩

/-- `_write`. -/
def write (data : Dict String Json) : Option json.Text :=
  some (json.dumps (some 2) (Value.dict data.entries).sortKeys)

/-- `get`. -/
def get (file : Option json.Text) (key : String) : Except PyExc (Option String) := do
  let data ← read json file
  ((data.get? key).getD .null).toTextOption

/-- `set`. -/
def set (file : Option json.Text) (key value : String) : Except PyExc Unit × Option json.Text :=
  match read json file with
  | .error e => (.error e, file)
  | .ok data => (.ok (), write json (data.set key (.str value)))

/-- `delete`: the file is written only when it has the key. -/
def delete (file : Option json.Text) (key : String) : Except PyExc Unit × Option json.Text :=
  match read json file with
  | .error e => (.error e, file)
  | .ok data => (.ok (), if data.contains key then write json (data.del key) else file)

/-- `list_keys`. -/
def listKeys (file : Option json.Text) : Except PyExc (List String) := do
  let data ← read json file
  return sortOn id data.keys

end FileSecretsProvider

/-- `FileSecretsProvider`. -/
def fileSecretsProvider (json : JsonText) : SecretsProvider (Option json.Text) where
  get := FileSecretsProvider.get json
  set := FileSecretsProvider.set json
  delete := FileSecretsProvider.delete json
  listKeys := FileSecretsProvider.listKeys json

/-! ### The environment -/

/-- `os.environ`. -/
abbrev Environ := Dict String String

/-- `os.environ[name] = value`. -/
def setenv (env : Environ) (name value : String) : Except PyExc Unit × Environ :=
  if hasChar '\x00' name || hasChar '\x00' value then
    (.error ⟨.valueError, "embedded null byte"⟩, env)
  else if hasChar '=' name then
    (.error ⟨.valueError, "illegal environment variable name"⟩, env)
  else (.ok (), env.set name value)

namespace EnvironmentSecretsProvider

/-- `_ENV_PREFIX`. -/
def envPrefix : String := "TFTPOS_SECRET_"

/-- The name of the variable of a key. -/
def envKey (py : CaseLib) (key : String) : String := envPrefix ++ py.upper key

/-- `list_keys`. -/
def listKeys (env : Environ) : List String :=
  sortOn id ((env.keys.filter fun name => startsWith name envPrefix).map fun name =>
    String.ofList (name.toList.drop envPrefix.length))

end EnvironmentSecretsProvider

open EnvironmentSecretsProvider in
/-- `EnvironmentSecretsProvider`. -/
def environmentSecretsProvider (py : CaseLib) : SecretsProvider Environ where
  get env key := .ok (env.get? (envKey py key))
  set env key value := setenv env (envKey py key) value
  delete env key := (.ok (), env.del (envKey py key))
  listKeys env := .ok (EnvironmentSecretsProvider.listKeys env)

/-! ### References in texts -/

/-- The class `[A-Za-z0-9_]`. -/
def isKeyChar (c : Char) : Bool := c.isAlphanum || c == '_'

/-- The pattern `[A-Za-z0-9_]+`. -/
def isSecretKey (cs : List Char) : Bool := !cs.isEmpty && cs.all isKeyChar

/-- What stands before the key of a reference. -/
def refOpen : String := "\x7b\x7bsecret:"

/-- What stands behind it. -/
def refClose : String := "\x7d\x7d"

/-- The key of the match of `_SECRET_REF_RE` that starts the text. The pattern takes all the key
characters there are, since none of them is a brace. -/
def matchSecretRef (cs : List Char) : Option String :=
  let key := (cs.drop refOpen.length).takeWhile isKeyChar
  if refOpen.toList.isPrefixOf cs && !key.isEmpty &&
      refClose.toList.isPrefixOf (cs.drop (refOpen.length + key.length)) then
    some (String.ofList key)
  else none

/-- The length of a reference to a key. -/
def refLength (key : String) : ℕ := refOpen.length + key.length + refClose.length

/-- `_SECRET_REF_RE.sub(replacer, text)` after the first `skip` characters: matches are found and
replaced from left to right, and reading goes on behind each of them. -/
def subSecretRefs (replacer : String → Except PyExc String) :
    (skip : ℕ) → List Char → Except PyExc (List Char)
  | _, [] => .ok []
  | skip + 1, _ :: cs => subSecretRefs replacer skip cs
  | 0, c :: cs =>
    match matchSecretRef (c :: cs) with
    | some key => do
      let value ← replacer key
      return value.toList ++ (← subSecretRefs replacer (refLength key - 1) cs)
    | none => do
      return c :: (← subSecretRefs replacer 0 cs)

namespace SecretsManager

variable (py : StrLib) (get : String → Except PyExc (Option String))

/-- `_replacer`. -/
def replacer (path key : String) : Except PyExc String := do
  match ← get key with
  | none =>
    .error ⟨.valueError,
      "secret " ++ py.repr key ++ " referenced in " ++ py.repr path ++ " not found"⟩
  | some value => .ok value

/-- `_resolve_string`. -/
def resolveString (text path : String) : Except PyExc String := do
  return String.ofList (← subSecretRefs (replacer py get path) 0 text.toList)

mutual

/-- `_resolve_value`. -/
def resolveValue : Toml → (path : String) → Except PyExc Toml
  | .str text, path => do return .str (← resolveString py get text path)
  | .dict kvs, path => do return .dict (← resolveEntries kvs path)
  | .list xs, path => do return .list (← resolveItems xs 0 path)
  | value, _ => .ok value

/-- The entries of a dict. -/
def resolveEntries : List (String × Toml) → (path : String) → Except PyExc (List (String × Toml))
  | [], _ => .ok []
  | (k, v) :: kvs, path => do
    let v' ← resolveValue v (path ++ "." ++ k)
    return (k, v') :: (← resolveEntries kvs path)

/-- The items of a list, the first of them at position `i`. -/
def resolveItems : List Toml → (i : ℕ) → (path : String) → Except PyExc (List Toml)
  | [], _, _ => .ok []
  | x :: xs, i, path => do
    let x' ← resolveValue x (path ++ "[" ++ toString i ++ "]")
    return x' :: (← resolveItems xs (i + 1) path)

end

/-- `resolve_profile`. -/
def resolveProfile (profile : ProvisionProfile) : Except PyExc ProvisionProfile := do
  return {
    name := ← resolveValue py get profile.name "name"
    osFamily := ← resolveValue py get profile.osFamily "os_family"
    osVersion := ← resolveValue py get profile.osVersion "os_version"
    vendor := ← resolveValue py get profile.vendor "vendor"
    arch := ← resolveValue py get profile.arch "arch"
    firmware := profile.firmware
    installUrl := ← resolveValue py get profile.installUrl "install_url"
    autoinstallUrl := ← resolveValue py get profile.autoinstallUrl "autoinstall_url"
    network := ← resolveValue py get profile.network "network"
    disk := ← resolveValue py get profile.disk "disk"
    packages := ← resolveValue py get profile.packages "packages"
    postScripts := ← resolveValue py get profile.postScripts "post_scripts"
    extra := ← resolveValue py get profile.extra "extra"
    ipxeCommands := ← resolveValue py get profile.ipxeCommands "ipxe_commands"
    dhcpOptions := ← resolveValue py get profile.dhcpOptions "dhcp_options" }

/-! ### What the manager asks for -/

/-- The keys of the references that `subSecretRefs` replaces. -/
def secretRefs : (skip : ℕ) → List Char → List String
  | _, [] => []
  | skip + 1, _ :: cs => secretRefs skip cs
  | 0, c :: cs =>
    match matchSecretRef (c :: cs) with
    | some key => key :: secretRefs (refLength key - 1) cs
    | none => secretRefs 0 cs

mutual

/-- The keys of the references in a value. -/
def valueRefs : Toml → List String
  | .str text => secretRefs 0 text.toList
  | .dict kvs => entriesRefs kvs
  | .list xs => itemsRefs xs
  | _ => []

def entriesRefs : List (String × Toml) → List String
  | [] => []
  | (_, v) :: kvs => valueRefs v ++ entriesRefs kvs

def itemsRefs : List Toml → List String
  | [] => []
  | x :: xs => valueRefs x ++ itemsRefs xs

end

/-- The keys of the references in a profile. -/
def profileRefs (profile : ProvisionProfile) : List String :=
  [profile.name, profile.osFamily, profile.osVersion, profile.vendor, profile.arch,
    profile.installUrl, profile.autoinstallUrl, profile.network, profile.disk, profile.packages,
    profile.postScripts, profile.extra, profile.ipxeCommands, profile.dhcpOptions].flatMap valueRefs

theorem subSecretRefs_congr {f g : String → Except PyExc String} {skip : ℕ} {cs : List Char}
    (h : ∀ key ∈ secretRefs skip cs, f key = g key) :
    subSecretRefs f skip cs = subSecretRefs g skip cs := by
  induction cs generalizing skip with
  | nil => cases skip <;> rfl
  | cons c cs ih =>
    cases skip with
    | succ skip => exact ih h
    | zero =>
      rcases hmatch : matchSecretRef (c :: cs) with _ | key
      · simp only [secretRefs, hmatch] at h
        simp only [subSecretRefs, hmatch, ih h]
      · simp only [secretRefs, hmatch, List.forall_mem_cons] at h
        simp only [subSecretRefs, hmatch, h.1, ih h.2]

variable {py get} {get' : String → Except PyExc (Option String)}

theorem resolveString_congr {text path : String}
    (h : ∀ key ∈ secretRefs 0 text.toList, get key = get' key) :
    resolveString py get text path = resolveString py get' text path := by
  have hsub := subSecretRefs_congr (f := replacer py get path) (g := replacer py get' path)
    fun key hkey => by rw [replacer, replacer, h key hkey]
  rw [resolveString, resolveString, hsub]

mutual

/-- Two providers that agree on the references of a value resolve it alike. -/
theorem resolveValue_congr {value : Toml} {path : String}
    (h : ∀ key ∈ valueRefs value, get key = get' key) :
    resolveValue py get value path = resolveValue py get' value path := by
  cases value with
  | str text => rw [resolveValue, resolveValue, resolveString_congr h]
  | dict kvs => rw [resolveValue, resolveValue, resolveEntries_congr h]
  | list xs => rw [resolveValue, resolveValue, resolveItems_congr h]
  | _ => rfl

theorem resolveEntries_congr {kvs : List (String × Toml)} {path : String}
    (h : ∀ key ∈ entriesRefs kvs, get key = get' key) :
    resolveEntries py get kvs path = resolveEntries py get' kvs path := by
  cases kvs with
  | nil => rfl
  | cons e kvs =>
    rw [entriesRefs, List.forall_mem_append] at h
    rw [resolveEntries, resolveEntries, resolveValue_congr h.1, resolveEntries_congr h.2]

theorem resolveItems_congr {xs : List Toml} {i : ℕ} {path : String}
    (h : ∀ key ∈ itemsRefs xs, get key = get' key) :
    resolveItems py get xs i path = resolveItems py get' xs i path := by
  cases xs with
  | nil => rfl
  | cons x xs =>
    rw [itemsRefs, List.forall_mem_append] at h
    rw [resolveItems, resolveItems, resolveValue_congr h.1, resolveItems_congr h.2]

end

/-- Two providers that agree on the references of a profile resolve it alike. -/
theorem resolveProfile_congr {profile : ProvisionProfile}
    (h : ∀ key ∈ profileRefs profile, get key = get' key) :
    resolveProfile py get profile = resolveProfile py get' profile := by
  simp only [profileRefs, List.flatMap_cons, List.flatMap_nil, List.forall_mem_append] at h
  obtain ⟨hname, hfamily, hversion, hvendor, harch, hinstall, hautoinstall, hnetwork, hdisk,
    hpackages, hscripts, hextra, hcommands, hoptions, -⟩ := h
  simp only [resolveProfile, resolveValue_congr hname, resolveValue_congr hfamily,
    resolveValue_congr hversion, resolveValue_congr hvendor, resolveValue_congr harch,
    resolveValue_congr hinstall, resolveValue_congr hautoinstall, resolveValue_congr hnetwork,
    resolveValue_congr hdisk, resolveValue_congr hpackages, resolveValue_congr hscripts,
    resolveValue_congr hextra, resolveValue_congr hcommands, resolveValue_congr hoptions]

end SecretsManager

end TftpOS
