import TftpOS.Lib.Run
import TftpOS.Python.Json
import TftpOS.Python.Text

/-!
# Mnemonics

`MnemonicRegistry` of `tftpos/mnemonics.py`: short names for distributions, with a pattern that
reads a family and a version out of a name that the table does not have.

`register` files an alias under the name in lower case, and `resolve` drops the separators `-` and
`_` as well before it looks. So a name that has a separator is filed where no mnemonic is looked
up, and the alias is lost unless the mnemonic was resolved so anyway (`roundTrips_iff`).
-/

namespace TftpOS

open Lib

/-- The parts of `str` and `re` that a mnemonic takes, with the class `\d`. -/
structure PatternLib extends StrLib where
  /-- The class `\d` of the `re` module. -/
  isDecimal : Char → Bool
  isDecimal_ascii : ∀ c : Char, c.toNat < 128 → isDecimal c = c.isDigit

/-- `DistroAlias`. An entry of a configuration may have values of any type in it. -/
structure DistroAlias where
  osFamily : Toml
  vendor : Toml
  version : Toml

/-- An alias of three texts. -/
def builtin (osFamily vendor version : String) : DistroAlias :=
  ⟨.str osFamily, .str vendor, .str version⟩

/-- `BUILTIN_ALIASES`. -/
def builtinAliases : Dict String DistroAlias :=
  Dict.ofEntries [
    ("fedora40", builtin "fedora" "fedora" "40"), ("fedora41", builtin "fedora" "fedora" "41"),
    ("fedora42", builtin "fedora" "fedora" "42"), ("rhel8", builtin "fedora" "rhel" "8"),
    ("rhel9", builtin "fedora" "rhel" "9"), ("rhel10", builtin "fedora" "rhel" "10"),
    ("rocky8", builtin "fedora" "rocky" "8"), ("rocky9", builtin "fedora" "rocky" "9"),
    ("alma8", builtin "fedora" "alma" "8"), ("alma9", builtin "fedora" "alma" "9"),
    ("centos8", builtin "fedora" "centos" "8"), ("centos9", builtin "fedora" "centos" "9"),
    ("deb11", builtin "debian" "debian" "11"), ("deb12", builtin "debian" "debian" "12"),
    ("deb13", builtin "debian" "debian" "13"), ("bullseye", builtin "debian" "debian" "11"),
    ("bookworm", builtin "debian" "debian" "12"), ("trixie", builtin "debian" "debian" "13"),
    ("ubuntu2204", builtin "ubuntu" "ubuntu" "22.04"),
    ("ubuntu2404", builtin "ubuntu" "ubuntu" "24.04"),
    ("ubuntu2410", builtin "ubuntu" "ubuntu" "24.10"),
    ("jammy", builtin "ubuntu" "ubuntu" "22.04"), ("noble", builtin "ubuntu" "ubuntu" "24.04"),
    ("sles15", builtin "suse" "sles" "15"), ("leap15", builtin "suse" "opensuse" "15"),
    ("tumbleweed", builtin "suse" "opensuse" "tumbleweed"),
    ("fbsd13", builtin "freebsd" "freebsd" "13"), ("fbsd14", builtin "freebsd" "freebsd" "14"),
    ("freebsd13", builtin "freebsd" "freebsd" "13"),
    ("freebsd14", builtin "freebsd" "freebsd" "14"),
    ("obsd75", builtin "openbsd" "openbsd" "7.5"), ("obsd76", builtin "openbsd" "openbsd" "7.6"),
    ("openbsd76", builtin "openbsd" "openbsd" "7.6"), ("nbsd10", builtin "netbsd" "netbsd" "10"),
    ("netbsd10", builtin "netbsd" "netbsd" "10"), ("arch", builtin "arch" "arch" "latest"),
    ("win10", builtin "windows" "windows" "10"), ("win11", builtin "windows" "windows" "11"),
    ("win2022", builtin "windows" "windows" "2022"),
    ("win2025", builtin "windows" "windows" "2025")]

/-- `_FAMILY_PREFIXES`. -/
def familyPrefixes : Dict String (String × String) :=
  Dict.ofEntries [
    ("fedora", "fedora", "fedora"), ("rhel", "fedora", "rhel"), ("rocky", "fedora", "rocky"),
    ("alma", "fedora", "alma"), ("centos", "fedora", "centos"), ("deb", "debian", "debian"),
    ("debian", "debian", "debian"), ("ubuntu", "ubuntu", "ubuntu"), ("sles", "suse", "sles"),
    ("leap", "suse", "opensuse"), ("suse", "suse", "suse"), ("fbsd", "freebsd", "freebsd"),
    ("freebsd", "freebsd", "freebsd"), ("obsd", "openbsd", "openbsd"),
    ("openbsd", "openbsd", "openbsd"), ("nbsd", "netbsd", "netbsd"),
    ("netbsd", "netbsd", "netbsd"), ("arch", "arch", "arch"), ("win", "windows", "windows"),
    ("windows", "windows", "windows")]

/-- The class `[a-z]` without regard to case: beside the ASCII letters, four others have one of
them for a lower or upper case. -/
def isFamilyLetter (c : Char) : Bool :=
  c.isAlpha || c ∈ [Char.ofNat 0x130, Char.ofNat 0x131, Char.ofNat 0x17F, Char.ofNat 0x212A]

/-- `MnemonicRegistry`. -/
structure MnemonicRegistry where
  aliases : Dict String DistroAlias := builtinAliases

namespace MnemonicRegistry

section

variable (py : PatternLib)

/-- The pattern `\d[\d.]*`. -/
def isVersion : List Char → Bool
  | [] => false
  | c :: cs => py.isDecimal c && cs.all fun c => py.isDecimal c || c == '.'

/-- The groups of the pattern `([a-z]+?)(\d[\d.]*)`: as few letters as the rest allows. -/
def matchFamily : List Char → Option (List Char × List Char)
  | [] => none
  | c :: cs =>
    if !isFamilyLetter c then none
    else if isVersion py cs then some ([c], cs)
    else (matchFamily cs).map fun (letters, version) => (c :: letters, version)

/-- `_PATTERN.match`, whose `$` also matches before a final newline. -/
def matchPattern (key : String) : Option (List Char × List Char) :=
  matchFamily py key.toList <|>
    if key.toList.getLast? = some '\n' then matchFamily py key.toList.dropLast else none

/-- `_try_parse`. -/
def tryParse (key : String) : Option DistroAlias :=
  match matchPattern py key with
  | none => none
  | some (letters, version) =>
    (familyPrefixes.get? (py.lower (String.ofList letters))).map fun (osFamily, vendor) =>
      builtin osFamily vendor (String.ofList version)

variable (registry : MnemonicRegistry)

/-- `register`. -/
def register (name : String) (distro : DistroAlias) : MnemonicRegistry :=
  { aliases := registry.aliases.set (py.lower name) distro }

/-- The key that `resolve` looks up. -/
def keyOf (mnemonic : String) : String :=
  removeChar '_' (removeChar '-' (py.lower mnemonic))

/-- `resolve`. -/
def resolve (mnemonic : String) : Option DistroAlias :=
  if mnemonic = "" ∨ strip mnemonic = "" then none
  else
    let key := keyOf py mnemonic
    match registry.aliases.get? key with
    | some distro => some distro
    | none => tryParse py key

/-- The alias of an entry of a configuration. -/
def aliasOf (fields : List (String × Toml)) : DistroAlias where
  osFamily := (Value.lookup "os_family" fields).getD (.str "")
  vendor := (Value.lookup "vendor" fields).getD (.str "")
  version := (Value.lookup "version" fields).getD (.str "")

/-- The body of the loop of `load_from_config`. -/
def loadEntry : String × Toml → MnemonicRegistry
  | (name, .dict fields) => register py registry name (aliasOf fields)
  | _ => registry

/-- `load_from_config`. -/
def loadFromConfig (mnemonicsDict : Dict String Toml) : MnemonicRegistry :=
  mnemonicsDict.entries.foldl (loadEntry py) registry

/-- A call on the registry that may change it. -/
inductive Op where
  | register (name : String) (distro : DistroAlias)
  | load (mnemonicsDict : Dict String Toml)

/-- Perform a call. -/
def step (registry : MnemonicRegistry) : Op → Unit × MnemonicRegistry
  | .register name distro => ((), register py registry name distro)
  | .load mnemonicsDict => ((), loadFromConfig py registry mnemonicsDict)

/-! ### Spellings -/

/-- Two spellings of a mnemonic: they agree up to letter case and separators. -/
def SameMnemonic (m m' : String) : Prop := keyOf py m = keyOf py m'

/-- A blank mnemonic, which resolves to nothing. -/
def IsBlank (mnemonic : String) : Prop := mnemonic = "" ∨ strip mnemonic = ""

/-- A call registers a spelling of a name. -/
def Registers (name : String) : Op → Prop
  | .register name' _ => SameMnemonic py name' name
  | .load mnemonicsDict =>
    ∃ name' fields, (name', .dict fields) ∈ mnemonicsDict.entries ∧ SameMnemonic py name' name

/-- What the table and the pattern know of a key. -/
def answer (key : String) : Option DistroAlias := registry.aliases.get? key <|> tryParse py key

/-- Registering an alias for a name: every spelling of the name resolves to it until one of them is
registered again, and the others resolve as before. -/
structure RoundTrips (name : String) (distro : DistroAlias) : Prop where
  kept : ∀ later, (∀ op ∈ later, ¬ Registers py name op) → ∀ m, SameMnemonic py m name →
    resolve py (run (step py) (register py registry name distro) later) m = some distro
  others : ∀ m, ¬ SameMnemonic py m name →
    resolve py (register py registry name distro) m = resolve py registry m

/-- No spelling of the name is blank, and it has no separator in lower case, or is known by the
alias already. -/
structure Addressable (name : String) (distro : DistroAlias) : Prop where
  notBlank : ∀ m, SameMnemonic py m name → ¬ IsBlank m
  found : (∀ c ∈ (py.lower name).toList, c ≠ '-' ∧ c ≠ '_') ∨
    answer py registry (keyOf py name) = some distro

end

variable {py : PatternLib} {registry : MnemonicRegistry} {name m : String} {distro : DistroAlias}

theorem toList_keyOf : (keyOf py m).toList =
    ((py.lower m).toList.filter (· ≠ '-')).filter (· ≠ '_') := by
  rw [keyOf, removeChar, removeChar, String.toList_ofList, String.toList_ofList]

/-- No key has a separator. -/
theorem ne_of_mem_keyOf {c : Char} (h : c ∈ (keyOf py m).toList) : c ≠ '-' ∧ c ≠ '_' := by
  rw [toList_keyOf, List.mem_filter, List.mem_filter] at h
  exact ⟨by simpa using h.1.2, by simpa using h.2⟩

/-- The name is its own key exactly where it has no separator. -/
theorem keyOf_eq_lower_iff :
    keyOf py name = py.lower name ↔ ∀ c ∈ (py.lower name).toList, c ≠ '-' ∧ c ≠ '_' := by
  constructor
  · intro h c hc
    rw [← h] at hc
    exact ne_of_mem_keyOf hc
  · intro h
    have hdash : (py.lower name).toList.filter (· ≠ '-') = (py.lower name).toList :=
      List.filter_eq_self.mpr fun c hc => by simpa using (h c hc).1
    rw [← String.toList_inj, toList_keyOf, hdash]
    exact List.filter_eq_self.mpr fun c hc => by simpa using (h c hc).2

/-- What is filed under a separator is not looked up. -/
theorem sameMnemonic_of_keyOf_eq_lower (h : keyOf py m = py.lower name) :
    SameMnemonic py m name := by
  have hself : keyOf py name = py.lower name := by
    refine keyOf_eq_lower_iff.mpr fun c hc => ?_
    rw [← h] at hc
    exact ne_of_mem_keyOf hc
  rw [SameMnemonic, h, hself]

/-! ### Resolving after a registration -/

theorem resolve_of_isBlank (h : IsBlank m) : resolve py registry m = none := if_pos h

theorem resolve_of_not_isBlank (h : ¬ IsBlank m) :
    resolve py registry m = answer py registry (keyOf py m) := by
  have hfilled : ¬ (m = "" ∨ strip m = "") := h
  rw [resolve, if_neg hfilled, answer]
  rcases hget : registry.aliases.get? (keyOf py m) with _ | v <;> simp [hget]

theorem answer_register (key : String) :
    answer py (register py registry name distro) key =
      if key = py.lower name then some distro else answer py registry key := by
  rw [answer, register, Dict.get?_set]
  split_ifs
  · rfl
  · rfl

/-- Other mnemonics resolve as before. -/
theorem resolve_register_of_not_same (h : ¬ SameMnemonic py m name) :
    resolve py (register py registry name distro) m = resolve py registry m := by
  by_cases hblank : IsBlank m
  · rw [resolve_of_isBlank hblank, resolve_of_isBlank hblank]
  · have hne : keyOf py m ≠ py.lower name := fun heq => h (sameMnemonic_of_keyOf_eq_lower heq)
    rw [resolve_of_not_isBlank hblank, resolve_of_not_isBlank hblank, answer_register, if_neg hne]

/-- Loading entries, none of them under a spelling of a name. -/
theorem resolve_foldl {entries : List (String × Toml)}
    (hentries : ∀ name' fields, (name', .dict fields) ∈ entries → ¬ SameMnemonic py m name') :
    resolve py (entries.foldl (loadEntry py) registry) m = resolve py registry m := by
  induction entries generalizing registry with
  | nil => rfl
  | cons entry entries ih =>
    obtain ⟨name', v⟩ := entry
    rw [List.foldl_cons, ih fun n fields hmem => hentries n fields (List.mem_cons_of_mem _ hmem)]
    cases v with
    | dict fields =>
      exact resolve_register_of_not_same (hentries name' fields List.mem_cons_self)
    | _ => rfl

/-- A call that registers no spelling of a name leaves its spellings as they are. -/
theorem resolve_step {op : Op} (hop : ¬ Registers py name op) (h : SameMnemonic py m name) :
    resolve py (step py registry op).2 m = resolve py registry m := by
  have hother : ∀ {name'}, ¬ SameMnemonic py name' name → ¬ SameMnemonic py m name' :=
    fun hne hsame => hne (hsame.symm.trans h)
  cases op with
  | register name' distro' => exact resolve_register_of_not_same (hother hop)
  | load mnemonicsDict =>
    refine resolve_foldl fun name' fields hmem => hother fun hsame => hop ?_
    exact ⟨name', fields, hmem, hsame⟩

theorem resolve_run (h : SameMnemonic py m name) {later : List Op}
    (hlater : ∀ op ∈ later, ¬ Registers py name op) :
    resolve py (run (step py) registry later) m = resolve py registry m :=
  run_invariant (P := fun r => resolve py r m = resolve py registry m)
    (fun _ _ hop hr => (resolve_step hop h).trans hr) rfl hlater

/-- **Mnemonics**: in every registry that calls make, a registered name is found under all of its
spellings exactly where it is addressable. -/
theorem roundTrips_iff (py : PatternLib) (ops : List Op) (name : String) (distro : DistroAlias) :
    RoundTrips py (run (step py) {} ops) name distro ↔
      Addressable py (run (step py) {} ops) name distro := by
  constructor
  · intro htrip
    have hfound := htrip.kept [] (fun _ hop => absurd hop List.not_mem_nil)
    have hnotBlank : ∀ m, SameMnemonic py m name → ¬ IsBlank m := by
      intro m hm hblank
      have hm := hfound m hm
      rw [resolve_of_isBlank hblank] at hm
      cases hm
    refine ⟨hnotBlank, ?_⟩
    have hname := hfound name rfl
    rw [run_nil, resolve_of_not_isBlank (hnotBlank name rfl), answer_register] at hname
    split_ifs at hname with hself
    · exact .inl (keyOf_eq_lower_iff.mp hself)
    · exact .inr hname
  · intro haddress
    refine ⟨fun later hlater m hm => ?_, fun m hm => resolve_register_of_not_same hm⟩
    rw [resolve_run hm hlater, resolve_of_not_isBlank (haddress.notBlank m hm), answer_register]
    split_ifs with hself
    · rfl
    · have hkey : keyOf py m = keyOf py name := hm
      rcases haddress.found with hplain | hknown
      · exact absurd (hkey.trans (keyOf_eq_lower_iff.mpr hplain)) hself
      · rw [hkey, hknown]

/-- The ASCII patterns. -/
def asciiPatterns : PatternLib :=
  { StrLib.ascii with isDecimal := Char.isDigit, isDecimal_ascii := fun _ _ => rfl }

/-- A name with a separator is not found again. -/
theorem separator_not_found :
    resolve asciiPatterns (register asciiPatterns {} "my-router"
        (builtin "openwrt" "openwrt" "23.05")) "my-router" = none ∧
      ¬ RoundTrips asciiPatterns {} "my-router" (builtin "openwrt" "openwrt" "23.05") := by
  have hnone : resolve asciiPatterns (register asciiPatterns {} "my-router"
      (builtin "openwrt" "openwrt" "23.05")) "my-router" = none :=
    Option.isNone_iff_eq_none.mp (by decide +kernel)
  refine ⟨hnone, fun htrip => ?_⟩
  have hfound := htrip.kept [] (fun _ hop => absurd hop List.not_mem_nil) "my-router" rfl
  rw [run_nil, hnone] at hfound
  cases hfound

end MnemonicRegistry

end TftpOS
