import TftpOS.Matcher
import TftpOS.Python.Json
import TftpOS.Validation

/-!
# Lookups by MAC

The matcher, `PowerManager` of `tftpos/power.py` and `find_host_by_mac` of
`tftpos/named_objects.py` compare MACs lower-cased and with `:` for `-` (`normMac`). None of them
goes through `normalize_mac`, so they neither take the separators of a MAC out nor put them in,
and they keep the spaces around it. Two accepted spellings of one address are the same to them
exactly when they stand between the same spaces and both are bare or neither is
(`spellingsAgree_iff`).
-/

namespace TftpOS

open Lib

/-! ### The lookups -/

/-- `PowerManager`, for drivers of type `δ`. -/
structure PowerManager (δ : Type) where
  /-- The drivers, keyed by the MAC in lower case with colons for hyphens. -/
  drivers : Dict String δ := ∅

namespace PowerManager

variable {δ : Type} (py : StrLib) (pm : PowerManager δ)

/-- `register`. -/
def register (mac : String) (driver : δ) : PowerManager δ :=
  ⟨pm.drivers.set (normMac py mac) driver⟩

/-- `get_driver`. -/
def getDriver (mac : String) : Except PyExc δ :=
  match pm.drivers.get? (normMac py mac) with
  | none => .error ⟨.powerError, "no power driver configured for MAC " ++ py.repr mac⟩
  | some driver => .ok driver

end PowerManager

/-- `NamedHost`. The store does not check the types of its fields. -/
structure NamedHost where
  name : Json
  mac : Json
  profile : Json := .str ""
  distro : Json := .str ""
  hostname : Json := .str ""
  gateway : Json := .str ""
  nameservers : Json := .list []
  ipAddress : Json := .str ""
  netmask : Json := .str ""
  comment : Json := .str ""
  extra : Json := .dict []

namespace NamedHost

/-- The fields of a host. -/
def fields : List String :=
  ["name", "mac", "profile", "distro", "hostname", "gateway", "nameservers", "ip_address",
    "netmask", "comment", "extra"]

/-- `NamedHost(**data)`. -/
def ofDict : Json → Except PyExc NamedHost
  | .dict kvs =>
    let get := fun key default => (Value.lookup key kvs).getD default
    let missing := fun what => .error ⟨.typeError, "NamedHost.__init__() missing " ++ what⟩
    match kvs.find? fun e => e.1 ∉ fields with
    | some e => .error
        ⟨.typeError, "NamedHost.__init__() got an unexpected keyword argument '" ++ e.1 ++ "'"⟩
    | none =>
      match Value.lookup "name" kvs, Value.lookup "mac" kvs with
      | none, none => missing "2 required positional arguments: 'name' and 'mac'"
      | none, some _ => missing "1 required positional argument: 'name'"
      | some _, none => missing "1 required positional argument: 'mac'"
      | some name, some mac => .ok {
          name
          mac
          profile := get "profile" (.str "")
          distro := get "distro" (.str "")
          hostname := get "hostname" (.str "")
          gateway := get "gateway" (.str "")
          nameservers := get "nameservers" (.list [])
          ipAddress := get "ip_address" (.str "")
          netmask := get "netmask" (.str "")
          comment := get "comment" (.str "")
          extra := get "extra" (.dict []) }
  | _ => .error ⟨.typeError, "NamedHost() argument after ** must be a mapping"⟩

/-- The MAC as the lookup compares it. -/
def normalised (py : StrLib) (host : NamedHost) : Except PyExc String :=
  match host.mac with
  | .str mac => .ok (normMac py mac)
  | _ => .error ⟨.attributeError, "no attribute 'lower'"⟩

end NamedHost

/-- The hosts and the distros of a `NamedObjectStore`: the texts of their files, by file name. -/
structure NamedObjectStore (json : JsonText) where
  hosts : Dict String json.Text := ∅
  distros : Dict String json.Text := ∅

namespace NamedObjectStore

variable {json : JsonText} (py : StrLib) (store : NamedObjectStore json)

/-- `list_hosts`: the hosts of the files, by file name. -/
def listHosts : Except PyExc (List NamedHost) :=
  (sortOn Prod.fst store.hosts.entries).mapM fun e =>
    match json.loads e.2 with
    | none => .error ⟨.valueError, "Expecting value"⟩
    | some data => NamedHost.ofDict data

/-- The loop of `find_host_by_mac`. -/
def findIn (normalised : String) : List NamedHost → Except PyExc (Option NamedHost)
  | [] => .ok none
  | host :: hosts => do
    if (← host.normalised py) = normalised then return some host
    else findIn normalised hosts

/-- `find_host_by_mac`. -/
def findHostByMac (mac : String) : Except PyExc (Option NamedHost) := do
  findIn py (normMac py mac) (← store.listHosts)

end NamedObjectStore

/-! ### Two spellings of one address -/

/-- `str.lower` leaves whitespace alone. -/
def StrLib.KeepsSpaces (py : StrLib) : Prop :=
  ∀ s, (∀ c ∈ s.toList, c.toNat < 128 ∨ isSpace c = true) → py.lower s = asciiLower s

/-- The MACs stand between the same spaces, and both are bare or neither is. -/
structure SameLayout (m m' : String) : Prop where
  leading : leading m = leading m'
  trailing : trailing m = trailing m'
  bare : isBareMac (strip m).toList = isBareMac (strip m').toList

variable {py : StrLib} {m m' : String}

/-- What the lookups compare: the digits in lower case, with the separators and spaces there
were. -/
theorem toList_normMac (hkeep : py.KeepsSpaces) (h : validateMac m = true) :
    (normMac py m).toList =
      leading m ++ ((strip m).toList.map normChar ++ trailing m) := by
  have hchars : ∀ c ∈ m.toList, c.toNat < 128 ∨ isSpace c = true := by
    intro c hc
    rw [toList_eq_padded, List.mem_append, List.mem_append] at hc
    rcases hc with hc | hc | hc
    · exact .inr (isSpace_of_mem_leading hc)
    · rcases (facts_of_validateMac h).2.2 c hc with hhex | rfl | rfl
      · exact .inl (toNat_of_isHexDigit hhex)
      · exact .inl (by decide)
      · exact .inl (by decide)
    · exact .inr (isSpace_of_mem_trailing hc)
  have hspaces : ∀ {l : List Char}, (∀ c ∈ l, isSpace c = true) → l.map normChar = l := by
    intro l hl
    rw [List.map_congr_left fun c hc => normChar_of_isSpace (hl c hc), List.map_id']
  have hmap : (normMac py m).toList = m.toList.map normChar := by
    rw [normMac, toList_replaceChar, hkeep m hchars, asciiLower, String.toList_ofList, List.map_map]
    rfl
  rw [hmap, toList_eq_padded m, List.map_append, List.map_append,
    hspaces fun c => isSpace_of_mem_leading, hspaces fun c => isSpace_of_mem_trailing]

/-- The digits, separators and layout of an accepted MAC, as the lookups see them. -/
private theorem map_normChar_facts (h : validateMac m = true) :
    (strip m).toList.map normChar ≠ [] ∧ (∀ c ∈ (strip m).toList.map normChar, isSpace c = false) ∧
      (strip m).toList.map normChar =
        if isBareMac (strip m).toList then (digits (strip m).toList).map Char.toLower
        else grouped 5 ((digits (strip m).toList).map Char.toLower) := by
  obtain ⟨hlength, -, hall⟩ := facts_of_validateMac h
  have hne : (strip m).toList ≠ [] := by
    intro hnil
    rw [hnil] at hlength
    cases hlength
  refine ⟨fun hnil => hne (List.map_eq_nil_iff.mp hnil), ?_, ?_⟩
  · intro x hx
    obtain ⟨c, hc, rfl⟩ := List.mem_map.mp hx
    rcases hall c hc with hhex | rfl | rfl
    · rw [(facts_of_isHexDigit hhex).2.2.1]
      exact (facts_of_isHexDigit hhex).2.2.2.1
    · decide
    · decide
  · split_ifs with hbare
    · obtain ⟨hdigits, -, hhex⟩ := facts_of_isBareMac hbare
      rw [hdigits]
      exact List.map_congr_left fun c hc => (facts_of_isHexDigit (hhex c hc)).2.2.1
    · exact (facts_of_isMacGroups ((validateMac_iff.mp h).resolve_right hbare)).1

/-- **Two spellings of one address** are the same to the lookups exactly when they have the same
layout. -/
theorem normMac_eq_iff (hkeep : py.KeepsSpaces) (h : validateMac m = true)
    (h' : validateMac m' = true) (hsame : normalizeMac py m = normalizeMac py m') :
    normMac py m = normMac py m' ↔ SameLayout m m' := by
  have hdigits := (normalizeMac_eq_iff h h').mp hsame
  obtain ⟨hne, hsolid, hbody⟩ := map_normChar_facts h
  obtain ⟨hne', hsolid', hbody'⟩ := map_normChar_facts h'
  have hlength : ((digits (strip m').toList).map Char.toLower).length = 2 * 5 + 2 := by
    rw [List.length_map, (facts_of_validateMac h').1]
  have hbodies : (strip m).toList.map normChar = (strip m').toList.map normChar ↔
      isBareMac (strip m).toList = isBareMac (strip m').toList := by
    rw [hbody, hbody', hdigits]
    cases isBareMac (strip m).toList <;> cases isBareMac (strip m').toList
    · simp
    · -- with separators a MAC is longer than without
      refine iff_of_false (fun heq => ?_) (by decide)
      have hlong := congrArg List.length heq
      rw [if_neg (by decide), if_pos rfl, length_grouped hlength, hlength] at hlong
      omega
    · refine iff_of_false (fun heq => ?_) (by decide)
      have hlong := congrArg List.length heq
      rw [if_pos rfl, if_neg (by decide), length_grouped hlength, hlength] at hlong
      omega
    · simp
  rw [← String.toList_inj, toList_normMac hkeep h, toList_normMac hkeep h',
    padded_inj (fun c => isSpace_of_mem_leading) (fun c => isSpace_of_mem_leading)
      (fun c => isSpace_of_mem_trailing) (fun c => isSpace_of_mem_trailing) hne hne' hsolid hsolid',
    hbodies]
  exact ⟨fun ⟨hl, hb, ht⟩ => ⟨hl, ht, hb⟩, fun hlayout =>
    ⟨hlayout.leading, hlayout.bare, hlayout.trailing⟩⟩

/-! ### What the lookups return -/

/-- A rule of a list, with a mark where its MAC `m` is to be spelled `m'`. -/
def respell (m m' : String) (x : HostRule × Bool) : HostRule :=
  if x.2 = true ∧ x.1.mac = some m then { x.1 with mac := some m' } else x.1

variable (py) in
/-- The lookups take the two spellings for the same MAC. -/
structure SpellingsAgree (net : NetLib) (json : JsonText) (δ : Type) (m m' : String) : Prop where
  /-- In a request. -/
  request : ∀ (rules : List HostRule) (req : Request),
    (HostMatcher.init rules).matchRequest py net { req with mac := some m } =
      (HostMatcher.init rules).matchRequest py net { req with mac := some m' }
  /-- In any rules of a list: the same rule answers, respelled or not. -/
  rule : ∀ (marked : List (HostRule × Bool)) (req : Request), ∃ won : Option (HostRule × Bool),
    (HostMatcher.init (marked.map Prod.fst)).matchRequest py net req = won.map Prod.fst ∧
      (HostMatcher.init (marked.map (respell m m'))).matchRequest py net req =
        won.map (respell m m')
  /-- For a driver, where the text of the error aside. -/
  driver : ∀ pm : PowerManager δ, (pm.getDriver py m).toOption = (pm.getDriver py m').toOption
  host : ∀ store : NamedObjectStore json, store.findHostByMac py m = store.findHostByMac py m'

variable {net : NetLib}

theorem matchRequest_of_normMac_eq (hm : m ≠ "") (hm' : m' ≠ "") (h : normMac py m = normMac py m')
    (matcher : HostMatcher) (req : Request) :
    matcher.matchRequest py net { req with mac := some m } =
      matcher.matchRequest py net { req with mac := some m' } := by
  have hnorm : (filled (some m)).map (normMac py) = (filled (some m')).map (normMac py) := by
    rw [filled_eq_some_iff.mpr ⟨rfl, hm⟩, filled_eq_some_iff.mpr ⟨rfl, hm'⟩, Option.map_some, h]
    rfl
  simp only [HostMatcher.matchRequest, HostMatcher.candidates, hnorm]

/-- The rule that pins a MAC and nothing else. -/
def pinned (m : String) : HostRule where
  profile := ""
  osFamily := ""
  osVersion := ""
  mac := some m

/-- It answers the requests of its MAC. -/
theorem matchRequest_pinned (hm : m ≠ "") (hm' : m' ≠ "") :
    (HostMatcher.init [pinned m]).matchRequest py net { mac := some m' } =
      if normMac py m = normMac py m' then some (pinned m) else none := by
  have hnorm : (filled (some m')).map (normMac py) = some (normMac py m') := by
    rw [filled_eq_some_iff.mpr ⟨rfl, hm'⟩, Option.map_some]
  have hfilled : filled (some (normMac py m')) = some (normMac py m') := by
    rw [← hnorm, filled_map_normMac]
  have htier : matchTier py net (pinned m) (some (normMac py m')) none none none none none =
      if normMac py m = normMac py m' then some 0 else none := by
    simp only [matchTier, tierStep, pinned, hfilled, filled_eq_some_iff.mpr ⟨rfl, hm⟩,
      decide_eq_true_eq]
  have hcand : (HostMatcher.init [pinned m]).candidates py net { mac := some m' } =
      if normMac py m = normMac py m' then [(0, (pinned m).priority, pinned m)] else [] := by
    have hsorted : sortOn HostRule.priority [pinned m] = [pinned m] := rfl
    simp only [HostMatcher.candidates, HostMatcher.init, hsorted, hnorm, List.filterMap_cons, htier,
      List.filterMap_nil]
    split_ifs <;> rfl
  rw [HostMatcher.matchRequest, hcand]
  split_ifs <;> rfl

theorem matchTier_respell (hm : m ≠ "") (hm' : m' ≠ "") (h : normMac py m = normMac py m')
    (x : HostRule × Bool) (mac hostname subnet serial : Option String)
    (groups : Option (List String)) (arch : Option String) :
    matchTier py net (respell m m' x) mac hostname subnet serial groups arch =
      matchTier py net x.1 mac hostname subnet serial groups arch := by
  rw [respell]
  split_ifs with hx
  · have hfilled := filled_eq_some_iff.mpr ⟨rfl, hm⟩
    have hfilled' := filled_eq_some_iff.mpr ⟨rfl, hm'⟩
    simp only [matchTier, hx.2, hfilled, hfilled', List.any_cons, Option.isSome_some]
    rcases filled mac with _ | mac
    · rfl
    · simp only [tierStep, h]
  · rfl

theorem matchRequest_respell (hm : m ≠ "") (hm' : m' ≠ "") (h : normMac py m = normMac py m')
    (marked : List (HostRule × Bool)) (req : Request) :
    ∃ won : Option (HostRule × Bool),
      (HostMatcher.init (marked.map Prod.fst)).matchRequest py net req = won.map Prod.fst ∧
        (HostMatcher.init (marked.map (respell m m'))).matchRequest py net req =
          won.map (respell m m') := by
  refine HostMatcher.matchRequest_map_congr marked (fun x => ?_) fun x =>
    matchTier_respell hm hm' h x _ _ _ _ _ _
  rw [respell]
  split_ifs <;> rfl

/-- **Which spellings agree.** For two accepted spellings of one address: the matcher, the power
manager and `find_host_by_mac` take them for the same MAC if and only if they stand between the
same spaces and both are bare or neither is. -/
theorem spellingsAgree_iff (py : StrLib) (net : NetLib) (json : JsonText) (δ : Type) (m m' : String)
    (hkeep : py.KeepsSpaces) (h : validateMac m = true) (h' : validateMac m' = true)
    (hsame : normalizeMac py m = normalizeMac py m') :
    SpellingsAgree py net json δ m m' ↔ SameLayout m m' := by
  have hne : ∀ {m : String}, validateMac m = true → m ≠ "" := by
    rintro m hm rfl
    exact absurd hm (by decide)
  rw [← normMac_eq_iff hkeep h h' hsame]
  constructor
  · intro hagree
    have hrequest := hagree.request [pinned m] {}
    rw [matchRequest_pinned (hne h) (hne h), matchRequest_pinned (hne h) (hne h'), if_pos rfl]
      at hrequest
    by_contra hdiffer
    rw [if_neg hdiffer] at hrequest
    cases hrequest
  · intro hnorm
    refine ⟨fun rules req => matchRequest_of_normMac_eq (hne h) (hne h') hnorm _ req,
      matchRequest_respell (hne h) (hne h') hnorm, fun pm => ?_, fun store => ?_⟩
    · rw [PowerManager.getDriver, PowerManager.getDriver, hnorm]
      rcases pm.drivers.get? (normMac py m') with _ | driver
      · rfl
      · rfl
    · rw [NamedObjectStore.findHostByMac, NamedObjectStore.findHostByMac, hnorm]

/-! ### A bare spelling -/

/-- No patterns and no networks. -/
private def noNet : NetLib where
  fnmatch _ _ := false
  Network := Unit
  Address := Unit
  ipNetwork _ := none
  ipAddress _ := none
  contains _ _ := false

theorem spellingsAgree_iff_hyphens :
    SpellingsAgree .ascii noNet .parsed Unit "aa:bb:cc:dd:ee:ff" "AA-BB-CC-DD-EE-FF" ↔
      SameLayout "aa:bb:cc:dd:ee:ff" "AA-BB-CC-DD-EE-FF" :=
  spellingsAgree_iff .ascii noNet .parsed Unit _ _ (fun _ _ => rfl) (by decide +kernel)
    (by decide +kernel) (by decide +kernel)

private def labHosts : NamedObjectStore .parsed where
  hosts := .ofEntries
    [("lab.json", some (.dict [("name", .str "lab"), ("mac", .str "aa:bb:cc:dd:ee:ff")]))]

/-- What is kept under a MAC with colons is not found under the same MAC without. -/
theorem bare_spelling_missed :
    (validateMac "aa:bb:cc:dd:ee:ff" = true ∧ validateMac "aabbccddeeff" = true ∧
      normalizeMac .ascii "aa:bb:cc:dd:ee:ff" = normalizeMac .ascii "aabbccddeeff") ∧
    ((HostMatcher.init [pinned "aa:bb:cc:dd:ee:ff"]).matchRequest .ascii noNet
        { mac := some "aa:bb:cc:dd:ee:ff" } = some (pinned "aa:bb:cc:dd:ee:ff") ∧
      (HostMatcher.init [pinned "aa:bb:cc:dd:ee:ff"]).matchRequest .ascii noNet
        { mac := some "aabbccddeeff" } = none) ∧
    (((({} : PowerManager Unit).register .ascii "aa:bb:cc:dd:ee:ff" ()).getDriver .ascii
        "aa:bb:cc:dd:ee:ff").toOption = some () ∧
      ((({} : PowerManager Unit).register .ascii "aa:bb:cc:dd:ee:ff" ()).getDriver .ascii
        "aabbccddeeff").toOption = none) ∧
    ((labHosts.findHostByMac .ascii "aa:bb:cc:dd:ee:ff").map Option.isSome = .ok true ∧
      (labHosts.findHostByMac .ascii "aabbccddeeff").map Option.isSome = .ok false) ∧
    ¬ SpellingsAgree .ascii noNet .parsed Unit "aa:bb:cc:dd:ee:ff" "aabbccddeeff" := by
  have hcolons : (HostMatcher.init [pinned "aa:bb:cc:dd:ee:ff"]).matchRequest .ascii noNet
      { mac := some "aa:bb:cc:dd:ee:ff" } = some (pinned "aa:bb:cc:dd:ee:ff") := by decide +kernel
  have hbare : (HostMatcher.init [pinned "aa:bb:cc:dd:ee:ff"]).matchRequest .ascii noNet
      { mac := some "aabbccddeeff" } = none := by decide +kernel
  refine ⟨by decide +kernel, ⟨hcolons, hbare⟩, by decide +kernel, by decide +kernel,
    fun hagree => ?_⟩
  have hsame := hagree.request [pinned "aa:bb:cc:dd:ee:ff"] {}
  rw [hcolons, hbare] at hsame
  cases hsame

end TftpOS
