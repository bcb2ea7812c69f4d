import TftpOS.SafeNames

/-!
# Host names

`validate_hostname`, `sanitize_hostname`, `validate_url` and `sanitize_packages` of
`tftpos/validation.py`, and the check of a template's context in `FirmwarePlugin`.

RFC 952/1123 has labels of letters, digits and hyphens, with dots between them and at most one
behind. The code strips every dot at the end, and the `$` of its pattern lets a newline through
behind each label; apart from these two it accepts the host names (`hostnames_iff_not_misread`).
-/

namespace TftpOS

open Lib

/-! ### Validation -/

/-- The class `[a-zA-Z0-9\-]`. -/
def isLabelChar (c : Char) : Bool := c.isAlphanum || c == '-'

/-- The pattern `[a-zA-Z0-9]([a-zA-Z0-9\-]{0,61}[a-zA-Z0-9])?`. -/
def isLabel : List Char → Bool
  | [] => false
  | c :: cs => c.isAlphanum && (cs.isEmpty ||
      cs.dropLast.length ≤ 61 && cs.dropLast.all isLabelChar && cs.getLast?.any Char.isAlphanum)

/-- `_MAX_HOSTNAME_LEN`. -/
def maxHostnameLen : ℕ := 253

/-- `s.rstrip(".")`. -/
def rstripDots (s : String) : String := String.ofList (s.toList.rdropWhile (· = '.'))

/-- `s.split(".")`. -/
def splitDots (s : String) : List String := (s.toList.splitOn '.').map String.ofList

/-- `validate_hostname`. -/
def validateHostname (hostname : String) : Bool :=
  if hostname = "" then false
  else
    let hostname := rstripDots hostname
    if maxHostnameLen < hostname.length then false
    else (splitDots hostname).all (reLine isLabel)

/-- `sanitize_hostname`. -/
def sanitizeHostname (py : StrLib) (hostname : String) : Except PyExc String :=
  if !validateHostname hostname then
    .error ⟨.valueError, "invalid hostname: " ++ py.repr hostname ++
      " (must conform to RFC 952/1123: alphanumeric and hyphens, labels 1-63 chars, " ++
      "no leading/trailing hyphens)"⟩
  else .ok (rstripDots hostname)

/-- `_ALLOWED_URL_SCHEMES`. -/
def allowedUrlSchemes : List String := ["http", "https", "ftp", "nfs", "tftp"]

/-- `validate_url`, given the scheme and the network location that `urlparse` finds, or `none` for
its `ValueError`. -/
def validateUrl (urlparse : String → Option (String × String)) (url : String)
    (allowedSchemes : Option (List String)) : Bool :=
  if url = "" then false
  else
    let schemes := (filledList allowedSchemes).getD allowedUrlSchemes
    match urlparse url with
    | none => false
    | some (scheme, netloc) => scheme ∈ schemes && (netloc ≠ "" || scheme == "nfs")

/-- `validate_package_name` of an item of any type. -/
def validatePackageItem : Toml → Except PyExc Bool
  | .str pkg => .ok (validatePackageName pkg)
  | v =>
    if !v.truthy then .ok false
    else
      match v with
      | .list xs => if 256 < xs.length then .ok false else .error ⟨.typeError, "expected string"⟩
      | .dict kvs =>
        if 256 < (Dict.ofEntries kvs).keys.length then .ok false
        else .error ⟨.typeError, "expected string"⟩
      | v => .error ⟨.typeError, "object of type '" ++ v.qualifiedTypeName ++ "' has no len()"⟩

/-- `sanitize_packages`. -/
def sanitizePackages (toml : TomlLib) (packages : Toml) : Except PyExc (List Toml) := do
  let packages ← packages.iter
  for pkg in packages do
    if !(← validatePackageItem pkg) then
      .error ⟨.valueError, "invalid package name: " ++ toml.repr pkg ++ " (only alphanumeric, " ++
        "hyphens, underscores, dots, plus signs, colons allowed)"⟩
  return packages

/-- The check of the host name, where the context has one. -/
def checkHostname (py : StrLib) (context : Dict String Toml) : Except PyExc Unit :=
  match (context.get? "hostname").filter Value.truthy with
  | none => .ok ()
  | some (.str hostname) => (sanitizeHostname py hostname).map fun _ => ()
  | some v => .error
      ⟨.attributeError, "'" ++ v.qualifiedTypeName ++ "' object has no attribute 'rstrip'"⟩

/-- The check of the URL, where the context has one. -/
def checkInstallUrl (py : StrLib) (urlparse : String → Option (String × String))
    (context : Dict String Toml) : Except PyExc Unit :=
  match (context.get? "install_url").filter Value.truthy with
  | none => .ok ()
  | some (.str url) =>
    if !validateUrl urlparse url none then
      .error ⟨.valueError, "invalid install_url: " ++ py.repr url⟩
    else .ok ()
  | some v => .error
      ⟨.attributeError, "'" ++ v.qualifiedTypeName ++ "' object has no attribute 'decode'"⟩

/-- `_sanitize_context`. -/
def sanitizeContext (py : StrLib) (toml : TomlLib) (urlparse : String → Option (String × String))
    (context : Dict String Toml) : Except PyExc (Dict String Toml) := do
  checkHostname py context
  checkInstallUrl py urlparse context
  match context.get? "packages" with
  | none => pure ()
  | some packages => do
    let _ ← sanitizePackages toml packages
  return context

/-! ### Host names of RFC 952/1123 -/

/-- A label: 1 to 63 letters, digits and hyphens, with no hyphen at its ends. -/
structure IsHostLabel (l : String) : Prop where
  length_pos : 1 ≤ l.length
  length_le : l.length ≤ 63
  chars : ∀ c ∈ l.toList, isLabelChar c = true
  first : l.toList.head? ≠ some '-'
  last : l.toList.getLast? ≠ some '-'

/-- The text without the dot at its end, if it has one. -/
def dropFinalDot (h : String) : String :=
  if h.toList.getLast? = some '.' then String.ofList h.toList.dropLast else h

/-- A host name. -/
structure IsHostname (h : String) : Prop where
  length_pos : 1 ≤ (dropFinalDot h).length
  length_le : (dropFinalDot h).length ≤ 253
  labels : ∃ labels, labels ≠ [] ∧ (∀ l ∈ labels, IsHostLabel l) ∧
    dropFinalDot h = ".".intercalate labels

/-- Labels between dots, with dots behind. -/
def dotted (labels : List String) (dots : ℕ) : String :=
  ".".intercalate labels ++ String.ofList (List.replicate dots '.')

/-- Labels, each alone or with a newline behind it, and dots behind the last one: more than one of
them, or a newline. -/
def Misread (h : String) : Prop :=
  ∃ labels dots, labels ≠ [] ∧ h = dotted labels dots ∧
    (∀ l ∈ labels, IsHostLabel l ∨ ∃ m, l = m ++ "\n" ∧ IsHostLabel m) ∧
    (".".intercalate labels).length ≤ 253 ∧ (2 ≤ dots ∨ ∃ l ∈ labels, '\n' ∈ l.toList)

/-- The claims of the two callers for a host name: validation decides whether it is one, and what
gets through has its characters. -/
structure HostnameChecked (py : StrLib) (toml : TomlLib)
    (urlparse : String → Option (String × String)) (h : String) : Prop where
  validate : validateHostname h = true ↔ IsHostname h
  sanitize : ∀ v, sanitizeHostname py h = .ok v → ∀ c ∈ v.toList, isLabelChar c = true ∨ c = '.'
  context : ∀ context context', context.get? "hostname" = some (.str h) →
    sanitizeContext py toml urlparse context = .ok context' →
      ∀ c ∈ h.toList, isLabelChar c = true ∨ c = '.'

/-! ### Labels -/

theorem isAlphanum_iff_isLabelChar {c : Char} :
    c.isAlphanum = true ↔ isLabelChar c = true ∧ c ≠ '-' := by
  rw [isLabelChar, Bool.or_eq_true, beq_iff_eq]
  constructor
  · intro h
    refine ⟨.inl h, ?_⟩
    rintro rfl
    exact absurd h (by decide)
  · rintro ⟨h | h, hne⟩
    · exact h
    · exact absurd h hne

/-- The pattern matches the labels. -/
theorem isLabel_iff {l : String} : isLabel l.toList = true ↔ IsHostLabel l := by
  have hfields : IsHostLabel l ↔ 1 ≤ l.toList.length ∧ l.toList.length ≤ 63 ∧
      (∀ c ∈ l.toList, isLabelChar c = true) ∧ l.toList.head? ≠ some '-' ∧
        l.toList.getLast? ≠ some '-' := by
    rw [String.length_toList]
    exact ⟨fun h => ⟨h.1, h.2, h.3, h.4, h.5⟩, fun h => ⟨h.1, h.2.1, h.2.2.1, h.2.2.2.1, h.2.2.2.2⟩⟩
  rw [hfields]
  rcases l.toList with _ | ⟨c, cs⟩
  · simp [isLabel]
  · rcases List.eq_nil_or_concat cs with rfl | ⟨mid, d, rfl⟩
    · simp [isLabel, isAlphanum_iff_isLabelChar]
    · rw [List.concat_eq_append]
      have hlast : (c :: (mid ++ [d])).getLast? = some d := by
        rw [← List.cons_append, List.getLast?_concat]
      have hempty : (mid ++ [d]).isEmpty = false := by simp
      rw [isLabel, hlast, hempty, Bool.false_or, List.dropLast_concat, List.getLast?_concat]
      simp only [Option.any_some, Bool.and_eq_true, decide_eq_true_eq, List.all_eq_true,
        isAlphanum_iff_isLabelChar, List.length_cons, List.length_append, List.length_nil,
        List.mem_cons, List.mem_append, List.not_mem_nil, or_false, List.head?_cons, ne_eq,
        Option.some.injEq]
      constructor
      · rintro ⟨⟨hc, hcne⟩, ⟨hlength, hmid⟩, hd, hdne⟩
        refine ⟨by omega, by omega, ?_, hcne, hdne⟩
        rintro x (rfl | hx | rfl)
        · exact hc
        · exact hmid x hx
        · exact hd
      · rintro ⟨-, hlength, hall, hcne, hdne⟩
        exact ⟨⟨hall c (.inl rfl), hcne⟩, ⟨by omega, fun x hx => hall x (.inr (.inl hx))⟩,
          hall d (.inr (.inr rfl)), hdne⟩

theorem reLine_isLabel_iff {l : String} :
    reLine isLabel l = true ↔ IsHostLabel l ∨ ∃ m, l = m ++ "\n" ∧ IsHostLabel m := by
  rw [reLine_iff, isLabel_iff]
  simp only [isLabel_iff]

/-- A label, with a newline or without, is not empty and has no dot. -/
theorem solid_of_isHostLabel {l : String}
    (h : IsHostLabel l ∨ ∃ m, l = m ++ "\n" ∧ IsHostLabel m) : l ≠ "" ∧ '.' ∉ l.toList := by
  have hsolid : ∀ {m}, IsHostLabel m → m ≠ "" ∧ '.' ∉ m.toList := by
    intro m hm
    refine ⟨?_, fun hdot => absurd (hm.chars _ hdot) (by decide)⟩
    rintro rfl
    exact absurd hm.length_pos (by decide)
  rcases h with hl | ⟨m, rfl, hm⟩
  · exact hsolid hl
  · simp [(hsolid hm).2]

theorem not_newline_of_isHostLabel {l : String} (h : IsHostLabel l) : '\n' ∉ l.toList :=
  fun hmem => absurd (h.chars _ hmem) (by decide)

/-! ### Dots -/

section

variable {labels : List String}

/-- The last label stands at the end. -/
theorem exists_eq_append (h : labels ≠ []) :
    ∃ start, ∃ l ∈ labels, ".".intercalate labels = start ++ l := by
  induction labels with
  | nil => exact absurd rfl h
  | cons l labels ih =>
    rcases labels with _ | ⟨m, labels⟩
    · exact ⟨"", l, List.mem_cons_self, by simp⟩
    · obtain ⟨start, last, hmem, heq⟩ := ih (List.cons_ne_nil _ _)
      refine ⟨l ++ "." ++ start, last, List.mem_cons_of_mem _ hmem, ?_⟩
      rw [String.intercalate_cons_cons, heq, ← String.append_assoc]

theorem mem_intercalate {c : Char} (h : c ∈ (".".intercalate labels).toList) :
    c = '.' ∨ ∃ l ∈ labels, c ∈ l.toList := by
  induction labels with
  | nil => exact absurd h (by simp)
  | cons l labels ih =>
    rcases labels with _ | ⟨m, labels⟩
    · exact .inr ⟨l, List.mem_cons_self, by simpa using h⟩
    · rw [String.intercalate_cons_cons, String.toList_append, String.toList_append,
        List.mem_append, List.mem_append] at h
      rcases h with (h | h) | h
      · exact .inr ⟨l, List.mem_cons_self, h⟩
      · exact .inl (by simpa using h)
      · exact (ih h).imp_right fun ⟨k, hk, hc⟩ => ⟨k, List.mem_cons_of_mem _ hk, hc⟩

theorem rstripDots_append (s : String) (dots : ℕ) :
    rstripDots (s ++ String.ofList (List.replicate dots '.')) = rstripDots s := by
  have hdots : ∀ c ∈ (List.replicate dots '.').reverse, decide (c = '.') = true := by
    intro c hc
    rw [List.mem_reverse] at hc
    exact decide_eq_true (List.eq_of_mem_replicate hc)
  rw [rstripDots, rstripDots, String.toList_append, String.toList_ofList, List.rdropWhile,
    List.rdropWhile, List.reverse_append, List.dropWhile_append_of_pos hdots]

/-- Stripping leaves the labels. -/
theorem rstripDots_dotted (hne : labels ≠ []) (hsolid : ∀ l ∈ labels, l ≠ "" ∧ '.' ∉ l.toList)
    (dots : ℕ) : rstripDots (dotted labels dots) = ".".intercalate labels := by
  obtain ⟨start, l, hl, heq⟩ := exists_eq_append hne
  obtain ⟨hl_ne, hl_dot⟩ := hsolid l hl
  have hself : (start ++ l).toList.rdropWhile (· = '.') = (start ++ l).toList := by
    refine List.rdropWhile_eq_self_iff.mpr fun hnil hlast => hl_dot ?_
    have hl_nil : l.toList ≠ [] := by rwa [ne_eq, String.toList_eq_nil_iff]
    rw [← of_decide_eq_true hlast]
    simp only [String.toList_append, List.getLast_append_of_ne_nil _ hl_nil]
    exact List.getLast_mem hl_nil
  rw [dotted, rstripDots_append, heq, rstripDots, hself, String.ofList_toList]

theorem splitDots_intercalate (hne : labels ≠ []) (hsolid : ∀ l ∈ labels, '.' ∉ l.toList) :
    splitDots (".".intercalate labels) = labels := by
  have hdot : ∀ l ∈ labels.map String.toList, '.' ∉ l := by
    intro l hl
    obtain ⟨s, hs, rfl⟩ := List.mem_map.mp hl
    exact hsolid s hs
  have hsplit := List.splitOn_intercalate '.' hdot (by simpa using hne)
  have htext : (".".intercalate labels).toList =
      List.intercalate ['.'] (labels.map String.toList) := String.toList_intercalate
  rw [splitDots, htext, hsplit, List.map_map]
  simp [Function.comp_def]

/-- A text is its labels, and the dots that stripping takes. -/
theorem eq_dotted (h : String) :
    splitDots (rstripDots h) ≠ [] ∧ ∃ dots, h = dotted (splitDots (rstripDots h)) dots := by
  have hne : splitDots (rstripDots h) ≠ [] := by
    rw [splitDots, ne_eq, List.map_eq_nil_iff]
    exact List.splitOn_ne_nil '.' (rstripDots h).toList
  have hjoin : ".".intercalate (splitDots (rstripDots h)) = rstripDots h := by
    have hlabels : (splitDots (rstripDots h)).map String.toList =
        (rstripDots h).toList.splitOn '.' := by simp [splitDots, Function.comp_def]
    have hdot : (".".toList : List Char) = ['.'] := rfl
    rw [← String.toList_inj, String.toList_intercalate, hlabels, hdot, List.intercalate_splitOn]
  refine ⟨hne, (h.toList.rtakeWhile (· = '.')).length, ?_⟩
  have hdots : h.toList.rtakeWhile (· = '.') =
      List.replicate (h.toList.rtakeWhile (· = '.')).length '.' :=
    List.eq_replicate_of_mem fun c hc =>
      of_decide_eq_true (List.mem_rtakeWhile_imp (p := fun c => decide (c = '.')) hc)
  rw [dotted, hjoin, ← hdots, ← String.toList_inj, String.toList_append, String.toList_ofList,
    rstripDots, String.toList_ofList, List.rdropWhile_append_rtakeWhile]

end

/-! ### What is accepted -/

theorem validateHostname_iff {h : String} :
    validateHostname h = true ↔ ∃ labels dots, labels ≠ [] ∧ h = dotted labels dots ∧
      (∀ l ∈ labels, IsHostLabel l ∨ ∃ m, l = m ++ "\n" ∧ IsHostLabel m) ∧
      (".".intercalate labels).length ≤ 253 := by
  constructor
  · intro hvalid
    simp only [validateHostname] at hvalid
    split_ifs at hvalid with hempty hlong
    obtain ⟨hne, dots, heq⟩ := eq_dotted h
    have hlabels : ∀ l ∈ splitDots (rstripDots h),
        IsHostLabel l ∨ ∃ m, l = m ++ "\n" ∧ IsHostLabel m :=
      fun l hl => reLine_isLabel_iff.mp (List.all_eq_true.mp hvalid l hl)
    have hstrip := rstripDots_dotted hne (fun l hl => solid_of_isHostLabel (hlabels l hl)) dots
    rw [← heq] at hstrip
    refine ⟨_, dots, hne, heq, hlabels, ?_⟩
    rw [← hstrip]
    exact Nat.le_of_not_lt hlong
  · rintro ⟨labels, dots, hne, rfl, hlabels, hlength⟩
    have hsolid : ∀ l ∈ labels, l ≠ "" ∧ '.' ∉ l.toList :=
      fun l hl => solid_of_isHostLabel (hlabels l hl)
    have hnonempty : dotted labels dots ≠ "" := by
      obtain ⟨start, l, hl, heq⟩ := exists_eq_append hne
      rw [dotted, heq]
      simp [(hsolid l hl).1]
    have hshort : ¬ maxHostnameLen < (".".intercalate labels).length := Nat.not_lt.mpr hlength
    rw [validateHostname, if_neg hnonempty]
    simp only [rstripDots_dotted hne hsolid dots]
    rw [if_neg hshort, splitDots_intercalate hne fun l hl => (hsolid l hl).2, List.all_eq_true]
    exact fun l hl => reLine_isLabel_iff.mpr (hlabels l hl)

theorem isHostname_iff {h : String} :
    IsHostname h ↔ ∃ labels dots, labels ≠ [] ∧ h = dotted labels dots ∧
      (∀ l ∈ labels, IsHostLabel l) ∧ (".".intercalate labels).length ≤ 253 ∧ dots ≤ 1 := by
  constructor
  · rintro ⟨-, hlength, labels, hne, hlabels, heq⟩
    rw [heq] at hlength
    by_cases hdot : h.toList.getLast? = some '.'
    · refine ⟨labels, 1, hne, ?_, hlabels, hlength, le_rfl⟩
      rw [dropFinalDot, if_pos hdot] at heq
      rw [dotted, ← heq, ← String.toList_inj, String.toList_append, String.toList_ofList,
        String.toList_ofList]
      exact (List.dropLast_append_getLast? _ hdot).symm
    · refine ⟨labels, 0, hne, ?_, hlabels, hlength, Nat.zero_le 1⟩
      rw [dropFinalDot, if_neg hdot] at heq
      rw [dotted, ← heq]
      simp
  · rintro ⟨labels, dots, hne, rfl, hlabels, hlength, hdots⟩
    obtain ⟨start, l, hl, heq⟩ := exists_eq_append hne
    obtain ⟨hl_ne, hl_dot⟩ := solid_of_isHostLabel (.inl (hlabels l hl))
    have hl_nil : l.toList ≠ [] := by rwa [ne_eq, String.toList_eq_nil_iff]
    have hdrop : dropFinalDot (dotted labels dots) = ".".intercalate labels := by
      obtain rfl | rfl : dots = 0 ∨ dots = 1 := by omega
      · have hlast : (start ++ l).toList.getLast? ≠ some '.' := by
          rw [String.toList_append, List.getLast?_append_of_ne_nil _ hl_nil]
          exact fun hsome => hl_dot (List.mem_of_getLast? hsome)
        have hzero : dotted labels 0 = start ++ l := by simp [dotted, heq]
        rw [dropFinalDot, hzero, if_neg hlast, heq]
      · have hone : (dotted labels 1).toList = (".".intercalate labels).toList ++ ['.'] := by
          simp [dotted]
        rw [dropFinalDot, hone, if_pos List.getLast?_concat, List.dropLast_concat,
          String.ofList_toList]
    refine ⟨?_, hdrop ▸ hlength, labels, hne, hlabels, hdrop⟩
    rw [hdrop, heq, String.length_append]
    have hpos := (hlabels l hl).length_pos
    omega

theorem IsHostname.validate {h : String} (hname : IsHostname h) : validateHostname h = true := by
  obtain ⟨labels, dots, hne, heq, hlabels, hlength, -⟩ := isHostname_iff.mp hname
  exact validateHostname_iff.mpr ⟨labels, dots, hne, heq, fun l hl => .inl (hlabels l hl), hlength⟩

/-- What is accepted is a host name or misread. -/
theorem isHostname_of_validate {h : String} (hvalid : validateHostname h = true)
    (hread : ¬ Misread h) : IsHostname h := by
  obtain ⟨labels, dots, hne, heq, hlabels, hlength⟩ := validateHostname_iff.mp hvalid
  have hfew : ¬ (2 ≤ dots ∨ ∃ l ∈ labels, '\n' ∈ l.toList) := fun hmany =>
    hread ⟨labels, dots, hne, heq, hlabels, hlength, hmany⟩
  rw [not_or] at hfew
  refine isHostname_iff.mpr ⟨labels, dots, hne, heq, fun l hl => ?_, hlength, by omega⟩
  refine (hlabels l hl).resolve_right ?_
  rintro ⟨m, rfl, -⟩
  exact hfew.2 ⟨_, hl, by simp⟩

/-- No misread text is a host name. -/
theorem Misread.not_isHostname {h : String} (hmis : Misread h) : ¬ IsHostname h := by
  intro hname
  obtain ⟨labels, dots, hne, rfl, hlabels, -, hmany⟩ := hmis
  obtain ⟨labels', dots', hne', heq, hlabels', -, hdots'⟩ := isHostname_iff.mp hname
  have hsolid : ∀ l ∈ labels, l ≠ "" ∧ '.' ∉ l.toList :=
    fun l hl => solid_of_isHostLabel (hlabels l hl)
  have hsolid' : ∀ l ∈ labels', l ≠ "" ∧ '.' ∉ l.toList :=
    fun l hl => solid_of_isHostLabel (.inl (hlabels' l hl))
  have hjoin : ".".intercalate labels = ".".intercalate labels' := by
    rw [← rstripDots_dotted hne hsolid dots, heq, rstripDots_dotted hne' hsolid' dots']
  have hsame : labels = labels' := by
    rw [← splitDots_intercalate hne fun l hl => (hsolid l hl).2, hjoin,
      splitDots_intercalate hne' fun l hl => (hsolid' l hl).2]
  subst hsame
  rcases hmany with hdots | ⟨l, hl, hnewline⟩
  · have hlength := congrArg (fun s : String => s.toList.length) heq
    simp only [dotted, String.toList_append, String.toList_ofList, List.length_append,
      List.length_replicate] at hlength
    omega
  · exact not_newline_of_isHostLabel (hlabels' l hl) hnewline

theorem IsHostname.char {h : String} (hname : IsHostname h) :
    ∀ c ∈ h.toList, isLabelChar c = true ∨ c = '.' := by
  obtain ⟨labels, dots, -, rfl, hlabels, -, -⟩ := isHostname_iff.mp hname
  intro c hc
  rw [dotted, String.toList_append, String.toList_ofList, List.mem_append] at hc
  rcases hc with hc | hc
  · rcases mem_intercalate hc with hdot | ⟨l, hl, hcl⟩
    · exact .inr hdot
    · exact .inl ((hlabels l hl).chars c hcl)
  · exact .inr (List.eq_of_mem_replicate hc)

theorem validateHostname_of_sanitizeHostname {py : StrLib} {h v : String}
    (hv : sanitizeHostname py h = .ok v) : validateHostname h = true ∧ v = rstripDots h := by
  rw [sanitizeHostname] at hv
  split_ifs at hv with hvalid
  exact ⟨by simpa using hvalid, (Except.ok.inj hv).symm⟩

/-- The host name of a context that passes is accepted. -/
theorem validateHostname_of_sanitizeContext {py : StrLib} {toml : TomlLib}
    {urlparse : String → Option (String × String)} {context context' : Dict String Toml}
    {h : String} (hget : context.get? "hostname" = some (.str h))
    (hpass : sanitizeContext py toml urlparse context = .ok context') (hne : h ≠ "") :
    validateHostname h = true := by
  have htruthy : (Value.str h : Toml).truthy = true := by simp [Value.truthy, hne]
  obtain ⟨u, hcheck, -⟩ := bind_eq_ok_iff.mp hpass
  rw [checkHostname, hget, Option.filter_some, if_pos htruthy] at hcheck
  dsimp only at hcheck
  rcases hv : sanitizeHostname py h with e | v
  · rw [hv] at hcheck
    cases hcheck
  · exact (validateHostname_of_sanitizeHostname hv).1

/-- **Host names**: they are checked as RFC 952/1123 has them exactly where they are not
misread. -/
theorem hostnames_iff_not_misread (py : StrLib) (toml : TomlLib)
    (urlparse : String → Option (String × String)) (h : String) :
    HostnameChecked py toml urlparse h ↔ ¬ Misread h := by
  constructor
  · intro hchecked hmis
    obtain ⟨labels, dots, hne, heq, hlabels, hlength, -⟩ := id hmis
    have hvalid := validateHostname_iff.mpr ⟨labels, dots, hne, heq, hlabels, hlength⟩
    exact hmis.not_isHostname (hchecked.validate.mp hvalid)
  · intro hread
    refine ⟨⟨fun hvalid => isHostname_of_validate hvalid hread, IsHostname.validate⟩, ?_, ?_⟩
    · intro v hv c hc
      obtain ⟨hvalid, rfl⟩ := validateHostname_of_sanitizeHostname hv
      rw [rstripDots, String.toList_ofList] at hc
      exact (isHostname_of_validate hvalid hread).char c ((List.rdropWhile_prefix _ _).subset hc)
    · intro context context' hget hpass c hc
      have hne : h ≠ "" := by
        rintro rfl
        exact absurd hc (by simp)
      have hvalid := validateHostname_of_sanitizeContext hget hpass hne
      exact (isHostname_of_validate hvalid hread).char c hc

/-- A newline behind a label gets through, and so does a second dot. -/
theorem hostname_line_accepted :
    validateHostname "a\n" = true ∧ sanitizeHostname .ascii "a\n" = .ok "a\n" ∧
      validateHostname "a.." = true ∧ ¬ IsHostname "a\n" ∧ ¬ IsHostname "a.." := by
  have hlabel : IsHostLabel "a" := isLabel_iff.mp (by decide +kernel)
  refine ⟨by decide +kernel, by decide +kernel, by decide +kernel, ?_, ?_⟩
  · refine Misread.not_isHostname
      ⟨["a\n"], 0, by simp, by decide +kernel, ?_, by decide +kernel, ?_⟩
    · exact fun l hl => .inr ⟨"a", List.mem_singleton.mp hl, hlabel⟩
    · exact .inr ⟨"a\n", by simp, by decide⟩
  · refine Misread.not_isHostname
      ⟨["a"], 2, by simp, by decide +kernel, ?_, by decide +kernel, ?_⟩
    · exact fun l hl => .inl (List.mem_singleton.mp hl ▸ hlabel)
    · exact .inl le_rfl

end TftpOS
