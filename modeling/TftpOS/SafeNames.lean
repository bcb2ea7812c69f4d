import TftpOS.Cluster
import TftpOS.FirmwarePaths
import TftpOS.NamedObjects
import TftpOS.RepoMirror

/-!
# Names that pass

What the validators of names let through: `validate_package_name` of `tftpos/validation.py`,
`_validate_name` of the named objects, `_validate_cluster_name`, `_validate_mirror_name` and
`_validate_segment` of the plugins. Each is a whitelist between the anchors `^` and `$`, and `$`
also matches before a newline at the end. So a name followed by a newline is accepted, and this is
the only way in which a character that is not in a whitelist gets through
(`whitelistsKept_iff_not_endsLine`).
-/

namespace TftpOS

open Lib

/-- The class `[a-zA-Z0-9._+:\-]`. -/
def isPackageChar (c : Char) : Bool := c.isAlphanum || c ∈ ['.', '_', '+', ':', '-']

/-- The pattern `[a-zA-Z0-9][a-zA-Z0-9._+:\-]*`. -/
def isPackageName : List Char → Bool
  | [] => false
  | c :: cs => c.isAlphanum && cs.all isPackageChar

/-- `validate_package_name`. -/
def validatePackageName (pkg : String) : Bool :=
  if pkg = "" ∨ 256 < pkg.length then false else reLine isPackageName pkg

/-- The class of `_SHELL_UNSAFE_RE`, with the backquote by its code. -/
def shellUnsafe : List Char :=
  [';', '&', '|', Char.ofNat 0x60, '$', '"', '\'', '\\', '\n', '\r', '<', '>', '(', ')', '{', '}',
    '!', '\x00']

/-- `is_shell_safe`. -/
def isShellSafe (value : String) : Bool := !value.toList.any fun c => c ∈ shellUnsafe

/-! ### Whitelists -/

/-- The class `[A-Za-z0-9._-]`. -/
def isNameChar (c : Char) : Bool := c.isAlphanum || c ∈ ['.', '_', '-']

variable (py : StrLib)

/-- The class `[\w.\-]`. -/
def isSegmentChar (c : Char) : Bool := py.isWord c || c == '.' || c == '-'

/-- One of the validators accepts a text. -/
def Accepted (s : String) : Prop :=
  validatePackageName s = true ∨ validateName py s = .ok () ∨ validateClusterName py s = .ok () ∨
    validateMirrorName py s = .ok () ∨
    ∃ label, validateSegment py (.str s) label = .ok s

/-- Every validator that accepts a text found its characters in the whitelist. -/
structure WhitelistsKept (s : String) : Prop where
  package : validatePackageName s = true →
    (∀ c ∈ s.toList, isPackageChar c = true) ∧ isShellSafe s = true
  name : validateName py s = .ok () → ∀ c ∈ s.toList, isNameChar c = true
  cluster : validateClusterName py s = .ok () → ∀ c ∈ s.toList, isNameChar c = true
  mirror : validateMirrorName py s = .ok () → ∀ c ∈ s.toList, isNameChar c = true
  segment : ∀ label, validateSegment py (.str s) label = .ok s →
    ∀ c ∈ s.toList, isSegmentChar py c = true
  clean : Accepted py s → '\n' ∉ s.toList ∧ '/' ∉ s.toList ∧ '\x00' ∉ s.toList

/-- A segment, or the name of a package of at most 255 characters, with a newline behind it. -/
def EndsLine (s : String) : Prop :=
  ∃ t, s = t ++ "\n" ∧
    (t ≠ "" ∧ (∀ c ∈ t.toList, isSegmentChar py c = true) ∨
      isPackageName t.toList = true ∧ t.length ≤ 255)

variable {py} {s : String}

/-! ### What the patterns match -/

theorem forall_of_isPackageName {cs : List Char} (h : isPackageName cs = true) :
    ∀ c ∈ cs, isPackageChar c = true := by
  rcases cs with _ | ⟨c, cs⟩
  · cases h
  · rw [isPackageName, Bool.and_eq_true, List.all_eq_true] at h
    refine List.forall_mem_cons.mpr ⟨?_, h.2⟩
    rw [isPackageChar, h.1, Bool.true_or]

theorem forall_of_isSafeName {cs : List Char} (h : isSafeName cs = true) :
    ∀ c ∈ cs, isNameChar c = true := by
  rcases cs with _ | ⟨c, cs⟩
  · cases h
  · rw [isSafeName, Bool.and_eq_true, List.all_eq_true] at h
    refine List.forall_mem_cons.mpr ⟨?_, h.2⟩
    rw [isNameChar, h.1, Bool.true_or]

theorem isSegment_iff {cs : List Char} :
    isSegment py cs = true ↔ cs ≠ [] ∧ ∀ c ∈ cs, isSegmentChar py c = true := by
  rw [isSegment, Bool.and_eq_true, List.all_eq_true]
  simp [isSegmentChar]

theorem toNat_lt_of_isAlphanum {c : Char} (h : c.isAlphanum = true) : c.toNat < 128 := by
  have hlast : ∀ {d : Char}, c.val ≤ d.val → d.toNat < 128 → c.toNat < 128 :=
    fun hle hd => (UInt32.le_iff_toNat_le.mp hle).trans_lt hd
  rcases Bool.or_eq_true_iff.mp h with halpha | hdigit
  · rcases Bool.or_eq_true_iff.mp halpha with hupper | hlower
    · exact @hlast 'Z' (of_decide_eq_true hupper).2 (by decide)
    · exact @hlast 'z' (of_decide_eq_true (Bool.and_eq_true_iff.mp hlower).2) (by decide)
  · exact @hlast '9' (of_decide_eq_true (Bool.and_eq_true_iff.mp hdigit).2) (by decide)

/-- A character of a name can stand in a segment. -/
theorem isSegmentChar_of_isNameChar {c : Char} (h : isNameChar c = true) :
    isSegmentChar py c = true := by
  rw [isNameChar, Bool.or_eq_true] at h
  rcases h with halpha | hother
  · have hascii := toNat_lt_of_isAlphanum halpha
    rw [isSegmentChar, py.isWord_ascii c hascii, halpha]
    rfl
  · have hcases : c = '.' ∨ c = '_' ∨ c = '-' := by simpa using hother
    rw [isSegmentChar]
    rcases hcases with rfl | rfl | rfl
    · simp
    · rw [py.isWord_ascii '_' (by decide)]
      rfl
    · simp

/-- No whitelist holds a newline, a slash or a NUL. -/
theorem not_mem_whitelists {c : Char} (h : c ∈ ['\n', '/', '\x00']) :
    isPackageChar c = false ∧ isNameChar c = false ∧ isSegmentChar py c = false := by
  have hascii : c.toNat < 128 ∧ (c.isAlphanum || c == '_') = false := by
    rcases (by simpa using h : c = '\n' ∨ c = '/' ∨ c = '\x00') with rfl | rfl | rfl <;> decide
  rw [isSegmentChar, py.isWord_ascii c hascii.1, hascii.2]
  rcases (by simpa using h : c = '\n' ∨ c = '/' ∨ c = '\x00') with rfl | rfl | rfl <;> decide

/-- No character of a package name means anything to a shell. -/
theorem isShellSafe_of_isPackageChar (h : ∀ c ∈ s.toList, isPackageChar c = true) :
    isShellSafe s = true := by
  have hall : shellUnsafe.all (fun c => !isPackageChar c) = true := by decide
  rw [isShellSafe, Bool.not_eq_true', List.any_eq_false]
  intro c hc hmem
  have hpackage := List.all_eq_true.mp hall c (by simpa using hmem)
  rw [h c hc] at hpackage
  cases hpackage

/-! ### What the validators accept -/

theorem validatePackageName_iff :
    validatePackageName s = true ↔ s.length ≤ 256 ∧
      (isPackageName s.toList = true ∨ ∃ t, s = t ++ "\n" ∧ isPackageName t.toList = true) := by
  rw [validatePackageName]
  split_ifs with h
  · refine iff_of_false (by simp) ?_
    rintro ⟨hlength, hpattern⟩
    obtain rfl := h.resolve_right (by omega)
    rcases hpattern with hempty | ⟨t, ht, -⟩
    · cases hempty
    · have hlen := congrArg String.length ht
      rw [String.length_append] at hlen
      have hone : ("\n" : String).length = 1 := rfl
      rw [hone] at hlen
      exact absurd hlen (by simp)
  · rw [reLine_iff]
    exact ⟨fun hp => ⟨by omega, hp⟩, And.right⟩

/-- The pattern that the two validators of stored names share. -/
theorem reLine_of_validateName (h : validateName py s = .ok ()) : reLine isSafeName s = true := by
  rw [validateName] at h
  split_ifs at h with h₁ h₂ h₃ h₄
  simpa using h₄

theorem reLine_of_validateClusterName (h : validateClusterName py s = .ok ()) :
    reLine isSafeName s = true := by
  rw [validateClusterName] at h
  split_ifs at h with h₁ h₂ h₃ h₄
  simpa using h₄

theorem reLine_of_validateMirrorName (h : validateMirrorName py s = .ok ()) :
    reLine isSafeName s = true := by
  rw [validateMirrorName] at h
  split_ifs at h with hpattern hdots
  rw [Bool.not_eq_true', Bool.not_eq_false, reLine_iff] at hpattern
  rw [reLine_iff]
  refine hpattern.imp ?_ ?_
  · exact fun hp => (Bool.and_eq_true .. ▸ hp).1
  · rintro ⟨t, rfl, hp⟩
    exact ⟨t, rfl, (Bool.and_eq_true .. ▸ hp).1⟩

/-- A name is made of its whitelist, unless it ends the line. -/
theorem forall_of_reLine_isSafeName (h : reLine isSafeName s = true) (hline : ¬ EndsLine py s) :
    ∀ c ∈ s.toList, isNameChar c = true := by
  rcases reLine_iff.mp h with hname | ⟨t, rfl, ht⟩
  · exact forall_of_isSafeName hname
  · refine absurd ⟨t, rfl, .inl ⟨?_, fun c hc => ?_⟩⟩ hline
    · rintro rfl
      cases ht
    · exact isSegmentChar_of_isNameChar (forall_of_isSafeName ht c hc)

theorem forall_of_validateSegment {label : String}
    (h : validateSegment py (.str s) label = .ok s) (hline : ¬ EndsLine py s) :
    ∀ c ∈ s.toList, isSegmentChar py c = true := by
  rcases reLine_iff.mp (validateSegment_eq_ok_iff.mp h).2.matches_pattern with hs | ⟨t, rfl, ht⟩
  · exact (isSegment_iff.mp hs).2
  · rw [isSegment_iff, ne_eq, String.toList_eq_nil_iff] at ht
    exact absurd ⟨t, rfl, .inl ht⟩ hline

theorem forall_of_validatePackageName (h : validatePackageName s = true)
    (hline : ¬ EndsLine py s) : ∀ c ∈ s.toList, isPackageChar c = true := by
  obtain ⟨hlength, hs | ⟨t, rfl, ht⟩⟩ := validatePackageName_iff.mp h
  · exact forall_of_isPackageName hs
  · rw [String.length_append] at hlength
    have hone : ("\n" : String).length = 1 := rfl
    exact absurd ⟨t, rfl, .inr ⟨ht, by omega⟩⟩ hline

/-- A line with a name on it is accepted. -/
theorem EndsLine.accepted (h : EndsLine py s) : Accepted py s := by
  obtain ⟨t, rfl, ⟨hne, hsegment⟩ | ⟨hpackage, hlength⟩⟩ := h
  · refine .inr (.inr (.inr (.inr ⟨"", validateSegment_eq_ok_iff.mpr ⟨rfl, ?_, ?_, ?_⟩⟩)))
    · simp
    · -- a line is no dots
      have hlast : ∀ u : String, u.toList.getLast? ≠ some '\n' → t ++ "\n" ≠ u := by
        rintro u hu rfl
        exact hu (by simp)
      exact not_or.mpr ⟨hlast "." (by decide), hlast ".." (by decide)⟩
    · refine reLine_iff.mpr (.inr ⟨t, rfl, isSegment_iff.mpr ⟨?_, hsegment⟩⟩)
      rwa [ne_eq, String.toList_eq_nil_iff]
  · refine .inl (validatePackageName_iff.mpr ⟨?_, .inr ⟨t, rfl, hpackage⟩⟩)
    have hone : ("\n" : String).length = 1 := rfl
    rw [String.length_append]
    omega

/-- **What passes**: the validators keep to their whitelists on exactly the texts that are no name
with a newline behind it. -/
theorem whitelistsKept_iff_not_endsLine (py : StrLib) (s : String) :
    WhitelistsKept py s ↔ ¬ EndsLine py s := by
  constructor
  · intro hkept hline
    obtain ⟨t, rfl, -⟩ := id hline
    exact (hkept.clean hline.accepted).1 (by simp)
  · intro hline
    have hpackage := fun h => @forall_of_validatePackageName py s h hline
    have hname := fun h => forall_of_reLine_isSafeName h hline
    have hsegment := fun label h => @forall_of_validateSegment py s label h hline
    refine ⟨fun h => ⟨hpackage h, isShellSafe_of_isPackageChar (hpackage h)⟩,
      fun h => hname (reLine_of_validateName h), fun h => hname (reLine_of_validateClusterName h),
      fun h => hname (reLine_of_validateMirrorName h), hsegment, fun hacc => ?_⟩
    have hoff : ∀ c ∈ ['\n', '/', '\x00'], c ∉ s.toList := by
      intro c hc hmem
      obtain ⟨hnoPackage, hnoName, hnoSegment⟩ := @not_mem_whitelists py c hc
      have hin : isPackageChar c = true ∨ isNameChar c = true ∨ isSegmentChar py c = true := by
        rcases hacc with h | h | h | h | ⟨label, h⟩
        · exact .inl (hpackage h c hmem)
        · exact .inr (.inl (hname (reLine_of_validateName h) c hmem))
        · exact .inr (.inl (hname (reLine_of_validateClusterName h) c hmem))
        · exact .inr (.inl (hname (reLine_of_validateMirrorName h) c hmem))
        · exact .inr (.inr (hsegment label h c hmem))
      simp [hnoPackage, hnoName, hnoSegment] at hin
    exact ⟨hoff _ (by simp), hoff _ (by simp), hoff _ (by simp)⟩

/-- The name of a package on a line of its own is accepted, newline and all. -/
theorem package_line_accepted :
    validatePackageName "vim\n" = true ∧ isShellSafe "vim\n" = false ∧
      ¬ WhitelistsKept .ascii "vim\n" := by
  have haccepted : validatePackageName "vim\n" = true := by decide +kernel
  have hshell : isShellSafe "vim\n" = false := by decide +kernel
  refine ⟨haccepted, hshell, fun hkept => ?_⟩
  have hsafe := (hkept.package haccepted).2
  rw [hshell] at hsafe
  cases hsafe

end TftpOS
