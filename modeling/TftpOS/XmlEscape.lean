import TftpOS.Lib.Escaping
import TftpOS.Python.Text

/-!
# Text for XML

`escape_xml` of `tftpos/validation.py`: one `str.replace` over the whole value for each entry of
`_XML_ESCAPE_MAP`.
-/

namespace TftpOS

open Lib

/-- `s.replace(c, r)` for a single character. -/
def replaceText (c : Char) (r s : String) : String :=
  String.ofList (replaceSymbol c r.toList s.toList)

/-- The entries of `_XML_ESCAPE_MAP`. -/
def xmlEscapeMap : List (Char × String) :=
  [('&', "&amp;"), ('<', "&lt;"), ('>', "&gt;"), ('"', "&quot;"), ('\'', "&apos;")]

/-- `escape_xml`. -/
def escapeXml (value : String) : String :=
  xmlEscapeMap.foldl (fun value e => replaceText e.1 e.2 value) value

/-- The table of the entities. -/
def xmlTable : EscapeTable Char where
  entries := xmlEscapeMap.map fun e => (e.1, e.2.toList)
  mark := '&'
  mark_mem := by decide
  starts := by decide
  tails := by decide
  passes := by decide
  apart := by decide

/-- The entity of a character, or the character. -/
def xmlEntity (c : Char) : String := (xmlEscapeMap.lookup c).getD (String.singleton c)

/-- The text of a value in which the five entities stand for their characters. -/
def unescapeXml (text : String) : String := String.ofList (xmlTable.unescape text.toList)

theorem toList_escapeXml (s : String) : (escapeXml s).toList = xmlTable.escape s.toList := by
  have hpasses : ∀ (l : List (Char × String)) (s : String),
      (l.foldl (fun value e => replaceText e.1 e.2 value) s).toList =
        replaceEach (l.map fun e => (e.1, e.2.toList)) s.toList := by
    intro l
    induction l with
    | nil => exact fun s => rfl
    | cons e l ih =>
      intro s
      rw [List.foldl_cons, ih, replaceText, String.toList_ofList]
      rfl
  rw [escapeXml, hpasses, ← EscapeTable.replaceEach_eq, xmlTable]

theorem toList_xmlEntity (c : Char) : (xmlEntity c).toList = codeOf xmlTable.entries c := by
  have hlookup : ∀ l : List (Char × String), ((l.lookup c).getD (String.singleton c)).toList =
      codeOf (l.map fun e => (e.1, e.2.toList)) c := by
    intro l
    induction l with
    | nil => simp [codeOf]
    | cons e l ih =>
      rw [List.map_cons, codeOf_cons, List.lookup_cons, ← ih]
      by_cases h : c = e.1
      · simp [h]
      · simp [h, beq_false_of_ne h]
  exact hlookup xmlEscapeMap

/-- **Escaping is a substitution**: however the passes follow one another, every special character
becomes its entity, and the text can be read back. -/
theorem escapeXml_faithful (s : String) :
    escapeXml s = String.join (s.toList.map xmlEntity) ∧
      (∀ c ∈ (escapeXml s).toList, c ≠ '<' ∧ c ≠ '>' ∧ c ≠ '"' ∧ c ≠ '\'') ∧
      (∀ before after, (escapeXml s).toList = before ++ '&' :: after →
        ∃ e ∈ xmlEscapeMap, e.2.toList <+: '&' :: after) ∧
      unescapeXml (escapeXml s) = s ∧
      (∀ t, escapeXml s = escapeXml t ↔ s = t) ∧
      ∀ t, escapeXml (s ++ t) = escapeXml s ++ escapeXml t := by
  refine ⟨?_, ?_, ?_, ?_, ?_, ?_⟩
  · rw [← String.toList_inj, toList_escapeXml, EscapeTable.escape]
    induction s.toList with
    | nil => rfl
    | cons c cs ih => simp [ih, toList_xmlEntity]
  · intro c hc
    rw [toList_escapeXml] at hc
    have hmark : ∀ e ∈ xmlTable.entries, e.1 ∈ xmlTable.escape s.toList → e.1 = '&' :=
      fun e he => EscapeTable.eq_mark_of_mem_escape he
    have hkey : ∀ d, (∃ e ∈ xmlTable.entries, e.1 = d) → d ≠ '&' → c ≠ d := by
      rintro _ ⟨e, he, rfl⟩ hne rfl
      exact hne (hmark e he hc)
    exact ⟨hkey _ (by decide) (by decide), hkey _ (by decide) (by decide),
      hkey _ (by decide) (by decide), hkey _ (by decide) (by decide)⟩
  · intro before after h
    rw [toList_escapeXml] at h
    obtain ⟨e, he, hpre⟩ := @EscapeTable.exists_code_of_escape_eq Char _ xmlTable _ _ _ h
    obtain ⟨entry, hentry, rfl⟩ := List.mem_map.mp he
    exact ⟨entry, hentry, hpre⟩
  · rw [unescapeXml, toList_escapeXml, EscapeTable.unescape_escape, String.ofList_toList]
  · intro t
    rw [← String.toList_inj, toList_escapeXml, toList_escapeXml,
      (EscapeTable.escape_injective xmlTable).eq_iff, String.toList_inj]
  · intro t
    rw [← String.toList_inj, toList_escapeXml, String.toList_append, EscapeTable.escape_append,
      String.toList_append, toList_escapeXml, toList_escapeXml]

end TftpOS
