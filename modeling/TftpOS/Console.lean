import Mathlib
import TftpOS.Lib.Pattern
import TftpOS.Validation

/-!
# Console endpoints

`ConsoleConfig.from_host_rule` of `tftpos/console.py`: where the console of a host is, from the two
texts in its rule. The endpoint is a name and a port with a colon between them, and one port has
several spellings, since zeros may stand before it (`fromHostRule_iff`).
-/

namespace TftpOS

open Lib Pattern

/-- `ConsoleType`. -/
inductive ConsoleType where
  | vnc
  | spice
  | serial
  deriving DecidableEq

namespace ConsoleType

def value : ConsoleType → String
  | .vnc => "vnc"
  | .spice => "spice"
  | .serial => "serial"

/-- `_VALID_CONSOLE_TYPES`, sorted. -/
def valid : List String := ["serial", "spice", "vnc"]

/-- `ConsoleType(value)`. -/
def ofValue (s : String) : Option ConsoleType :=
  [.vnc, .spice, .serial].find? fun t => t.value = s

theorem ofValue_value (t : ConsoleType) : ofValue t.value = some t := by
  cases t <;> decide

theorem ofValue_eq_some_iff {s : String} {t : ConsoleType} : ofValue s = some t ↔ s = t.value := by
  constructor
  · intro h
    simpa [eq_comm] using List.find?_some h
  · rintro rfl
    exact ofValue_value t

end ConsoleType

/-- `ConsoleConfig`. -/
structure ConsoleConfig where
  consoleType : ConsoleType
  host : String
  port : ℕ
  deriving DecidableEq

namespace ConsoleConfig

/-- The class `[a-zA-Z0-9._-]`. -/
def hostChar (c : Char) : Bool := c.isAlphanum || c ∈ ['.', '_', '-']

/-- At most so many elements of a class. -/
def upTo (p : Char → Bool) : ℕ → Pattern Char
  | 0 => .empty
  | n + 1 => .opt (.seq (.one p) (upTo p n))

/-- `_ENDPOINT_RE`. -/
def endpointRe : Pattern Char :=
  .seq (.group (.plus hostChar)) (.seq (.one fun c => c = ':')
    (.seq (.group (.seq (.one Char.isDigit) (upTo Char.isDigit 4)))
      (.ahead fun l => l = [] || l = ['\n'])))

/-- `ConsoleConfig.from_host_rule`. -/
def fromHostRule (py : StrLib) (consoleType consoleEndpoint : Option String) :
    Except PyExc (Option ConsoleConfig) :=
  match filled consoleType, filled consoleEndpoint with
  | none, none => .ok none
  | none, some _ => .error ⟨.valueError, "console_endpoint set without console_type"⟩
  | some _, none => .error ⟨.valueError, "console_type set without console_endpoint"⟩
  | some type, some endpoint =>
    match ConsoleType.ofValue (strip (py.lower type)) with
    | none => .error ⟨.valueError, "invalid console_type " ++ py.repr type ++
        "; must be one of: " ++ ", ".intercalate ConsoleType.valid⟩
    | some ct =>
      match matchStart endpointRe (strip endpoint).toList with
      | none => .error ⟨.valueError, "invalid console_endpoint " ++ py.repr endpoint ++
          "; expected host:port format"⟩
      | some m =>
        let port := Nat.ofDigitChars 10 (m.groups.getD 1 []) 0
        if port < 1 ∨ 65535 < port then
          .error ⟨.valueError, "invalid port " ++ toString port ++
            " in console_endpoint; must be 1-65535"⟩
        else .ok (some ⟨ct, String.ofList (m.groups.headD []), port⟩)

/-- `f"{host}:{port}"`. -/
def endpoint (config : ConsoleConfig) : String := config.host ++ ":" ++ toString config.port

/-- A host that the pattern allows, and a port of TCP. -/
structure WellFormed (config : ConsoleConfig) : Prop where
  host_ne : config.host ≠ ""
  host_chars : ∀ c ∈ config.host.toList, hostChar c = true
  one_le_port : 1 ≤ config.port
  port_le : config.port ≤ 65535

/-- A spelling of a port. -/
structure Spells (digits : List Char) (port : ℕ) : Prop where
  ne_nil : digits ≠ []
  length_le : digits.length ≤ 5
  isDigit : ∀ c ∈ digits, c.isDigit = true
  value : Nat.ofDigitChars 10 digits 0 = port

/-! ### The pattern -/

variable {p : Char → Bool} {n : ℕ} {t s l host digits : List Char} {gs : List (List Char)}
  {m : Match Char}

theorem matches_upTo_iff :
    Matches (upTo p n) t s gs ↔ t.length ≤ n ∧ (∀ c ∈ t, p c = true) ∧ gs = [] := by
  induction n generalizing t gs with
  | zero =>
    constructor
    · intro h
      cases h with
      | empty => simp
    · rintro ⟨hlen, -, rfl⟩
      rw [List.length_eq_zero_iff.mp (Nat.le_zero.mp hlen)]
      exact .empty
  | succ n ih =>
    constructor
    · intro h
      cases h with
      | left h =>
        cases h with
        | seq h h' =>
          cases h with
          | one hc =>
            obtain ⟨hlen, ht, rfl⟩ := ih.mp h'
            exact ⟨by simpa using hlen, List.forall_mem_cons.mpr ⟨hc, ht⟩, rfl⟩
      | right h =>
        cases h with
        | empty => simp
    · rintro ⟨hlen, ht, rfl⟩
      cases t with
      | nil => exact .right .empty
      | cons c t =>
        obtain ⟨hc, ht⟩ := List.forall_mem_cons.mp ht
        exact .left (.seq (.one hc) (ih.mpr ⟨Nat.le_of_succ_le_succ hlen, ht, rfl⟩))

/-- What the endpoint pattern matches. -/
theorem matches_endpointRe_iff : Matches endpointRe t s gs ↔
    ∃ host digits, t = host ++ ':' :: digits ∧ gs = [host, digits] ∧
      (host ≠ [] ∧ ∀ c ∈ host, hostChar c = true) ∧
      (digits ≠ [] ∧ digits.length ≤ 5 ∧ ∀ c ∈ digits, c.isDigit = true) ∧
      (s = [] ∨ s = ['\n']) := by
  constructor
  · intro h
    cases h with
    | seq hhost h =>
      cases hhost with
      | group hhost =>
        obtain ⟨hne, hchars, rfl⟩ := matches_plus hhost
        cases h with
        | seq hcolon h =>
          cases hcolon with
          | @one _ c _ hc =>
            obtain rfl : c = ':' := by simpa using hc
            cases h with
            | seq hdigits hend =>
              cases hdigits with
              | group hdigits =>
                cases hdigits with
                | seq hfirst hmore =>
                  cases hfirst with
                  | one hfirst =>
                    obtain ⟨hlen, hdigits, rfl⟩ := matches_upTo_iff.mp hmore
                    cases hend with
                    | ahead hend =>
                      refine ⟨_, _, by simp, rfl, ⟨hne, hchars⟩, ⟨by simp, Nat.succ_le_succ hlen,
                        List.forall_mem_cons.mpr ⟨hfirst, hdigits⟩⟩, by simpa using hend⟩
  · rintro ⟨host, digits, rfl, rfl, ⟨hne, hchars⟩, ⟨hdigits, hlen, hall⟩, hend⟩
    obtain ⟨d, ds, rfl⟩ := List.exists_cons_of_ne_nil hdigits
    obtain ⟨hd, hds⟩ := List.forall_mem_cons.mp hall
    have hend' : Matches (.ahead fun l => l = [] || l = ['\n']) [] s [] :=
      .ahead (by simpa using hend)
    have hport : Matches (.group (.seq (.one Char.isDigit) (upTo Char.isDigit 4))) (d :: ds)
        ([] ++ s) [d :: ds] :=
      .group (.seq (.one hd) (matches_upTo_iff.mpr ⟨Nat.le_of_succ_le_succ hlen, hds, rfl⟩))
    have hrest := hport.seq hend'
    rw [List.append_nil] at hrest
    have hcolon : Matches (.one fun c => c = ':') [':'] ((d :: ds) ++ s) [] := .one (by decide)
    exact (Matches.group (matches_plus_of hne hchars)).seq (hcolon.seq hrest)

theorem colon_notMem (h : ∀ c ∈ host, hostChar c = true) : ':' ∉ host := fun hmem =>
  absurd (h _ hmem) (by decide)

/-- The first colon ends the host. -/
theorem eq_of_append_colon {host' digits' : List Char} (h : ':' ∉ host) (h' : ':' ∉ host')
    (heq : host ++ ':' :: digits = host' ++ ':' :: digits') : host = host' ∧ digits = digits' := by
  induction host generalizing host' with
  | nil =>
    cases host' with
    | nil => exact ⟨rfl, (List.cons.inj heq).2⟩
    | cons c host' =>
      exact absurd ((List.cons.inj heq).1 ▸ List.mem_cons_self) h'
  | cons c host ih =>
    cases host' with
    | nil => exact absurd ((List.cons.inj heq).1 ▸ List.mem_cons_self) h
    | cons c' host' =>
      obtain ⟨rfl, htail⟩ := List.cons.inj heq
      obtain ⟨rfl, hdigits⟩ := ih (fun hmem => h (List.mem_cons_of_mem _ hmem))
        (fun hmem => h' (List.mem_cons_of_mem _ hmem)) htail
      exact ⟨rfl, hdigits⟩

/-- What the pattern finds in a text that does not end in a newline. -/
theorem matchStart_endpointRe (hl : l.getLast? ≠ some '\n') :
    matchStart endpointRe l = some m ↔ ∃ host digits, l = host ++ ':' :: digits ∧
      m = ⟨l, [], [host, digits]⟩ ∧ (host ≠ [] ∧ ∀ c ∈ host, hostChar c = true) ∧
      (digits ≠ [] ∧ digits.length ≤ 5 ∧ ∀ c ∈ digits, c.isDigit = true) := by
  have hforward : ∀ {m}, matchStart endpointRe l = some m → ∃ host digits,
      l = host ++ ':' :: digits ∧ m = ⟨l, [], [host, digits]⟩ ∧
      (host ≠ [] ∧ ∀ c ∈ host, hostChar c = true) ∧
      (digits ≠ [] ∧ digits.length ≤ 5 ∧ ∀ c ∈ digits, c.isDigit = true) := by
    intro m hm
    obtain ⟨hmatches, htext⟩ := matches_of_matchStart hm
    obtain ⟨host, digits, ht, hgs, hhost, hdigits, hend⟩ := matches_endpointRe_iff.mp hmatches
    have hrest : m.rest = [] := by
      refine hend.resolve_right fun hnewline => hl ?_
      rw [← htext, hnewline, List.getLast?_concat]
    rw [hrest, List.append_nil] at htext
    exact ⟨host, digits, htext ▸ ht, Match.ext htext hrest hgs, hhost, hdigits⟩
  refine ⟨hforward, ?_⟩
  rintro ⟨host, digits, heq, rfl, hhost, hdigits⟩
  have hsome : (matchStart endpointRe l).isSome := isSome_matchStart_iff.mpr
    ⟨l, [], [host, digits], matches_endpointRe_iff.mpr ⟨host, digits, heq, rfl, hhost, hdigits,
      .inl rfl⟩, List.append_nil l⟩
  obtain ⟨m, hm⟩ := Option.isSome_iff_exists.mp hsome
  obtain ⟨host', digits', heq', rfl, hhost', -⟩ := hforward hm
  obtain ⟨rfl, rfl⟩ := eq_of_append_colon (colon_notMem hhost.2) (colon_notMem hhost'.2)
    (heq.symm.trans heq')
  exact hm

/-! ### What is accepted -/

variable {py : StrLib} {type ep : Option String} {config : ConsoleConfig}

theorem getLast?_strip_ne (s : String) : (strip s).toList.getLast? ≠ some '\n' := by
  rw [toList_strip]
  intro h
  have hne : (s.toList.dropWhile isSpace).rdropWhile isSpace ≠ [] := fun hnil => by
    rw [hnil] at h
    cases h
  have hspace := List.rdropWhile_last_not isSpace _ hne
  rw [List.getLast?_eq_some_getLast hne, Option.some.injEq] at h
  rw [h] at hspace
  exact hspace rfl

theorem strip_empty : strip "" = "" := by
  decide

/-- **What a rule may say of a console**: the type, in any letter case and between spaces, and the
endpoint, a host and a port of at most five digits, between spaces. -/
theorem fromHostRule_iff : fromHostRule py type ep = .ok (some config) ↔
    ∃ t e digits, type = some t ∧ ep = some e ∧ strip (py.lower t) = config.consoleType.value ∧
      (strip e).toList = config.host.toList ++ ':' :: digits ∧ Spells digits config.port ∧
      config.WellFormed := by
  constructor
  · intro h
    rw [fromHostRule] at h
    split at h
    case h_4 t e ht he =>
      split at h
      · cases h
      · rename_i ct hct
        split at h
        · cases h
        · rename_i m hm
          obtain ⟨host, digits, heq, rfl, hhost, hdigits⟩ :=
            (matchStart_endpointRe (getLast?_strip_ne e)).mp hm
          simp only [List.getD_cons_succ, List.getD_cons_zero, List.headD_cons] at h
          split_ifs at h with hport
          cases h
          obtain ⟨hone, hle⟩ : 1 ≤ Nat.ofDigitChars 10 digits 0 ∧
              Nat.ofDigitChars 10 digits 0 ≤ 65535 := by omega
          refine ⟨t, e, digits, (filled_eq_some_iff.mp ht).1, (filled_eq_some_iff.mp he).1,
            ConsoleType.ofValue_eq_some_iff.mp hct, by rw [heq, String.toList_ofList],
            ⟨hdigits.1, hdigits.2.1, hdigits.2.2, rfl⟩, ⟨?_, ?_, hone, hle⟩⟩
          · rw [Ne, ← String.toList_inj, String.toList_ofList]
            exact hhost.1
          · rw [String.toList_ofList]
            exact hhost.2
    all_goals cases h
  · rintro ⟨t, e, digits, rfl, rfl, htype, hep, hspells, hwf⟩
    have ht : t ≠ "" := by
      rintro rfl
      rw [(py.lower_eq_empty "").mpr rfl, strip_empty] at htype
      cases hct : config.consoleType <;> rw [hct] at htype <;> exact absurd htype (by decide)
    have he : e ≠ "" := by
      rintro rfl
      rw [strip_empty] at hep
      exact absurd hep.symm (by simp)
    have hct : ConsoleType.ofValue (strip (py.lower t)) = some config.consoleType :=
      ConsoleType.ofValue_eq_some_iff.mpr htype
    have hhost : config.host.toList ≠ [] := fun hnil =>
      hwf.host_ne (String.toList_inj.mp hnil)
    have hm : matchStart endpointRe (strip e).toList =
        some ⟨(strip e).toList, [], [config.host.toList, digits]⟩ :=
      (matchStart_endpointRe (getLast?_strip_ne e)).mpr ⟨_, digits, hep, rfl,
        ⟨hhost, hwf.host_chars⟩, hspells.ne_nil, hspells.length_le, hspells.isDigit⟩
    have hport : ¬ (config.port < 1 ∨ 65535 < config.port) := by
      have hone := hwf.one_le_port
      have hle := hwf.port_le
      omega
    rw [fromHostRule, filled_eq_some_iff.mpr ⟨rfl, ht⟩, filled_eq_some_iff.mpr ⟨rfl, he⟩]
    simp only [hct, hm, List.getD_cons_succ, List.getD_cons_zero, List.headD_cons, hspells.value,
      if_neg hport, String.ofList_toList]

/-- A rule without a console has neither text. -/
theorem fromHostRule_eq_none_iff :
    fromHostRule py type ep = .ok none ↔ filled type = none ∧ filled ep = none := by
  rw [fromHostRule]
  cases filled type <;> cases filled ep <;> simp
  split
  · simp
  · split
    · simp
    · split_ifs <;> simp

/-- Every other rule is a `ValueError`. -/
theorem cls_of_fromHostRule {e : PyExc} (h : fromHostRule py type ep = .error e) :
    e.cls = .valueError := by
  rw [fromHostRule] at h
  split at h
  case h_1 => cases h
  case h_4 =>
    split at h
    · cases h
      rfl
    · split at h
      · cases h
        rfl
      · simp only at h
        split_ifs at h
        cases h
        rfl
  all_goals
    cases h
    rfl

/-! ### Spellings of a port -/

theorem exists_digitChar {c : Char} (h : c.isDigit = true) : ∃ d < 10, c = Nat.digitChar d := by
  have htable : ∀ k < 58, 48 ≤ k → Char.ofNat k = Nat.digitChar (k - 48) := by decide
  rw [Char.isDigit, Bool.and_eq_true, decide_eq_true_iff, decide_eq_true_iff] at h
  have hle : c.toNat < 58 := Nat.lt_succ_of_le h.2
  refine ⟨c.toNat - 48, by omega, ?_⟩
  rw [← htable c.toNat hle h.1, Char.ofNat_toNat]

/-- Digits with no zero before them are the numeral of what they spell. -/
theorem toDigits_ofDigitChars {c : Char} (hne : c ≠ '0') (hc : c.isDigit = true)
    (hdigits : ∀ c ∈ digits, c.isDigit = true) :
    Nat.toDigits 10 (Nat.ofDigitChars 10 (c :: digits) 0) = c :: digits ∧
      0 < Nat.ofDigitChars 10 (c :: digits) 0 := by
  induction digits using List.reverseRecOn with
  | nil =>
    obtain ⟨d, hd, rfl⟩ := exists_digitChar hc
    have hpos : 0 < d := Nat.pos_of_ne_zero fun hzero => hne (by rw [hzero]; rfl)
    rw [Nat.ofDigitChars_cons_digitChar_of_lt_ten hd, Nat.ofDigitChars_nil, Nat.mul_zero,
      Nat.zero_add]
    exact ⟨Nat.toDigits_of_lt_base hd, hpos⟩
  | append_singleton digits e ih =>
    obtain ⟨d, hd, rfl⟩ := exists_digitChar (hdigits e (by simp))
    obtain ⟨hsame, hpos⟩ := ih fun c hc => hdigits c (List.mem_append_left _ hc)
    rw [← List.cons_append, Nat.ofDigitChars_append,
      Nat.ofDigitChars_cons_digitChar_of_lt_ten hd, Nat.ofDigitChars_nil]
    generalize Nat.ofDigitChars 10 (c :: digits) 0 = v at hsame hpos
    rw [Nat.toDigits_of_base_le (by decide) (by omega), show (10 * v + d) / 10 = v by omega,
      show (10 * v + d) % 10 = d by omega, hsame]
    exact ⟨rfl, by omega⟩

/-- A port is spelled by its numeral with zeros before it. -/
theorem spells_iff {port : ℕ} (hport : 1 ≤ port) :
    Spells digits port ↔ digits.length ≤ 5 ∧
      ∃ zeros, digits = List.replicate zeros '0' ++ Nat.toDigits 10 port := by
  constructor
  · rintro ⟨-, hlen, hdigits, hvalue⟩
    refine ⟨hlen, ?_⟩
    clear hlen
    induction digits with
    | nil =>
      rw [Nat.ofDigitChars_nil] at hvalue
      omega
    | cons c digits ih =>
      obtain ⟨hc, hrest⟩ := List.forall_mem_cons.mp hdigits
      by_cases hzero : c = '0'
      · subst hzero
        rw [Nat.ofDigitChars_cons] at hvalue
        obtain ⟨zeros, hzeros⟩ := ih hrest (by simpa using hvalue)
        exact ⟨zeros + 1, by rw [List.replicate_succ, List.cons_append, ← hzeros]⟩
      · have hsame := (toDigits_ofDigitChars hzero hc hrest).1
        rw [hvalue] at hsame
        exact ⟨0, by rw [hsame, List.replicate_zero, List.nil_append]⟩
  · rintro ⟨hlen, zeros, rfl⟩
    refine ⟨List.append_ne_nil_of_right_ne_nil _ ?_, hlen, fun c hc => ?_, ?_⟩
    · exact List.ne_nil_of_length_pos Nat.length_toDigits_pos
    · rcases List.mem_append.mp hc with hc | hc
      · rw [List.eq_of_mem_replicate hc]
        rfl
      · exact Nat.isDigit_of_mem_toDigits (by decide) (by decide) hc
    · rw [Nat.ofDigitChars_append, Nat.ofDigitChars_replicate_zero, Nat.mul_zero,
        Nat.ofDigitChars_ten_toDigits]

theorem toList_toString (n : ℕ) : (toString n).toList = Nat.toDigits 10 n := by
  rw [Nat.toString_eq_repr, Nat.toList_repr]

/-- The port as it is printed. -/
theorem spells_toString {port : ℕ} (hone : 1 ≤ port) (hle : port ≤ 65535) :
    Spells (toString port).toList port := by
  rw [toList_toString, spells_iff hone, Nat.length_toDigits_le_iff (by decide) (by decide)]
  exact ⟨by omega, 0, rfl⟩

/-! ### Round trip -/

theorem toNat_of_hostChar {c : Char} (h : hostChar c = true) : 33 ≤ c.toNat ∧ c.toNat < 128 := by
  simp only [hostChar, Char.isAlphanum, Char.isAlpha, Char.isUpper, Char.isLower, Char.isDigit,
    Bool.or_eq_true, Bool.and_eq_true, decide_eq_true_eq, UInt32.le_iff_toNat_le, ge_iff_le,
    List.mem_cons, List.not_mem_nil, or_false] at h
  rcases h with ((h | h) | h) | rfl | rfl | rfl
  case inr.inl => decide
  case inr.inr.inl => decide
  case inr.inr.inr => decide
  all_goals
    simp only [Char.toNat]
    have hlo := h.1
    have hhi := h.2
    simp only [UInt32.reduceToNat, Char.reduceVal] at hlo hhi
    omega

theorem isSpace_of_hostChar {c : Char} (h : hostChar c = true) : isSpace c = false := by
  obtain ⟨hlow, hhigh⟩ := toNat_of_hostChar h
  simp only [isSpace, Bool.or_eq_false_iff, Bool.and_eq_false_iff, decide_eq_false_iff_not,
    beq_eq_false_iff_ne]
  omega

/-- What a console prints as has no spaces. -/
theorem strip_endpoint (h : config.WellFormed) : strip config.endpoint = config.endpoint := by
  refine strip_eq_self fun c hc => ?_
  rw [endpoint, String.toList_append, String.toList_append, List.mem_append, List.mem_append] at hc
  rcases hc with (hc | hc) | hc
  · exact isSpace_of_hostChar (h.host_chars c hc)
  · obtain rfl : c = ':' := by simpa using hc
    decide
  · rw [toList_toString] at hc
    have hdigit := Nat.isDigit_of_mem_toDigits (by decide) (by decide) hc
    refine isSpace_of_hostChar ?_
    rw [hostChar, Char.isAlphanum, hdigit, Bool.or_true, Bool.true_or]

/-- The value of a type is in lower case and has no spaces. -/
theorem strip_lower_value (py : StrLib) (t : ConsoleType) : strip (py.lower t.value) = t.value := by
  rw [py.lower_ascii t.value (by cases t <;> decide)]
  cases t <;> decide

/-- **Consoles of host rules**: a rule has a console exactly where its type, in lower case and
without the spaces around it, is one of the three, and its endpoint, without the spaces around it,
is a host, a colon and the numeral of a port from 1 to 65535, with zeros before it up to five
digits. A rule with neither text has none, every other one is refused, and what a console prints as
is read back. -/
theorem fromHostRule_spec (py : StrLib) :
    (∀ type ep config, fromHostRule py type ep = .ok (some config) ↔
      ∃ t e zeros, type = some t ∧ ep = some e ∧
        strip (py.lower t) = config.consoleType.value ∧
        (strip e).toList = config.host.toList ++
          ':' :: (List.replicate zeros '0' ++ (toString config.port).toList) ∧
        zeros + (toString config.port).length ≤ 5 ∧ config.WellFormed) ∧
    (∀ type ep, fromHostRule py type ep = .ok none ↔ filled type = none ∧ filled ep = none) ∧
    (∀ type ep e, fromHostRule py type ep = .error e → e.cls = .valueError) ∧
    ∀ config : ConsoleConfig, config.WellFormed →
      fromHostRule py (some config.consoleType.value) (some config.endpoint) =
        .ok (some config) := by
  refine ⟨fun type ep config => ?_, fun type ep => fromHostRule_eq_none_iff,
    fun type ep e => cls_of_fromHostRule, fun config h => ?_⟩
  · rw [fromHostRule_iff]
    constructor
    · rintro ⟨t, e, digits, rfl, rfl, htype, hep, hspells, hwf⟩
      obtain ⟨hlen, zeros, rfl⟩ := (spells_iff hwf.one_le_port).mp hspells
      rw [← toList_toString] at hep hlen
      rw [List.length_append, List.length_replicate, String.length_toList] at hlen
      exact ⟨t, e, zeros, rfl, rfl, htype, hep, hlen, hwf⟩
    · rintro ⟨t, e, zeros, rfl, rfl, htype, hep, hlen, hwf⟩
      refine ⟨t, e, _, rfl, rfl, htype, hep, (spells_iff hwf.one_le_port).mpr ⟨?_, zeros, ?_⟩, hwf⟩
      · rwa [List.length_append, List.length_replicate, String.length_toList]
      · rw [toList_toString]
  · refine fromHostRule_iff.mpr ⟨_, _, (toString config.port).toList, rfl, rfl,
      strip_lower_value py _, ?_, spells_toString h.one_le_port h.port_le, h⟩
    rw [strip_endpoint h, endpoint, String.toList_append, String.toList_append, List.append_assoc]
    rfl

/-- A console as it is printed. -/
theorem fromHostRule_lab :
    fromHostRule .ascii (some "vnc") (some "lab:5900") = .ok (some ⟨.vnc, "lab", 5900⟩) :=
  (fromHostRule_spec .ascii).2.2.2 ⟨.vnc, "lab", 5900⟩
    ⟨by decide, List.all_eq_true.mp (by decide), by decide, by decide⟩

end ConsoleConfig

end TftpOS
