import TftpOS.Lib.Except
import TftpOS.Secrets

/-!
# The references of a profile

What `resolve_profile` does, said without its scan. A reference to a key is the text
`{{secret:KEY}}`; a text contains it (`HasRef`) wherever it stands. Two references never overlap
(`not_refText_inside`), so a text falls in one way into literal text and references, and
`Substituted` relates it to the text with each reference replaced. The manager succeeds exactly
with what is so related field by field (`resolveProfile_eq_ok_iff`), and raises exactly when some
string that can be reached in the profile has a reference to a key without a value
(`resolveProfile_spec`).
-/

namespace TftpOS

open Lib SecretsManager

/-- The text of a reference to a key. -/
def refText (key : String) : List Char := refOpen.toList ++ key.toList ++ refClose.toList

/-- The text contains a reference to the key. -/
def HasRef (cs : List Char) (key : String) : Prop :=
  isSecretKey key.toList = true ∧ refText key <:+: cs

variable {key key' : String} {cs cs' lit : List Char}

/-! ### The match at one position -/

theorem refText_eq (key : String) :
    ∃ tail, refText key = '\x7b' :: '\x7b' :: 's' :: tail ∧
      (isSecretKey key.toList = true → '\x7b' ∉ 's' :: tail) := by
  refine ⟨"ecret:".toList ++ key.toList ++ refClose.toList, rfl, fun hkey => ?_⟩
  rw [isSecretKey, Bool.and_eq_true, List.all_eq_true] at hkey
  simp only [List.mem_cons, List.mem_append, not_or]
  refine ⟨by decide, ⟨by decide, fun hmem => ?_⟩, by decide⟩
  exact absurd (hkey.2 _ hmem) (by decide)

theorem length_refText (key : String) : (refText key).length = refLength key := by
  rw [refText, List.length_append, List.length_append]
  rfl

/-- Behind the opening of a reference, the key characters are its key. -/
theorem takeWhile_isKeyChar (hkey : isSecretKey key.toList = true) :
    (key.toList ++ (refClose.toList ++ cs)).takeWhile isKeyChar = key.toList := by
  rw [isSecretKey, Bool.and_eq_true, List.all_eq_true] at hkey
  rw [List.takeWhile_append_of_pos hkey.2]
  have hclose : (refClose.toList ++ cs).takeWhile isKeyChar = [] :=
    List.takeWhile_cons_of_neg (by decide)
  rw [hclose, List.append_nil]

/-- The pattern matches at the start of a text exactly the reference that stands there. -/
theorem matchSecretRef_eq_some_iff :
    matchSecretRef cs = some key ↔ isSecretKey key.toList = true ∧ refText key <+: cs := by
  have hlength : refOpen.length = refOpen.toList.length := rfl
  rw [matchSecretRef]
  constructor
  · intro h
    split_ifs at h with hcond
    simp only [Bool.and_eq_true, List.isPrefixOf_iff_prefix] at hcond
    obtain ⟨⟨⟨rest, rfl⟩, hne⟩, hclose⟩ := hcond
    rw [hlength, List.drop_left] at h hne
    rw [hlength, ← List.drop_drop, List.drop_left] at hclose
    obtain rfl := Option.some.inj h
    obtain ⟨rest', hrest⟩ := List.takeWhile_prefix isKeyChar (l := rest)
    have hdrop := congrArg (List.drop (rest.takeWhile isKeyChar).length) hrest
    rw [List.drop_left] at hdrop
    rw [← hdrop] at hclose
    obtain ⟨tail, rfl⟩ := hclose
    refine ⟨?_, tail, ?_⟩
    · rw [String.toList_ofList, isSecretKey, hne, Bool.true_and, List.all_eq_true]
      exact fun c hc => List.mem_takeWhile_imp hc
    · rw [refText, String.toList_ofList, List.append_assoc, List.append_assoc, hrest]
  · rintro ⟨hkey, rest, rfl⟩
    have hne : (!key.toList.isEmpty) = true := by
      rw [isSecretKey, Bool.and_eq_true] at hkey
      exact hkey.1
    have hclose : refClose.toList.isPrefixOf (refClose.toList ++ rest) = true :=
      List.isPrefixOf_iff_prefix.mpr (List.prefix_append _ _)
    have hopen : refOpen.toList.isPrefixOf
        (refOpen.toList ++ (key.toList ++ (refClose.toList ++ rest))) = true :=
      List.isPrefixOf_iff_prefix.mpr (List.prefix_append _ _)
    rw [refText, List.append_assoc, List.append_assoc, hlength, ← List.drop_drop, List.drop_left,
      takeWhile_isKeyChar hkey, List.drop_left, hopen, hne, hclose, String.ofList_toList]
    rfl

/-- At one position there is at most one reference. -/
theorem key_unique (hkey : isSecretKey key.toList = true)
    (hkey' : isSecretKey key'.toList = true) (h : refText key <+: cs) (h' : refText key' <+: cs) :
    key = key' :=
  Option.some.inj ((matchSecretRef_eq_some_iff.mpr ⟨hkey, h⟩).symm.trans
    (matchSecretRef_eq_some_iff.mpr ⟨hkey', h'⟩))

/-- **No overlap.** No reference starts strictly inside another one. -/
theorem not_refText_inside {t u w : List Char} (hkey : isSecretKey key.toList = true)
    (htu : refText key = t ++ u) (ht : t ≠ []) (hu : u ≠ []) : ¬ refText key' <+: u ++ w := by
  obtain ⟨tail, htext, hbrace⟩ := refText_eq key
  obtain ⟨tail', htext', -⟩ := refText_eq key'
  obtain ⟨c, t, rfl⟩ := List.exists_cons_of_ne_nil ht
  obtain ⟨d, u, rfl⟩ := List.exists_cons_of_ne_nil hu
  rw [htext, List.cons_append, List.cons.injEq] at htu
  rw [htext']
  intro hpre
  obtain ⟨rfl, hnext⟩ := List.cons_prefix_cons.mp hpre
  -- a brace only stands in the first two places of a reference
  rcases t with _ | ⟨c', t⟩
  · obtain rfl : 's' :: tail = u := by simpa using htu.2
    have hsecond := (List.cons_prefix_cons.mp hnext).1
    exact absurd hsecond (by decide)
  · obtain ⟨-, hrest⟩ : '\x7b' = c' ∧ 's' :: tail = t ++ '\x7b' :: u := by simpa using htu.2
    exact hbrace hkey (hrest ▸ List.mem_append_right _ List.mem_cons_self)

/-! ### The scan -/

/-- Where no reference stands in front, one stands in the rest. -/
theorem hasRef_cons_iff {c : Char} (hnone : matchSecretRef (c :: cs) = none) :
    HasRef (c :: cs) key ↔ HasRef cs key := by
  refine and_congr_right fun hkey => ?_
  rw [List.infix_cons_iff, or_iff_right]
  intro hpre
  rw [matchSecretRef_eq_some_iff.mpr ⟨hkey, hpre⟩] at hnone
  cases hnone

/-- A reference in a text that starts with one is that one, or stands behind it. -/
theorem hasRef_refText_append_iff (hkey : isSecretKey key.toList = true) :
    HasRef (refText key ++ cs) key' ↔ key' = key ∨ HasRef cs key' := by
  constructor
  · rintro ⟨hkey', s, t, h⟩
    rw [List.append_assoc] at h
    rcases List.append_eq_append_iff.mp h with ⟨u, hu, hrest⟩ | ⟨u, hu, hrest⟩
    · by_cases hs : s = []
      · subst hs
        refine .inl (key_unique hkey' hkey ⟨t, ?_⟩ (List.prefix_append _ cs))
        simpa using h
      · by_cases hnil : u = []
        · subst hnil
          exact .inr ⟨hkey', [], t, by simpa using hrest⟩
        · exact absurd ⟨t, hrest⟩ (not_refText_inside hkey hu hs hnil)
    · exact .inr ⟨hkey', u, t, by rw [hrest, List.append_assoc]⟩
  · rintro (rfl | ⟨hkey', hinfix⟩)
    · exact ⟨hkey, (List.prefix_append _ _).isInfix⟩
    · exact ⟨hkey', hinfix.trans (List.suffix_append _ _).isInfix⟩

/-- Reading goes on behind what a match has taken. -/
theorem secretRefs_eq_drop (skip : ℕ) (cs : List Char) :
    secretRefs skip cs = secretRefs 0 (cs.drop skip) := by
  induction cs generalizing skip with
  | nil => cases skip <;> rfl
  | cons c cs ih =>
    cases skip with
    | zero => rfl
    | succ skip => exact ih skip

theorem subSecretRefs_eq_drop (f : String → Except PyExc String) (skip : ℕ) (cs : List Char) :
    subSecretRefs f skip cs = subSecretRefs f 0 (cs.drop skip) := by
  induction cs generalizing skip with
  | nil => cases skip <;> rfl
  | cons c cs ih =>
    cases skip with
    | zero => rfl
    | succ skip => exact ih skip

/-- **The cases of the scan.** A text is empty, or starts with a character that opens no reference,
or starts with a reference. -/
theorem scan_cases {P : List Char → Prop} (nil : P [])
    (char : ∀ c cs, matchSecretRef (c :: cs) = none → P cs → P (c :: cs))
    (ref : ∀ key cs, isSecretKey key.toList = true → P cs → P (refText key ++ cs))
    (cs : List Char) : P cs := by
  induction h : cs.length using Nat.strong_induction_on generalizing cs with
  | _ n ih =>
    subst h
    rcases cs with _ | ⟨c, cs⟩
    · exact nil
    · rcases hmatch : matchSecretRef (c :: cs) with _ | key
      · exact char c cs hmatch (ih cs.length (Nat.lt_succ_self _) cs rfl)
      · obtain ⟨hkey, rest, hrest⟩ := matchSecretRef_eq_some_iff.mp hmatch
        rw [← hrest]
        refine ref key rest hkey (ih rest.length ?_ rest rfl)
        obtain ⟨tail, htext, -⟩ := refText_eq key
        rw [← hrest, htext, List.length_append]
        exact Nat.lt_add_of_pos_left (Nat.succ_pos _)

theorem matchSecretRef_refText_append (hkey : isSecretKey key.toList = true) :
    matchSecretRef (refText key ++ cs) = some key :=
  matchSecretRef_eq_some_iff.mpr ⟨hkey, List.prefix_append _ _⟩

theorem secretRefs_of_none {c : Char} (hnone : matchSecretRef (c :: cs) = none) :
    secretRefs 0 (c :: cs) = secretRefs 0 cs := by
  rw [secretRefs, hnone]

theorem subSecretRefs_of_none (f : String → Except PyExc String) {c : Char}
    (hnone : matchSecretRef (c :: cs) = none) :
    subSecretRefs f 0 (c :: cs) = do return c :: (← subSecretRefs f 0 cs) := by
  rw [subSecretRefs, hnone]

theorem secretRefs_refText_append (hkey : isSecretKey key.toList = true) :
    secretRefs 0 (refText key ++ cs) = key :: secretRefs 0 cs := by
  obtain ⟨tail, htext, -⟩ := refText_eq key
  have hmatch : matchSecretRef (refText key ++ cs) = some key := matchSecretRef_refText_append hkey
  have hskip : refLength key - 1 = ('\x7b' :: 's' :: tail).length := by
    rw [← length_refText, htext]
    rfl
  rw [htext, List.cons_append] at hmatch ⊢
  rw [secretRefs, hmatch]
  dsimp only
  rw [hskip, secretRefs_eq_drop, List.drop_left]

theorem subSecretRefs_refText_append (f : String → Except PyExc String)
    (hkey : isSecretKey key.toList = true) :
    subSecretRefs f 0 (refText key ++ cs) = do
      let value ← f key
      return value.toList ++ (← subSecretRefs f 0 cs) := by
  obtain ⟨tail, htext, -⟩ := refText_eq key
  have hmatch : matchSecretRef (refText key ++ cs) = some key := matchSecretRef_refText_append hkey
  have hskip : refLength key - 1 = ('\x7b' :: 's' :: tail).length := by
    rw [← length_refText, htext]
    rfl
  rw [htext, List.cons_append] at hmatch ⊢
  rw [subSecretRefs, hmatch]
  dsimp only
  rw [hskip, subSecretRefs_eq_drop, List.drop_left]

/-- The scan finds the references that the text contains. -/
theorem mem_secretRefs_iff : key ∈ secretRefs 0 cs ↔ HasRef cs key := by
  induction cs using scan_cases with
  | nil =>
    obtain ⟨tail, htext, -⟩ := refText_eq key
    simp [secretRefs, HasRef, htext]
  | char c cs hnone ih => rw [secretRefs_of_none hnone, ih, hasRef_cons_iff hnone]
  | ref key' cs hkey' ih =>
    rw [secretRefs_refText_append hkey', List.mem_cons, ih, hasRef_refText_append_iff hkey']

/-! ### Substitution -/

/-- The second text is the first one with each of its references replaced by a value of its key:
literal texts, in which no reference stands, are copied, and what is put in is not read again. -/
inductive Substituted (value : String → String → Prop) : List Char → List Char → Prop
  | text {cs : List Char} (hcs : ∀ key, ¬ HasRef cs key) : Substituted value cs cs
  | ref {lit cs cs' : List Char} {key v : String} (hlit : ∀ key', ¬ HasRef lit key')
      (hkey : isSecretKey key.toList = true) (hvalue : value key v)
      (rest : Substituted value cs cs') :
      Substituted value (lit ++ (refText key ++ cs)) (lit ++ (v.toList ++ cs'))

variable {value : String → String → Prop} {out : List Char}

theorem not_hasRef_nil : ¬ HasRef [] key := by
  obtain ⟨tail, htext, -⟩ := refText_eq key
  simp [HasRef, htext]

theorem substituted_nil_iff : Substituted value [] out ↔ out = [] := by
  constructor
  · intro h
    generalize hcs : ([] : List Char) = cs at h
    cases h with
    | text => rfl
    | @ref lit cs cs' key v =>
      obtain ⟨tail, htext, -⟩ := refText_eq key
      simp [htext] at hcs
  · rintro rfl
    exact .text fun _ => not_hasRef_nil

/-- A character that opens no reference is copied. -/
theorem substituted_cons_iff {c : Char} (hnone : matchSecretRef (c :: cs) = none) :
    Substituted value (c :: cs) out ↔ ∃ out', Substituted value cs out' ∧ out = c :: out' := by
  constructor
  · intro h
    generalize hcs : c :: cs = whole at h
    cases h with
    | text hwhole =>
      subst hcs
      exact ⟨cs, .text fun key href => hwhole key ((hasRef_cons_iff hnone).mpr href), rfl⟩
    | @ref lit rest rest' key v hlit hkey hvalue hrest =>
      rcases lit with _ | ⟨c', lit⟩
      · rw [List.nil_append] at hcs
        rw [hcs, matchSecretRef_refText_append hkey] at hnone
        cases hnone
      · obtain ⟨rfl, rfl⟩ := List.cons.inj hcs
        refine ⟨_, .ref (fun key' href => hlit key' ?_) hkey hvalue hrest, rfl⟩
        exact ⟨href.1, href.2.trans (List.suffix_cons c lit).isInfix⟩
  · rintro ⟨out', h, rfl⟩
    cases h with
    | text hcs => exact .text fun key href => hcs key ((hasRef_cons_iff hnone).mp href)
    | @ref lit rest rest' key v hlit hkey hvalue hrest =>
      rw [← List.cons_append]
      refine .ref (fun key' href => ?_) hkey hvalue hrest
      have hlit' : matchSecretRef (c :: lit) = none := by
        by_contra hsome
        obtain ⟨key'', hkey''⟩ := Option.ne_none_iff_exists'.mp hsome
        obtain ⟨hvalid, hpre⟩ := matchSecretRef_eq_some_iff.mp hkey''
        rw [matchSecretRef_eq_some_iff.mpr
          ⟨hvalid, hpre.trans (List.cons_prefix_cons.mpr ⟨rfl, List.prefix_append lit _⟩)⟩] at hnone
        cases hnone
      exact hlit key' ((hasRef_cons_iff hlit').mp href)

/-- A reference is replaced by a value of its key. -/
theorem substituted_refText_append_iff (hkey : isSecretKey key.toList = true) :
    Substituted value (refText key ++ cs) out ↔
      ∃ v out', value key v ∧ Substituted value cs out' ∧ out = v.toList ++ out' := by
  constructor
  · intro h
    generalize hcs : refText key ++ cs = whole at h
    cases h with
    | text hwhole =>
      subst hcs
      exact absurd ⟨hkey, (List.prefix_append _ _).isInfix⟩ (hwhole key)
    | @ref lit rest rest' key' v hlit hkey' hvalue hrest =>
      by_cases hnil : lit = []
      · subst hnil
        obtain rfl : key = key' := key_unique hkey hkey' (List.prefix_append _ cs)
          ⟨rest, hcs.symm⟩
        obtain rfl : cs = rest := List.append_cancel_left hcs
        exact ⟨v, rest', hvalue, hrest, rfl⟩
      · -- the reference at the start would lie in literal text or overlap the next one
        rcases List.append_eq_append_iff.mp hcs.symm with ⟨u, hu, hnext⟩ | ⟨u, hu, -⟩
        · by_cases hempty : u = []
          · subst hempty
            rw [List.append_nil] at hu
            exact absurd ⟨hkey, hu ▸ List.infix_rfl⟩ (hlit key)
          · exact absurd ⟨rest, hnext⟩ (not_refText_inside hkey hu hnil hempty)
        · exact absurd ⟨hkey, hu ▸ (List.prefix_append _ _).isInfix⟩ (hlit key)
  · rintro ⟨v, out', hvalue, hrest, rfl⟩
    exact @Substituted.ref value [] cs out' key v (fun _ => not_hasRef_nil) hkey hvalue hrest

/-- **The scan substitutes.** -/
theorem subSecretRefs_eq_ok_iff {f : String → Except PyExc String} :
    subSecretRefs f 0 cs = .ok out ↔ Substituted (fun key v => f key = .ok v) cs out := by
  induction cs using scan_cases generalizing out with
  | nil =>
    rw [substituted_nil_iff, subSecretRefs, Except.ok.injEq, eq_comm]
  | char c cs hnone ih =>
    simp only [subSecretRefs_of_none f hnone, substituted_cons_iff hnone, bind_eq_ok_iff, ih,
      pure_eq_ok, Except.ok.injEq, eq_comm (a := out)]
  | ref key cs hkey ih =>
    simp only [subSecretRefs_refText_append f hkey, substituted_refText_append_iff hkey,
      bind_eq_ok_iff, ih, pure_eq_ok, Except.ok.injEq, eq_comm (a := out)]
    constructor
    · rintro ⟨v, hv, out', hout', hout⟩
      exact ⟨v, out', hv, hout', hout⟩
    · rintro ⟨v, out', hv, hout', hout⟩
      exact ⟨v, hv, out', hout', hout⟩

/-- An open brace in front is literal text, and a value that looks like a reference stays. -/
example : subSecretRefs (fun _ => .ok "\x7b\x7bsecret:b\x7d\x7d") 0
    "\x7b\x7b\x7bsecret:a\x7d\x7d\x7d".toList =
      .ok "\x7b\x7b\x7bsecret:b\x7d\x7d\x7d".toList := rfl

/-- The scan fails at a reference whose replacement fails, and only then. -/
theorem exists_of_subSecretRefs_eq_error {f : String → Except PyExc String} {e : PyExc}
    (h : subSecretRefs f 0 cs = .error e) : ∃ key ∈ secretRefs 0 cs, f key = .error e := by
  induction cs using scan_cases with
  | nil => cases h
  | char c cs hnone ih =>
    rw [subSecretRefs_of_none f hnone] at h
    rw [secretRefs_of_none hnone]
    rcases bind_eq_error_iff.mp h with h | ⟨out, -, h⟩
    · exact ih h
    · cases h
  | ref key cs hkey ih =>
    rw [subSecretRefs_refText_append f hkey] at h
    rw [secretRefs_refText_append hkey]
    rcases bind_eq_error_iff.mp h with h | ⟨v, -, h⟩
    · exact ⟨key, List.mem_cons_self, h⟩
    · rcases bind_eq_error_iff.mp h with h | ⟨out, -, h⟩
      · obtain ⟨key', hmem, hkey'⟩ := ih h
        exact ⟨key', List.mem_cons_of_mem _ hmem, hkey'⟩
      · cases h

theorem exists_of_subSecretRefs_eq_ok {f : String → Except PyExc String}
    (h : subSecretRefs f 0 cs = .ok out) : ∀ key ∈ secretRefs 0 cs, ∃ v, f key = .ok v := by
  induction cs using scan_cases generalizing out with
  | nil => simp [secretRefs]
  | char c cs hnone ih =>
    rw [subSecretRefs_of_none f hnone, bind_eq_ok_iff] at h
    obtain ⟨out', hout', -⟩ := h
    rw [secretRefs_of_none hnone]
    exact ih hout'
  | ref key cs hkey ih =>
    rw [subSecretRefs_refText_append f hkey, bind_eq_ok_iff] at h
    obtain ⟨v, hv, h⟩ := h
    obtain ⟨out', hout', -⟩ := bind_eq_ok_iff.mp h
    rw [secretRefs_refText_append hkey, List.forall_mem_cons]
    exact ⟨⟨v, hv⟩, ih hout'⟩

/-! ### Values -/

/-- A string that can be reached in a value through dict values and list items. -/
inductive StringIn (s : String) : Toml → Prop
  | here : StringIn s (.str s)
  | entry {kvs : List (String × Toml)} {e : String × Toml} (he : e ∈ kvs) (h : StringIn s e.2) :
      StringIn s (.dict kvs)
  | item {xs : List Toml} {x : Toml} (hx : x ∈ xs) (h : StringIn s x) : StringIn s (.list xs)

mutual

/-- The second value has the shape, the dict keys and the leaves of the first one, and in place of
each string the string with its references replaced. -/
inductive SubstValue (value : String → String → Prop) : Toml → Toml → Prop
  | str {s s' : String} (h : Substituted value s.toList s'.toList) :
      SubstValue value (.str s) (.str s')
  | dict {kvs kvs' : List (String × Toml)} (h : SubstEntries value kvs kvs') :
      SubstValue value (.dict kvs) (.dict kvs')
  | list {xs xs' : List Toml} (h : SubstItems value xs xs') :
    SubstValue value (.list xs) (.list xs')
  | leaf {v : Toml} (hstr : ∀ s, v ≠ .str s) (hdict : ∀ kvs, v ≠ .dict kvs)
      (hlist : ∀ xs, v ≠ .list xs) : SubstValue value v v

inductive SubstEntries (value : String → String → Prop) :
    List (String × Toml) → List (String × Toml) → Prop
  | nil : SubstEntries value [] []
  | cons {k : String} {v v' : Toml} {kvs kvs' : List (String × Toml)} (h : SubstValue value v v')
      (hs : SubstEntries value kvs kvs') : SubstEntries value ((k, v) :: kvs) ((k, v') :: kvs')

inductive SubstItems (value : String → String → Prop) : List Toml → List Toml → Prop
  | nil : SubstItems value [] []
  | cons {x x' : Toml} {xs xs' : List Toml} (h : SubstValue value x x')
      (hs : SubstItems value xs xs') : SubstItems value (x :: xs) (x' :: xs')

end

/-- The provider has a value under the key. -/
def HasValue (get : String → Except PyExc (Option String)) (key v : String) : Prop :=
  get key = .ok (some v)

variable {py : StrLib} {get : String → Except PyExc (Option String)} {path : String}

theorem replacer_eq_ok_iff {v : String} :
    replacer py get path key = .ok v ↔ HasValue get key v := by
  rw [replacer, HasValue]
  rcases get key with e | _ | v' <;> simp

theorem resolveString_eq_ok_iff {text text' : String} :
    resolveString py get text path = .ok text' ↔
      Substituted (HasValue get) text.toList text'.toList := by
  have hvalue : (fun key v => replacer py get path key = .ok v) = HasValue get := by
    funext key v
    exact propext replacer_eq_ok_iff
  rw [resolveString, bind_eq_ok_iff, ← hvalue]
  constructor
  · rintro ⟨out, hout, h⟩
    obtain rfl := Except.ok.inj h
    rw [String.toList_ofList]
    exact subSecretRefs_eq_ok_iff.mp hout
  · intro h
    refine ⟨text'.toList, subSecretRefs_eq_ok_iff.mpr h, ?_⟩
    rw [String.ofList_toList]
    rfl

mutual

/-- **A value is resolved** to what it is with its references replaced. -/
theorem resolveValue_eq_ok_iff {v v' : Toml} {path : String} :
    resolveValue py get v path = .ok v' ↔ SubstValue (HasValue get) v v' := by
  cases v with
  | str s =>
    rw [resolveValue, bind_eq_ok_iff]
    constructor
    · rintro ⟨s', hs', h⟩
      obtain rfl := Except.ok.inj h
      exact .str (resolveString_eq_ok_iff.mp hs')
    · intro h
      cases h with
      | str h => exact ⟨_, resolveString_eq_ok_iff.mpr h, rfl⟩
      | leaf hstr => exact absurd rfl (hstr s)
  | dict kvs =>
    rw [resolveValue, bind_eq_ok_iff]
    constructor
    · rintro ⟨kvs', hkvs', h⟩
      obtain rfl := Except.ok.inj h
      exact .dict (resolveEntries_eq_ok_iff.mp hkvs')
    · intro h
      cases h with
      | dict h => exact ⟨_, resolveEntries_eq_ok_iff.mpr h, rfl⟩
      | leaf _ hdict => exact absurd rfl (hdict kvs)
  | list xs =>
    rw [resolveValue, bind_eq_ok_iff]
    constructor
    · rintro ⟨xs', hxs', h⟩
      obtain rfl := Except.ok.inj h
      exact .list (resolveItems_eq_ok_iff.mp hxs')
    · intro h
      cases h with
      | list h => exact ⟨_, resolveItems_eq_ok_iff.mpr h, rfl⟩
      | leaf _ _ hlist => exact absurd rfl (hlist xs)
  | _ =>
    rw [resolveValue, Except.ok.injEq]
    · constructor
      · rintro rfl
        exact .leaf (by simp) (by simp) (by simp)
      · intro h
        cases h
        rfl
    all_goals simp

theorem resolveEntries_eq_ok_iff {kvs kvs' : List (String × Toml)} {path : String} :
    resolveEntries py get kvs path = .ok kvs' ↔ SubstEntries (HasValue get) kvs kvs' := by
  rcases kvs with _ | ⟨⟨k, v⟩, kvs⟩
  · rw [resolveEntries, Except.ok.injEq]
    constructor
    · rintro rfl
      exact .nil
    · intro h
      cases h
      rfl
  · rw [resolveEntries, bind_eq_ok_iff]
    constructor
    · rintro ⟨v', hv', h⟩
      obtain ⟨kvs'', hkvs'', h⟩ := bind_eq_ok_iff.mp h
      obtain rfl := Except.ok.inj h
      exact .cons (resolveValue_eq_ok_iff.mp hv') (resolveEntries_eq_ok_iff.mp hkvs'')
    · intro h
      cases h with
      | cons h hs =>
        exact ⟨_, resolveValue_eq_ok_iff.mpr h,
          bind_eq_ok_iff.mpr ⟨_, resolveEntries_eq_ok_iff.mpr hs, rfl⟩⟩

theorem resolveItems_eq_ok_iff {xs xs' : List Toml} {i : ℕ} {path : String} :
    resolveItems py get xs i path = .ok xs' ↔ SubstItems (HasValue get) xs xs' := by
  rcases xs with _ | ⟨x, xs⟩
  · rw [resolveItems, Except.ok.injEq]
    constructor
    · rintro rfl
      exact .nil
    · intro h
      cases h
      rfl
  · rw [resolveItems, bind_eq_ok_iff]
    constructor
    · rintro ⟨x', hx', h⟩
      obtain ⟨xs'', hxs'', h⟩ := bind_eq_ok_iff.mp h
      obtain rfl := Except.ok.inj h
      exact .cons (resolveValue_eq_ok_iff.mp hx') (resolveItems_eq_ok_iff.mp hxs'')
    · intro h
      cases h with
      | cons h hs =>
        exact ⟨_, resolveValue_eq_ok_iff.mpr h,
          bind_eq_ok_iff.mpr ⟨_, resolveItems_eq_ok_iff.mpr hs, rfl⟩⟩

end

theorem exists_of_resolveString_eq_error {text : String} {e : PyExc}
    (h : resolveString py get text path = .error e) :
    ∃ key ∈ secretRefs 0 text.toList, replacer py get path key = .error e := by
  rcases bind_eq_error_iff.mp h with h | ⟨out, -, h⟩
  · exact exists_of_subSecretRefs_eq_error h
  · cases h

mutual

/-- A value is not resolved when a reference in it has no value. -/
theorem exists_of_resolveValue_eq_error {v : Toml} {path : String} {e : PyExc}
    (h : resolveValue py get v path = .error e) :
    ∃ key ∈ valueRefs v, ∃ path', replacer py get path' key = .error e := by
  cases v with
  | str s =>
    rcases bind_eq_error_iff.mp h with h | ⟨s', -, h⟩
    · obtain ⟨key, hkey, hreplace⟩ := exists_of_resolveString_eq_error h
      exact ⟨key, hkey, path, hreplace⟩
    · cases h
  | dict kvs =>
    rcases bind_eq_error_iff.mp h with h | ⟨kvs', -, h⟩
    · exact exists_of_resolveEntries_eq_error h
    · cases h
  | list xs =>
    rcases bind_eq_error_iff.mp h with h | ⟨xs', -, h⟩
    · exact exists_of_resolveItems_eq_error h
    · cases h
  | _ => cases h

theorem exists_of_resolveEntries_eq_error {kvs : List (String × Toml)} {path : String} {e : PyExc}
    (h : resolveEntries py get kvs path = .error e) :
    ∃ key ∈ entriesRefs kvs, ∃ path', replacer py get path' key = .error e := by
  rcases kvs with _ | ⟨⟨k, v⟩, kvs⟩
  · cases h
  · rw [entriesRefs]
    rcases bind_eq_error_iff.mp h with h | ⟨v', -, h⟩
    · obtain ⟨key, hkey, hreplace⟩ := exists_of_resolveValue_eq_error h
      exact ⟨key, List.mem_append_left _ hkey, hreplace⟩
    · rcases bind_eq_error_iff.mp h with h | ⟨kvs', -, h⟩
      · obtain ⟨key, hkey, hreplace⟩ := exists_of_resolveEntries_eq_error h
        exact ⟨key, List.mem_append_right _ hkey, hreplace⟩
      · cases h

theorem exists_of_resolveItems_eq_error {xs : List Toml} {i : ℕ} {path : String} {e : PyExc}
    (h : resolveItems py get xs i path = .error e) :
    ∃ key ∈ itemsRefs xs, ∃ path', replacer py get path' key = .error e := by
  rcases xs with _ | ⟨x, xs⟩
  · cases h
  · rw [itemsRefs]
    rcases bind_eq_error_iff.mp h with h | ⟨x', -, h⟩
    · obtain ⟨key, hkey, hreplace⟩ := exists_of_resolveValue_eq_error h
      exact ⟨key, List.mem_append_left _ hkey, hreplace⟩
    · rcases bind_eq_error_iff.mp h with h | ⟨xs', -, h⟩
      · obtain ⟨key, hkey, hreplace⟩ := exists_of_resolveItems_eq_error h
        exact ⟨key, List.mem_append_right _ hkey, hreplace⟩
      · cases h

end

mutual

theorem exists_of_resolveValue_eq_ok {v v' : Toml} {path : String}
    (h : resolveValue py get v path = .ok v') : ∀ key ∈ valueRefs v, ∃ w, HasValue get key w := by
  cases v with
  | str s =>
    obtain ⟨s', hs', -⟩ := bind_eq_ok_iff.mp h
    obtain ⟨out, hout, -⟩ := bind_eq_ok_iff.mp hs'
    intro key hkey
    obtain ⟨w, hw⟩ := exists_of_subSecretRefs_eq_ok hout key hkey
    exact ⟨w, replacer_eq_ok_iff.mp hw⟩
  | dict kvs =>
    obtain ⟨kvs', hkvs', -⟩ := bind_eq_ok_iff.mp h
    exact exists_of_resolveEntries_eq_ok hkvs'
  | list xs =>
    obtain ⟨xs', hxs', -⟩ := bind_eq_ok_iff.mp h
    exact exists_of_resolveItems_eq_ok hxs'
  | _ => simp [valueRefs]

theorem exists_of_resolveEntries_eq_ok {kvs kvs' : List (String × Toml)} {path : String}
    (h : resolveEntries py get kvs path = .ok kvs') :
    ∀ key ∈ entriesRefs kvs, ∃ w, HasValue get key w := by
  rcases kvs with _ | ⟨⟨k, v⟩, kvs⟩
  · simp [entriesRefs]
  · obtain ⟨v', hv', h⟩ := bind_eq_ok_iff.mp h
    obtain ⟨kvs'', hkvs'', -⟩ := bind_eq_ok_iff.mp h
    rw [entriesRefs, List.forall_mem_append]
    exact ⟨exists_of_resolveValue_eq_ok hv', exists_of_resolveEntries_eq_ok hkvs''⟩

theorem exists_of_resolveItems_eq_ok {xs xs' : List Toml} {i : ℕ} {path : String}
    (h : resolveItems py get xs i path = .ok xs') :
    ∀ key ∈ itemsRefs xs, ∃ w, HasValue get key w := by
  rcases xs with _ | ⟨x, xs⟩
  · simp [itemsRefs]
  · obtain ⟨x', hx', h⟩ := bind_eq_ok_iff.mp h
    obtain ⟨xs'', hxs'', -⟩ := bind_eq_ok_iff.mp h
    rw [itemsRefs, List.forall_mem_append]
    exact ⟨exists_of_resolveValue_eq_ok hx', exists_of_resolveItems_eq_ok hxs''⟩

end

/-! ### The strings of a value -/

theorem mem_entriesRefs_iff {kvs : List (String × Toml)} :
    key ∈ entriesRefs kvs ↔ ∃ e ∈ kvs, key ∈ valueRefs e.2 := by
  induction kvs with
  | nil => simp [entriesRefs]
  | cons e kvs ih => rw [entriesRefs, List.mem_append, ih, List.exists_mem_cons_iff]

theorem mem_itemsRefs_iff {xs : List Toml} : key ∈ itemsRefs xs ↔ ∃ x ∈ xs, key ∈ valueRefs x := by
  induction xs with
  | nil => simp [itemsRefs]
  | cons x xs ih => rw [itemsRefs, List.mem_append, ih, List.exists_mem_cons_iff]

mutual

theorem exists_stringIn_of_mem_valueRefs {v : Toml} (h : key ∈ valueRefs v) :
    ∃ s, StringIn s v ∧ HasRef s.toList key := by
  cases v with
  | str s => exact ⟨s, .here, mem_secretRefs_iff.mp h⟩
  | dict kvs =>
    obtain ⟨e, he, s, hs, href⟩ := exists_stringIn_of_mem_entriesRefs h
    exact ⟨s, .entry he hs, href⟩
  | list xs =>
    obtain ⟨x, hx, s, hs, href⟩ := exists_stringIn_of_mem_itemsRefs h
    exact ⟨s, .item hx hs, href⟩
  | _ => cases h

theorem exists_stringIn_of_mem_entriesRefs {kvs : List (String × Toml)}
    (h : key ∈ entriesRefs kvs) : ∃ e ∈ kvs, ∃ s, StringIn s e.2 ∧ HasRef s.toList key := by
  rcases kvs with _ | ⟨⟨k, v⟩, kvs⟩
  · cases h
  · rw [entriesRefs, List.mem_append] at h
    rcases h with h | h
    · exact ⟨(k, v), List.mem_cons_self, exists_stringIn_of_mem_valueRefs h⟩
    · obtain ⟨e, he, hs⟩ := exists_stringIn_of_mem_entriesRefs h
      exact ⟨e, List.mem_cons_of_mem _ he, hs⟩

theorem exists_stringIn_of_mem_itemsRefs {xs : List Toml} (h : key ∈ itemsRefs xs) :
    ∃ x ∈ xs, ∃ s, StringIn s x ∧ HasRef s.toList key := by
  rcases xs with _ | ⟨x, xs⟩
  · cases h
  · rw [itemsRefs, List.mem_append] at h
    rcases h with h | h
    · exact ⟨x, List.mem_cons_self, exists_stringIn_of_mem_valueRefs h⟩
    · obtain ⟨y, hy, hs⟩ := exists_stringIn_of_mem_itemsRefs h
      exact ⟨y, List.mem_cons_of_mem _ hy, hs⟩

end

/-- The references of a value are those of the strings that can be reached in it. -/
theorem mem_valueRefs_iff {v : Toml} :
    key ∈ valueRefs v ↔ ∃ s, StringIn s v ∧ HasRef s.toList key := by
  refine ⟨exists_stringIn_of_mem_valueRefs, ?_⟩
  rintro ⟨s, hs, href⟩
  induction hs with
  | here => exact mem_secretRefs_iff.mpr href
  | entry he _ ih => exact mem_entriesRefs_iff.mpr ⟨_, he, ih⟩
  | item hx _ ih => exact mem_itemsRefs_iff.mpr ⟨_, hx, ih⟩

/-! ### Profiles -/

/-- The fields of a profile other than its firmware. -/
def profileFields (profile : ProvisionProfile) : List Toml :=
  [profile.name, profile.osFamily, profile.osVersion, profile.vendor, profile.arch,
    profile.installUrl, profile.autoinstallUrl, profile.network, profile.disk, profile.packages,
    profile.postScripts, profile.extra, profile.ipxeCommands, profile.dhcpOptions]

/-- Some string that can be reached in the profile, its firmware excluded, refers to the key. -/
def RefersTo (profile : ProvisionProfile) (key : String) : Prop :=
  ∃ field ∈ profileFields profile, ∃ s, StringIn s field ∧ HasRef s.toList key

/-- The second profile is the first one with its references replaced. -/
structure SubstProfile (value : String → String → Prop) (profile resolved : ProvisionProfile) :
    Prop where
  firmware : resolved.firmware = profile.firmware
  fields : List.Forall₂ (SubstValue value) (profileFields profile) (profileFields resolved)

variable {profile resolved : ProvisionProfile}

theorem mem_profileRefs_iff : key ∈ profileRefs profile ↔ RefersTo profile key := by
  simp only [profileRefs, RefersTo, profileFields, List.mem_flatMap, mem_valueRefs_iff]

/-- **The manager resolves a profile** to what it is with its references replaced, and to nothing
else. -/
theorem resolveProfile_eq_ok_iff :
    resolveProfile py get profile = .ok resolved ↔
      SubstProfile (HasValue get) profile resolved := by
  constructor
  · intro h
    simp only [resolveProfile, bind_eq_ok_iff, pure_eq_ok, Except.ok.injEq,
      resolveValue_eq_ok_iff] at h
    obtain ⟨name, hname, osFamily, hosFamily, osVersion, hosVersion, vendor, hvendor, arch, harch,
      installUrl, hinstallUrl, autoinstallUrl, hautoinstallUrl, network, hnetwork, disk, hdisk,
      packages, hpackages, postScripts, hpostScripts, extra, hextra, ipxeCommands, hipxeCommands,
      dhcpOptions, hdhcpOptions, rfl⟩ := h
    exact ⟨rfl, by simp [profileFields, *]⟩
  · rintro ⟨hfirmware, hfields⟩
    simp only [profileFields, List.forall₂_cons, List.forall₂_nil_left_iff, and_true] at hfields
    obtain ⟨hname, hosFamily, hosVersion, hvendor, harch, hinstallUrl, hautoinstallUrl, hnetwork,
      hdisk, hpackages, hpostScripts, hextra, hipxeCommands, hdhcpOptions⟩ := hfields
    simp only [resolveProfile, bind_eq_ok_iff, pure_eq_ok, Except.ok.injEq, resolveValue_eq_ok_iff]
    exact ⟨_, hname, _, hosFamily, _, hosVersion, _, hvendor, _, harch, _, hinstallUrl, _,
      hautoinstallUrl, _, hnetwork, _, hdisk, _, hpackages, _, hpostScripts, _, hextra, _,
      hipxeCommands, _, hdhcpOptions, by rw [← hfirmware]⟩

/-- A profile is not resolved when a reference in it has no value: what is raised is the error of
that reference. -/
theorem exists_of_resolveProfile_eq_error {e : PyExc}
    (h : resolveProfile py get profile = .error e) :
    ∃ key ∈ profileRefs profile, ∃ path, replacer py get path key = .error e := by
  have hfield : ∀ field ∈ profileFields profile, ∀ path,
      resolveValue py get field path = .error e →
        ∃ key ∈ profileRefs profile, ∃ path, replacer py get path key = .error e := by
    intro field hmem path hfield
    obtain ⟨key, hkey, hreplace⟩ := exists_of_resolveValue_eq_error hfield
    exact ⟨key, List.mem_flatMap.mpr ⟨field, hmem, hkey⟩, hreplace⟩
  rw [resolveProfile] at h
  iterate 14
    rcases bind_eq_error_iff.mp h with h | ⟨_, -, h⟩
    · exact hfield _ (by simp [profileFields]) _ h
  cases h

theorem exists_of_resolveProfile_eq_ok (h : resolveProfile py get profile = .ok resolved) :
    ∀ key ∈ profileRefs profile, ∃ v, HasValue get key v := by
  intro key hkey
  obtain ⟨field, hfield, hkey⟩ := List.mem_flatMap.mp hkey
  obtain ⟨-, hfields⟩ := resolveProfile_eq_ok_iff.mp h
  change field ∈ profileFields profile at hfield
  obtain ⟨i, hi, rfl⟩ := List.mem_iff_getElem.mp hfield
  have hvalue := hfields.get hi (hfields.length_eq ▸ hi)
  have hresolved : resolveValue py get (profileFields profile)[i] "" = .ok _ :=
    resolveValue_eq_ok_iff.mpr hvalue
  exact exists_of_resolveValue_eq_ok hresolved key hkey

mutual

/-- Without references, a value is what it is resolved to. -/
theorem substValue_self {v : Toml} (h : ∀ key, key ∉ valueRefs v) : SubstValue value v v := by
  cases v with
  | str s => exact .str (.text fun key href => h key (mem_secretRefs_iff.mpr href))
  | dict kvs => exact .dict (substEntries_self h)
  | list xs => exact .list (substItems_self h)
  | _ => exact .leaf (by simp) (by simp) (by simp)

theorem substEntries_self {kvs : List (String × Toml)} (h : ∀ key, key ∉ entriesRefs kvs) :
    SubstEntries value kvs kvs := by
  rcases kvs with _ | ⟨⟨k, v⟩, kvs⟩
  · exact .nil
  · rw [entriesRefs] at h
    exact .cons (substValue_self fun key hkey => h key (List.mem_append_left _ hkey))
      (substEntries_self fun key hkey => h key (List.mem_append_right _ hkey))

theorem substItems_self {xs : List Toml} (h : ∀ key, key ∉ itemsRefs xs) :
    SubstItems value xs xs := by
  rcases xs with _ | ⟨x, xs⟩
  · exact .nil
  · rw [itemsRefs] at h
    exact .cons (substValue_self fun key hkey => h key (List.mem_append_left _ hkey))
      (substItems_self fun key hkey => h key (List.mem_append_right _ hkey))

end

/-- A profile without references is returned as it is. -/
theorem resolveProfile_of_no_refs (h : ∀ key, key ∉ profileRefs profile) :
    resolveProfile py get profile = .ok profile := by
  refine resolveProfile_eq_ok_iff.mpr ⟨rfl, List.forall₂_same.mpr fun field hfield => ?_⟩
  exact substValue_self fun key hkey => h key (List.mem_flatMap.mpr ⟨field, hfield, hkey⟩)

/-- What is raised is the manager's `ValueError` for a key without a value, or what the provider
raised. -/
theorem resolveProfile_error_cases {e : PyExc} (h : resolveProfile py get profile = .error e) :
    ∃ key, RefersTo profile key ∧
      (get key = .ok none ∧ e.cls = .valueError ∨ get key = .error e) := by
  obtain ⟨key, hkey, path, hreplace⟩ := exists_of_resolveProfile_eq_error h
  refine ⟨key, mem_profileRefs_iff.mp hkey, ?_⟩
  rw [replacer] at hreplace
  rcases hget : get key with e' | _ | v
  · rw [hget, error_bind] at hreplace
    exact .inr (congrArg Except.error (Except.error.inj hreplace))
  · rw [hget] at hreplace
    cases hreplace
    exact .inl ⟨rfl, rfl⟩
  · rw [hget] at hreplace
    cases hreplace

theorem resolveProfile_error_iff :
    (∃ e, resolveProfile py get profile = .error e) ↔
      ∃ key, RefersTo profile key ∧ ¬ ∃ v, HasValue get key v := by
  constructor
  · rintro ⟨e, he⟩
    obtain ⟨key, hkey, hcases⟩ := resolveProfile_error_cases he
    refine ⟨key, hkey, ?_⟩
    rintro ⟨v, hv⟩
    rcases hcases with ⟨hnone, -⟩ | herror
    · cases hv.symm.trans hnone
    · cases hv.symm.trans herror
  · rintro ⟨key, hkey, hnone⟩
    rcases hresolve : resolveProfile py get profile with e | resolved
    · exact ⟨e, rfl⟩
    · exact absurd (exists_of_resolveProfile_eq_ok hresolve key (mem_profileRefs_iff.mpr hkey))
        hnone

/-- A provider that answers every key. -/
theorem resolveProfile_lookup (lookup : String → Option String) :
    ((∃ e, resolveProfile py (fun key => .ok (lookup key)) profile = .error e ∧
        e.cls = .valueError) ↔
      ∃ key, RefersTo profile key ∧ lookup key = none) ∧
    ((¬ ∃ key, RefersTo profile key ∧ lookup key = none) →
      ∃ resolved, resolveProfile py (fun key => .ok (lookup key)) profile = .ok resolved ∧
        SubstProfile (fun key v => lookup key = some v) profile resolved) := by
  have hvalue : HasValue (fun key => .ok (lookup key)) = fun key v => lookup key = some v := by
    funext key v
    simp [HasValue]
  have hlacks : ∀ key, (¬ ∃ v, HasValue (fun key => .ok (lookup key)) key v) ↔
      lookup key = none := by
    intro key
    rw [hvalue, ← Option.isSome_iff_exists, Bool.not_eq_true, Option.isSome_eq_false_iff,
      Option.isNone_iff_eq_none]
  have herror : (∃ e, resolveProfile py (fun key => .ok (lookup key)) profile = .error e) ↔
      ∃ key, RefersTo profile key ∧ ¬ ∃ v, HasValue (fun key => .ok (lookup key)) key v :=
    resolveProfile_error_iff
  simp only [hlacks] at herror
  constructor
  · rw [← herror]
    constructor
    · rintro ⟨e, he, -⟩
      exact ⟨e, he⟩
    · rintro ⟨e, he⟩
      obtain ⟨key, -, ⟨-, hcls⟩ | hraise⟩ := resolveProfile_error_cases he
      · exact ⟨e, he, hcls⟩
      · cases hraise
  · intro hall
    rcases hresolve : resolveProfile py (fun key => .ok (lookup key)) profile with e | resolved
    · exact absurd (herror.mp ⟨e, hresolve⟩) hall
    · exact ⟨resolved, rfl, hvalue ▸ resolveProfile_eq_ok_iff.mp hresolve⟩

/-- **Resolution of a profile.** With a provider that answers every key with a value or with
nothing, the manager raises `ValueError` exactly when some string that can be reached in the
profile refers to a key without a value, and else returns the profile with its references
replaced. With any provider, it returns exactly what has the references replaced, it fails exactly
when some key that is referred to has no value, and then with `ValueError` or with what the
provider raised. A profile without references is returned as it is. -/
theorem resolveProfile_spec (py : StrLib) (profile : ProvisionProfile) :
    (∀ lookup : String → Option String,
      ((∃ e, resolveProfile py (fun key => .ok (lookup key)) profile = .error e ∧
          e.cls = .valueError) ↔
        ∃ key, RefersTo profile key ∧ lookup key = none) ∧
      ((¬ ∃ key, RefersTo profile key ∧ lookup key = none) →
        ∃ resolved, resolveProfile py (fun key => .ok (lookup key)) profile = .ok resolved ∧
          SubstProfile (fun key v => lookup key = some v) profile resolved)) ∧
    (∀ get : String → Except PyExc (Option String),
      (∀ resolved, resolveProfile py get profile = .ok resolved ↔
        SubstProfile (HasValue get) profile resolved) ∧
      ((∃ e, resolveProfile py get profile = .error e) ↔
        ∃ key, RefersTo profile key ∧ ¬ ∃ v, HasValue get key v) ∧
      ∀ e, resolveProfile py get profile = .error e →
        ∃ key, RefersTo profile key ∧
          (get key = .ok none ∧ e.cls = .valueError ∨ get key = .error e)) ∧
    ((¬ ∃ key, RefersTo profile key) →
      ∀ get, resolveProfile py get profile = .ok profile) :=
  ⟨resolveProfile_lookup, fun _ => ⟨fun _ => resolveProfile_eq_ok_iff, resolveProfile_error_iff,
    fun _ => resolveProfile_error_cases⟩,
    fun hnone _ => resolveProfile_of_no_refs fun key hkey =>
      hnone ⟨key, mem_profileRefs_iff.mp hkey⟩⟩

end TftpOS
