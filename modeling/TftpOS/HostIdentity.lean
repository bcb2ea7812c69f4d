import TftpOS.Matcher
import TftpOS.State

/-!
# Spellings of a MAC

The matcher takes a MAC up to letter case and separators (`normMac`); the tracker keys its
records by the lower-cased MAC alone. Whether a run of the tracker, with
`FirmwareEngine.ensure_tracked` among its calls, treats all spellings of a host alike
(`OneIdentity`) is therefore decided by its calls: no second spelling of a tracked host may be
registered, and netboot may be disabled only for a host whose spellings have one lower-cased
form (`one_identity_iff`), which is a MAC without separators (`singleSpelling_iff`).
-/

namespace TftpOS

open Lib

/-- `FirmwareEngine.ensure_tracked` on the engine's tracker. -/
def ensureTracked {σ : Type} [StorageBackend σ] (py : StrLib) (t : ProvisionTracker σ) (now : ℚ)
    (mac : String) (rule : HostRule) : Except PyExc Unit × ProvisionTracker σ :=
  match t.get py mac with
  | some _ => (.ok (), t)
  | none => (t.register py now mac rule.profile rule.osFamily rule.osVersion).map
      (·.map fun _ => ()) id

/-- `m.replace("-", ":")`. -/
def unifySeparators (m : String) : String := replaceChar '-' ':' m

namespace ProvisionTracker

variable {σ : Type} {py : StrLib} {t : ProvisionTracker σ}

/-- A call on the tracker, of its own or through the engine. -/
inductive HostOp where
  | call (op : Op)
  | ensureTracked (now : ℚ) (mac : String) (rule : HostRule)

/-- One call. -/
def hostStep [StorageBackend σ] (py : StrLib) (t : ProvisionTracker σ) :
    HostOp → Except PyExc (Option ProvisionRecord) × ProvisionTracker σ
  | .call op => step py t op
  | .ensureTracked now mac rule =>
    (TftpOS.ensureTracked py t now mac rule).map (·.map fun _ => none) id

/-- The tracker takes all spellings of a host for the same host. -/
structure OneIdentity (py : StrLib) (t : ProvisionTracker σ) : Prop where
  /-- No host has two records. -/
  one_record : ∀ host, (t.listAll.filter fun r => normMac py r.mac = host).length ≤ 1
  /-- The netboot flag does not depend on the spelling. -/
  netboot : ∀ m m', normMac py m = normMac py m' →
    t.isNetbootEnabled py m = t.isNetbootEnabled py m'

/-- Every spelling of the host has the lower-cased form of this one. -/
def SingleSpelling (py : StrLib) (mac : String) : Prop :=
  ∀ m, normMac py m = normMac py mac → py.lower m = py.lower mac

/-- Every record of the host is kept under the lower-cased form of this spelling. -/
def KeptAs (py : StrLib) (t : ProvisionTracker σ) (mac : String) : Prop :=
  ∀ r ∈ t.listAll, normMac py r.mac = normMac py mac → py.lower r.mac = py.lower mac

/-- A call registers no second spelling of a tracked host, and disables netboot only for a host
with a single spelling. -/
def HostOp.RespectsSpelling (py : StrLib) (t : ProvisionTracker σ) : HostOp → Prop
  | .call (.register _ mac _ _ _) => t.KeptAs py mac
  | .call (.disableNetboot mac) => (t.get py mac).isSome → SingleSpelling py mac
  | .ensureTracked _ mac _ => t.get py mac = none → t.KeptAs py mac
  | .call (.transition _ _ _ _) | .call (.enableNetboot _) | .call .clear => True

/-! ### Spellings of an ASCII MAC -/

section

variable {a b : Char} {mac : String}

/-- Lower-casing neither makes nor removes a separator. -/
private theorem toLower_eq_iff {c : Char} (ha : a = '-' ∨ a = ':') (hc : c.toNat < 128) :
    c.toLower = a ↔ c = a := by
  have hall : ∀ n < 128, ((Char.ofNat n).toLower = '-' ↔ Char.ofNat n = '-') ∧
      ((Char.ofNat n).toLower = ':' ↔ Char.ofNat n = ':') := by decide
  have h := hall c.toNat hc
  rw [Char.ofNat_toNat] at h
  rcases ha with rfl | rfl
  · exact h.1
  · exact h.2

private theorem asciiLower_replaceChar (ha : a = '-' ∨ a = ':') (hb : b = '-' ∨ b = ':')
    (hmac : IsAscii mac) :
    asciiLower (replaceChar a b mac) = replaceChar a b (asciiLower mac) := by
  have hlower : b.toLower = b := by rcases hb with rfl | rfl <;> decide
  rw [← String.toList_inj, asciiLower, String.toList_ofList, toList_replaceChar,
    toList_replaceChar, asciiLower, String.toList_ofList, List.map_map, List.map_map]
  refine List.map_congr_left fun c hc => ?_
  have hiff : c.toLower = a ↔ c = a := toLower_eq_iff ha (hmac c hc)
  by_cases h : c = a
  · subst h
    have hfix : c.toLower = c := hiff.mpr rfl
    simp [hfix, hlower]
  · simp [h, mt hiff.mp h]

private theorem isAscii_replaceChar (hb : b = '-' ∨ b = ':') (hmac : IsAscii mac) :
    IsAscii (replaceChar a b mac) := by
  intro c hc
  rw [toList_replaceChar] at hc
  obtain ⟨c', hc', rfl⟩ := List.mem_map.mp hc
  split_ifs
  · rcases hb with rfl | rfl <;> decide
  · exact hmac c' hc'

private theorem hasChar_asciiLower (ha : a = '-' ∨ a = ':') (hmac : IsAscii mac) :
    hasChar a (asciiLower mac) = hasChar a mac := by
  rw [hasChar, hasChar, asciiLower, String.toList_ofList, decide_eq_decide, List.mem_map]
  constructor
  · rintro ⟨c, hc, hca⟩
    exact (toLower_eq_iff ha (hmac c hc)).mp hca ▸ hc
  · exact fun h => ⟨a, h, (toLower_eq_iff ha (hmac a h)).mpr rfl⟩

/-- A host has a single spelling exactly when its MAC has no separators. -/
theorem singleSpelling_iff (hmac : IsAscii mac) :
    SingleSpelling py mac ↔ hasChar '-' mac = false ∧ hasChar ':' mac = false := by
  have hlower : py.lower mac = asciiLower mac := py.lower_ascii mac hmac
  -- the spelling with one separator in the place of the other is lower-cased differently
  have hother : ∀ a b : Char, (a = '-' ∨ a = ':') → (b = '-' ∨ b = ':') → a ≠ b →
      normMac py (replaceChar a b mac) = normMac py mac → SingleSpelling py mac →
        hasChar a mac = false := by
    intro a b ha hb hab hnorm hsingle
    have hsame := hsingle (replaceChar a b mac) hnorm
    rw [py.lower_ascii _ (isAscii_replaceChar hb hmac), hlower, asciiLower_replaceChar ha hb hmac]
      at hsame
    have hgone := hasChar_replaceChar_self (a := a) (b := b) (s := asciiLower mac) hab
    rw [hsame, hasChar_asciiLower ha hmac] at hgone
    exact hgone
  constructor
  · intro hsingle
    refine ⟨hother '-' ':' (.inl rfl) (.inr rfl) (by decide) ?_ hsingle,
      hother ':' '-' (.inr rfl) (.inl rfl) (by decide) ?_ hsingle⟩
    · rw [normMac, normMac, py.lower_ascii _ (isAscii_replaceChar (.inr rfl) hmac), hlower,
        asciiLower_replaceChar (.inl rfl) (.inr rfl) hmac]
      exact replaceChar_eq_self (hasChar_replaceChar_self (by decide))
    · rw [normMac, normMac, py.lower_ascii _ (isAscii_replaceChar (.inl rfl) hmac), hlower,
        asciiLower_replaceChar (.inr rfl) (.inl rfl) hmac, ← String.toList_inj]
      simp only [toList_replaceChar, List.map_map]
      refine List.map_congr_left fun c _ => ?_
      by_cases hc : c = ':' <;> simp [hc]
  · rintro ⟨hdash, hcolon⟩ m hm
    have hdash' : hasChar '-' (py.lower mac) = false := by
      rw [hlower, hasChar_asciiLower (.inl rfl) hmac, hdash]
    have hcolon' : hasChar ':' (py.lower mac) = false := by
      rw [hlower, hasChar_asciiLower (.inr rfl) hmac, hcolon]
    rw [normMac, normMac, replaceChar_eq_self hdash'] at hm
    have hnone : hasChar '-' (py.lower m) = false := by
      rw [Bool.eq_false_iff]
      intro hmem
      have hbad := hasChar_replaceChar (b := ':') hmem
      rw [hm, hcolon'] at hbad
      cases hbad
    rw [← replaceChar_eq_self (b := ':') hnone, hm]

end

/-! ### Records by their keys -/

/-- Every record is kept under its own MAC, lower-cased. -/
def KeyedByMac (py : StrLib) (d : Dict String ProvisionRecord) : Prop :=
  ∀ key r, d.get? key = some r → py.lower r.mac = key

/-- The keys tell the hosts apart, and a host whose netboot is disabled has one key. -/
structure Identified (py : StrLib) (d : Dict String ProvisionRecord) : Prop where
  nodup : (d.keys.map unifySeparators).Nodup
  single : ∀ key r, d.get? key = some r → r.netbootEnabled = false → SingleSpelling py r.mac

variable {d : Dict String ProvisionRecord}

theorem normMac_eq (mac : String) : normMac py mac = unifySeparators (py.lower mac) := rfl

theorem KeyedByMac.map_keys (hd : KeyedByMac py d) :
    d.values.map (fun r => normMac py r.mac) = d.keys.map unifySeparators := by
  rw [Dict.values, Dict.keys, List.map_map, List.map_map]
  refine List.map_congr_left fun e he => ?_
  have hkey := hd e.1 e.2 (Dict.get?_eq_some_iff.mpr he)
  simp [normMac_eq, hkey]

theorem KeyedByMac.mem_keys_iff (hd : KeyedByMac py d) {host : String} :
    host ∈ d.keys.map unifySeparators ↔ ∃ r ∈ d.values, normMac py r.mac = host := by
  rw [← hd.map_keys, List.mem_map]

/-- A MAC whose netboot is disabled has a record that says so. -/
theorem isNetbootEnabled_eq_false_iff {mac : String} :
    t.isNetbootEnabled py mac = false ↔
      ∃ r, t.records.get? (py.lower mac) = some r ∧ r.netbootEnabled = false := by
  rw [isNetbootEnabled, get]
  split <;> next h => simp [h]

/-- A tracker takes the spellings of its hosts alike exactly when the keys identify them. -/
theorem oneIdentity_iff (hd : KeyedByMac py t.records) :
    OneIdentity py t ↔ Identified py t.records := by
  have hcount : (∀ host, (t.listAll.filter fun r => normMac py r.mac = host).length ≤ 1) ↔
      (t.records.keys.map unifySeparators).Nodup := by
    rw [← hd.map_keys, List.nodup_iff_count_le_one]
    refine forall_congr' fun host => ?_
    rw [List.count, List.countP_map, List.countP_eq_length_filter]
    rfl
  constructor
  · rintro ⟨hone, hnetboot⟩
    have hnodup := hcount.mp hone
    refine ⟨hnodup, fun key r hr hoff m hm => ?_⟩
    have hkey := hd key r hr
    -- the other spelling is disabled too, so it has a record, and the hosts have one each
    have hoff' : t.isNetbootEnabled py m = false := by
      rw [hnetboot m r.mac hm, isNetbootEnabled_eq_false_iff]
      exact ⟨r, hkey ▸ hr, hoff⟩
    obtain ⟨r', hr', -⟩ := isNetbootEnabled_eq_false_iff.mp hoff'
    refine List.inj_on_of_nodup_map hnodup (Dict.mem_keys_iff.mpr ⟨r', hr'⟩)
      (Dict.mem_keys_iff.mpr ⟨r, hkey ▸ hr⟩) ?_
    exact hm
  · rintro ⟨hnodup, hsingle⟩
    refine ⟨hcount.mpr hnodup, ?_⟩
    have hoff : ∀ m m', normMac py m = normMac py m' → t.isNetbootEnabled py m = false →
        t.isNetbootEnabled py m' = false := by
      intro m m' hm h
      obtain ⟨r, hr, hr'⟩ := isNetbootEnabled_eq_false_iff.mp h
      have hmac : py.lower r.mac = py.lower m := hd _ r hr
      have hsame : normMac py m' = normMac py r.mac := by
        rw [← hm, normMac_eq, normMac_eq, hmac]
      rw [isNetbootEnabled_eq_false_iff]
      exact ⟨r, by rw [hsingle _ r hr hr' m' hsame, hmac, hr], hr'⟩
    intro m m' hm
    cases h : t.isNetbootEnabled py m with
    | false => exact (hoff m m' hm h).symm
    | true =>
      cases h' : t.isNetbootEnabled py m' with
      | false => exact (Bool.noConfusion (h.symm.trans (hoff m' m hm.symm h')))
      | true => rfl

/-! ### What a call does to the identities -/

/-- The effect of a call, read off the records before it. -/
def HostOp.effect (py : StrLib) (d : Dict String ProvisionRecord) : HostOp → Effect
  | .call op => op.effect py d
  | .ensureTracked now mac rule =>
    match d.get? (py.lower mac) with
    | some _ => .nothing
    | none =>
      .write (py.lower mac) (.fresh mac rule.profile rule.osFamily rule.osVersion now)

theorem hostStep_records [StorageBackend σ] (op : HostOp) :
    (hostStep py t op).2.records = (op.effect py t.records).onRecords t.records := by
  cases op with
  | call op => exact step_records op
  | ensureTracked now mac rule =>
    rw [hostStep, TftpOS.ensureTracked, HostOp.effect, get]
    split
    · rfl
    · exact (congrArg records (register_snd _ _ _ _ _)).trans (update_records _ _)

/-- A record is written under its own MAC. -/
private theorem keyedByMac_of_effect (hd : KeyedByMac py d) {op : HostOp} {key : String}
    {r : ProvisionRecord} (h : op.effect py d = .write key r) : py.lower r.mac = key := by
  cases op with
  | ensureTracked now mac rule =>
    rw [HostOp.effect] at h
    split at h
    · cases h
    · cases h
      rfl
  | call op =>
    cases op with
    | register now mac profile osFamily osVersion =>
      cases h
      rfl
    | transition | enableNetboot | disableNetboot =>
      rw [HostOp.effect, Op.effect] at h
      split at h
      · cases h
      · next old hold =>
        cases h
        exact hd _ old hold
    | clear => cases h

theorem KeyedByMac.step (hd : KeyedByMac py d) (op : HostOp) :
    KeyedByMac py ((op.effect py d).onRecords d) := by
  intro key r hr
  cases heffect : op.effect py d with
  | nothing =>
    rw [heffect] at hr
    exact hd key r hr
  | write key' r' =>
    rw [heffect, Effect.onRecords, Dict.get?_set] at hr
    split_ifs at hr with hkey
    · obtain rfl := Option.some.inj hr
      exact (keyedByMac_of_effect hd heffect).trans hkey.symm
    · exact hd key r hr
  | clear =>
    rw [heffect] at hr
    cases hr

/-- Writing a record keeps the hosts identified exactly when its key is not a second one of its
host and, when its netboot is disabled, its host has a single spelling. -/
theorem identified_set_iff (h : Identified py d) {key : String} (r : ProvisionRecord) :
    Identified py (d.set key r) ↔
      (unifySeparators key ∈ d.keys.map unifySeparators → key ∈ d.keys) ∧
        (r.netbootEnabled = false → SingleSpelling py r.mac) := by
  have hkeys : ((d.set key r).keys.map unifySeparators).Nodup ↔
      (unifySeparators key ∈ d.keys.map unifySeparators → key ∈ d.keys) := by
    rw [Dict.keys_set]
    split_ifs with hmem
    · exact iff_of_true h.nodup fun _ => hmem
    · rw [List.map_append, List.map_singleton, List.nodup_append_comm, List.singleton_append,
        List.nodup_cons]
      exact ⟨fun hnodup hin => absurd hin hnodup.1, fun hin => ⟨fun hbad => hmem (hin hbad),
        h.nodup⟩⟩
  constructor
  · rintro ⟨hnodup, hsingle⟩
    exact ⟨hkeys.mp hnodup, hsingle key r Dict.get?_set_self⟩
  · rintro ⟨hin, hoff⟩
    refine ⟨hkeys.mpr hin, fun key' r' hr' => ?_⟩
    rw [Dict.get?_set] at hr'
    split_ifs at hr'
    · obtain rfl := Option.some.inj hr'
      exact hoff
    · exact h.single key' r' hr'

/-- The key of a spelling is not a second one of its host exactly when the host is kept as this
spelling. -/
theorem keptAs_iff (hd : KeyedByMac py t.records) (h : Identified py t.records) {mac : String} :
    t.KeptAs py mac ↔ (unifySeparators (py.lower mac) ∈ t.records.keys.map unifySeparators →
      py.lower mac ∈ t.records.keys) := by
  have hkeys : ∀ r ∈ t.listAll, py.lower r.mac ∈ t.records.keys := by
    intro r hr
    obtain ⟨key, hkey⟩ := Dict.mem_values_iff.mp hr
    rw [hd key r hkey]
    exact Dict.mem_keys_iff.mpr ⟨r, hkey⟩
  constructor
  · intro hkept hmem
    obtain ⟨r, hr, hmac⟩ := hd.mem_keys_iff.mp hmem
    rw [← hkept r hr hmac]
    exact hkeys r hr
  · intro hin r hr hmac
    have hmem := hin (hd.mem_keys_iff.mpr ⟨r, hr, hmac⟩)
    exact List.inj_on_of_nodup_map h.nodup (hkeys r hr) hmem hmac

/-- Rewriting a record with its netboot flag unchanged or set keeps the hosts identified. -/
private theorem identified_rewrite (hd : KeyedByMac py d) (h : Identified py d) {mac : String}
    {old r : ProvisionRecord} (hold : d.get? (py.lower mac) = some old) (hmac : r.mac = old.mac) :
    Identified py (d.set (py.lower mac) r) ↔
      (r.netbootEnabled = false → SingleSpelling py mac) := by
  have hlower : py.lower r.mac = py.lower mac := hmac ▸ hd _ old hold
  have hsingle : SingleSpelling py r.mac ↔ SingleSpelling py mac := by
    simp only [SingleSpelling, normMac_eq, hlower]
  rw [identified_set_iff h, hsingle]
  exact and_iff_right fun _ => Dict.mem_keys_iff.mpr ⟨old, hold⟩

/-- A tracked host whose netboot is disabled has a single spelling. -/
private theorem single_of_disabled (hd : KeyedByMac py d) (h : Identified py d) {mac : String}
    {old : ProvisionRecord} (hold : d.get? (py.lower mac) = some old)
    (hoff : old.netbootEnabled = false) : SingleSpelling py mac := by
  have hlower := hd _ old hold
  have hsingle := h.single _ old hold hoff
  simpa only [SingleSpelling, normMac_eq, hlower] using hsingle

/-- **One call** keeps the hosts identified exactly when it respects their spellings. -/
theorem identified_step_iff (hd : KeyedByMac py t.records) (h : Identified py t.records)
    (op : HostOp) :
    Identified py ((op.effect py t.records).onRecords t.records) ↔ op.RespectsSpelling py t := by
  cases op with
  | ensureTracked now mac rule =>
    rw [HostOp.effect, HostOp.RespectsSpelling, get]
    split
    · next r hr => simp [hr, Effect.onRecords, h]
    · next hr =>
      rw [Effect.onRecords, identified_set_iff h, keptAs_iff hd h]
      simp [ProvisionRecord.fresh, hr]
  | call op =>
    cases op with
    | register now mac profile osFamily osVersion =>
      rw [HostOp.effect, Op.effect, Effect.onRecords, identified_set_iff h,
        HostOp.RespectsSpelling, keptAs_iff hd h]
      simp [ProvisionRecord.fresh]
    | transition now mac newState errorMessage =>
      rw [HostOp.effect, Op.effect]
      refine iff_of_true ?_ trivial
      split
      · exact h
      · next old hold =>
        rw [Effect.onRecords,
          identified_rewrite (r := old.enter newState now errorMessage) hd h hold rfl]
        exact fun hoff : old.netbootEnabled = false => single_of_disabled hd h hold hoff
    | enableNetboot mac =>
      rw [HostOp.effect, Op.effect]
      refine iff_of_true ?_ trivial
      split
      · exact h
      · next old hold =>
        rw [Effect.onRecords, identified_rewrite (r := old.setNetboot true) hd h hold rfl]
        exact fun hoff => Bool.noConfusion hoff
    | disableNetboot mac =>
      rw [HostOp.effect, Op.effect, HostOp.RespectsSpelling, get]
      split
      · next hnone => simp [hnone, Effect.onRecords, h]
      · next old hold =>
        rw [Effect.onRecords, identified_rewrite (r := old.setNetboot false) hd h hold rfl, hold]
        simp [ProvisionRecord.setNetboot]
    | clear => exact iff_of_true ⟨List.nodup_nil, fun key r hr => by cases hr⟩ trivial

/-- **Boot-once and spellings.** In every run from a tracker without records, all states take the
spellings of each host alike if and only if every call respects them: no second spelling of a
tracked host is registered, by `register` or by `ensure_tracked`, and netboot is disabled only
for a host with a single spelling. -/
theorem one_identity_iff {σ : Type} [StorageBackend σ] (py : StrLib) (t : ProvisionTracker σ)
    (ht : t.records = ∅) (ops : List HostOp) :
    (∀ pre, pre <+: ops → OneIdentity py (run (hostStep py) t pre)) ↔
      ∀ pre op, pre ++ [op] <+: ops → op.RespectsSpelling py (run (hostStep py) t pre) := by
  let Inv (t : ProvisionTracker σ) : Prop := KeyedByMac py t.records
  have hinv : ∀ (s : ProvisionTracker σ) op, Inv s → Inv (hostStep py s op).2 := by
    intro s op h
    show KeyedByMac py (hostStep py s op).2.records
    rw [hostStep_records]
    exact KeyedByMac.step h op
  have hgood : ∀ (s : ProvisionTracker σ) op, Inv s → OneIdentity py s →
      (OneIdentity py (hostStep py s op).2 ↔ op.RespectsSpelling py s) := by
    intro s op h hone
    rw [oneIdentity_iff (hinv s op h), hostStep_records,
      identified_step_iff h ((oneIdentity_iff h).mp hone)]
  have hstart : Inv t := by
    show KeyedByMac py t.records
    rw [ht]
    exact fun key r hr => by cases hr
  have hone : OneIdentity py t := by
    rw [oneIdentity_iff hstart, ht]
    exact ⟨List.nodup_nil, fun key r hr => by cases hr⟩
  exact forall_run_iff hinv hgood hstart hone ops

/-- A host whose MAC has no separators is booted once. -/
theorem one_identity_iff_single :
    OneIdentity .ascii (run (hostStep (σ := Empty) .ascii) ⟨none, ∅, fun _ => []⟩
      [.call (.register 1 "AA01" "web" "debian" "12"), .call (.disableNetboot "aa01")]) := by
  refine (one_identity_iff (σ := Empty) .ascii ⟨none, ∅, fun _ => []⟩ rfl _).mpr ?_ _
    (List.prefix_refl _)
  intro pre op hop
  rcases pre with _ | ⟨op₁, _ | ⟨op₂, pre⟩⟩
  · obtain ⟨rfl, -⟩ := List.cons_prefix_cons.mp hop
    exact fun r hr => by cases hr
  · obtain ⟨rfl, hlast⟩ := List.cons_prefix_cons.mp hop
    obtain ⟨rfl, -⟩ := List.cons_prefix_cons.mp hlast
    exact fun _ => (singleSpelling_iff (by decide)).mpr (by decide)
  · have hlen := hop.length_le
    simp at hlen

/-- Netboot is disabled under one spelling of a MAC: the other spelling still netboots, and
tracking it adds a second record of the host. -/
theorem other_spelling_netboots :
    let t := run (hostStep (σ := Empty) .ascii) ⟨none, ∅, fun _ => []⟩
      [.call (.register 1 "aa-bb-cc-dd-ee-01" "web" "debian" "12"),
        .call (.disableNetboot "aa-bb-cc-dd-ee-01")]
    let rule : HostRule := { profile := "web", osFamily := "debian", osVersion := "12" }
    normMac .ascii "aa-bb-cc-dd-ee-01" = normMac .ascii "AA:BB:CC:DD:EE:01" ∧
      t.isNetbootEnabled .ascii "aa-bb-cc-dd-ee-01" = false ∧
      t.isNetbootEnabled .ascii "AA:BB:CC:DD:EE:01" = true ∧
      ((hostStep .ascii t (.ensureTracked 2 "AA:BB:CC:DD:EE:01" rule)).2.listAll.filter fun r =>
        normMac .ascii r.mac = "aa:bb:cc:dd:ee:01").length = 2 ∧ ¬ OneIdentity .ascii t := by
  refine ⟨by decide +kernel, by decide +kernel, by decide +kernel, by decide +kernel, fun h => ?_⟩
  have hsame := h.netboot "aa-bb-cc-dd-ee-01" "AA:BB:CC:DD:EE:01" (by decide +kernel)
  revert hsame
  decide +kernel

end ProvisionTracker

end TftpOS
