import TftpOS.Auth

/-!
# Runs of the key store

What revoking a name does to the keys created under it. `Dead` says that a hash cannot be
validated; no call but the creation of its own key ends that (`Dead.keysAfter`). `revoke`
disables the first stored entry of a name alone, so all keys of the name are dead afterwards
exactly when the others were dead before (`revoked_never_validates_iff`).
-/

namespace TftpOS

open Lib

namespace ApiKeyStore

variable {json : JsonText} {sha256 : String → String}

/-- The raw key that a call creates. -/
def Op.created? : Op → Option String
  | .createKey token _ _ _ => some (rawKey token)
  | _ => none

/-- The raw key that a call creates under a name. -/
def Op.createdUnder? (name : String) : Op → Option String
  | .createKey token _ name' _ => if name' = name then some (rawKey token) else none
  | _ => none

/-- The raw keys that a run creates. -/
def created (ops : List Op) : List String := ops.filterMap Op.created?

/-- The raw keys that a run creates under a name. -/
def createdUnder (name : String) (ops : List Op) : List String :=
  ops.filterMap (Op.createdUnder? name)

/-- No enabled entry is stored under the hash. -/
def Dead (keys : Keys) (h : String) : Prop := ∀ k, keys.get? h = some k → k.enabled = false

theorem created_append (ops ops' : List Op) : created (ops ++ ops') = created ops ++ created ops' :=
  List.filterMap_append

theorem mem_created_of_createdUnder {name raw : String} {ops : List Op}
    (h : raw ∈ createdUnder name ops) : raw ∈ created ops := by
  obtain ⟨op, hop, hraw⟩ := List.mem_filterMap.mp h
  refine List.mem_filterMap.mpr ⟨op, hop, ?_⟩
  cases op with
  | createKey token now name' role =>
    rw [Op.createdUnder?] at hraw
    split_ifs at hraw
    exact hraw
  | validate | listKeys | revoke | delete => cases hraw

/-- Whether a hash is dead depends on the entry stored under it. -/
theorem dead_stored {keys : Keys} {h : String} : Dead (stored keys) h ↔ Dead keys h := by
  simp only [Dead, get?_stored, Option.map_eq_some_iff]
  constructor
  · intro hdead k hk
    exact hdead { k with keyHash := h } ⟨k, hk, rfl⟩
  · rintro hdead _ ⟨k, hk, rfl⟩
    exact hdead k hk

theorem dead_set {keys : Keys} {h h' : String} {k : ApiKey} :
    Dead (keys.set h' k) h ↔ if h = h' then k.enabled = false else Dead keys h := by
  simp only [Dead, Dict.get?_set]
  split_ifs with heq
  · simp
  · rfl

/-- A dead hash stays dead under every call but the creation of its own key. -/
theorem Dead.keysAfter {keys : Keys} {h : String} (hdead : Dead keys h) {op : Op}
    (hop : ∀ raw ∈ created [op], sha256 raw ≠ h) : Dead (keysAfter sha256 keys op) h := by
  cases op with
  | createKey token now name role =>
    have hne : sha256 (rawKey token) ≠ h := hop (rawKey token) (List.mem_singleton_self _)
    rw [ApiKeyStore.keysAfter, dead_stored, dead_set, if_neg hne.symm]
    exact hdead
  | validate now raw =>
    rw [ApiKeyStore.keysAfter]
    split
    · exact hdead
    · next k hk =>
      split_ifs with henabled
      · -- the entry written back is enabled, so it is not that of the dead hash
        rw [dead_stored, dead_set]
        split_ifs with heq
        · exact hdead k (heq ▸ hk)
        · exact hdead
      · exact hdead
  | listKeys => exact hdead
  | revoke name =>
    rw [ApiKeyStore.keysAfter]
    split
    · exact hdead
    · rw [dead_stored, dead_set]
      split_ifs
      · rfl
      · exact hdead
  | delete name =>
    rw [ApiKeyStore.keysAfter]
    split_ifs
    · exact hdead
    · rw [dead_stored]
      intro k hk
      rw [Dict.get?_filter, Option.filter_eq_some_iff] at hk
      exact hdead k hk.1

/-- `validate` accepts a raw key exactly when its hash is not dead. -/
theorem validate_eq_none_iff {s : ApiKeyStore json} {keys : Keys} (h : s.read = .ok keys)
    (now : ℚ) (raw : String) :
    (s.validate sha256 now raw).1 = .ok none ↔ Dead keys (sha256 raw) := by
  simp only [validate, h, findHash_eq, Dead]
  rcases hk : keys.get? (sha256 raw) with _ | k
  · simp
  · cases hen : k.enabled <;> simp [hen]

/-- After a `revoke` that returned True, a hash is dead if it was dead before or is that of the
first entry of the name. -/
theorem revoke_spec {s : ApiKeyStore json} {keys : Keys} (h : s.read = .ok keys) {name : String}
    (hrevoke : (s.revoke name).1 = .ok true) :
    ∃ keys', (s.revoke name).2.read = .ok keys' ∧
      ∀ h, Dead keys' h ↔ Dead keys h ∨ (firstNamed name keys).map Prod.fst = some h := by
  simp only [revoke, h] at hrevoke ⊢
  rcases hfirst : firstNamed name keys with _ | ⟨h₀, k₀⟩
  · simp [hfirst] at hrevoke
  · refine ⟨_, read_write _, fun h' => ?_⟩
    rw [dead_stored, dead_set]
    by_cases heq : h' = h₀
    · simp [heq]
    · simp [heq, Ne.symm heq]

/-- The entries after a run on a readable file. -/
theorem run_read {s : ApiKeyStore json} {keys : Keys} (h : s.read = .ok keys) (ops : List Op) :
    (run (step sha256) s ops).read = .ok (ops.foldl (keysAfter sha256) keys) := by
  induction ops generalizing s keys with
  | nil => exact h
  | cons op ops ih => exact ih (step_read sha256 h op)

/-- A dead hash stays dead over every run that does not create its key again. -/
theorem Dead.foldl_keysAfter {keys : Keys} {h : String} (hdead : Dead keys h) {ops : List Op}
    (hops : ∀ raw ∈ created ops, sha256 raw ≠ h) :
    Dead (ops.foldl (ApiKeyStore.keysAfter sha256) keys) h := by
  induction ops generalizing keys with
  | nil => exact hdead
  | cons op ops ih =>
    rw [← List.singleton_append, created_append, List.forall_mem_append] at hops
    exact ih (hdead.keysAfter hops.1) hops.2

/-- Creating a key enables it. -/
theorem not_dead_of_created {keys : Keys} {op : Op} {raw : String} (hraw : op.created? = some raw) :
    ¬ Dead (keysAfter sha256 keys op) (sha256 raw) := by
  cases op with
  | createKey token now name role =>
    cases hraw
    rw [keysAfter, dead_stored, dead_set, if_pos rfl]
    exact Bool.noConfusion
  | validate | listKeys | revoke | delete => cases hraw

/-- A hash is dead all through a run exactly when it is dead at the start and its key is not
created again. -/
theorem forall_prefix_dead_iff {keys : Keys} {h : String} {ops : List Op} :
    (∀ pre, pre <+: ops → Dead (pre.foldl (keysAfter sha256) keys) h) ↔
      Dead keys h ∧ ∀ raw ∈ created ops, sha256 raw ≠ h := by
  constructor
  · intro hdead
    refine ⟨hdead [] List.nil_prefix, fun raw hraw heq => ?_⟩
    -- the key is created at the end of some prefix
    obtain ⟨op, hop, hcreated⟩ := List.mem_filterMap.mp hraw
    obtain ⟨front, back, rfl⟩ := List.append_of_mem hop
    have hpre : front ++ [op] <+: front ++ op :: back := ⟨back, by simp⟩
    have hlast := hdead _ hpre
    rw [List.foldl_concat, ← heq] at hlast
    exact not_dead_of_created hcreated hlast
  · rintro ⟨hdead, hops⟩ pre hpre
    have hsub : created pre ⊆ created ops := (hpre.sublist.filterMap _).subset
    exact hdead.foldl_keysAfter fun raw hraw => hops raw (hsub hraw)

/-- **Revocation.** After a `revoke` that returned True, no key created under the name before it
is ever validated again, if and only if each of them was disabled or deleted before or was the
first stored entry of the name, the one that `revoke` disables, and none is created again. -/
theorem revoked_never_validates_iff (json : JsonText) (sha256 : String → String)
    (ops₁ ops₂ : List Op) (name : String)
    (hinj : Set.InjOn sha256 {raw | raw ∈ created (ops₁ ++ ops₂)})
    (hrevoke : ((run (step sha256) (⟨none⟩ : ApiKeyStore json) ops₁).revoke name).1 = .ok true) :
    (∀ pre, pre <+: ops₂ → ∀ raw ∈ createdUnder name ops₁, ∀ now,
      ((run (step sha256) ((run (step sha256) (⟨none⟩ : ApiKeyStore json) ops₁).revoke name).2
        pre).validate sha256 now raw).1 = .ok none) ↔
    ∀ raw ∈ createdUnder name ops₁, raw ∉ created ops₂ ∧
      ∃ keys, (run (step sha256) (⟨none⟩ : ApiKeyStore json) ops₁).read = .ok keys ∧
        ∀ k, keys.get? (sha256 raw) = some k → k.enabled = false ∨
          (firstNamed name keys).map Prod.fst = some (sha256 raw) := by
  have hread : (run (step sha256) (⟨none⟩ : ApiKeyStore json) ops₁).read =
      .ok (ops₁.foldl (keysAfter sha256) ∅) := run_read rfl ops₁
  generalize run (step sha256) (⟨none⟩ : ApiKeyStore json) ops₁ = s at hread hrevoke ⊢
  generalize ops₁.foldl (keysAfter sha256) ∅ = keys at hread
  obtain ⟨keys', hread', hdead⟩ := revoke_spec hread hrevoke
  have hvalidate : ∀ pre raw now,
      ((run (step sha256) (s.revoke name).2 pre).validate sha256 now raw).1 = .ok none ↔
        Dead (pre.foldl (keysAfter sha256) keys') (sha256 raw) := fun pre raw now =>
    validate_eq_none_iff (run_read hread' pre) now raw
  have hentry : ∀ raw, (∃ keys₀, s.read = .ok keys₀ ∧
      ∀ k, keys₀.get? (sha256 raw) = some k → k.enabled = false ∨
        (firstNamed name keys₀).map Prod.fst = some (sha256 raw)) ↔ Dead keys' (sha256 raw) := by
    intro raw
    rw [hdead, hread]
    simp only [Except.ok.injEq, exists_eq_left', Dead]
    by_cases hfirst : (firstNamed name keys).map Prod.fst = some (sha256 raw) <;> simp [hfirst]
  -- distinct created keys have distinct hashes, so a hash comes back with its own key only
  have hagain : ∀ raw ∈ createdUnder name ops₁,
      (∀ raw' ∈ created ops₂, sha256 raw' ≠ sha256 raw) ↔ raw ∉ created ops₂ := by
    intro raw hraw
    have hbefore : raw ∈ created (ops₁ ++ ops₂) := by
      simp [created_append, mem_created_of_createdUnder hraw]
    constructor
    · exact fun h hmem => h raw hmem rfl
    · intro h raw' hmem heq
      have hmem' : raw' ∈ created (ops₁ ++ ops₂) := by simp [created_append, hmem]
      have hsame : raw' = raw := hinj hmem' hbefore heq
      exact h (hsame ▸ hmem)
  simp only [hvalidate, hentry]
  constructor
  · intro h raw hraw
    have hrun := forall_prefix_dead_iff.mp fun pre hpre => h pre hpre raw hraw 0
    exact ⟨(hagain raw hraw).mp hrun.2, hrun.1⟩
  · intro h pre hpre raw hraw now
    obtain ⟨hnot, hdead'⟩ := h raw hraw
    exact forall_prefix_dead_iff.mpr ⟨hdead', (hagain raw hraw).mpr hnot⟩ pre hpre

/-- SHA-256 on the two raw keys of the runs below. -/
private def digest (raw : String) : String :=
  if raw = "tftpos_a" then "d768d7eda6e6dc7d1aafc3e75e2ffdf996c883b49dd4b962d5b5e36d64fe5327"
  else if raw = "tftpos_b" then "dc935060eac7639837b39d989cd647c95b2a0e59302174ecf89acab299e2e446"
  else raw

/-- A name with one key: revoking it ends the key for good. -/
theorem revoked_never_validates_iff_single :
    (∀ pre, pre <+: [.listKeys, .delete "x"] →
      ∀ raw ∈ createdUnder "bot" [.createKey "a" 1 "bot" .admin], ∀ now,
        ((run (step digest) ((run (step digest) (⟨none⟩ : ApiKeyStore .parsed)
          [.createKey "a" 1 "bot" .admin]).revoke "bot").2 pre).validate digest now raw).1 =
            .ok none) ↔
    ∀ raw ∈ createdUnder "bot" [.createKey "a" 1 "bot" .admin],
      raw ∉ created [.listKeys, .delete "x"] ∧
      ∃ keys, (run (step digest) (⟨none⟩ : ApiKeyStore .parsed)
        [.createKey "a" 1 "bot" .admin]).read = .ok keys ∧
        ∀ k, keys.get? (digest raw) = some k → k.enabled = false ∨
          (firstNamed "bot" keys).map Prod.fst = some (digest raw) := by
  refine revoked_never_validates_iff .parsed digest _ _ "bot" ?_ (by decide +kernel)
  intro raw hraw raw' hraw' _
  obtain rfl : raw = rawKey "a" := List.mem_singleton.mp hraw
  exact (List.mem_singleton.mp hraw').symm

/-- Two keys of one name: `revoke` returns True, and the second key is still validated. -/
theorem revoke_leaves_second_key :
    ((run (step digest) (⟨none⟩ : ApiKeyStore .parsed)
      [.createKey "a" 1 "bot" .admin, .createKey "b" 2 "bot" .admin]).revoke "bot").1 = .ok true ∧
    "tftpos_b" ∈ createdUnder "bot"
      [.createKey "a" 1 "bot" .admin, .createKey "b" 2 "bot" .admin] ∧
    (((run (step digest) (⟨none⟩ : ApiKeyStore .parsed)
      [.createKey "a" 1 "bot" .admin, .createKey "b" 2 "bot" .admin]).revoke "bot").2.validate
        digest 3 "tftpos_b").1 ≠ .ok none := by
  decide +kernel

end ApiKeyStore

end TftpOS
