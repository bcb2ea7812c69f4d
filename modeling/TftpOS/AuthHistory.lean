import TftpOS.AuthRuns

/-!
# The history of a key

Where the entries of a key store come from. `Fate` lists what a call can make of the entry under
a hash: it is issued, deleted with its name, or kept with its name, role and creation time and
not enabled again. So every stored entry goes back to the `create_key` that issued it last
(`issued_run`), and stays until its name is deleted or its raw key is issued again (`kept_run`).
-/

namespace TftpOS

open Lib

/-- What no call changes of an entry; and it is not enabled again. -/
structure ApiKey.Keeps (k k' : ApiKey) : Prop where
  name : k'.name = k.name
  role : k'.role = k.role
  createdAt : k'.createdAt = k.createdAt
  disabled : k.enabled = false → k'.enabled = false

theorem ApiKey.Keeps.refl (k : ApiKey) : k.Keeps k := ⟨rfl, rfl, rfl, id⟩

theorem ApiKey.Keeps.trans {k k' k'' : ApiKey} (h : k.Keeps k') (h' : k'.Keeps k'') :
    k.Keeps k'' where
  name := h'.name.trans h.name
  role := h'.role.trans h.role
  createdAt := h'.createdAt.trans h.createdAt
  disabled := h'.disabled ∘ h.disabled

namespace ApiKeyStore

variable {json : JsonText} {sha256 : String → String} {keys : Keys} {h : String} {op : Op}

/-- What a call makes of the entry under a hash. -/
inductive Fate (sha256 : String → String) (h : String) : Op → Option ApiKey → Option ApiKey → Prop
  | issued (token : String) (now : ℚ) (name : String) (role : Role) (e : Option ApiKey)
      (hash : sha256 (rawKey token) = h) :
      Fate sha256 h (.createKey token now name role) e
        (some { keyHash := h, name := name, role := role, createdAt := now })
  | deleted (k : ApiKey) : Fate sha256 h (.delete k.name) (some k) none
  | kept (op : Op) (k k' : ApiKey) (keeps : k.Keeps k') (not_deleted : op ≠ .delete k.name)
      (not_issued : ∀ raw ∈ created [op], sha256 raw ≠ h) : Fate sha256 h op (some k) (some k')
  | absent (op : Op) : Fate sha256 h op none none

/-- A call that writes nothing, or nothing under this hash, keeps its entry. -/
private theorem Fate.of_kept {e e' : Option ApiKey} (hnone : e = none → e' = none)
    (hsome : ∀ k, e = some k → ∃ k', e' = some k' ∧ k.Keeps k' ∧ op ≠ .delete k.name)
    (hissued : ∀ raw ∈ created [op], sha256 raw ≠ h) : Fate sha256 h op e e' := by
  rcases e with _ | k
  · rw [hnone rfl]
    exact .absent op
  · obtain ⟨k', rfl, hkeeps, hdelete⟩ := hsome k rfl
    exact .kept op k k' hkeeps hdelete hissued

/-- The entries after one more has been written, all with their own hash. -/
theorem get?_stored_set {h' : String} {k : ApiKey} :
    (stored (keys.set h' k)).get? h =
      if h = h' then some { k with keyHash := h } else
        (keys.get? h).map fun k => { k with keyHash := h } := by
  rw [get?_stored, Dict.get?_set]
  split_ifs <;> rfl

/-- An entry is written back with another last use or disabled. -/
private theorem Fate.of_write_back {h' : String} {k k' : ApiKey} (hk : keys.get? h' = some k)
    (hkeeps : k.Keeps k') (hdelete : ∀ name, op ≠ .delete name) (hissued : created [op] = []) :
    Fate sha256 h op (keys.get? h) ((stored (keys.set h' k')).get? h) := by
  rw [get?_stored_set]
  refine .of_kept (fun hnone => ?_) (fun k₀ hk₀ => ?_) (by simp [hissued])
  · rw [if_neg, hnone, Option.map_none]
    rintro rfl
    cases hnone.symm.trans hk
  · split_ifs with heq
    · obtain rfl : k₀ = k := Option.some.inj (hk₀.symm.trans (heq ▸ hk))
      exact ⟨_, rfl, ⟨hkeeps.name, hkeeps.role, hkeeps.createdAt, hkeeps.disabled⟩, hdelete _⟩
    · rw [hk₀]
      exact ⟨_, rfl, ⟨rfl, rfl, rfl, id⟩, hdelete _⟩

private theorem Fate.of_unchanged (hdelete : ∀ k, keys.get? h = some k → op ≠ .delete k.name)
    (hissued : created [op] = []) : Fate sha256 h op (keys.get? h) (keys.get? h) :=
  .of_kept id (fun k hk => ⟨k, hk, .refl k, hdelete k hk⟩) (by simp [hissued])

theorem get?_of_firstNamed {name : String} {e : String × ApiKey}
    (hfirst : firstNamed name keys = some e) : keys.get? e.1 = some e.2 :=
  Dict.get?_eq_some_iff.mpr (List.mem_of_find?_eq_some hfirst)

theorem name_of_firstNamed {name : String} {e : String × ApiKey}
    (hfirst : firstNamed name keys = some e) : e.2.name = name := by
  simpa using List.find?_some hfirst

theorem name_ne_of_filter {name : String} {k : ApiKey}
    (hnone : (keys.filter fun e => e.2.name = name).entries = []) (hk : keys.get? h = some k) :
    k.name ≠ name := by
  intro hname
  have hmem : (h, k) ∈ (keys.filter fun e => e.2.name = name).entries := by
    rw [Dict.entries_filter, List.mem_filter]
    exact ⟨Dict.get?_eq_some_iff.mp hk, by simp [hname]⟩
  rw [hnone] at hmem
  cases hmem

/-- **What a call does to an entry.** -/
theorem fate (sha256 : String → String) (keys : Keys) (op : Op) (h : String) :
    Fate sha256 h op (keys.get? h) ((keysAfter sha256 keys op).get? h) := by
  cases op with
  | createKey token now name role =>
    rw [keysAfter, get?_stored_set]
    split_ifs with heq
    · obtain rfl := heq
      exact .issued token now name role _ rfl
    · have hissued : ∀ raw ∈ created [.createKey token now name role], sha256 raw ≠ h := by
        intro raw hraw
        obtain rfl := List.mem_singleton.mp hraw
        exact Ne.symm heq
      refine .of_kept (fun hnone => by rw [hnone, Option.map_none]) (fun k hk => ?_) hissued
      rw [hk]
      exact ⟨_, rfl, ⟨rfl, rfl, rfl, id⟩, Op.noConfusion⟩
  | validate now raw =>
    rw [keysAfter]
    split
    · exact .of_unchanged (fun k _ => Op.noConfusion) rfl
    · next k hk =>
      split_ifs
      · exact .of_write_back hk ⟨rfl, rfl, rfl, id⟩ (fun name => Op.noConfusion) rfl
      · exact .of_unchanged (fun k _ => Op.noConfusion) rfl
  | listKeys => exact .of_unchanged (fun k _ => Op.noConfusion) rfl
  | revoke name =>
    rw [keysAfter]
    split
    · exact .of_unchanged (fun k _ => Op.noConfusion) rfl
    · next h' k hfirst =>
      exact .of_write_back (get?_of_firstNamed hfirst) ⟨rfl, rfl, rfl, fun _ => rfl⟩
        (fun name => Op.noConfusion) rfl
  | delete name =>
    rw [keysAfter]
    split_ifs with hnone
    · -- no entry has the name
      refine .of_unchanged (fun k hk heq => ?_) rfl
      exact name_ne_of_filter hnone hk (Op.delete.inj heq).symm
    · rw [get?_stored, Dict.get?_filter]
      rcases hk : keys.get? h with _ | k
      · exact .absent _
      · by_cases hname : k.name = name
        · obtain rfl := hname
          simpa [Option.filter] using Fate.deleted k
        · refine .of_kept (by simp) (fun k₀ hk₀ => ?_) (by simp [created, Op.created?])
          obtain rfl := Option.some.inj hk₀
          refine ⟨{ k with keyHash := h }, by simp [hname], ⟨rfl, rfl, rfl, id⟩, fun heq => ?_⟩
          exact hname (Op.delete.inj heq).symm

/-- The entry was issued by a call of the run, and neither was its name deleted nor its hash
issued again since. -/
def Issued (sha256 : String → String) (ops : List Op) (h : String) (k : ApiKey) : Prop :=
  ∃ front token back, ops = front ++ .createKey token k.createdAt k.name k.role :: back ∧
    sha256 (rawKey token) = h ∧ .delete k.name ∉ back ∧ ∀ raw ∈ created back, sha256 raw ≠ h

/-- Every entry stored by a run was issued by it. -/
theorem issued_run {ops : List Op} {k : ApiKey}
    (hk : (ops.foldl (keysAfter sha256) ∅).get? h = some k) : Issued sha256 ops h k := by
  induction ops using List.reverseRecOn generalizing k with
  | nil => cases hk
  | append_singleton ops op ih =>
    rw [List.foldl_concat] at hk
    have hfate := fate sha256 (ops.foldl (keysAfter sha256) ∅) op h
    generalize ops.foldl (keysAfter sha256) ∅ = keys at hfate hk ih
    rw [hk] at hfate
    generalize hbefore : keys.get? h = e at hfate
    cases hfate with
    | issued token now name role _ hash =>
      exact ⟨ops, token, [], rfl, hash, List.not_mem_nil, fun raw hraw => by cases hraw⟩
    | kept _ k₀ _ keeps not_deleted not_issued =>
      obtain ⟨front, token, back, rfl, hash, hdelete, hissued⟩ := ih hbefore
      refine ⟨front, token, back ++ [op], ?_, hash, ?_, fun raw hraw => ?_⟩
      · rw [keeps.name, keeps.role, keeps.createdAt, List.append_assoc, List.cons_append]
      · rw [keeps.name, List.mem_append, List.mem_singleton, not_or]
        exact ⟨hdelete, Ne.symm not_deleted⟩
      · rw [created_append, List.mem_append] at hraw
        exact hraw.elim (hissued raw) (not_issued raw)

/-- What is not stored is stored again only by issuing its hash. -/
theorem absent_run {ops : List Op} (habsent : keys.get? h = none)
    (hissued : ∀ raw ∈ created ops, sha256 raw ≠ h) :
    (ops.foldl (keysAfter sha256) keys).get? h = none := by
  induction ops generalizing keys with
  | nil => exact habsent
  | cons op ops ih =>
    rw [← List.singleton_append, created_append, List.forall_mem_append] at hissued
    refine ih ?_ hissued.2
    have hfate := fate sha256 keys op h
    rw [habsent] at hfate
    generalize (keysAfter sha256 keys op).get? h = e at hfate
    cases hfate with
    | issued token now name role _ hash =>
      exact absurd hash (hissued.1 _ (List.mem_singleton_self _))
    | absent => rfl

/-- A stored entry is kept until its name is deleted, as long as its hash is not issued again. -/
theorem kept_run {ops : List Op} {k : ApiKey} (hk : keys.get? h = some k)
    (hissued : ∀ raw ∈ created ops, sha256 raw ≠ h) :
    (∃ k', (ops.foldl (keysAfter sha256) keys).get? h = some k' ∧ k.Keeps k') ∨
      .delete k.name ∈ ops ∧ (ops.foldl (keysAfter sha256) keys).get? h = none := by
  induction ops generalizing keys k with
  | nil => exact .inl ⟨k, hk, .refl k⟩
  | cons op ops ih =>
    rw [← List.singleton_append, created_append, List.forall_mem_append] at hissued
    rw [List.foldl_cons]
    have hfate := fate sha256 keys op h
    rw [hk] at hfate
    generalize hafter : (keysAfter sha256 keys op).get? h = e at hfate
    cases hfate with
    | issued token now name role _ hash =>
      exact absurd hash (hissued.1 _ (List.mem_singleton_self _))
    | deleted => exact .inr ⟨List.mem_cons_self, absent_run hafter hissued.2⟩
    | kept _ _ k' keeps =>
      rcases ih hafter hissued.2 with ⟨k'', hk'', hkeeps⟩ | ⟨hdelete, hgone⟩
      · exact .inl ⟨k'', hk'', keeps.trans hkeeps⟩
      · exact .inr ⟨List.mem_cons_of_mem _ (keeps.name ▸ hdelete), hgone⟩

/-- What `validate` returns is the stored entry. -/
theorem get?_of_validate {s : ApiKeyStore json} (hread : s.read = .ok keys) {now : ℚ}
    {raw : String} {k : ApiKey} (hk : (s.validate sha256 now raw).1 = .ok (some k)) :
    ∃ k₀, keys.get? (sha256 raw) = some k₀ ∧ k₀.Keeps k := by
  simp only [validate, hread, findHash_eq] at hk
  split at hk
  · cases hk
  · next k₀ hk₀ =>
    split_ifs at hk with henabled
    · cases hk
      exact ⟨k₀, hk₀, ⟨rfl, rfl, rfl, id⟩⟩
    · cases hk

/-- **No privilege change and no resurrection.** In every run from no file, a key that `validate`
returns for a raw key has the name, role and creation time of the last call that issued exactly
this raw key, and its name has not been deleted since. Between any two moments of the run, an
entry whose raw key is not issued again keeps its name, role and creation time and, once
disabled, stays disabled, until it is gone because its name was deleted. -/
theorem keys_keep_identity (json : JsonText) (sha256 : String → String) (ops : List Op)
    (hinj : Set.InjOn sha256 {raw | raw ∈ created ops ∨ ∃ now, .validate now raw ∈ ops}) :
    (∀ pre now raw k, pre ++ [.validate now raw] <+: ops →
      ((run (step sha256) (⟨none⟩ : ApiKeyStore json) pre).validate sha256 now raw).1 =
        .ok (some k) →
      ∃ front token back, pre = front ++ .createKey token k.createdAt k.name k.role :: back ∧
        rawKey token = raw ∧ raw ∉ created back ∧ .delete k.name ∉ back) ∧
    ∀ pre mid, pre ++ mid <+: ops →
      ∃ keys keys', (run (step sha256) (⟨none⟩ : ApiKeyStore json) pre).read = .ok keys ∧
        (run (step sha256) (⟨none⟩ : ApiKeyStore json) (pre ++ mid)).read = .ok keys' ∧
        ∀ h k, keys.get? h = some k →
          (∀ raw ∈ created mid, raw ∈ created pre → sha256 raw ≠ h) →
          (∃ k', keys'.get? h = some k' ∧ k.Keeps k') ∨
            .delete k.name ∈ mid ∧ keys'.get? h = none := by
  have hread : ∀ pre, (run (step sha256) (⟨none⟩ : ApiKeyStore json) pre).read =
      .ok (pre.foldl (keysAfter sha256) ∅) := run_read rfl
  constructor
  · intro pre now raw k hpre hk
    obtain ⟨k₀, hk₀, hkeeps⟩ := get?_of_validate (hread pre) hk
    obtain ⟨front, token, back, rfl, hash, hdelete, hissued⟩ := issued_run hk₀
    have hcreated : rawKey token ∈ created ops := by
      obtain ⟨rest, rfl⟩ := hpre
      simp [created, Op.created?]
    have hvalidated : ∃ now, .validate now raw ∈ ops := ⟨now, hpre.subset (by simp)⟩
    refine ⟨front, token, back, ?_, hinj (.inl hcreated) (.inr hvalidated) hash, ?_, ?_⟩
    · rw [hkeeps.name, hkeeps.role, hkeeps.createdAt]
    · exact fun hraw => hissued raw hraw rfl
    · rwa [hkeeps.name]
  · intro pre mid hpre
    refine ⟨_, _, hread pre, hread (pre ++ mid), fun h k hk hagain => ?_⟩
    rw [List.foldl_append]
    refine kept_run hk fun raw hraw heq => ?_
    -- the hash was issued before, so only the same raw key has it
    obtain ⟨front, token, back, hsplit, hash, -⟩ := issued_run hk
    have hbefore : rawKey token ∈ created pre := by
      simp [hsplit, created, Op.created?]
    have hall : ∀ raw ∈ created (pre ++ mid), raw ∈ created ops :=
      (hpre.sublist.filterMap _).subset
    have hmem : raw ∈ created ops := hall raw (by simp [created_append, hraw])
    have hmem' : rawKey token ∈ created ops := hall _ (by simp [created_append, hbefore])
    have hsame : raw = rawKey token := hinj (.inl hmem) (.inl hmem') (heq.trans hash.symm)
    exact hagain raw hraw (hsame ▸ hbefore) heq

/-- SHA-256 on the raw key of the run below. -/
private def digestOfA (raw : String) : String :=
  if raw = "tftpos_a" then "d768d7eda6e6dc7d1aafc3e75e2ffdf996c883b49dd4b962d5b5e36d64fe5327"
  else raw

/-- A key is issued and revoked. -/
private def revokedRun : List Op := [.createKey "a" 1 "bot" .viewer, .revoke "bot"]

/-- The revoked key is tried again. -/
private def retryRun : List Op := [.validate 2 "tftpos_a", .listKeys]

/-- A revoked key that is tried again stays revoked. -/
theorem keys_keep_identity_revoked :
    ∃ keys keys', (run (step digestOfA) (⟨none⟩ : ApiKeyStore .parsed) revokedRun).read =
        .ok keys ∧
      (run (step digestOfA) (⟨none⟩ : ApiKeyStore .parsed) (revokedRun ++ retryRun)).read =
        .ok keys' ∧
      ∀ h k, keys.get? h = some k →
        (∀ raw ∈ created retryRun, raw ∈ created revokedRun → digestOfA raw ≠ h) →
        (∃ k', keys'.get? h = some k' ∧ k.Keeps k') ∨
          .delete k.name ∈ retryRun ∧ keys'.get? h = none := by
  have honly : ∀ raw, (raw ∈ created (revokedRun ++ retryRun) ∨
      ∃ now, .validate now raw ∈ revokedRun ++ retryRun) → raw = "tftpos_a" := by
    intro raw hraw
    simpa [created, Op.created?, rawKey, revokedRun, retryRun] using hraw
  refine (keys_keep_identity .parsed digestOfA (revokedRun ++ retryRun) ?_).2 revokedRun retryRun
    (List.prefix_refl _)
  intro raw hraw raw' hraw' _
  rw [honly raw hraw, honly raw' hraw']

end ApiKeyStore

end TftpOS
