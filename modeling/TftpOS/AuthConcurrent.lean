import TftpOS.AuthHistory
import TftpOS.Lib.Interleaving

/-!
# Concurrent calls on the key store

`validate`, `revoke` and `delete` each read the whole key file and then, if they have something
to change, write it whole; nothing holds off other calls in between. Each call is a client of the
shared file with these two steps (`callStep`), and a schedule is any interleaving of the steps of
any number of calls; a call that is not interrupted is the sequential one (`callStep_alone`).

A call that writes puts back every key it read. So a key that was revoked or deleted stays
refused exactly when no call writes a copy of the file that still has the key enabled
(`ended_stays_refused_iff`).
-/

namespace TftpOS

open Lib

namespace ApiKeyStore

variable {json : JsonText} {sha256 : String → String}

/-- A call that may run concurrently. -/
inductive Call where
  | validate (now : ℚ) (raw : String)
  | revoke (name : String)
  | delete (name : String)
  deriving DecidableEq

/-- The call as an operation of the store. -/
def Call.op : Call → Op
  | .validate now raw => .validate now raw
  | .revoke name => .revoke name
  | .delete name => .delete name

/-- The name that a call is to end. -/
def Call.ends? : Call → Option String
  | .validate _ _ => none
  | .revoke name | .delete name => some name

/-- How far a call is. -/
inductive Phase (json : JsonText) where
  | idle
  | holding (call : Call) (snapshot : ApiKeyStore json)
  | returned (call : Call) (reply : Except PyExc Reply)

/-- The two steps of a call. -/
inductive FileStep where
  | read (call : Call)
  | write

/-- A call that returns a key or True has written the file. -/
def writes : Except PyExc Reply → Bool
  | .ok (.validated (some _)) | .ok (.flag true) => true
  | _ => false

/-- One step of a call. What it writes and what it returns depend on what it has read. -/
def callStep (sha256 : String → String) (s : ApiKeyStore json) :
    Phase json → FileStep → ApiKeyStore json × Phase json
  | .idle, .read call => (s, .holding call s)
  | .holding call snapshot, .write =>
    let result := step sha256 snapshot call.op
    (if writes result.1 then result.2 else s, .returned call result.1)
  | phase, _ => (s, phase)

/-- Calls that have not started, on a key file. -/
def idle (s : ApiKeyStore json) : Clients ℕ (ApiKeyStore json) (Phase json) :=
  ⟨s, fun _ => .idle⟩

/-- The name is that of one key, the given one. -/
def Denotes (sha256 : String → String) (s : ApiKeyStore json) (name raw : String) : Prop :=
  ∃ keys, s.read = .ok keys ∧
    ∀ h, (∃ k, keys.get? h = some k ∧ k.name = name) ↔ h = sha256 raw

/-- A `revoke` or `delete` of the name has returned True. -/
def Ended (c : Clients ℕ (ApiKeyStore json) (Phase json)) (name : String) : Prop :=
  ∃ i call, c.locals i = .returned call (.ok (.flag true)) ∧ call.ends? = some name

/-- No call that starts now accepts a key whose name has been ended. -/
def EndedRefused (sha256 : String → String) (start : ApiKeyStore json)
    (c : Clients ℕ (ApiKeyStore json) (Phase json)) : Prop :=
  ∀ name raw, Ended c name → Denotes sha256 start name raw →
    ∀ now, (c.shared.validate sha256 now raw).1 = .ok none

/-- If the step writes a file, then in the copy it goes back to, every key whose name has been
ended is disabled or missing, or the call itself ends that name. -/
def WritesNoEnded (sha256 : String → String) (start : ApiKeyStore json)
    (c : Clients ℕ (ApiKeyStore json) (Phase json)) : ℕ × FileStep → Prop
  | (_, .read _) => True
  | (i, .write) => ∀ call snapshot, c.locals i = .holding call snapshot →
      writes (step sha256 snapshot call.op).1 = true →
      ∀ name raw, Ended c name → Denotes sha256 start name raw →
        call.ends? = some name ∨ ∀ keys, snapshot.read = .ok keys → Dead keys (sha256 raw)

/-! ### Calls one after the other -/

/-- A call that does not write leaves the file as it was. -/
theorem step_of_not_writes {s : ApiKeyStore json} {call : Call}
    (h : writes (step sha256 s call.op).1 = false) : (step sha256 s call.op).2 = s := by
  revert h
  cases call with
  | validate now raw =>
    simp only [Call.op, step, validate, Prod.map_fst, Prod.map_snd, id]
    split
    · exact fun _ => rfl
    · split
      · exact fun _ => rfl
      · split_ifs
        · exact fun h => Bool.noConfusion (show true = false from h)
        · exact fun _ => rfl
  | revoke name =>
    simp only [Call.op, step, revoke, Prod.map_fst, Prod.map_snd, id]
    split
    · exact fun _ => rfl
    · split
      · exact fun _ => rfl
      · exact fun h => Bool.noConfusion (show true = false from h)
  | delete name =>
    simp only [Call.op, step, delete, Prod.map_fst, Prod.map_snd, id]
    split
    · exact fun _ => rfl
    · split_ifs
      · exact fun _ => rfl
      · exact fun h => Bool.noConfusion (show true = false from h)

/-- A call whose two steps are not separated does what the sequential call does. -/
theorem callStep_alone {c : Clients ℕ (ApiKeyStore json) (Phase json)} {i : ℕ}
    (hidle : c.locals i = .idle) (call : Call) :
    run (interleave (callStep sha256)) c [(i, .read call), (i, .write)] =
      ⟨(step sha256 c.shared call.op).2,
        Function.update c.locals i (.returned call (step sha256 c.shared call.op).1)⟩ := by
  rw [show [(i, FileStep.read call), (i, .write)] = [.read call, .write].map (Prod.mk i) from rfl,
    run_interleave_alone, hidle]
  simp only [List.foldl_cons, List.foldl_nil, callStep]
  split_ifs with hwrites
  · rfl
  · rw [step_of_not_writes (Bool.not_eq_true _ ▸ hwrites)]

/-! ### What a call ends -/

/-- Every entry has the name of the entry first stored under its hash. -/
def NamesFrom (keys₀ keys : Keys) : Prop :=
  ∀ h k, keys.get? h = some k → ∃ k₀, keys₀.get? h = some k₀ ∧ k₀.name = k.name

variable {keys₀ keys : Keys} {name h : String}

theorem Call.created_op (call : Call) : created [call.op] = [] := by
  cases call <;> rfl

theorem NamesFrom.keysAfter (hfrom : NamesFrom keys₀ keys) {op : Op} (hop : created [op] = []) :
    NamesFrom keys₀ (keysAfter sha256 keys op) := by
  intro h k' hk'
  have hfate := fate sha256 keys op h
  rw [hk'] at hfate
  generalize hbefore : keys.get? h = e at hfate
  cases hfate with
  | issued token now name role => cases hop
  | kept _ k _ keeps =>
    obtain ⟨k₀, hk₀, hname⟩ := hfrom h k hbefore
    exact ⟨k₀, hk₀, hname.trans keeps.name.symm⟩

/-- No other entry has the name than the one under the hash. -/
private theorem name_eq_iff (hfrom : NamesFrom keys₀ keys)
    (hname : ∀ h', (∃ k, keys₀.get? h' = some k ∧ k.name = name) ↔ h' = h) {h' : String}
    {k : ApiKey} (hk : keys.get? h' = some k) : k.name = name ↔ h' = h := by
  obtain ⟨k₀, hk₀, hsame⟩ := hfrom h' k hk
  constructor
  · intro heq
    exact (hname h').mp ⟨k₀, hk₀, hsame.trans heq⟩
  · intro heq
    obtain ⟨k₁, hk₁, hname₁⟩ := (hname h').mpr heq
    obtain rfl : k₀ = k₁ := Option.some.inj (hk₀.symm.trans hk₁)
    exact hsame.symm.trans hname₁

/-- Without the entries of a name, a key of that name is dead. -/
theorem dead_filter_iff {name' : String} (hname : ∀ k, keys.get? h = some k → k.name = name) :
    Dead (keys.filter fun e => e.2.name ≠ name') h ↔ name' = name ∨ Dead keys h := by
  simp only [Dead, Dict.get?_filter, Option.filter_eq_some_iff]
  constructor
  · intro hdead
    refine or_iff_not_imp_left.mpr fun hne k hk => hdead k ⟨hk, ?_⟩
    rw [hname k hk]
    simpa using Ne.symm hne
  · rintro hor k ⟨hk, hother⟩
    rcases hor with rfl | hdead
    · simp [hname k hk] at hother
    · exact hdead k hk

/-- In the copy that a call writes, the key of a name is dead if it was dead in the copy that the
call has read, or if the call ends that name. -/
theorem dead_keysAfter_iff
    (hname : ∀ h' k, keys.get? h' = some k → (k.name = name ↔ h' = h)) (call : Call) :
    Dead (keysAfter sha256 keys call.op) h ↔ call.ends? = some name ∨ Dead keys h := by
  cases call with
  | validate now raw =>
    simp only [Call.op, keysAfter, Call.ends?, reduceCtorEq, false_or]
    split
    · rfl
    · next k hk =>
      split_ifs with henabled
      · rw [dead_stored, dead_set]
        split_ifs with heq
        · rw [Dead, heq, hk]
          simp
        · rfl
      · rfl
  | revoke name' =>
    simp only [Call.op, keysAfter, Call.ends?, Option.some.injEq]
    split
    · next hfirst =>
      refine ⟨.inr, fun hor k hk => ?_⟩
      rcases hor with rfl | hdead
      · -- the entry has the name, but none was found
        have hnone := List.find?_eq_none.mp hfirst (h, k) (Dict.get?_eq_some_iff.mp hk)
        exact absurd ((hname h k hk).mpr rfl) (by simpa using hnone)
      · exact hdead k hk
    · next h' k hfirst =>
      have hk' := hname h' k (get?_of_firstNamed hfirst)
      rw [name_of_firstNamed hfirst] at hk'
      rw [dead_stored, dead_set]
      split_ifs with heq
      · exact iff_of_true rfl (.inl (hk'.mpr heq.symm))
      · refine ⟨.inr, fun hor => hor.resolve_left fun hsame => heq (hk'.mp hsame).symm⟩
  | delete name' =>
    simp only [Call.op, keysAfter, Call.ends?, Option.some.injEq]
    have hfilter : Dead (keys.filter fun e => e.2.name ≠ name') h ↔ name' = name ∨ Dead keys h :=
      dead_filter_iff fun k hk => (hname h k hk).mpr rfl
    split_ifs with hnone
    · -- without an entry of the name the filter keeps everything
      rw [← hfilter, Dead, Dead, Dict.get?_filter]
      refine forall_congr' fun k => ?_
      rw [Option.filter_eq_some_iff]
      refine imp_congr ⟨fun hk => ⟨hk, ?_⟩, And.left⟩ Iff.rfl
      simpa using name_ne_of_filter hnone hk
    · rw [dead_stored, hfilter]

/-! ### Interleavings -/

/-- The store can be read, and its entries have the names that their hashes had first. -/
def CopyOf (keys₀ : Keys) (s : ApiKeyStore json) : Prop :=
  ∃ keys, s.read = .ok keys ∧ NamesFrom keys₀ keys

/-- What a call in between its steps holds is such a copy. -/
def Phase.HoldsCopy (keys₀ : Keys) : Phase json → Prop
  | .holding _ snapshot => CopyOf keys₀ snapshot
  | .idle | .returned _ _ => True

theorem CopyOf.step {s : ApiKeyStore json} (h : CopyOf keys₀ s) (call : Call) :
    CopyOf keys₀ (step sha256 s call.op).2 := by
  obtain ⟨keys, hread, hfrom⟩ := h
  exact ⟨_, step_read sha256 hread call.op, hfrom.keysAfter call.created_op⟩

theorem callStep_copyOf (s : ApiKeyStore json) (phase : Phase json) (a : FileStep)
    (hs : CopyOf keys₀ s) (hphase : phase.HoldsCopy keys₀) :
    CopyOf keys₀ (callStep sha256 s phase a).1 ∧ (callStep sha256 s phase a).2.HoldsCopy keys₀ := by
  cases phase with
  | idle => cases a <;> exact ⟨hs, by first | exact hs | trivial⟩
  | returned call reply => cases a <;> exact ⟨hs, trivial⟩
  | holding call snapshot =>
    cases a with
    | read => exact ⟨hs, hphase⟩
    | write =>
      refine ⟨?_, trivial⟩
      rw [callStep]
      dsimp only
      split_ifs
      · exact CopyOf.step hphase call
      · exact hs

variable {c : Clients ℕ (ApiKeyStore json) (Phase json)} {i : ℕ} {call : Call}
  {snapshot start : ApiKeyStore json}

/-- What has been ended after the last step of a call. -/
theorem ended_write_iff (hphase : c.locals i = .holding call snapshot) :
    Ended (interleave (callStep sha256) c (i, .write)).2 name ↔
      Ended c name ∨
        (step sha256 snapshot call.op).1 = .ok (.flag true) ∧ call.ends? = some name := by
  have hself : (interleave (callStep sha256) c (i, .write)).2.locals i =
      .returned call (step sha256 snapshot call.op).1 := by
    rw [interleave_locals_self, hphase, callStep]
  constructor
  · rintro ⟨j, call', hj, hends⟩
    by_cases hij : j = i
    · subst hij
      rw [hself] at hj
      injection hj with hcall hreply
      exact .inr ⟨hreply, hcall ▸ hends⟩
    · rw [interleave_locals_of_ne hij] at hj
      exact .inl ⟨j, call', hj, hends⟩
  · rintro (⟨j, call', hj, hends⟩ | ⟨hreply, hends⟩)
    · have hij : j ≠ i := by
        rintro rfl
        cases hphase.symm.trans hj
      exact ⟨j, call', (interleave_locals_of_ne hij _).trans hj, hends⟩
    · exact ⟨i, call, hreply ▸ hself, hends⟩

/-- Starting a call ends no name. -/
theorem ended_of_read {call : Call}
    (hended : Ended (interleave (callStep sha256) c (i, .read call)).2 name) : Ended c name := by
  obtain ⟨j, call', hj, hends⟩ := hended
  by_cases hij : j = i
  · subst hij
    rw [interleave_locals_self] at hj
    cases hphase : c.locals j with
    | idle =>
      rw [hphase] at hj
      cases hj
    | holding | returned =>
      rw [hphase] at hj
      exact ⟨j, call', hphase.trans hj, hends⟩
  · rw [interleave_locals_of_ne hij] at hj
    exact ⟨j, call', hj, hends⟩

/-- Starting a call leaves the file as it is. -/
theorem shared_of_read (call : Call) :
    (interleave (callStep sha256) c (i, .read call)).2.shared = c.shared := by
  rw [interleave_shared]
  cases c.locals i <;> rfl

/-- After the last step of a call, all ended keys are refused exactly when the call wrote none of
them back. -/
theorem endedRefused_write_iff (hstart : start.read = .ok keys₀)
    (hphase : c.locals i = .holding call snapshot) (hcopy : CopyOf keys₀ snapshot)
    (hgood : EndedRefused sha256 start c) :
    EndedRefused sha256 start (interleave (callStep sha256) c (i, .write)).2 ↔
      WritesNoEnded sha256 start c (i, .write) := by
  obtain ⟨keys, hread, hfrom⟩ := hcopy
  have hshared : (interleave (callStep sha256) c (i, .write)).2.shared =
      if writes (step sha256 snapshot call.op).1 then (step sha256 snapshot call.op).2
      else c.shared := by
    rw [interleave_shared, hphase, callStep]
  by_cases hwrites : writes (step sha256 snapshot call.op).1 = true
  · have hrefuses : ∀ name raw now, Denotes sha256 start name raw →
        (((interleave (callStep sha256) c (i, .write)).2.shared.validate sha256 now raw).1 =
          .ok none ↔ call.ends? = some name ∨ Dead keys (sha256 raw)) := by
      rintro name raw now ⟨keys₀', hstart', hname⟩
      obtain rfl : keys₀ = keys₀' := Except.ok.inj (hstart.symm.trans hstart')
      rw [hshared, if_pos hwrites, validate_eq_none_iff (step_read sha256 hread call.op)]
      exact dead_keysAfter_iff (fun h' k => name_eq_iff hfrom hname) call
    constructor
    · rintro hafter call' snapshot' hphase' - name raw hended hdenotes
      injection hphase.symm.trans hphase' with hcall hsnapshot
      subst hcall hsnapshot
      have hended' : Ended (interleave (callStep sha256) c (i, .write)).2 name :=
        (ended_write_iff hphase).mpr (.inl hended)
      refine ((hrefuses name raw 0 hdenotes).mp (hafter name raw hended' hdenotes 0)).imp_right ?_
      intro hdead keys' hread'
      exact Except.ok.inj (hread.symm.trans hread') ▸ hdead
    · intro hallowed name raw hended hdenotes now
      rw [hrefuses name raw now hdenotes]
      rcases (ended_write_iff hphase).mp hended with hbefore | ⟨-, hends⟩
      · exact (hallowed call snapshot hphase hwrites name raw hbefore hdenotes).imp_right
          fun hdead => hdead keys hread
      · exact .inl hends
  · -- the file is unchanged, and the call has not returned True
    refine iff_of_true (fun name raw hended hdenotes now => ?_) fun call' snapshot' hphase' hw => ?_
    · rw [hshared, if_neg hwrites]
      refine hgood name raw ?_ hdenotes now
      refine ((ended_write_iff hphase).mp hended).resolve_right fun hreply => hwrites ?_
      rw [hreply.1, writes]
    · injection hphase.symm.trans hphase' with hcall hsnapshot
      subst hcall hsnapshot
      exact absurd hw hwrites

theorem endedRefused_step_iff (hstart : start.read = .ok keys₀)
    (hcopies : ∀ j, (c.locals j).HoldsCopy keys₀) (hgood : EndedRefused sha256 start c)
    (e : ℕ × FileStep) :
    EndedRefused sha256 start (interleave (callStep sha256) c e).2 ↔
      WritesNoEnded sha256 start c e := by
  obtain ⟨i, read | write⟩ := e
  · refine iff_of_true (fun name raw hended hdenotes now => ?_) trivial
    rw [shared_of_read]
    exact hgood name raw (ended_of_read hended) hdenotes now
  · cases hphase : c.locals i with
    | holding call snapshot =>
      have hcopy := hcopies i
      rw [hphase] at hcopy
      exact endedRefused_write_iff hstart hphase hcopy hgood
    | idle | returned =>
      refine iff_of_true ?_ fun call' snapshot' hphase' => by cases hphase.symm.trans hphase'
      rw [interleave_eq_self (by rw [hphase]; rfl)]
      exact hgood

/-- **Revocation under concurrency.** In every interleaving of the file steps of any number of
calls, a key whose name has been ended by a `revoke` or `delete` that returned True is refused by
every call that starts later, if and only if no call writes a copy of the file that still has
such a key enabled, other than a call that ends the key itself. -/
theorem ended_stays_refused_iff (json : JsonText) (sha256 : String → String)
    (start : ApiKeyStore json) (events : List (ℕ × FileStep)) :
    (∀ pre, pre <+: events →
      EndedRefused sha256 start (run (interleave (callStep sha256)) (idle start) pre)) ↔
    ∀ pre e, pre ++ [e] <+: events →
      WritesNoEnded sha256 start (run (interleave (callStep sha256)) (idle start) pre) e := by
  cases hread : start.read with
  | error exc =>
    -- no name denotes a key
    have hnone : ∀ name raw, ¬ Denotes sha256 start name raw := by
      rintro name raw ⟨keys, hkeys, -⟩
      cases hread.symm.trans hkeys
    refine iff_of_true (fun pre _ name raw _ hdenotes => absurd hdenotes (hnone name raw)) ?_
    rintro pre ⟨i, _ | _⟩ -
    · trivial
    · exact fun call snapshot _ _ name raw _ hdenotes => absurd hdenotes (hnone name raw)
  | ok keys₀ =>
    let Inv (c : Clients ℕ (ApiKeyStore json) (Phase json)) : Prop :=
      CopyOf keys₀ c.shared ∧ ∀ i, (c.locals i).HoldsCopy keys₀
    have hinv : ∀ c e, Inv c → Inv (interleave (callStep sha256) c e).2 := fun c e h =>
      forall_interleave callStep_copyOf h.1 h.2 e
    have hstart : Inv (idle start) := by
      refine ⟨⟨keys₀, hread, fun h k hk => ⟨k, hk, rfl⟩⟩, fun i => trivial⟩
    have hgood : EndedRefused sha256 start (idle start) := by
      rintro name raw ⟨i, call, hi, -⟩
      cases hi
    exact forall_run_iff hinv (fun c e h hc => endedRefused_step_iff hread h.2 hc e) hstart hgood
      events

/-- SHA-256 on the raw key of the store below. -/
private def shaOfA (raw : String) : String :=
  if raw = "tftpos_a" then "d768d7eda6e6dc7d1aafc3e75e2ffdf996c883b49dd4b962d5b5e36d64fe5327"
  else raw

/-- A store with one key. -/
private def oneKey : ApiKeyStore .parsed :=
  run (step shaOfA) ⟨none⟩ [.createKey "a" 1 "bot" .admin]

/-- A key is revoked between the two steps of a `validate`, which then writes the key back. -/
theorem revoked_key_validates_again :
    let revoked := run (interleave (callStep shaOfA)) (idle oneKey)
      [(0, .read (.validate 2 "tftpos_a")), (1, .read (.revoke "bot")), (1, .write)]
    let later := run (interleave (callStep shaOfA)) revoked [(0, .write)]
    Denotes shaOfA oneKey "bot" "tftpos_a" ∧ Ended revoked "bot" ∧
      (later.shared.validate shaOfA 3 "tftpos_a").1 ≠ .ok none ∧
      ¬ EndedRefused shaOfA oneKey later := by
  have hdenotes : Denotes shaOfA oneKey "bot" "tftpos_a" := by
    refine ⟨_, run_read rfl _, fun h => ?_⟩
    rw [List.foldl_cons, List.foldl_nil, keysAfter, get?_stored_set]
    by_cases hh : h = shaOfA (rawKey "a")
    · rw [if_pos hh]
      exact iff_of_true ⟨_, rfl, rfl⟩ hh
    · rw [if_neg hh]
      exact iff_of_false (by rintro ⟨k, hk, -⟩; cases hk) hh
  have hended : Ended (run (interleave (callStep shaOfA)) (idle oneKey)
      [(0, .read (.validate 2 "tftpos_a")), (1, .read (.revoke "bot")), (1, .write)]) "bot" :=
    ⟨1, .revoke "bot", rfl, rfl⟩
  have hlater : Ended (run (interleave (callStep shaOfA)) (idle oneKey)
      [(0, .read (.validate 2 "tftpos_a")), (1, .read (.revoke "bot")), (1, .write),
        (0, .write)]) "bot" := ⟨1, .revoke "bot", rfl, rfl⟩
  have hvalid : ((run (interleave (callStep shaOfA)) (idle oneKey)
      [(0, .read (.validate 2 "tftpos_a")), (1, .read (.revoke "bot")), (1, .write),
        (0, .write)]).shared.validate shaOfA 3 "tftpos_a").1 ≠ .ok none := by decide +kernel
  exact ⟨hdenotes, hended, hvalid, fun h => hvalid (h _ _ hlater hdenotes 3)⟩

end ApiKeyStore

end TftpOS
