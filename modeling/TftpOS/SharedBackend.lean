import TftpOS.Lib.Interleaving
import TftpOS.Outages
import TftpOS.StateRuns

/-!
# Trackers on one backend

Any number of trackers that were constructed on one backend, each call one step. A tracker loads
the backend once, when it is constructed, and from then on writes whole records from its own copy,
so a record that it saves replaces what the others have written since.

`Store.returned` keeps, beside the backend, the transitions that have returned. They all stay in the
stored histories exactly when every tracker that writes a record has them in its copy
(`progressKept_of_storesHistory`).
-/

namespace TftpOS

open Lib
open scoped List

/-! ### Stored histories -/

/-- The history that a backend returns for a MAC. -/
def storedHistory {σ : Type} [StorageBackend σ] (b : σ) (mac : String) :
    List (ProvisionState × ℚ) :=
  match StorageBackend.get b mac with
  | .ok (some r) => r.history
  | _ => []

/-- A backend that stores a history until the next save on its MAC. -/
structure StoresHistory (py : StrLib) (σ : Type) [StorageBackend σ] : Prop where
  save : ∀ {b b' : σ} {r : ProvisionRecord}, StorageBackend.save b r = .ok b' → ∀ mac,
    storedHistory b' mac = if py.lower mac = py.lower r.mac then r.history else storedHistory b mac
  clear : ∀ {b b' : σ}, StorageBackend.clear b = .ok b' → ∀ mac, storedHistory b' mac = []

theorem JSONBackend.storesHistory (py : StrLib) (json : JsonText) :
    StoresHistory py (JSONBackend py json) where
  save {b b' r} h mac := by
    have hget : StorageBackend.get b' mac = _ := JSONBackend.get_of_save h mac
    rw [storedHistory, hget]
    split_ifs <;> rfl
  clear {b b'} h mac := by
    cases h
    have hget : StorageBackend.get (JSONBackend.dump ∅ : JSONBackend py json) mac = _ :=
      JSONBackend.get_of_isDictOf (JSONBackend.load_dump ∅) mac
    rw [storedHistory, hget]
    rfl

theorem SQLAlchemyBackend.storesHistory (py : StrLib) (json : JsonText) :
    StoresHistory py (SQLAlchemyBackend py json) where
  save {b b' r} h mac := by
    obtain rfl : b.put (.fromProvisionRecord py r) = b' :=
      Except.ok.inj ((b.save_eq r).symm.trans h)
    have hget : (b.put (.fromProvisionRecord py r)).rows.get? (py.lower mac) =
        if py.lower mac = py.lower r.mac then some (.fromProvisionRecord py r)
        else b.rows.get? (py.lower mac) := Dict.get?_set
    simp only [storedHistory, StorageBackend.get, SQLAlchemyBackend.get, hget]
    split_ifs
    · dsimp only
      rw [ProvisionRow.toProvisionRecord_fromProvisionRecord]
      rfl
    · rfl
  clear {b b'} h mac := by
    cases h
    rfl

namespace ProvisionTracker

variable {σ : Type} [StorageBackend σ]

/-! ### Records under their own MACs -/

/-- Every record is stored under its MAC, lower-cased. -/
def Filed (py : StrLib) (d : Dict String ProvisionRecord) : Prop :=
  ∀ key r, d.get? key = some r → py.lower r.mac = key

variable {py : StrLib} {d : Dict String ProvisionRecord}

theorem filed_load (l : List ProvisionRecord) : Filed py (load py l) :=
  fun _ _ h => (get?_load h).2

/-- A call files the record that it writes. -/
theorem Filed.onRecords (hd : Filed py d) (op : Op) : Filed py ((op.effect py d).onRecords d) := by
  intro key r hr
  cases change_of_get? hr with
  | kept _ hold => exact hd key r hold
  | registered hkey => exact hkey
  | @entered _ _ _ _ old _ hold => exact hd key old hold
  | @toggled _ _ old _ hold => exact hd key old hold

/-- What storing a record does, seen by the backend. -/
theorem update_of_backend {t : ProvisionTracker σ} {b : σ} (hb : t.backend = some b) (key : String)
    (r : ProvisionRecord) :
    (∃ e, StorageBackend.save b r = .error e ∧
      t.update key r = (.error e, { t with records := t.records.set key r })) ∨
    ∃ b', StorageBackend.save b r = .ok b' ∧
      t.update key r = (.ok (), { t with records := t.records.set key r, backend := some b' }) := by
  simp only [update, persist, hb]
  rcases StorageBackend.save b r with e | b'
  · exact .inl ⟨e, rfl, rfl⟩
  · exact .inr ⟨b', rfl, rfl⟩

/-! ### The system -/

/-- The shared backend, and by key the transitions that have returned since the last register or
clear. -/
structure Store (σ : Type) where
  backend : σ
  returned : String → List (ProvisionState × ℚ)

/-- What a client does next. -/
inductive Act where
  | construct
  | onStateChange (state : ProvisionState) (callback : Callback)
  | call (op : Op)

/-- The tracker with the shared backend as it is now. -/
def on (t : ProvisionTracker σ) (b : σ) : ProvisionTracker σ := { t with backend := some b }

/-- The transitions that have returned, after one more call. -/
def Op.returnedAfter (py : StrLib) (returned : String → List (ProvisionState × ℚ))
    (reply : Except PyExc (Option ProvisionRecord)) :
    Op → String → List (ProvisionState × ℚ)
  | .register _ mac _ _ _ => Function.update returned (py.lower mac) []
  | .transition now mac newState _ =>
    match reply with
    | .ok _ => Function.update returned (py.lower mac)
        (returned (py.lower mac) ++ [(newState, now)])
    | .error _ => returned
  | .enableNetboot _ => returned
  | .disableNetboot _ => returned
  | .clear => fun _ => []

/-- A client: its tracker, once it has been constructed, calls the shared backend. -/
def client (py : StrLib) (s : Store σ) (tracker : Option (ProvisionTracker σ)) :
    Act → Store σ × Option (ProvisionTracker σ)
  | .construct =>
    match init py (some s.backend) with
    | .ok t => (s, some t)
    | .error _ => (s, tracker)
  | .onStateChange state callback =>
    (s, tracker.map fun t =>
      { t with callbacks := Function.update t.callbacks state (t.callbacks state ++ [callback]) })
  | .call op =>
    match tracker with
    | none => (s, none)
    | some t =>
      let result := step py (t.on s.backend) op
      (⟨result.2.backend.getD s.backend, op.returnedAfter py s.returned result.1⟩, some result.2)

/-- Every transition that has returned is in the stored history. -/
def Store.Kept (py : StrLib) (s : Store σ) : Prop :=
  ∀ mac, s.returned (py.lower mac) <+ storedHistory s.backend mac

/-- If the call writes a record that it has not created, the tracker's copy of the history has all
transitions that have returned. Where a callback raises, so that the call does not return, the copy
counts with the new entry. -/
def Op.UpToDate (py : StrLib) (s : Store σ) (t : ProvisionTracker σ) : Op → Prop
  | .transition now mac newState errorMessage => ∀ r b',
    t.records.get? (py.lower mac) = some r →
    StorageBackend.save s.backend (r.enter newState now errorMessage) = .ok b' →
    if t.fireCallbacks newState (r.enter newState now errorMessage) = .ok () then
      s.returned (py.lower mac) <+ r.history
    else s.returned (py.lower mac) <+ r.history ++ [(newState, now)]
  | .enableNetboot mac => ∀ r b', t.records.get? (py.lower mac) = some r →
    StorageBackend.save s.backend (r.setNetboot true) = .ok b' →
    s.returned (py.lower mac) <+ r.history
  | .disableNetboot mac => ∀ r b', t.records.get? (py.lower mac) = some r →
    StorageBackend.save s.backend (r.setNetboot false) = .ok b' →
    s.returned (py.lower mac) <+ r.history
  | .register .. => True
  | .clear => True

/-- The same of a client's next step. -/
def Act.UpToDate (py : StrLib) (s : Store σ) (tracker : Option (ProvisionTracker σ)) : Act → Prop
  | .call op => ∀ t, tracker = some t → op.UpToDate py s t
  | .construct => True
  | .onStateChange .. => True

/-! ### One step -/

variable {s : Store σ} {t : ProvisionTracker σ}

/-- What has returned stays in the histories after a write on one key, as `hwrite` says, exactly
when the history that is written has it. -/
theorem kept_write_iff {returned returned' : String → List (ProvisionState × ℚ)}
    {history history' : String → List (ProvisionState × ℚ)}
    (h : ∀ mac, returned (py.lower mac) <+ history mac) {mac : String}
    {written : List (ProvisionState × ℚ)}
    (hwrite : ∀ mac', history' mac' =
      if py.lower mac' = py.lower mac then written else history mac')
    (hframe : ∀ key, key ≠ py.lower mac → returned' key = returned key) :
    (∀ mac', returned' (py.lower mac') <+ history' mac') ↔ returned' (py.lower mac) <+ written := by
  constructor
  · intro hkept
    have := hkept mac
    rwa [hwrite, if_pos rfl] at this
  · intro hsub mac'
    rw [hwrite]
    split_ifs with hkey
    · rwa [hkey]
    · rw [hframe _ hkey]
      exact h mac'

/-- After a save, what has returned is kept exactly when the saved history has it. -/
theorem kept_save_iff (S : StoresHistory py σ) (h : s.Kept py) {b' : σ} {r : ProvisionRecord}
    (hsave : StorageBackend.save s.backend r = .ok b') {mac : String}
    (hmac : py.lower r.mac = py.lower mac) {returned : String → List (ProvisionState × ℚ)}
    (hframe : ∀ key, key ≠ py.lower mac → returned key = s.returned key) :
    Store.Kept py ⟨b', returned⟩ ↔ returned (py.lower mac) <+ r.history :=
  kept_write_iff h (fun mac' => by rw [S.save hsave, hmac]) hframe

/-- A netboot call on a record keeps what has returned exactly when its copy has it. -/
theorem kept_setNetboot_iff (S : StoresHistory py σ) (h : s.Kept py) (ht : Filed py t.records)
    (mac : String) (enabled : Bool) :
    Store.Kept py ⟨((t.on s.backend).setNetboot py mac enabled).2.backend.getD s.backend,
        s.returned⟩ ↔
      ∀ r b', t.records.get? (py.lower mac) = some r →
        StorageBackend.save s.backend (r.setNetboot enabled) = .ok b' →
        s.returned (py.lower mac) <+ r.history := by
  have hrecords : (t.on s.backend).records = t.records := rfl
  rw [setNetboot, get, hrecords]
  rcases hget : t.records.get? (py.lower mac) with _ | r
  · exact iff_of_true h fun r b' hr => by cases hr
  · dsimp only
    rcases update_of_backend (t := t.on s.backend) rfl (py.lower mac) (r.setNetboot enabled) with
      ⟨e, hsave, hupdate⟩ | ⟨b', hsave, hupdate⟩
    · rw [hupdate]
      refine iff_of_true h fun r' b' hr hsave' => ?_
      cases hr
      rw [hsave] at hsave'
      cases hsave'
    · rw [hupdate]
      have hmac : py.lower (r.setNetboot enabled).mac = py.lower mac := ht _ r hget
      refine (kept_save_iff S h hsave hmac fun _ _ => rfl).trans ⟨fun hsub r' b'' hr _ => ?_, ?_⟩
      · cases hr
        exact hsub
      · exact fun hsub => hsub r b' rfl hsave

/-- A transition on a record, seen by the backend. -/
theorem transition_on {b : σ} {r : ProvisionRecord} {mac : String}
    (hget : t.records.get? (py.lower mac) = some r) (now : ℚ) (newState : ProvisionState)
    (errorMessage : Option String) :
    (∃ e t', StorageBackend.save b (r.enter newState now errorMessage) = .error e ∧
      (t.on b).transition py now mac newState errorMessage = (.error e, t') ∧
      t'.backend = some b) ∨
    ∃ b' t', StorageBackend.save b (r.enter newState now errorMessage) = .ok b' ∧
      (t.on b).transition py now mac newState errorMessage =
        ((t.fireCallbacks newState (r.enter newState now errorMessage)).map
          fun _ => r.enter newState now errorMessage, t') ∧
      t'.backend = some b' := by
  have hrecords : (t.on b).records = t.records := rfl
  rw [transition, hrecords, hget]
  dsimp only
  rcases update_of_backend (t := t.on b) rfl (py.lower mac) (r.enter newState now errorMessage) with
    ⟨e, hsave, hupdate⟩ | ⟨b', hsave, hupdate⟩
  · rw [hupdate]
    exact .inl ⟨e, _, hsave, rfl, rfl⟩
  · rw [hupdate]
    exact .inr ⟨b', _, hsave, rfl, rfl⟩

/-- A transition keeps what has returned exactly when its copy has it. -/
theorem kept_transition_iff (S : StoresHistory py σ) (h : s.Kept py) (ht : Filed py t.records)
    (now : ℚ) (mac : String) (newState : ProvisionState) (errorMessage : Option String) :
    Store.Kept py (client py s (some t) (.call (.transition now mac newState errorMessage))).1 ↔
      (Op.transition now mac newState errorMessage).UpToDate py s t := by
  rcases hget : t.records.get? (py.lower mac) with _ | r
  · have hnone : (t.on s.backend).transition py now mac newState errorMessage =
        (.error (noRecord mac), t.on s.backend) := by
      have hrecords : (t.on s.backend).records = t.records := rfl
      rw [transition, hrecords, hget]
    rw [client, step, hnone]
    refine iff_of_true h fun r b' hr => ?_
    rw [hget] at hr
    cases hr
  · have huptodate : ∀ b', StorageBackend.save s.backend (r.enter newState now errorMessage) =
        .ok b' → ((Op.transition now mac newState errorMessage).UpToDate py s t ↔
          if t.fireCallbacks newState (r.enter newState now errorMessage) = .ok () then
            s.returned (py.lower mac) <+ r.history
          else s.returned (py.lower mac) <+ r.history ++ [(newState, now)]) := by
      intro b' hsave
      refine ⟨fun hall => hall r b' hget hsave, fun hone r' b'' hr _ => ?_⟩
      obtain rfl := Option.some.inj (hget.symm.trans hr)
      exact hone
    rcases transition_on (b := s.backend) hget now newState errorMessage with
      ⟨e, t', hsave, hstep, hbackend⟩ | ⟨b', t', hsave, hstep, hbackend⟩
    · rw [client, step, hstep]
      simp only [Prod.map, id, hbackend, Option.getD_some, Except.map, Op.returnedAfter]
      refine iff_of_true h fun r' b' hr hsave' => ?_
      obtain rfl := Option.some.inj (hget.symm.trans hr)
      rw [hsave] at hsave'
      cases hsave'
    · have hmac : py.lower (r.enter newState now errorMessage).mac = py.lower mac := ht _ r hget
      rw [huptodate b' hsave, client, step, hstep]
      simp only [Prod.map, id, hbackend, Option.getD_some]
      rcases t.fireCallbacks newState (r.enter newState now errorMessage) with e | ⟨⟨⟩⟩
      · rw [if_neg (by simp)]
        exact kept_save_iff S h hsave hmac fun _ _ => rfl
      · rw [if_pos rfl]
        refine (kept_save_iff S h hsave hmac fun key hkey => ?_).trans ?_
        · exact Function.update_of_ne hkey _ _
        · simp only [Except.map, Op.returnedAfter, Function.update_self, ProvisionRecord.enter]
          exact List.append_sublist_append_right _

/-- Registering a record overwrites nothing that it does not withdraw. -/
theorem kept_register (S : StoresHistory py σ) (h : s.Kept py) (now : ℚ)
    (mac profile osFamily osVersion : String) : Store.Kept py
      (client py s (some t) (.call (.register now mac profile osFamily osVersion))).1 := by
  have hframe : ∀ key, key ≠ py.lower mac →
      Function.update s.returned (py.lower mac) [] key = s.returned key :=
    fun key hkey => Function.update_of_ne hkey _ _
  have hmac : py.lower (ProvisionRecord.fresh mac profile osFamily osVersion now).mac =
      py.lower mac := rfl
  simp only [client, step, register, Op.returnedAfter, Prod.map, id]
  rcases update_of_backend (t := t.on s.backend) rfl (py.lower mac)
    (.fresh mac profile osFamily osVersion now) with ⟨e, -, hupdate⟩ | ⟨b', hsave, hupdate⟩
  · rw [hupdate]
    intro mac'
    by_cases hkey : py.lower mac' = py.lower mac
    · dsimp only
      rw [hkey, Function.update_self]
      exact List.nil_sublist _
    · dsimp only
      rw [hframe _ hkey]
      exact h mac'
  · rw [hupdate]
    refine (kept_save_iff S h hsave hmac hframe).mpr ?_
    rw [Function.update_self]
    exact List.nil_sublist _

theorem kept_clear (s : Store σ) (t : ProvisionTracker σ) :
    Store.Kept py (client py s (some t) (.call .clear)).1 :=
  fun _ => List.nil_sublist _

/-! ### Every interleaving -/

/-- A step keeps what has returned exactly when its client is up to date. -/
theorem kept_client_iff (S : StoresHistory py σ) (h : s.Kept py)
    {tracker : Option (ProvisionTracker σ)} (ht : ∀ t, tracker = some t → Filed py t.records)
    (a : Act) : (client py s tracker a).1.Kept py ↔ a.UpToDate py s tracker := by
  cases a with
  | construct =>
    rw [client]
    split <;> exact iff_of_true h trivial
  | onStateChange state callback => exact iff_of_true h trivial
  | call op =>
    cases tracker with
    | none => exact iff_of_true h fun t ht => by cases ht
    | some t =>
      have hcall : Act.UpToDate py s (some t) (.call op) ↔ op.UpToDate py s t :=
        ⟨fun hall => hall t rfl, fun hone t' ht' => Option.some.inj ht' ▸ hone⟩
      rw [hcall]
      have hfiled := ht t rfl
      cases op with
      | register now mac profile osFamily osVersion =>
        exact iff_of_true (kept_register S h now mac profile osFamily osVersion) trivial
      | transition now mac newState errorMessage =>
        exact kept_transition_iff S h hfiled now mac newState errorMessage
      | enableNetboot mac => exact kept_setNetboot_iff S h hfiled mac true
      | disableNetboot mac => exact kept_setNetboot_iff S h hfiled mac false
      | clear => exact iff_of_true (kept_clear s t) trivial

/-- A client's tracker files its records. -/
theorem filed_client (s : Store σ) {tracker : Option (ProvisionTracker σ)}
    (ht : ∀ t, tracker = some t → Filed py t.records) (a : Act) {t : ProvisionTracker σ}
    (h : (client py s tracker a).2 = some t) : Filed py t.records := by
  cases a with
  | construct =>
    rw [client] at h
    split at h
    · next t' hinit =>
      obtain ⟨l, -, rfl⟩ := map_eq_ok_iff.mp hinit
      cases h
      exact filed_load l
    · exact ht t h
  | onStateChange state callback =>
    obtain ⟨t', ht', rfl⟩ := Option.map_eq_some_iff.mp h
    have hfiled := ht t' ht'
    exact hfiled
  | call op =>
    cases tracker with
    | none => cases h
    | some t' =>
      cases h
      rw [step_records]
      exact (ht t' rfl).onRecords op

variable {κ : Type} [DecidableEq κ]

/-- From a backend on which no tracker has been constructed, what has returned is kept throughout
an interleaving exactly when every client that writes is up to date. -/
def ProgressKept (py : StrLib) (κ : Type) [DecidableEq κ] (b : σ) : Prop :=
  ∀ events : List (κ × Act),
    (∀ pre, pre <+: events →
      (run (interleave (client py)) ⟨⟨b, fun _ => []⟩, fun _ => none⟩ pre).shared.Kept py) ↔
    ∀ pre e, pre ++ [e] <+: events →
      e.2.UpToDate py (run (interleave (client py)) ⟨⟨b, fun _ => []⟩, fun _ => none⟩ pre).shared
        ((run (interleave (client py)) ⟨⟨b, fun _ => []⟩, fun _ => none⟩ pre).locals e.1)

/-- Whatever records a backend that stores histories holds at first. -/
theorem progressKept_of_storesHistory (S : StoresHistory py σ) (b : σ) :
    ProgressKept py κ b := by
  intro events
  have hinv : ∀ (c : Clients κ (Store σ) (Option (ProvisionTracker σ))) (e : κ × Act),
      (∀ i t, c.locals i = some t → Filed py t.records) →
      ∀ i t, (interleave (client py) c e).2.locals i = some t → Filed py t.records :=
    fun c e h => (forall_interleave (P := fun _ => True)
      (Q := fun tracker => ∀ t : ProvisionTracker σ, tracker = some t → Filed py t.records)
      (fun s _ a _ ht => ⟨trivial, fun _ => filed_client s ht a⟩) trivial h e).2
  have hkept : ∀ (c : Clients κ (Store σ) (Option (ProvisionTracker σ))) (e : κ × Act),
      (∀ i t, c.locals i = some t → Filed py t.records) → c.shared.Kept py →
      ((interleave (client py) c e).2.shared.Kept py ↔
        e.2.UpToDate py c.shared (c.locals e.1)) :=
    fun c e hfiled h => kept_client_iff S h (hfiled e.1) e.2
  exact forall_run_iff hinv hkept (fun _ _ h => by cases h) (fun _ => List.nil_sublist _) events

end ProvisionTracker

end TftpOS
