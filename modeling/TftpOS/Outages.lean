import TftpOS.Persistence

/-!
# Outages of the backend

What is left when a backend fails for a while. `ProvisionTracker` updates its records in memory
before it saves them, so a call whose save or clear raises leaves the records as they were only
where it had nothing to change (`records_kept_iff`). `JSONBackend` takes a file that it cannot
read for an empty one and then writes the whole file, so a save during a failing read drops all
other records (`JSONBackend.saved_kept_iff`).
-/

namespace TftpOS

open Lib

/-! ### Failing writes -/

/-- A backend that may be out of order: while `fault` is set, `save` and `clear` raise it and
change nothing. -/
structure Faulty (σ : Type) where
  inner : σ
  fault : Option PyExc

namespace Faulty

variable {σ : Type} [StorageBackend σ]

/-- A write, unless the backend is out of order. -/
def write (b : Faulty σ) (next : Except PyExc σ) : Except PyExc (Faulty σ) :=
  match b.fault with
  | some e => .error e
  | none => next.map fun inner => ⟨inner, none⟩

instance : StorageBackend (Faulty σ) where
  save b record := b.write (StorageBackend.save b.inner record)
  get b mac := StorageBackend.get b.inner mac
  listAll b := StorageBackend.listAll b.inner
  delete b mac := (StorageBackend.delete b.inner mac).map fun r => (r.1, ⟨r.2, b.fault⟩)
  clear b := b.write (StorageBackend.clear b.inner)

end Faulty

namespace ProvisionTracker

section

variable {σ : Type} [StorageBackend σ] {py : StrLib} {t : ProvisionTracker σ}

/-- The call reaches the backend, whose save or clear raises. -/
def BackendRaises (py : StrLib) (t : ProvisionTracker σ) (op : Op) : Prop :=
  ∃ b e, t.backend = some b ∧
    ((∃ key r, op.effect py t.records = .write key r ∧ StorageBackend.save b r = .error e) ∨
      op = .clear ∧ StorageBackend.clear b = .error e)

/-- The call would leave the records as they are: it registers a record that is stored already,
asks for a netboot flag that is set so already, or clears no records. -/
def Op.LeavesRecords (py : StrLib) (d : Dict String ProvisionRecord) : Op → Prop
  | .register now mac profile osFamily osVersion =>
    d.get? (py.lower mac) = some (.fresh mac profile osFamily osVersion now)
  | .transition _ _ _ _ => False
  | .enableNetboot mac => ∀ r, d.get? (py.lower mac) = some r → r.netbootEnabled = true
  | .disableNetboot mac => ∀ r, d.get? (py.lower mac) = some r → r.netbootEnabled = false
  | .clear => d = ∅

/-- A transition adds to the history. -/
theorem enter_ne (r : ProvisionRecord) (newState : ProvisionState) (now : ℚ)
    (errorMessage : Option String) : r.enter newState now errorMessage ≠ r := by
  intro h
  have hlength := congrArg (fun r => r.history.length) h
  simp [ProvisionRecord.enter] at hlength

theorem setNetboot_eq_self_iff {r : ProvisionRecord} {enabled : Bool} :
    r.setNetboot enabled = r ↔ r.netbootEnabled = enabled := by
  constructor
  · intro h
    rw [← h, ProvisionRecord.setNetboot]
  · rintro rfl
    rfl

/-- A call whose backend raises has written to memory nonetheless. -/
theorem step_records_eq_iff {op : Op} (h : BackendRaises py t op) :
    (step py t op).2.records = t.records ↔ op.LeavesRecords py t.records := by
  obtain ⟨b, e, -, h⟩ := h
  rw [step_records]
  cases op with
  | register now mac profile osFamily osVersion =>
    rw [Op.effect, Effect.onRecords, Dict.set_eq_self_iff, Op.LeavesRecords]
  | transition now mac newState errorMessage =>
    obtain ⟨key, r, heffect, -⟩ := h.resolve_right fun hop => by cases hop.1
    rw [Op.effect] at heffect ⊢
    rcases hold : t.records.get? (py.lower mac) with _ | old
    · rw [hold] at heffect
      cases heffect
    · dsimp only [Effect.onRecords, Op.LeavesRecords]
      rw [Dict.set_eq_self_iff, hold, iff_false]
      exact fun heq => enter_ne old newState now errorMessage (Option.some.inj heq).symm
  | enableNetboot mac | disableNetboot mac =>
    obtain ⟨key, r, heffect, -⟩ := h.resolve_right fun hop => by cases hop.1
    rw [Op.effect] at heffect ⊢
    rcases hold : t.records.get? (py.lower mac) with _ | old
    · rw [hold] at heffect
      cases heffect
    · dsimp only [Effect.onRecords, Op.LeavesRecords]
      rw [Dict.set_eq_self_iff, hold, Option.some.injEq, eq_comm, setNetboot_eq_self_iff]
      simp
  | clear =>
    rw [Op.effect, Effect.onRecords, Op.LeavesRecords]
    exact eq_comm

end

/-! ### Runs with outages -/

variable {σ : Type} [StorageBackend σ] {py : StrLib} {t : ProvisionTracker (Faulty σ)}

/-- A call, and the exception that writes to the backend raise meanwhile. -/
structure Call where
  fault : Option PyExc
  op : Op

/-- The tracker while writes to its backend raise `fault`. -/
def during (t : ProvisionTracker (Faulty σ)) (fault : Option PyExc) : ProvisionTracker (Faulty σ) :=
  { t with backend := t.backend.map fun b => { b with fault := fault } }

/-- One call with its outage. -/
def callStep (py : StrLib) (t : ProvisionTracker (Faulty σ)) (call : Call) :
    Except PyExc (Option ProvisionRecord) × ProvisionTracker (Faulty σ) :=
  step py (t.during call.fault) call.op

/-- The tracker on the backend without its outages. -/
def inner (t : ProvisionTracker (Faulty σ)) : ProvisionTracker σ :=
  ⟨t.backend.map Faulty.inner, t.records, t.callbacks⟩

/-- While the backend works, the outages do not show. -/
theorem inner_step_during_none (op : Op) :
    (step py (t.during none) op).2.inner = (step py t.inner op).2 := by
  rw [step_snd, step_snd]
  obtain ⟨backend, records, callbacks⟩ := t
  change (Effect.onTracker _ (op.effect py records)).inner =
    Effect.onTracker _ (op.effect py records)
  cases op.effect py records with
  | nothing => cases backend <;> rfl
  | write key r =>
    cases backend with
    | none => rfl
    | some b =>
      simp only [Effect.onTracker, update, persist, during, inner, Option.map_some,
        StorageBackend.save, Faulty.write]
      cases StorageBackend.save b.inner r <;> rfl
  | clear =>
    cases backend with
    | none => rfl
    | some b =>
      simp only [Effect.onTracker, clear, during, inner, Option.map_some, StorageBackend.clear,
        Faulty.write]
      cases StorageBackend.clear b.inner <;> rfl

/-- During an outage only the records in memory change. -/
theorem inner_step_during_some (e : PyExc) {b : Faulty σ} (hb : t.backend = some b) (op : Op) :
    (step py (t.during (some e)) op).2.inner =
      { t.inner with records := (op.effect py t.records).onRecords t.records } := by
  rw [step_snd]
  obtain ⟨backend, records, callbacks⟩ := t
  dsimp only at hb
  subst hb
  change (Effect.onTracker _ (op.effect py records)).inner = _
  cases op.effect py records <;> rfl

/-- During an outage, every call that gets to its write raises. -/
theorem backendRaises_during_some (e : PyExc) {b : Faulty σ} (hb : t.backend = some b) {op : Op}
    (hop : op.effect py t.records ≠ .nothing) : BackendRaises py (t.during (some e)) op := by
  refine ⟨⟨b.inner, some e⟩, e, by simp [during, hb], ?_⟩
  have hrecords : (t.during (some e)).records = t.records := rfl
  rw [hrecords]
  rcases heffect : op.effect py t.records with _ | ⟨key, r⟩ | _
  · exact absurd heffect hop
  · exact .inl ⟨key, r, rfl, rfl⟩
  · cases op with
    | clear => exact .inr ⟨rfl, rfl⟩
    | register => cases heffect
    | transition | enableNetboot | disableNetboot =>
      rw [Op.effect] at heffect
      split at heffect <;> cases heffect

/-- A call keeps memory and a lawful backend coupled, if during an outage it has nothing to
change. -/
theorem Coupled.callStep {L : LawfulBackend py σ} (h : Coupled L t.inner) {call : Call}
    (hascii : call.op.AsciiMac)
    (hcall : BackendRaises py (t.during call.fault) call.op →
      call.op.LeavesRecords py t.records) : Coupled L (callStep py t call).2.inner := by
  obtain ⟨fault, op⟩ := call
  cases fault with
  | none =>
    rw [ProvisionTracker.callStep, inner_step_during_none]
    exact h.step hascii
  | some e =>
    obtain ⟨b, hb, -⟩ := h.holds
    obtain ⟨b, hb, -⟩ := Option.map_eq_some_iff.mp hb
    have hrecords : (op.effect py t.records).onRecords t.records = t.records := by
      by_cases hop : op.effect py t.records = .nothing
      · rw [hop, Effect.onRecords]
      · have hraises := backendRaises_during_some e hb hop
        have hkept := (step_records_eq_iff hraises).mpr (hcall hraises)
        rwa [step_records] at hkept
    rw [ProvisionTracker.callStep, inner_step_during_some e hb, hrecords]
    exact h

/-- A host that boots during an outage is BOOTING in memory and REGISTERED in the backend. -/
theorem failed_save_kept_in_memory :
    ∃ t : ProvisionTracker (Faulty (SQLAlchemyBackend .ascii .parsed)),
      init .ascii (some ⟨⟨∅, fun _ _ h => by cases h⟩, none⟩) = .ok t ∧
      BackendRaises .ascii ((run (callStep .ascii) t
        [⟨none, .register 1 "aa:01" "web" "debian" "12"⟩]).during (some ⟨.osError, "down"⟩))
        (.transition 2 "aa:01" .booting none) ∧
      (callStep .ascii (run (callStep .ascii) t
        [⟨none, .register 1 "aa:01" "web" "debian" "12"⟩])
        ⟨some ⟨.osError, "down"⟩, .transition 2 "aa:01" .booting none⟩).2.records ≠
      (run (callStep .ascii) t [⟨none, .register 1 "aa:01" "web" "debian" "12"⟩]).records := by
  refine ⟨_, rfl, backendRaises_during_some _ rfl fun h => ?_, fun h => ?_⟩
  · cases h
  · exact (step_records_eq_iff (backendRaises_during_some _ rfl fun h => by cases h)).mp h

/-- **Failing writes.** In every run, the records after each call whose save or clear raises are
those before it exactly when each such call would leave the records as they are. Then memory and
a lawful backend hold the same records throughout. -/
theorem records_kept_iff (py : StrLib) (t : ProvisionTracker (Faulty σ)) (calls : List Call) :
    ((∀ pre call, pre ++ [call] <+: calls →
        BackendRaises py ((run (callStep py) t pre).during call.fault) call.op →
        (callStep py (run (callStep py) t pre) call).2.records =
          (run (callStep py) t pre).records) ↔
      ∀ pre call, pre ++ [call] <+: calls →
        BackendRaises py ((run (callStep py) t pre).during call.fault) call.op →
        call.op.LeavesRecords py (run (callStep py) t pre).records) ∧
    ∀ L : LawfulBackend py σ, Coupled L t.inner → (∀ call ∈ calls, call.op.AsciiMac) →
      (∀ pre call, pre ++ [call] <+: calls →
        BackendRaises py ((run (callStep py) t pre).during call.fault) call.op →
        call.op.LeavesRecords py (run (callStep py) t pre).records) →
      ∀ pre, pre <+: calls → Coupled L (run (callStep py) t pre).inner := by
  constructor
  · constructor
    · intro h pre call hpre hraises
      exact (step_records_eq_iff hraises).mp (h pre call hpre hraises)
    · intro h pre call hpre hraises
      exact (step_records_eq_iff hraises).mpr (h pre call hpre hraises)
  · intro L hcoupled hascii hcalls pre
    induction pre using List.reverseRecOn with
    | nil => exact fun _ => hcoupled
    | append_singleton pre call ih =>
      intro hpre
      rw [run_concat]
      have hmem : call ∈ calls := hpre.subset (by simp)
      exact (ih ((List.prefix_append _ _).trans hpre)).callStep (hascii call hmem)
        (hcalls pre call hpre)

/-- Netboot is enabled during an outage for a host that has it enabled. -/
theorem records_kept_iff_enabled :
    Coupled (SQLAlchemyBackend.lawful .ascii .parsed) (run (callStep .ascii)
      ⟨some ⟨⟨∅, fun _ _ h => by cases h⟩, none⟩, ∅, fun _ => []⟩
      [⟨none, .register 1 "aa:01" "web" "debian" "12"⟩,
        ⟨some ⟨.osError, "down"⟩, .enableNetboot "AA:01"⟩]).inner := by
  have hstart : Coupled (SQLAlchemyBackend.lawful .ascii .parsed)
      (⟨some ⟨⟨∅, fun _ _ h => by cases h⟩, none⟩, ∅, fun _ => []⟩ :
        ProvisionTracker (Faulty (SQLAlchemyBackend .ascii .parsed))).inner :=
    ⟨⟨_, rfl, ∅, rfl, keyed_empty, rfl⟩, keyed_empty⟩
  refine (records_kept_iff .ascii _ _).2 _ hstart ?_ ?_ _ List.prefix_rfl
  · intro call hcall mac hmac
    fin_cases hcall <;> cases hmac <;> decide
  · refine forall_steps_cons.mpr ⟨?_, forall_steps_cons.mpr ⟨?_, ?_⟩⟩
    · -- the first save does not raise
      rintro ⟨b, e, hb, ⟨key, r, -, hsave⟩ | ⟨hop, -⟩⟩
      · cases hb
        cases hsave
      · cases hop
    · rintro - r hr
      cases hr
      rfl
    · intro pre call hpre
      simp at hpre

end ProvisionTracker

/-! ### Failing reads -/

namespace JSONBackend

variable {py : StrLib} {json : JsonText} {b : JSONBackend py json}

/-- The file as the read of a call sees it: `_load` takes a file that it cannot read for an empty
one, as it does a file that is not there. -/
def seen (b : JSONBackend py json) (readFails : Bool) : JSONBackend py json :=
  if readFails then ⟨none⟩ else b

/-- A call of the backend. -/
inductive Request where
  | save (record : ProvisionRecord)
  | get (mac : String)
  | listAll
  | delete (mac : String)
  | clear

/-- What a call returns. -/
inductive Reply where
  | done
  | record (record : Option ProvisionRecord)
  | records (records : List ProvisionRecord)
  | deleted (deleted : Bool)

/-- A call whose read of the file may fail. -/
def serve (b : JSONBackend py json) (readFails : Bool) :
    Request → Except PyExc Reply × JSONBackend py json
  | .save record =>
    match (b.seen readFails).save record with
    | .ok b' => (.ok .done, b')
    | .error e => (.error e, b)
  | .get mac => (((b.seen readFails).get mac).map .record, b)
  | .listAll => ((b.seen readFails).listAll.map .records, b)
  | .delete mac =>
    match (b.seen readFails).delete mac with
    | .ok (true, b') => (.ok (.deleted true), b')
    | .ok (false, _) => (.ok (.deleted false), b)
    | .error e => (.error e, b)
  | .clear =>
    match b.clear with
    | .ok b' => (.ok .done, b')
    | .error e => (.error e, b)

/-- The backend, and the records that were saved and not withdrawn since. -/
structure Ledger (py : StrLib) (json : JsonText) where
  backend : JSONBackend py json
  saved : String → Option ProvisionRecord

/-- The records that are saved after a call: a save that returns enters its record, a deletion or
a clear withdraws. -/
def Request.savedAfter (py : StrLib) (saved : String → Option ProvisionRecord)
    (reply : Except PyExc Reply) : Request → String → Option ProvisionRecord
  | .save record =>
    match reply with
    | .ok _ => Function.update saved (py.lower record.mac) (some record)
    | .error _ => saved
  | .delete mac => Function.update saved (py.lower mac) none
  | .clear => fun _ => none
  | .get _ => saved
  | .listAll => saved

/-- One call with its read. -/
def ledgerStep (s : Ledger py json) (call : Bool × Request) :
    Except PyExc Reply × Ledger py json :=
  let (reply, backend) := s.backend.serve call.1 call.2
  (reply, ⟨backend, call.2.savedAfter py s.saved reply⟩)

/-- Every record that was saved is returned. -/
def Ledger.Kept (s : Ledger py json) : Prop :=
  ∀ mac r, s.saved (py.lower mac) = some r → s.backend.get mac = .ok (some r)

/-- If it is a save whose read fails, no other record is at stake. -/
def Ledger.Spares (s : Ledger py json) : Bool × Request → Prop
  | (true, .save record) => ∀ mac r, s.saved (py.lower mac) = some r →
      py.lower mac = py.lower record.mac
  | _ => True

/-- What a save that returns has written: what its read saw, and its record. -/
theorem get_of_save {b' : JSONBackend py json} {record : ProvisionRecord}
    (h : b.save record = .ok b') (mac : String) :
    b'.get mac = if py.lower mac = py.lower record.mac then .ok (some record) else b.get mac := by
  obtain ⟨data, hload, hdump⟩ := bind_eq_ok_iff.mp h
  cases hdump
  rw [get_of_isDictOf (load_dump _), get_of_isDictOf (Value.asDict_eq_ok_iff.mp hload),
    Dict.get?_set]
  split_ifs
  · simp only [recordToDict]
    rw [← recordToDict, dictToRecord_recordToDict]
    rfl
  · rfl

/-- A deletion leaves the other records. -/
theorem get_of_delete {b' : JSONBackend py json} {mac' : String}
    (h : b.delete mac' = .ok (true, b')) {mac : String} (hmac : py.lower mac ≠ py.lower mac') :
    b'.get mac = b.get mac := by
  rw [delete] at h
  split at h
  · next kvs hload =>
    dsimp only at h
    split_ifs at h
    · cases h
      rw [get_of_isDictOf (load_dump _), get_of_isDictOf ⟨kvs, hload, rfl⟩, Dict.get?_del,
        if_neg hmac]
    · cases h
  · -- a document that is no dict loses nothing
    obtain ⟨member, -, h⟩ := bind_eq_ok_iff.mp h
    split_ifs at h
    cases h

theorem ledgerStep_save (s : Ledger py json) (readFails : Bool) (record : ProvisionRecord) :
    (∃ b', (s.backend.seen readFails).save record = .ok b' ∧
      (ledgerStep s (readFails, .save record)).2 =
        ⟨b', Function.update s.saved (py.lower record.mac) (some record)⟩) ∨
    readFails = false ∧ (ledgerStep s (readFails, .save record)).2 = s := by
  rw [ledgerStep, serve]
  rcases hsave : (s.backend.seen readFails).save record with e | b'
  · refine .inr ⟨?_, rfl⟩
    cases readFails with
    | false => rfl
    | true => cases hsave
  · exact .inl ⟨b', rfl, rfl⟩

theorem ledgerStep_delete (s : Ledger py json) (readFails : Bool) (mac : String) :
    ∃ b', (ledgerStep s (readFails, .delete mac)).2 =
        ⟨b', Function.update s.saved (py.lower mac) none⟩ ∧
      (b' = s.backend ∨ (s.backend.seen readFails).delete mac = .ok (true, b')) := by
  rw [ledgerStep, serve]
  rcases (s.backend.seen readFails).delete mac with e | ⟨deleted, b'⟩
  · exact ⟨s.backend, rfl, .inl rfl⟩
  · cases deleted with
    | true => exact ⟨b', rfl, .inr rfl⟩
    | false => exact ⟨s.backend, rfl, .inl rfl⟩

theorem Ledger.Kept.delete {s : Ledger py json} (h : s.Kept) (readFails : Bool) (mac' : String) :
    (ledgerStep s (readFails, .delete mac')).2.Kept := by
  obtain ⟨b', hstep, hb'⟩ := ledgerStep_delete s readFails mac'
  rw [hstep]
  intro mac r hr
  dsimp only at hr ⊢
  by_cases hmac : py.lower mac = py.lower mac'
  · rw [hmac, Function.update_self] at hr
    cases hr
  · rw [Function.update_of_ne hmac] at hr
    rw [← h mac r hr]
    rcases hb' with rfl | hdelete
    · rfl
    · cases readFails with
      | false => exact get_of_delete hdelete hmac
      | true => cases hdelete

/-- From a state in which every saved record is returned, a call leads to such a state exactly
when it spares the other records. -/
theorem kept_step_iff {s : Ledger py json} (h : s.Kept) (call : Bool × Request) :
    (ledgerStep s call).2.Kept ↔ s.Spares call := by
  obtain ⟨readFails, request⟩ := call
  cases request with
  | get mac => exact iff_of_true h (by cases readFails <;> trivial)
  | listAll => exact iff_of_true h (by cases readFails <;> trivial)
  | delete mac => exact iff_of_true (h.delete readFails mac) (by cases readFails <;> trivial)
  | clear => exact iff_of_true (fun mac r hr => by cases hr) (by cases readFails <;> trivial)
  | save record =>
    rcases ledgerStep_save s readFails record with ⟨b', hsave, hstep⟩ | ⟨rfl, hstep⟩
    · rw [hstep]
      cases readFails with
      | false =>
        refine iff_of_true (fun mac r hr => ?_) trivial
        dsimp only at hr ⊢
        rw [get_of_save hsave]
        by_cases hmac : py.lower mac = py.lower record.mac
        · rw [hmac, Function.update_self] at hr
          rw [if_pos hmac, Option.some.inj hr]
        · rw [Function.update_of_ne hmac] at hr
          rw [if_neg hmac]
          exact h mac r hr
      | true =>
        constructor
        · intro hafter mac r hr
          -- the file that the save has written holds its own record alone
          by_contra hmac
          have hget := hafter mac r ((Function.update_of_ne hmac _ _).trans hr)
          dsimp only at hget
          rw [get_of_save hsave, if_neg hmac] at hget
          cases hget
        · intro hspares mac r hr
          dsimp only at hr ⊢
          rw [get_of_save hsave]
          by_cases hmac : py.lower mac = py.lower record.mac
          · rw [hmac, Function.update_self] at hr
            rw [if_pos hmac, Option.some.inj hr]
          · rw [Function.update_of_ne hmac] at hr
            exact absurd (hspares mac r hr) hmac
    · rw [hstep]
      exact iff_of_true h trivial

/-- A save whose read fails drops the record of another host. -/
theorem failed_read_drops_record :
    (run ledgerStep (⟨⟨none⟩, fun _ => none⟩ : Ledger .ascii .parsed)
        [(false, .save (.fresh "aa:01" "web" "debian" "12" 1)),
          (true, .save (.fresh "aa:02" "web" "debian" "12" 2))]).saved "aa:01" =
      some (.fresh "aa:01" "web" "debian" "12" 1) ∧
    (run ledgerStep (⟨⟨none⟩, fun _ => none⟩ : Ledger .ascii .parsed)
        [(false, .save (.fresh "aa:01" "web" "debian" "12" 1)),
          (true, .save (.fresh "aa:02" "web" "debian" "12" 2))]).backend.get "aa:01" =
      .ok none := by
  decide +kernel

/-- **Failing reads.** Whatever the file holds at first, every record saved in a run, and not
withdrawn since, is returned after each call of the run exactly when at every save whose read
fails no record of another MAC is at stake. -/
theorem saved_kept_iff (b : JSONBackend py json) (calls : List (Bool × Request)) :
    (∀ pre, pre <+: calls → (run ledgerStep (⟨b, fun _ => none⟩ : Ledger py json) pre).Kept) ↔
      ∀ pre call, pre ++ [call] <+: calls →
        (run ledgerStep (⟨b, fun _ => none⟩ : Ledger py json) pre).Spares call := by
  have hinv : ∀ (s : Ledger py json) (call : Bool × Request), True → True := fun _ _ _ => trivial
  have hkept : ∀ (s : Ledger py json) call, True → s.Kept →
      ((ledgerStep s call).2.Kept ↔ s.Spares call) := fun _ call _ h => kept_step_iff h call
  have hstart : (⟨b, fun _ => none⟩ : Ledger py json).Kept := fun _ _ hr => by cases hr
  exact forall_run_iff hinv hkept trivial hstart calls

end JSONBackend

end TftpOS
