import TftpOS.Lib.Ledger
import TftpOS.Lib.Run
import TftpOS.Callbacks

/-!
# Which callbacks an entry triggers

What holds of the log of a tracker after any calls, whatever its callbacks do. The entries of the
log are the histories (`Recorded`). Each entry has called the callbacks of its state in order, each
once: all of them, or those up to the first that raised, or none when the backend refused the
record (`Answered`). A callback is called with the record as it is by then (`Current`): in the
state of the last entry before the call, which is another one than the callback's own when a
callback before it has performed a transition.

`Advances` is what one call does to the log and the records, inside a callback or outside. It is
proved of a call from the calls its callbacks make, and so, by induction on how many calls may
still be made inside each other, of all.
-/

namespace TftpOS

open Lib

/-! ### What the log says -/

/-- The state of a record and the states of its history. -/
def ProvisionRecord.outline (record : ProvisionRecord) : ProvisionState × List ProvisionState :=
  (record.state, record.history.map Prod.fst)

namespace TrackerEvent

/-- What an event does to the outline of the record under a key. -/
def onOutline (key : String) (outline : Option (ProvisionState × List ProvisionState)) :
    TrackerEvent → Option (ProvisionState × List ProvisionState)
  | .entered k state fresh _ =>
    if k = key then
      if fresh then some (state, [state]) else outline.map fun o => (state, o.2 ++ [state])
    else outline
  | .cleared => none
  | _ => outline

/-- What an entry's marks record about its callbacks. -/
inductive Mark where
  | called (position : ℕ)
  | raised (position : ℕ)
  deriving DecidableEq

/-- The mark an event leaves, and the entry it is left on. -/
def mark? : TrackerEvent → Option (ℕ × Mark)
  | .invoked entry position _ => some (entry, .called position)
  | .raised entry position => some (entry, .raised position)
  | _ => none

/-- The marks of an entry whose state has `n` callbacks. -/
inductive Answer (n : ℕ) : Bool → List Mark → Prop
  /-- The backend raised, and no callback is called. -/
  | unsaved : Answer n false []
  /-- All are called, in order and once each. -/
  | all : Answer n true ((List.range n).map .called)
  /-- They are called up to the first that raises. -/
  | upTo {position : ℕ} (h : position < n) :
    Answer n true ((List.range (position + 1)).map .called ++ [.raised position])

/-- The marks of an event: only entries ask for some. -/
def Answers (listeners : Listeners) : TrackerEvent → List Mark → Prop
  | .entered _ state _ saved, marks => Answer (listeners state).length saved marks
  | _, _ => True

end TrackerEvent

open TrackerEvent

/-- The outline of the record under a key, after what the log says has happened. -/
def outlineAt {σ : Type} (t : ProvisionTracker σ) (key : String) (log : List TrackerEvent) :
    Option (ProvisionState × List ProvisionState) :=
  log.foldl (onOutline key) ((t.records.get? key).map ProvisionRecord.outline)

/-- Each entry of a log has called the callbacks of its state as `Answer` says. -/
def Answered (listeners : Listeners) (log : List TrackerEvent) : Prop :=
  ∀ entry key state fresh saved, log[entry]? = some (.entered key state fresh saved) →
    Answer (listeners state).length saved (trail mark? entry log)

/-- Each callback is called with the record its entry is about, as it is by then. -/
def Current {σ : Type} (t : ProvisionTracker σ) (log : List TrackerEvent) : Prop :=
  ∀ before entry position current after,
    log = before ++ .invoked entry position current :: after →
    ∃ key state fresh, before[entry]? = some (.entered key state fresh true) ∧
      (outlineAt t key before).map Prod.fst = some current

/-- The entries of the log are the histories of the records. -/
def Traced.Recorded {σ : Type} (t : ProvisionTracker σ) (w : Traced σ) : Prop :=
  ∀ key, (w.tracker.records.get? key).map ProvisionRecord.outline = outlineAt t key w.log

section

variable {σ : Type} {t : ProvisionTracker σ} {log : List TrackerEvent} {event : TrackerEvent}

theorem outlineAt_concat (key : String) :
    outlineAt t key (log ++ [event]) = event.onOutline key (outlineAt t key log) := by
  rw [outlineAt, List.foldl_concat]
  rfl

/-- One more event: a call of a callback is to be with the record as it is. -/
theorem Current.concat (h : Current t log)
    (hevent : ∀ entry position current, event = .invoked entry position current →
      ∃ key state fresh, log[entry]? = some (.entered key state fresh true) ∧
        (outlineAt t key log).map Prod.fst = some current) :
    Current t (log ++ [event]) := by
  intro before entry position current after heq
  rcases List.eq_nil_or_concat after with rfl | ⟨after, last, rfl⟩
  · obtain ⟨rfl, hlast⟩ := List.append_inj' heq rfl
    exact hevent entry position current (List.singleton_inj.mp hlast)
  · rw [List.concat_eq_append, ← List.cons_append, ← List.append_assoc] at heq
    obtain ⟨hlog, -⟩ := List.append_inj' heq rfl
    exact h before entry position current after hlog

end

namespace Traced

/-! ### What a call adds to the log -/

section

variable {σ : Type} {t : ProvisionTracker σ} {listeners : Listeners} {opened : Option ℕ}
  {w w' w'' : Traced σ} {M M' : List TrackerEvent}

/-- What is done from `w` to `w'` adds `M` to the log. It finishes the entries it makes, takes
no record away, and keeps what the log says true. It may belong to the callbacks of the entry
`opened`. -/
structure Advances (listeners : Listeners) (t : ProvisionTracker σ) (opened : Option ℕ)
    (w w' : Traced σ) (M : List TrackerEvent) : Prop where
  log : w'.log = w.log ++ M
  settles : Settles mark? (Answers listeners) opened w.log.length M
  keeps : ∀ key, (w.tracker.records.get? key).isSome → (w'.tracker.records.get? key).isSome
  recorded : w.Recorded t → w'.Recorded t
  current : w.Recorded t → Current t w.log → Current t w'.log

theorem Advances.refl : Advances listeners t opened w w [] where
  log := (List.append_nil _).symm
  settles := .nil
  keeps _ h := h
  recorded h := h
  current _ h := h

theorem Advances.weaken (h : Advances listeners t none w w' M) :
    Advances listeners t opened w w' M where
  log := h.log
  settles := h.settles.weaken
  keeps := h.keeps
  recorded := h.recorded
  current := h.current

theorem Advances.trans (h : Advances listeners t opened w w' M)
    (h' : Advances listeners t opened w' w'' M') (hopen : ∀ k ∈ opened, k < w.log.length) :
    Advances listeners t opened w w'' (M ++ M') where
  log := by rw [h'.log, h.log, List.append_assoc]
  settles := by
    have hsettles := h'.settles
    rw [h.log, List.length_append] at hsettles
    exact h.settles.append hsettles hopen
  keeps key hkey := h'.keeps key (h.keeps key hkey)
  recorded hw := h'.recorded (h.recorded hw)
  current hw hcurrent := h'.current (h.recorded hw) (h.current hw hcurrent)

/-- The events after an entry is made leave it where it is. -/
theorem Advances.getElem? (h : Advances listeners t opened w w' M) {i : ℕ} {event : TrackerEvent}
    (hi : w.log[i]? = some event) : w'.log[i]? = some event := by
  obtain ⟨hlt, -⟩ := List.getElem?_eq_some_iff.mp hi
  rw [h.log, List.getElem?_append_left hlt, hi]

/-- A mark on the open entry. -/
theorem advances_mark {event : TrackerEvent} {entry : ℕ} {mark : Mark}
    (hmark : event.mark? = some (entry, mark)) (hentry : entry < w.log.length)
    (hcurrent : w.Recorded t → ∀ entry position current, event = .invoked entry position current →
      ∃ key state fresh, w.log[entry]? = some (.entered key state fresh true) ∧
        (outlineAt t key w.log).map Prod.fst = some current) :
    Advances listeners t (some entry) w (w.note event) [event] := by
  -- an event with a mark is not an entry
  have hother : (∀ marks, Answers listeners event marks) ∧
      ∀ key outline, event.onOutline key outline = outline := by
    cases event with
    | entered | cleared => cases hmark
    | invoked | raised => exact ⟨fun _ => trivial, fun _ _ => rfl⟩
  exact
    { log := rfl
      settles := .mark hmark hentry (hother.1 [])
      keeps := fun _ h => h
      recorded := fun h key => by
        rw [note, outlineAt_concat, hother.2]
        exact h key
      current := fun hw h => h.concat (hcurrent hw) }

/-! ### The callbacks of an entry -/

variable {nested : Transition σ} {key : String} (record : ProvisionRecord)

/-- The marks of the callbacks from a position on. -/
def Fired (position n : ℕ) (marks : List Mark) : Prop :=
  marks = (List.range' position n).map .called ∨
    ∃ p < n, marks = (List.range' position (p + 1)).map .called ++ [.raised (position + p)]

theorem Fired.cons {position n : ℕ} {marks : List Mark} (h : Fired (position + 1) n marks) :
    Fired position (n + 1) ([.called position] ++ marks) := by
  rcases h with rfl | ⟨p, hp, rfl⟩
  · exact .inl rfl
  · refine .inr ⟨p + 1, by omega, ?_⟩
    rw [List.range'_succ, List.map_cons, show position + (p + 1) = position + 1 + p by omega]
    rfl

/-- The callbacks of an entry that is saved, from the first on. -/
theorem Fired.answer {n : ℕ} {marks : List Mark} (h : Fired 0 n marks) : Answer n true marks := by
  rcases h with rfl | ⟨p, hp, rfl⟩
  · rw [← List.range_eq_range']
    exact .all
  · rw [← List.range_eq_range', Nat.zero_add]
    exact .upTo hp

/-- One callback adds to the log what the transitions it performs add. -/
theorem advances_react
    (hnested : ∀ mac newState errorMessage (w : Traced σ),
      ∃ M, Advances listeners t none w (nested mac newState errorMessage w).2 M)
    (key : String) (reaction : Reaction) (w : Traced σ) :
    ∃ M, Advances listeners t none w (react nested key record reaction w).2 M := by
  induction reaction generalizing w with
  | returns => exact ⟨[], .refl⟩
  | raises e => exact ⟨[], .refl⟩
  | transitions newState errorMessage next ih =>
    obtain ⟨M, hcall⟩ := hnested record.mac newState errorMessage w
    obtain ⟨M', hrest⟩ := ih _ _ (nested record.mac newState errorMessage w).2
    exact ⟨M ++ M', hcall.trans hrest (by simp)⟩

/-- One callback of an open entry: its call, and what it does. -/
theorem advances_invoked
    (hnested : ∀ mac newState errorMessage (w : Traced σ),
      ∃ M, Advances listeners t none w (nested mac newState errorMessage w).2 M)
    {entry : ℕ} {state : ProvisionState} {fresh : Bool} (cb : Listener) (position : ℕ)
    (hentry : w.log[entry]? = some (.entered key state fresh true)) {now : ProvisionRecord}
    (hnow : w.tracker.records.get? key = some now) :
    let called := w.note (.invoked entry position now.state)
    ∃ M, Advances listeners t (some entry) w
        (react nested key now (cb called.log now) called).2 M ∧
      trail mark? entry M = [.called position] := by
  intro called
  obtain ⟨hlt, -⟩ := List.getElem?_eq_some_iff.mp hentry
  -- the callback is called with the record as it is
  have hcalled : Advances listeners t (some entry) w called
      [.invoked entry position now.state] := by
    refine advances_mark rfl hlt fun hw e p c heq => ?_
    obtain ⟨rfl, -, rfl⟩ := TrackerEvent.invoked.inj heq
    refine ⟨key, state, fresh, hentry, ?_⟩
    rw [← hw key, hnow]
    rfl
  obtain ⟨M, hreact⟩ := advances_react now hnested key (cb called.log now) called
  refine ⟨_, hcalled.trans hreact.weaken (by simp [hlt]), ?_⟩
  have hmark : mark? (.invoked entry position now.state) = some (entry, .called position) := rfl
  have hlt' : entry < called.log.length := by
    rw [hcalled.log, List.length_append]
    omega
  rw [trail_append, trail_singleton_self hmark, hreact.settles.old entry hlt' (by simp)]
  rfl

/-- The callbacks of an open entry, from a position on. -/
theorem advances_fireCallbacks
    (hnested : ∀ mac newState errorMessage (w : Traced σ),
      ∃ M, Advances listeners t none w (nested mac newState errorMessage w).2 M)
    {entry : ℕ} {state : ProvisionState} {fresh : Bool} (cbs : List Listener) (position : ℕ)
    (w : Traced σ) (hentry : w.log[entry]? = some (.entered key state fresh true))
    (hkey : (w.tracker.records.get? key).isSome) :
    ∃ M, Advances listeners t (some entry) w
        (fireCallbacks nested key record entry position cbs w).2 M ∧
      Fired position cbs.length (trail mark? entry M) := by
  induction cbs generalizing position w with
  | nil => exact ⟨[], .refl, .inl rfl⟩
  | cons cb cbs ih =>
    obtain ⟨hlt, -⟩ := List.getElem?_eq_some_iff.mp hentry
    have hopen : ∀ k ∈ some entry, k < w.log.length := by simp [hlt]
    obtain ⟨now, hnow⟩ := Option.isSome_iff_exists.mp hkey
    have hshared : w.shared key record = now := by rw [shared, hnow, Option.getD_some]
    obtain ⟨M, hstart, hfirst⟩ := advances_invoked hnested cb position hentry hnow
    rw [fireCallbacks, hshared]
    obtain ⟨result, w', heq⟩ : ∃ result w', react nested key now
        (cb (w.note (.invoked entry position now.state)).log now)
        (w.note (.invoked entry position now.state)) = (result, w') := ⟨_, _, rfl⟩
    rw [heq] at hstart ⊢
    cases result with
    | error e =>
      have hmark : mark? (.raised entry position) = some (entry, .raised position) := rfl
      have hend : Advances listeners t (some entry) w' (w'.note (.raised entry position))
          [.raised entry position] := by
        refine advances_mark hmark ?_ fun _ _ _ _ h => by cases h
        rw [hstart.log, List.length_append]
        omega
      refine ⟨_, hstart.trans hend hopen, .inr ⟨0, by simp, ?_⟩⟩
      rw [trail_append, hfirst, trail_singleton_self hmark]
      rfl
    | ok u =>
      obtain ⟨M', hrest, hfired⟩ := ih (position + 1) w' (hstart.getElem? hentry)
        (hstart.keeps key hkey)
      refine ⟨_, hstart.trans hrest hopen, ?_⟩
      rw [trail_append, hfirst]
      exact hfired.cons

/-! ### A whole call -/

variable {record} in
/-- An entry is the change it makes to the records, whether or not the backend raises. -/
theorem Recorded.entered (h : w.Recorded t) {t' : ProvisionTracker σ} {fresh saved : Bool}
    (hset : t'.records = w.tracker.records.set key record)
    (hrecord : onOutline key ((w.tracker.records.get? key).map ProvisionRecord.outline)
      (.entered key record.state fresh saved) = some record.outline) :
    Recorded t ⟨t', w.log ++ [.entered key record.state fresh saved]⟩ := by
  intro k
  rw [outlineAt_concat, ← h k]
  dsimp only
  rw [hset, Dict.get?_set]
  by_cases hk : k = key
  · rw [hk, hrecord, if_pos rfl, Option.map_some]
  · rw [onOutline, if_neg hk, if_neg (Ne.symm hk)]

variable [StorageBackend σ] {record}

/-- A call that stores the record `record` under `key` and fires its callbacks. -/
theorem advances_enter
    (hnested : ∀ mac newState errorMessage (w : Traced σ),
      ∃ M, Advances listeners t none w (nested mac newState errorMessage w).2 M)
    {fresh : Bool}
    (hrecord : ∀ saved, onOutline key ((w.tracker.records.get? key).map ProvisionRecord.outline)
      (.entered key record.state fresh saved) = some record.outline) :
    ∃ M, Advances listeners t none w (w.enter nested listeners key record fresh).2 M := by
  obtain ⟨saved, t', hupdate, hset⟩ : ∃ saved t', w.tracker.update key record = (saved, t') ∧
      t'.records = w.tracker.records.set key record :=
    ⟨_, _, rfl, w.tracker.update_records key record⟩
  have hkeeps : ∀ k, (w.tracker.records.get? k).isSome → (t'.records.get? k).isSome := by
    intro k hk
    rw [hset, Dict.get?_set]
    split
    · rfl
    · exact hk
  have hcurrent : ∀ saved, Current t w.log →
      Current t (w.log ++ [.entered key record.state fresh saved]) :=
    fun saved h => h.concat fun _ _ _ heq => by cases heq
  rw [enter, hupdate]
  cases saved with
  | error e =>
    exact ⟨[.entered key record.state fresh false],
      { log := rfl
        settles := .note rfl .unsaved
        keeps := hkeeps
        recorded := fun h => h.entered hset (hrecord false)
        current := fun _ h => hcurrent false h }⟩
  | ok u =>
    -- the callbacks belong to the entry just made
    have hentry : (w.log ++ [.entered key record.state fresh true])[w.log.length]? =
        some (.entered key record.state fresh true) := by simp
    have hkey : (t'.records.get? key).isSome := by simp [hset, Dict.get?_set_self]
    obtain ⟨M, hfire, hfired⟩ := advances_fireCallbacks record hnested (listeners record.state) 0
      ⟨t', w.log ++ [.entered key record.state fresh true]⟩ hentry hkey
    have hsettles := hfire.settles
    rw [List.length_append] at hsettles
    exact ⟨.entered key record.state fresh true :: M,
      { log := hfire.log.trans (List.append_assoc _ _ _)
        settles := hsettles.enclose rfl hfired.answer
        keeps := fun k hk => hfire.keeps k (hkeeps k hk)
        recorded := fun h => hfire.recorded (h.entered hset (hrecord true))
        current := fun hw h => hfire.current (hw.entered hset (hrecord true)) (hcurrent true h) }⟩

theorem advances_transition
    (hnested : ∀ mac newState errorMessage (w : Traced σ),
      ∃ M, Advances listeners t none w (nested mac newState errorMessage w).2 M)
    (py : StrLib) (now : ℚ) (mac : String) (newState : ProvisionState)
    (errorMessage : Option String) :
    ∃ M, Advances listeners t none w
      (w.transition nested py listeners now mac newState errorMessage).2 M := by
  rw [transition]
  cases hget : w.tracker.records.get? (py.lower mac) with
  | none => exact ⟨[], .refl⟩
  | some record =>
    refine advances_enter hnested fun saved => ?_
    rw [hget, onOutline, if_pos rfl, ProvisionRecord.outline, ProvisionRecord.enter]
    simp [ProvisionRecord.outline]

theorem advances_register
    (hnested : ∀ mac newState errorMessage (w : Traced σ),
      ∃ M, Advances listeners t none w (nested mac newState errorMessage w).2 M)
    (py : StrLib) (now : ℚ) (mac profile osFamily osVersion : String) :
    ∃ M, Advances listeners t none w
      (w.register nested py listeners now mac profile osFamily osVersion).2 M :=
  advances_enter hnested fun _ => if_pos rfl

/-- A call that callbacks make, however many more may be made inside it. -/
theorem advances_transitionAt (t : ProvisionTracker σ) (listeners : Listeners) (py : StrLib)
    (clock : ℕ → ℚ) (depth : ℕ) (mac : String) (newState : ProvisionState)
    (errorMessage : Option String) (w : Traced σ) :
    ∃ M, Advances listeners t none w
      (transitionAt py listeners clock depth mac newState errorMessage w).2 M := by
  induction depth generalizing mac newState errorMessage w with
  | zero => exact ⟨[], .refl⟩
  | succ depth ih =>
    exact advances_transition ih py (clock w.log.length) mac newState errorMessage

end

/-! ### Runs -/

section

variable {σ : Type} [StorageBackend σ] {t : ProvisionTracker σ} {listeners : Listeners}
  {w w' : Traced σ} {M : List TrackerEvent}

/-- What holds after every run. -/
structure Sound (listeners : Listeners) (t : ProvisionTracker σ) (w : Traced σ) : Prop where
  settles : Settles mark? (Answers listeners) none 0 w.log
  recorded : w.Recorded t
  current : Current t w.log

omit [StorageBackend σ] in
theorem Sound.advance (h : Sound listeners t w) (hstep : Advances listeners t none w w' M) :
    Sound listeners t w' where
  settles := by
    rw [hstep.log]
    exact h.settles.append (by rw [Nat.zero_add]; exact hstep.settles) (by simp)
  recorded := hstep.recorded h.recorded
  current := hstep.current h.recorded h.current

/-- The netboot flag is not part of an outline. -/
theorem Sound.netboot (h : Sound listeners t w) (py : StrLib) (op : ProvisionTracker.Op)
    (mac : String) (enabled : Bool)
    (heffect : op.effect py w.tracker.records =
      match w.tracker.records.get? (py.lower mac) with
      | none => .nothing
      | some record => .write (py.lower mac) (record.setNetboot enabled)) :
    Sound listeners t ⟨(w.tracker.step py op).2, w.log⟩ where
  settles := h.settles
  recorded := by
    intro key
    rw [← h.recorded key]
    dsimp only
    rw [ProvisionTracker.step_records, heffect]
    cases hget : w.tracker.records.get? (py.lower mac) with
    | none => rfl
    | some record =>
      dsimp only [ProvisionTracker.Effect.onRecords]
      rw [Dict.get?_set]
      by_cases hkey : key = py.lower mac
      · rw [if_pos hkey, hkey, hget]
        rfl
      · rw [if_neg hkey]
  current := h.current

theorem Sound.clear (h : Sound listeners t w) (py : StrLib) :
    Sound listeners t ⟨(w.tracker.step py .clear).2, w.log ++ [.cleared]⟩ where
  settles := h.settles.append (.note rfl trivial) (by simp)
  recorded := by
    intro key
    rw [outlineAt_concat]
    dsimp only
    rw [ProvisionTracker.step_records]
    rfl
  current := h.current.concat fun _ _ _ heq => by cases heq

theorem Sound.step (h : Sound listeners t w) (py : StrLib) (clock : ℕ → ℚ) (depth : ℕ)
    (op : ProvisionTracker.Op) : Sound listeners t (w.step py listeners clock depth op).2 := by
  have hnested := advances_transitionAt t listeners py clock depth
  cases op with
  | register now mac profile osFamily osVersion =>
    obtain ⟨M, hcall⟩ := advances_register hnested py now mac profile osFamily osVersion
    exact h.advance hcall
  | transition now mac newState errorMessage =>
    obtain ⟨M, hcall⟩ := advances_transition hnested py now mac newState errorMessage
    exact h.advance hcall
  | enableNetboot mac => exact h.netboot py (.enableNetboot mac) mac true rfl
  | disableNetboot mac => exact h.netboot py (.disableNetboot mac) mac false rfl
  | clear => exact h.clear py

/-- **What the callbacks are called for.** In every run, whatever the callbacks do, the entries of
the log are the histories of the records; each entry has called the callbacks of its state in
order and each once, all of them or those up to the first that raised, or none when the backend
raised; and each was called with the record as the last entry before the call had left it. -/
theorem callbacks_of_entries (py : StrLib) (listeners : Listeners) (clock : ℕ → ℚ) (depth : ℕ)
    (t : ProvisionTracker σ) (ops : List ProvisionTracker.Op) :
    let w := run (Traced.step py listeners clock depth) ⟨t, []⟩ ops
    w.Recorded t ∧ Answered listeners w.log ∧ Current t w.log := by
  have hstart : Sound listeners t (⟨t, []⟩ : Traced σ) :=
    { settles := .nil
      recorded := fun _ => rfl
      current := fun before _ _ _ _ h => by simp at h }
  have hrun : Sound listeners t (run (Traced.step py listeners clock depth) ⟨t, []⟩ ops) :=
    run_invariant (A := fun _ => True) (fun w op _ h => h.step py clock depth op) hstart (by simp)
  refine ⟨hrun.recorded, fun entry key state fresh saved hentry => ?_, hrun.current⟩
  have hanswer := hrun.settles.new entry _ hentry
  rw [Nat.zero_add] at hanswer
  exact hanswer

/-- Every callback of an entry's state is called exactly once, in order. -/
def EachOnce (listeners : Listeners) (log : List TrackerEvent) : Prop :=
  ∀ entry key state fresh saved, log[entry]? = some (.entered key state fresh saved) →
    trail mark? entry log = (List.range (listeners state).length).map .called

/-- Every callback is called with a record in the state it is registered for. -/
def InOwnState (log : List TrackerEvent) : Prop :=
  ∀ entry key state fresh saved position current,
    log[entry]? = some (.entered key state fresh saved) →
    .invoked entry position current ∈ log → current = state

/-- Three callbacks for BOOTING: one reports a failure, one raises, one only returns. -/
def labListeners : Listeners :=
  let listeners := onStateChange (fun _ => []) .booting fun _ _ =>
    .transitions .failed (some "no disk") fun _ _ => .returns
  let listeners := onStateChange listeners .booting fun _ _ => .raises ⟨.runtimeError, "no route"⟩
  onStateChange listeners .booting fun _ _ => .returns

/-- A host is registered and boots. -/
def labRun : Traced Empty :=
  run (Traced.step .ascii labListeners (fun place => place) 100) ⟨⟨none, ∅, fun _ => []⟩, []⟩
    [.register 0 "aa:bb:cc:dd:ee:ff" "web" "debian" "13",
      .transition 1 "aa:bb:cc:dd:ee:ff" .booting none]

/-- The second callback for BOOTING finds a FAILED record, and the third is never called. -/
theorem callbacks_late_and_skipped : ¬ EachOnce labListeners labRun.log ∧ ¬ InOwnState labRun.log :=
    by
  have hentry : labRun.log[1]? = some (.entered "aa:bb:cc:dd:ee:ff" .booting false true) := by
    decide +kernel
  constructor
  · intro h
    exact absurd (h 1 _ _ _ _ hentry) (by decide +kernel)
  · intro h
    have hlate : .invoked 1 1 .failed ∈ labRun.log := by decide +kernel
    exact absurd (h 1 _ _ _ _ 1 .failed hentry hlate) (by decide)

end

end Traced

end TftpOS
