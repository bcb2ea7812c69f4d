import Mathlib.Algebra.Order.Group.Nat
import Mathlib.Logic.Function.Basic
import Mathlib.Tactic.SplitIfs

/-!
# Rotating log files

A log in numbered files: messages are appended to the file 0, and when that file would become too
large, every file moves on by one number and a new one is begun (`emit`). Only so many files are
kept behind it.

The files are described by the messages that they hold, a list for each file (`record`,
`emit_ofChain`). What is kept is the end of what was written (`Rotated.split`), in files that are
small unless they hold a single message (`Rotated.small`), and nothing is dropped while all the
files behind are not there and nearly full (`Rotated.length_kept`).
-/

namespace Lib

variable {α μ : Type*}

/-- Numbered files, some of which are there. -/
abbrev LogFiles (α : Type*) := ℕ → Option (List α)

/-- When files move on, and how many are kept behind the first one. -/
structure Rotation where
  /-- No limit if it is 0. -/
  maxSize : ℕ
  backupCount : ℕ
  /-- An empty file moves on too. -/
  rollsEmpty : Bool

namespace LogFiles

/-- A file that is there gets another number, in the place of one that has it. -/
def move (files : LogFiles α) (i j : ℕ) : LogFiles α :=
  match files i with
  | none => files
  | some text => Function.update (Function.update files i none) j (some text)

/-- The files from the given number down to 1 move on by one number, the last one first. -/
def shift (files : LogFiles α) : ℕ → LogFiles α
  | 0 => files
  | n + 1 => (files.move (n + 1) (n + 2)).shift n

/-- A new file is begun. -/
def rollover (files : LogFiles α) (backupCount : ℕ) : LogFiles α :=
  let files :=
    if 0 < backupCount then
      move (Function.update (files.shift (backupCount - 1)) 1 none) 0 1
    else files
  Function.update files 0 (some ((files 0).getD []))

end LogFiles

/-- A message of the size would make a file of the size too large. -/
def Rotation.isDue (r : Rotation) (size messageSize : ℕ) : Bool :=
  0 < r.maxSize && r.maxSize ≤ size + messageSize && (0 < size || r.rollsEmpty)

/-- A message is written. -/
def LogFiles.emit (r : Rotation) (files : LogFiles α) (message : List α) : LogFiles α :=
  let size := ((files 0).getD []).length
  let files := if r.isDue size message.length then files.rollover r.backupCount else files
  Function.update files 0 (some ((files 0).getD [] ++ message))

/-! ### The files and their messages -/

section

variable (r : Rotation) (text : μ → List α)

/-- Files, newest first, of which each holds some messages. -/
def LogFiles.ofChain (chain : List (List μ)) : LogFiles α := fun i =>
  chain[i]?.map (List.flatMap text)

/-- A message is written after those of the newest file, or begins a new one. -/
def record (chain : List (List μ)) (m : μ) : List (List μ) :=
  match chain with
  | [] => [[m]]
  | c :: bs =>
    if r.isDue (c.flatMap text).length (text m).length && decide (0 < r.backupCount) then
      [m] :: (c :: bs).take r.backupCount
    else (c ++ [m]) :: bs

end

namespace LogFiles

variable {r : Rotation} {text : μ → List α} {files : LogFiles α} {chain : List (List μ)} {i : ℕ}

theorem move_of_ne {i j k : ℕ} (hi : k ≠ i) (hj : k ≠ j) : files.move i j k = files k := by
  rw [move]
  cases files i with
  | none => rfl
  | some text => simp [hi, hj]

theorem move_self {i j : ℕ} (h : i ≠ j) : files.move i j i = none := by
  rw [move]
  cases hi : files i with
  | none => exact hi
  | some text => simp [h]

theorem move_target (files : LogFiles α) (i j : ℕ) :
    files.move i j j = (files i).or (files j) := by
  rw [move]
  cases files i with
  | none => simp
  | some text => simp

/-- The first file and those behind the given one stay where they are. -/
theorem shift_of_not_mem {n i : ℕ} (h : i = 0 ∨ n + 1 < i) : files.shift n i = files i := by
  induction n generalizing files with
  | zero => rfl
  | succ n ih => rw [shift, ih (by omega), move_of_ne (by omega) (by omega)]

/-- A file takes the place of the next one. -/
theorem shift_of_mem {n i : ℕ} (htwo : 2 ≤ i) (hle : i ≤ n + 1)
    (hchain : files (i - 1) = none → files i = none) : files.shift n i = files (i - 1) := by
  induction n generalizing files with
  | zero => omega
  | succ n ih =>
    rw [shift]
    rcases Nat.lt_or_eq_of_le hle with hlt | rfl
    · have hprev : files.move (n + 1) (n + 2) (i - 1) = files (i - 1) :=
        move_of_ne (by omega) (by omega)
      rw [ih (by omega) ?_, hprev]
      rw [hprev]
      intro hnone
      by_cases hnext : i = n + 1
      · rw [hnext]
        exact move_self (by omega)
      · rw [move_of_ne hnext (by omega)]
        exact hchain hnone
    · have hsub : n + 1 + 1 - 1 = n + 1 := rfl
      rw [hsub] at hchain ⊢
      rw [shift_of_not_mem (.inr (Nat.lt_succ_self _)), move_target]
      cases hprev : files (n + 1) with
      | none => exact hchain hprev
      | some text => rfl

theorem ofChain_eq_none {i : ℕ} (h : chain.length ≤ i) : ofChain text chain i = none := by
  rw [ofChain, List.getElem?_eq_none h, Option.map_none]

/-- A new file is begun in front of a chain of files. -/
theorem rollover_ofChain {backupCount : ℕ} (hcount : 0 < backupCount) (hne : chain ≠ [])
    (hlen : chain.length ≤ backupCount + 1) :
    (ofChain text chain).rollover backupCount =
      ofChain text (([] :: chain).take (backupCount + 1)) := by
  obtain ⟨c, bs, rfl⟩ := List.exists_cons_of_ne_nil hne
  funext i
  rw [rollover, if_pos hcount]
  match i with
  | 0 =>
    rw [Function.update_self, move_self (by decide)]
    rfl
  | 1 =>
    rw [Function.update_of_ne (by decide), move_target, Function.update_of_ne (by decide),
      shift_of_not_mem (.inl rfl), ofChain, ofChain, List.getElem?_take_of_lt (by omega)]
    rfl
  | i + 2 =>
    rw [Function.update_of_ne (by omega), move_of_ne (by omega) (by omega),
      Function.update_of_ne (by omega)]
    by_cases hle : i + 2 ≤ backupCount
    · rw [shift_of_mem (by omega) (by omega) ?_, ofChain, ofChain,
        List.getElem?_take_of_lt (by omega)]
      · rfl
      · intro hnone
        rw [ofChain, Option.map_eq_none_iff, List.getElem?_eq_none_iff] at hnone
        exact ofChain_eq_none (by omega)
    · rw [shift_of_not_mem (.inr (by omega)), ofChain_eq_none (by omega), ofChain_eq_none]
      rw [List.length_take]
      omega

/-- **Files and messages**: writing a message to the files of a chain gives the files of the chain
with the message. -/
theorem emit_ofChain (r : Rotation) (hne : chain ≠ []) (hlen : chain.length ≤ r.backupCount + 1)
    (m : μ) :
    (ofChain text chain).emit r (text m) = ofChain text (record r text chain m) := by
  obtain ⟨c, bs, rfl⟩ := List.exists_cons_of_ne_nil hne
  have hfirst : ofChain text (c :: bs) 0 = some (c.flatMap text) := rfl
  have hset : ∀ (c' : List μ) (bs' : List (List μ)) (m : μ),
      Function.update (ofChain text (c' :: bs')) 0
        (some (((ofChain text (c' :: bs')) 0).getD [] ++ text m)) =
      ofChain text ((c' ++ [m]) :: bs') := by
    intro c' bs' m
    funext i
    cases i with
    | zero => simp [ofChain]
    | succ i => simp [ofChain]
  rw [emit, record, hfirst, Option.getD_some]
  by_cases hdue : r.isDue (c.flatMap text).length (text m).length = true
  · rw [if_pos hdue, hdue, Bool.true_and]
    by_cases hcount : 0 < r.backupCount
    · rw [if_pos (decide_eq_true hcount), rollover_ofChain hcount hne hlen, List.take_succ_cons]
      exact hset [] _ m
    · have hself : Function.update (ofChain text (c :: bs)) 0 (some (c.flatMap text)) =
          ofChain text (c :: bs) := Function.update_eq_self_iff.mpr hfirst.symm
      rw [if_neg (by simpa using hcount), rollover, if_neg hcount, hfirst, Option.getD_some, hself]
      exact hset c bs m
  · rw [if_neg hdue, Bool.eq_false_iff.mpr hdue, Bool.false_and, if_neg Bool.false_ne_true]
    exact hset c bs m

end LogFiles

/-! ### What is kept -/

/-- The messages of a chain, in the order in which they were written. -/
def kept (chain : List (List μ)) : List μ := chain.reverse.flatten

/-- What a chain has after some messages have been written. -/
structure Rotated (r : Rotation) (text : μ → List α) (written : List μ)
    (chain : List (List μ)) : Prop where
  ne_nil : chain ≠ []
  length_le : chain.length ≤ r.backupCount + 1
  suffix : kept chain <:+ written
  /-- A file that is too large has a single message. -/
  small : 0 < r.maxSize → 0 < r.backupCount → ∀ c ∈ chain,
    (c.flatMap text).length < r.maxSize ∨ c.length ≤ 1
  /-- A file that has moved on had no room for another message. -/
  full : ∀ largest, (∀ m ∈ written, (text m).length ≤ largest) → ∀ b ∈ chain.tail,
    r.maxSize ≤ (b.flatMap text).length + largest
  /-- Messages are dropped only while all files are there. -/
  all_there : kept chain ≠ written →
    0 < r.maxSize ∧ 0 < r.backupCount ∧ chain.length = r.backupCount + 1

namespace Rotated

variable {r : Rotation} {text : μ → List α} {written : List μ} {chain : List (List μ)} {m : μ}

theorem kept_cons (c : List μ) (bs : List (List μ)) : kept (c :: bs) = kept bs ++ c := by
  simp [kept]

theorem start (r : Rotation) (text : μ → List α) : Rotated r text [] [[]] where
  ne_nil := List.cons_ne_nil _ _
  length_le := by simp
  suffix := by simp [kept]
  small _ _ c hc := .inr (by rw [List.mem_singleton.mp hc]; exact Nat.zero_le _)
  full _ _ b hb := by cases hb
  all_there h := absurd rfl h

theorem kept_take_suffix (chain : List (List μ)) (n : ℕ) : kept (chain.take n) <:+ kept chain := by
  have hsplit := congrArg kept (List.take_append_drop n chain)
  rw [kept, List.reverse_append, List.flatten_append] at hsplit
  rw [← hsplit]
  exact List.suffix_append _ _

/-- A bound for all messages is one for those before the last one. -/
private theorem forall_written {largest : ℕ}
    (h : ∀ m' ∈ written ++ [m], (text m').length ≤ largest) :
    ∀ m' ∈ written, (text m').length ≤ largest :=
  fun m' hm' => h m' (List.mem_append_left _ hm')

/-- A message for which the files move on. -/
theorem rolled {c : List μ} {bs : List (List μ)} (h : Rotated r text written (c :: bs))
    (hcount : 0 < r.backupCount)
    (hdue : r.isDue (c.flatMap text).length (text m).length = true) :
    Rotated r text (written ++ [m]) ([m] :: (c :: bs).take r.backupCount) := by
  rw [Rotation.isDue, Bool.and_eq_true, Bool.and_eq_true, decide_eq_true_iff,
    decide_eq_true_iff] at hdue
  refine ⟨List.cons_ne_nil _ _, ?_, ?_, fun hmax _ c' hc' => ?_, fun largest hl b hb => ?_,
    fun hne => ⟨hdue.1.1, hcount, ?_⟩⟩
  · rw [List.length_cons, List.length_take]
    omega
  · rw [kept_cons]
    exact List.suffix_append_self_iff.mpr ((kept_take_suffix _ _).trans h.suffix)
  · rcases List.mem_cons.mp hc' with rfl | hc'
    · exact .inr le_rfl
    · exact h.small hmax hcount c' (List.mem_of_mem_take hc')
  · -- the newest file has had no room, and the others had moved on before
    rcases List.mem_cons.mp (List.mem_of_mem_take hb) with rfl | hb
    · exact hdue.1.2.trans (Nat.add_le_add_left (hl m (by simp)) _)
    · exact h.full largest (forall_written hl) b hb
  · rw [kept_cons, Ne, List.append_cancel_right_eq] at hne
    rw [List.length_cons, List.length_take, Nat.min_eq_left]
    by_contra hshort
    rw [List.take_of_length_le (by omega)] at hne
    have hall := (h.all_there hne).2.2
    omega

/-- A message that is written after those of the newest file. -/
theorem appended {c : List μ} {bs : List (List μ)} (h : Rotated r text written (c :: bs))
    (htext : ∀ m, text m ≠ [])
    (hroom : 0 < r.backupCount → r.isDue (c.flatMap text).length (text m).length = false) :
    Rotated r text (written ++ [m]) ((c ++ [m]) :: bs) := by
  have hkept : kept ((c ++ [m]) :: bs) = kept (c :: bs) ++ [m] := by
    rw [kept_cons, kept_cons, List.append_assoc]
  refine ⟨List.cons_ne_nil _ _, h.length_le, ?_, fun hmax hcount c' hc' => ?_,
    fun largest hl b hb => h.full largest (forall_written hl) b hb, fun hne => ?_⟩
  · rw [hkept]
    exact List.suffix_append_self_iff.mpr h.suffix
  · rcases List.mem_cons.mp hc' with rfl | hc'
    · have hdue := hroom hcount
      rw [Rotation.isDue, decide_eq_true hmax, Bool.true_and, Bool.and_eq_false_iff,
        decide_eq_false_iff_not, Bool.or_eq_false_iff, decide_eq_false_iff_not] at hdue
      rcases hdue with hfits | ⟨hempty, -⟩
      · left
        rw [List.flatMap_append, List.length_append, List.flatMap_singleton]
        exact not_le.mp hfits
      · -- a file without a character has no messages
        have hnil : c = [] := by
          by_contra hc
          obtain ⟨m', c', rfl⟩ := List.exists_cons_of_ne_nil hc
          rw [List.flatMap_cons, List.length_append] at hempty
          have hpos := List.length_pos_iff.mpr (htext m')
          omega
        right
        rw [hnil]
        exact le_rfl
    · exact h.small hmax hcount c' (List.mem_cons_of_mem _ hc')
  · rw [hkept, Ne, List.append_cancel_right_eq] at hne
    exact h.all_there hne

/-- **One more message.** -/
theorem record (h : Rotated r text written chain) (htext : ∀ m, text m ≠ []) (m : μ) :
    Rotated r text (written ++ [m]) (record r text chain m) := by
  obtain ⟨c, bs, rfl⟩ := List.exists_cons_of_ne_nil h.ne_nil
  rw [Lib.record]
  split_ifs with hroll
  · obtain ⟨hdue, hcount⟩ := Bool.and_eq_true_iff.mp hroll
    exact h.rolled (decide_eq_true_iff.mp hcount) hdue
  · refine h.appended htext fun hcount => ?_
    rwa [decide_eq_true hcount, Bool.and_true, Bool.not_eq_true] at hroll

/-- While messages are dropped, the files behind the first one are nearly full. -/
theorem length_kept (h : Rotated r text written chain) (hne : kept chain ≠ written) {largest : ℕ}
    (hl : ∀ m ∈ written, (text m).length ≤ largest) :
    r.backupCount * (r.maxSize - largest) ≤ ((kept chain).flatMap text).length := by
  obtain ⟨c, bs, rfl⟩ := List.exists_cons_of_ne_nil h.ne_nil
  have hlen := (h.all_there hne).2.2
  have hfull := h.full largest hl
  rw [List.tail_cons] at hfull
  have hsum : ∀ bs : List (List μ),
      (∀ b ∈ bs, r.maxSize ≤ (b.flatMap text).length + largest) →
      bs.length * (r.maxSize - largest) ≤ ((kept bs).flatMap text).length := by
    intro bs hbs
    induction bs with
    | nil => simp
    | cons b bs ih =>
      rw [List.forall_mem_cons] at hbs
      have hrest := ih hbs.2
      rw [kept_cons, List.flatMap_append, List.length_append, List.length_cons, Nat.add_one_mul]
      have hb := hbs.1
      omega
  rw [kept_cons, List.flatMap_append, List.length_append]
  have hcount : bs.length = r.backupCount := Nat.succ_injective hlen
  exact hcount ▸ (hsum bs hfull).trans (Nat.le_add_right _ _)

/-- **Retention**: what was written last is kept, as long as it fits into the files behind the first
one with room for one more message in each. -/
theorem suffix_kept (h : Rotated r text written chain) (htext : ∀ m, text m ≠ []) {largest : ℕ}
    (hl : ∀ m ∈ written, (text m).length ≤ largest) {recent : List μ} (hrecent : recent <:+ written)
    (hfits : (recent.flatMap text).length ≤ r.backupCount * (r.maxSize - largest)) :
    recent <:+ kept chain := by
  by_cases hne : kept chain = written
  · rwa [hne]
  have hkept := length_kept h hne hl
  rcases List.suffix_or_suffix_of_suffix hrecent h.suffix with hsuffix | ⟨more, hmore⟩
  · exact hsuffix
  -- otherwise more has been kept than fits
  · cases more with
    | nil => exact hmore ▸ List.suffix_refl _
    | cons m more =>
      have hpos := List.length_pos_iff.mpr (htext m)
      rw [← hmore, List.flatMap_append, List.flatMap_cons, List.length_append,
        List.length_append] at hfits
      omega

end Rotated

end Lib
