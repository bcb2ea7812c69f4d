import Mathlib.Data.Finset.Card
import Mathlib.Order.Monotone.Basic
import TftpOS.Lib.FileSystem

/-!
# Path resolution

`walk` follows a path from a directory, through symbolic links nested up to a given depth. It
is strict, as the kernel is, when every component must exist and what is left must be a
directory; otherwise missing components are kept as they are. `resolve` walks at a depth that
is enough for the file system at hand (`walk_eq_resolve`), so it fails on loops alone.

`Leads` is the same notion as a relation, which also bounds the locations that are looked up.
Two lemmas make it local. A walk is not affected by a change at locations it does not look up
(`Leads.transfer`). And a walk that does look up a location `m` arrives there first with some
components left (`Visits`), and from then on it is a walk from `m` (`Visits.leads_iff`).
-/

namespace Lib

/-- Why a walk fails. -/
inductive WalkError where
  | missing
  | notDir
  | loop
  deriving DecidableEq

namespace FileSystem

variable {ν β : Type} [DecidableEq ν]

/-- Walk along components from a location, given what the links met on the way lead to. -/
def walkWith (fs : FileSystem ν β) (strict : Bool)
    (follow : Loc ν → Path ν → Except WalkError (Loc ν)) :
    Loc ν → List (Comp ν) → Except WalkError (Loc ν)
  | cur, [] => .ok cur
  | cur, .up :: cs =>
    if strict && !fs.isDir cur then .error .notDir else walkWith fs strict follow cur.tail cs
  | cur, .name n :: cs =>
    if strict && !fs.isDir cur then .error .notDir
    else
      match fs.get? (n :: cur) with
      | some (.link p) =>
        match follow cur p with
        | .error e => .error e
        | .ok l => walkWith fs strict follow l cs
      | some _ => walkWith fs strict follow (n :: cur) cs
      | none => if strict then .error .missing else walkWith fs strict follow (n :: cur) cs

/-- Walk through links nested at most `depth` deep. -/
def walk (fs : FileSystem ν β) (strict : Bool) :
    ℕ → Loc ν → List (Comp ν) → Except WalkError (Loc ν)
  | 0 => fs.walkWith strict fun _ _ => .error .loop
  | depth + 1 => fs.walkWith strict fun cur p => walk fs strict depth (p.base cur) p.comps

/-- Resolve components from a location. -/
def resolve (fs : FileSystem ν β) (strict : Bool) (cur : Loc ν) (cs : List (Comp ν)) :
    Except WalkError (Loc ν) :=
  fs.walk strict (fs.nodes.size + 1) cur cs

variable {fs : FileSystem ν β} {strict : Bool}

/-! ### The depth of `resolve` is enough -/

/-- A walk only asks about links that are there. -/
theorem walkWith_congr {follow follow' : Loc ν → Path ν → Except WalkError (Loc ν)}
    (h : ∀ n cur p, fs.get? (n :: cur) = some (.link p) → follow cur p = follow' cur p)
    (cur : Loc ν) (cs : List (Comp ν)) :
    fs.walkWith strict follow cur cs = fs.walkWith strict follow' cur cs := by
  induction cs generalizing cur with
  | nil => rfl
  | cons c cs ih =>
    cases c with
    | up => rw [walkWith, walkWith, ih]
    | name n =>
      rw [walkWith, walkWith]
      rcases hget : fs.get? (n :: cur) with _ | (_ | _ | p)
      · simp only [ih]
      · simp only [ih]
      · simp only [ih]
      · simp only [ih, h n cur p hget]

/-- A walk that does not end in a loop is not changed by following links further. -/
theorem walkWith_mono {follow follow' : Loc ν → Path ν → Except WalkError (Loc ν)}
    (h : ∀ cur p, follow cur p ≠ .error .loop → follow' cur p = follow cur p)
    (cur : Loc ν) (cs : List (Comp ν)) (hloop : fs.walkWith strict follow cur cs ≠ .error .loop) :
    fs.walkWith strict follow' cur cs = fs.walkWith strict follow cur cs := by
  induction cs generalizing cur with
  | nil => rfl
  | cons c cs ih =>
    cases c with
    | up =>
      rw [walkWith] at hloop
      rw [walkWith, walkWith]
      split_ifs at hloop ⊢
      · rfl
      · exact ih _ hloop
    | name n =>
      rw [walkWith] at hloop
      rw [walkWith, walkWith]
      by_cases hdir : (strict && !fs.isDir cur) = true
      · rw [if_pos hdir, if_pos hdir]
      · rw [if_neg hdir] at hloop
        rw [if_neg hdir, if_neg hdir]
        -- only a link asks `follow`, and it was not answered with a loop
        rcases hget : fs.get? (n :: cur) with _ | (_ | _ | p)
        · simp only [hget] at hloop ⊢
          split_ifs at hloop ⊢
          · rfl
          · exact ih _ hloop
        · simp only [hget] at hloop ⊢
          exact ih _ hloop
        · simp only [hget] at hloop ⊢
          exact ih _ hloop
        · simp only [hget] at hloop ⊢
          rcases hf : follow cur p with e | l
          · simp only [hf] at hloop
            rw [h cur p (by rwa [hf]), hf]
          · simp only [hf] at hloop
            rw [h cur p (by simp [hf]), hf]
            exact ih _ hloop

theorem walk_mono {d : ℕ} (cur : Loc ν) (cs : List (Comp ν))
    (hloop : fs.walk strict d cur cs ≠ .error .loop) :
    fs.walk strict (d + 1) cur cs = fs.walk strict d cur cs := by
  induction d generalizing cur cs with
  | zero => exact walkWith_mono (fun _ _ h => absurd rfl h) cur cs hloop
  | succ d ih => exact walkWith_mono (fun cur p h => ih (p.base cur) p.comps h) cur cs hloop

theorem walk_mono_le {d d' : ℕ} (hd : d ≤ d') (cur : Loc ν) (cs : List (Comp ν))
    (hloop : fs.walk strict d cur cs ≠ .error .loop) :
    fs.walk strict d' cur cs = fs.walk strict d cur cs := by
  induction d', hd using Nat.le_induction with
  | base => rfl
  | succ d' _ ih => rw [walk_mono cur cs (by rwa [ih]), ih]

/-- The links that a walk of a given depth can follow to the end. -/
private def settled (fs : FileSystem ν β) (strict : Bool) (d : ℕ) : Finset (Loc ν) :=
  (fs.nodes.keys.filter fun m =>
    match m, fs.get? m with
    | _ :: cur, some (.link p) => fs.walk strict d (p.base cur) p.comps ≠ .error .loop
    | _, _ => false).toFinset

private theorem mem_settled {d : ℕ} {n : ν} {cur : Loc ν} {p : Path ν}
    (h : fs.get? (n :: cur) = some (.link p)) :
    n :: cur ∈ settled fs strict d ↔ fs.walk strict d (p.base cur) p.comps ≠ .error .loop := by
  have hkey : n :: cur ∈ fs.nodes.keys := by
    have hentry : (n :: cur, Node.link p) ∈ fs.nodes.entries := Dict.get?_eq_some_iff.mp h
    exact List.mem_map_of_mem (f := Prod.fst) hentry
  simp [settled, hkey, h]

private theorem settled_subset (d : ℕ) : settled fs strict d ⊆ settled fs strict (d + 1) := by
  intro m hm
  rcases m with _ | ⟨n, cur⟩
  · simp [settled] at hm
  · rcases hget : fs.get? (n :: cur) with _ | (_ | _ | p)
    · simp [settled, hget] at hm
    · simp [settled, hget] at hm
    · simp [settled, hget] at hm
    · rw [mem_settled hget] at hm ⊢
      rwa [walk_mono _ _ hm]

private theorem card_settled_le (d : ℕ) : (settled fs strict d).card ≤ fs.nodes.size := by
  refine (List.toFinset_card_le _).trans ((List.length_filter_le _ _).trans ?_)
  simp [Dict.keys, Dict.size]

/-- When no further link settles, walks one deeper change nothing. -/
private theorem walk_succ_of_settled {d : ℕ}
    (h : settled fs strict d = settled fs strict (d + 1)) (cur : Loc ν) (cs : List (Comp ν)) :
    fs.walk strict (d + 1) cur cs = fs.walk strict (d + 2) cur cs := by
  refine walkWith_congr (fun n cur p hget => ?_) cur cs
  by_cases hloop : fs.walk strict d (p.base cur) p.comps = .error .loop
  · have hnot : n :: cur ∉ settled fs strict (d + 1) := by
      rw [← h, mem_settled hget]
      exact fun hne => hne hloop
    rw [mem_settled hget, not_not] at hnot
    rw [hloop, hnot]
  · exact (walk_mono _ _ hloop).symm

/-- **The depth of `resolve` is enough**: deeper walks find the same. -/
theorem walk_eq_resolve {d : ℕ} (hd : fs.nodes.size + 1 ≤ d) (cur : Loc ν)
    (cs : List (Comp ν)) : fs.walk strict d cur cs = fs.resolve strict cur cs := by
  have hmono : Monotone fun d => (settled fs strict d).card :=
    monotone_nat_of_le_succ fun d => Finset.card_le_card (settled_subset d)
  have hstab : ∀ d, (settled fs strict d).card = (settled fs strict (d + 1)).card →
      (settled fs strict (d + 1)).card = (settled fs strict (d + 2)).card := by
    intro d hcard
    have heq : settled fs strict d = settled fs strict (d + 1) :=
      Finset.eq_of_subset_of_card_le (settled_subset d) hcard.ge
    have hwalk := walk_succ_of_settled heq
    simp only [settled, hwalk]
  -- the count grows strictly until it stalls, and it is at most the number of nodes
  have hcard : ∀ d, fs.nodes.size ≤ d →
      (settled fs strict d).card = (settled fs strict fs.nodes.size).card := fun d hd =>
    Nat.stabilises_of_monotone hmono (fun d => card_settled_le d) hstab hd
  induction d, hd using Nat.le_induction with
  | base => rfl
  | succ d hd ih =>
    obtain ⟨e, rfl⟩ : ∃ e, d = e + 1 := ⟨d - 1, by omega⟩
    rw [← ih]
    refine (walk_succ_of_settled ?_ cur cs).symm
    refine Finset.eq_of_subset_of_card_le (settled_subset e) ?_
    rw [hcard e (by omega), hcard (e + 1) (by omega)]

/-- `resolve` finds what a walk of any depth finds. -/
theorem resolve_eq_ok_iff {cur : Loc ν} {cs : List (Comp ν)} {l : Loc ν} :
    fs.resolve strict cur cs = .ok l ↔ ∃ d, fs.walk strict d cur cs = .ok l := by
  constructor
  · exact fun h => ⟨_, h⟩
  · rintro ⟨d, h⟩
    rw [← walk_eq_resolve (le_max_left _ d),
      walk_mono_le (le_max_right _ d) cur cs (by simp [h]), h]

/-! ### Resolution as a relation -/

/-- The components lead from a location to another, and every location looked up on the way
satisfies `ok`. -/
inductive Leads (fs : FileSystem ν β) (strict : Bool) (ok : Loc ν → Prop) :
    Loc ν → List (Comp ν) → Loc ν → Prop
  | nil (cur : Loc ν) : Leads fs strict ok cur [] cur
  | up {cur l : Loc ν} {cs : List (Comp ν)} (hdir : strict = true → fs.isDir cur = true)
      (rest : Leads fs strict ok cur.tail cs l) : Leads fs strict ok cur (.up :: cs) l
  | step {cur l : Loc ν} {n : ν} {cs : List (Comp ν)} (hok : ok (n :: cur))
      (hdir : strict = true → fs.isDir cur = true)
      (hnode : strict = true → (fs.get? (n :: cur)).isSome)
      (hlink : ∀ p, fs.get? (n :: cur) ≠ some (.link p))
      (rest : Leads fs strict ok (n :: cur) cs l) : Leads fs strict ok cur (.name n :: cs) l
  | link {cur l l' : Loc ν} {n : ν} {p : Path ν} {cs : List (Comp ν)} (hok : ok (n :: cur))
      (hdir : strict = true → fs.isDir cur = true) (hget : fs.get? (n :: cur) = some (.link p))
      (target : Leads fs strict ok (p.base cur) p.comps l') (rest : Leads fs strict ok l' cs l) :
      Leads fs strict ok cur (.name n :: cs) l

variable {ok : Loc ν → Prop} {cur l : Loc ν} {cs : List (Comp ν)}

private theorem Leads.of_walkWith {follow : Loc ν → Path ν → Except WalkError (Loc ν)}
    (hfollow : ∀ cur p l, follow cur p = .ok l →
      Leads fs strict (fun _ => True) (p.base cur) p.comps l)
    (h : fs.walkWith strict follow cur cs = .ok l) : Leads fs strict (fun _ => True) cur cs l := by
  induction cs generalizing cur with
  | nil =>
    obtain rfl := Except.ok.inj h
    exact .nil _
  | cons c cs ih =>
    cases c with
    | up =>
      rw [walkWith] at h
      split_ifs at h with hdir
      exact .up (fun hs => by simpa [hs] using hdir) (ih h)
    | name n =>
      rw [walkWith] at h
      by_cases hdir : (strict && !fs.isDir cur) = true
      · rw [if_pos hdir] at h
        cases h
      · rw [if_neg hdir] at h
        have hdir' : strict = true → fs.isDir cur = true := fun hs => by simpa [hs] using hdir
        rcases hget : fs.get? (n :: cur) with _ | (_ | _ | p)
        · simp only [hget] at h
          split_ifs at h with hs
          exact .step trivial hdir' (fun h => absurd h hs) (by simp [hget]) (ih h)
        · simp only [hget] at h
          exact .step trivial hdir' (by simp [hget]) (by simp [hget]) (ih h)
        · simp only [hget] at h
          exact .step trivial hdir' (by simp [hget]) (by simp [hget]) (ih h)
        · simp only [hget] at h
          rcases hf : follow cur p with e | l'
          · simp only [hf] at h
            cases h
          · simp only [hf] at h
            exact .link trivial hdir' hget (hfollow cur p l' hf) (ih h)

theorem Leads.of_walk {d : ℕ} (h : fs.walk strict d cur cs = .ok l) :
    Leads fs strict (fun _ => True) cur cs l := by
  induction d generalizing cur cs l with
  | zero => exact .of_walkWith (fun _ _ _ h => by cases h) h
  | succ d ih => exact .of_walkWith (fun _ _ _ h => ih h) h

/-- The walk of a derivation whose links are followed at the given depth. -/
private theorem walk_up {d : ℕ} (hdir : strict = true → fs.isDir cur = true) :
    fs.walk strict d cur (.up :: cs) = fs.walk strict d cur.tail cs := by
  cases d <;> cases strict <;> simp_all [walk, walkWith]

private theorem walk_step {d : ℕ} {n : ν} (hdir : strict = true → fs.isDir cur = true)
    (hnode : strict = true → (fs.get? (n :: cur)).isSome)
    (hlink : ∀ p, fs.get? (n :: cur) ≠ some (.link p)) :
    fs.walk strict d cur (.name n :: cs) = fs.walk strict d (n :: cur) cs := by
  rcases hget : fs.get? (n :: cur) with _ | (_ | _ | p)
  · cases d <;> cases strict <;> simp_all [walk, walkWith]
  · cases d <;> cases strict <;> simp_all [walk, walkWith]
  · cases d <;> cases strict <;> simp_all [walk, walkWith]
  · exact absurd hget (hlink p)

private theorem walk_link {d : ℕ} {n : ν} {p : Path ν} {l' : Loc ν}
    (hdir : strict = true → fs.isDir cur = true) (hget : fs.get? (n :: cur) = some (.link p))
    (htarget : fs.walk strict d (p.base cur) p.comps = .ok l') :
    fs.walk strict (d + 1) cur (.name n :: cs) = fs.walk strict (d + 1) l' cs := by
  cases strict <;> simp_all [walk, walkWith]

theorem Leads.exists_walk (h : Leads fs strict ok cur cs l) :
    ∃ d, fs.walk strict d cur cs = .ok l := by
  induction h with
  | nil cur => exact ⟨0, rfl⟩
  | up hdir _ ih =>
    obtain ⟨d, hd⟩ := ih
    exact ⟨d, (walk_up hdir).trans hd⟩
  | step _ hdir hnode hlink _ ih =>
    obtain ⟨d, hd⟩ := ih
    exact ⟨d, (walk_step hdir hnode hlink).trans hd⟩
  | link _ hdir hget _ _ ihp ih =>
    obtain ⟨d, hd⟩ := ihp
    obtain ⟨d', hd'⟩ := ih
    -- a depth at which both the link and what follows it are walked to the end
    have hmax : d' ≤ max d d' + 1 := by omega
    have htarget := (walk_mono_le (le_max_left d d') _ _ (by simp [hd])).trans hd
    refine ⟨max d d' + 1, ?_⟩
    rw [walk_link hdir hget htarget, walk_mono_le hmax _ _ (by simp [hd']), hd']

/-- `resolve` computes where components lead. -/
theorem resolve_eq_ok :
    fs.resolve strict cur cs = .ok l ↔ Leads fs strict (fun _ => True) cur cs l :=
  resolve_eq_ok_iff.trans ⟨fun ⟨_, h⟩ => .of_walk h, Leads.exists_walk⟩

namespace Leads

theorem mono {ok' : Loc ν → Prop} (h : Leads fs strict ok cur cs l) (hok : ∀ m, ok m → ok' m) :
    Leads fs strict ok' cur cs l := by
  induction h with
  | nil cur => exact .nil cur
  | up hdir _ ih => exact .up hdir ih
  | step hm hdir hnode hlink _ ih => exact .step (hok _ hm) hdir hnode hlink ih
  | link hm hdir hget _ _ ihp ih => exact .link (hok _ hm) hdir hget ihp ih

theorem anywhere (h : Leads fs strict ok cur cs l) : Leads fs strict (fun _ => True) cur cs l :=
  h.mono fun _ _ => trivial

/-- Components lead to at most one location. -/
theorem unique {ok' : Loc ν → Prop} {l' : Loc ν} (h : Leads fs strict ok cur cs l)
    (h' : Leads fs strict ok' cur cs l') : l = l' :=
  Except.ok.inj ((resolve_eq_ok.mpr h.anywhere).symm.trans (resolve_eq_ok.mpr h'.anywhere))

/-- A walk does not depend on what it does not look up. -/
theorem transfer {fs' : FileSystem ν β} (h : Leads fs strict ok cur cs l)
    (hget : ∀ m, ok m → fs'.get? m = fs.get? m)
    (hdirs : ∀ m, fs.isDir m = true → fs'.isDir m = true) : Leads fs' strict ok cur cs l := by
  induction h with
  | nil cur => exact .nil cur
  | up hdir _ ih => exact .up (fun hs => hdirs _ (hdir hs)) ih
  | @step cur l n cs hm hdir hnode hlink _ ih =>
    have hsame : fs'.get? (n :: cur) = fs.get? (n :: cur) := hget _ hm
    refine .step hm (fun hs => hdirs _ (hdir hs)) (fun hs => ?_) (fun p => ?_) ih
    · rw [hsame]
      exact hnode hs
    · rw [hsame]
      exact hlink p
  | link hm hdir hp _ _ ihp ih =>
    exact .link hm (fun hs => hdirs _ (hdir hs)) ((hget _ hm).trans hp) ihp ih

/-- The kernel's walk only looks up what is there. -/
theorem exists_of_strict (h : Leads fs true ok cur cs l) :
    Leads fs true (fun m => ok m ∧ (fs.get? m).isSome) cur cs l := by
  induction h with
  | nil cur => exact .nil cur
  | up hdir _ ih => exact .up hdir ih
  | step hm hdir hnode hlink _ ih => exact .step ⟨hm, hnode rfl⟩ hdir hnode hlink ih
  | link hm hdir hp _ _ ihp ih => exact .link ⟨hm, by rw [hp]; rfl⟩ hdir hp ihp ih

/-- The kernel's walk is not affected by additions. -/
theorem extend {fs' : FileSystem ν β} (h : Leads fs true ok cur cs l) (hext : fs.Extends fs') :
    Leads fs' true ok cur cs l := by
  have hsame : ∀ m, ok m ∧ (fs.get? m).isSome → fs'.get? m = fs.get? m := fun m hm => hext m hm.2
  have hthere := h.exists_of_strict.transfer hsame fun _ => hext.isDir
  exact hthere.mono fun _ hm => hm.1

/-- The kernel's walk is not affected by growth. -/
theorem grow {fs' : FileSystem ν β} (h : Leads fs true ok cur cs l) (hgrows : fs.Grows fs') :
    Leads fs' true ok cur cs l := by
  induction h with
  | nil cur => exact .nil cur
  | up hdir _ ih => exact .up (fun hs => hgrows.dirs _ (hdir hs)) ih
  | step hm hdir hnode hlink _ ih =>
    exact .step hm (fun hs => hgrows.dirs _ (hdir hs)) (fun hs => hgrows.nodes _ (hnode hs))
      (fun p hp => hlink p ((hgrows.links _ p).mp hp)) ih
  | link hm hdir hp _ _ ihp ih =>
    exact .link hm (fun hs => hgrows.dirs _ (hdir hs)) ((hgrows.links _ _).mpr hp) ihp ih

/-- Starting in a directory, the kernel's walk ends at something that is there; unless that is
a directory, it is looked up. -/
theorem last_of_strict (h : Leads fs true ok cur cs l) (hcur : fs.isDir cur = true) :
    fs.isDir l = true ∨ (fs.get? l).isSome ∧ ok l := by
  have hstart : fs.isDir cur = true ∨ (fs.get? cur).isSome ∧ ok cur := .inl hcur
  clear hcur
  induction h with
  | nil cur => exact hstart
  | up hdir _ ih => exact ih (.inl (isDir_tail (hdir rfl)))
  | step hm _ hnode _ _ ih => exact ih (.inr ⟨hnode rfl, hm⟩)
  | link _ hdir _ _ _ ihp ih => exact ih (ihp (.inl (isDir_base (hdir rfl) _)))

/-- Starting in a directory, the kernel's walk does not end at a link. -/
theorem not_link_of_strict (h : Leads fs true ok cur cs l) (hcur : fs.isDir cur = true) :
    ∀ p, fs.get? l ≠ some (.link p) := by
  have hdir_link {m : Loc ν} (hm : fs.isDir m = true) : ∀ p, fs.get? m ≠ some (.link p) := by
    intro p
    rw [isDir_iff.mp hm]
    simp
  have hstart := hdir_link hcur
  clear hcur
  induction h with
  | nil cur => exact hstart
  | up hdir _ ih => exact ih (hdir_link (isDir_tail (hdir rfl)))
  | step _ _ _ hlink _ ih => exact ih hlink
  | link _ hdir _ _ _ ihp ih => exact ih (ihp (hdir_link (isDir_base (hdir rfl) _)))

/-- A walk that ends at a file has looked it up. -/
theorem ok_of_file {b : β} (h : Leads fs true ok cur cs l) (hcur : fs.isDir cur = true)
    (hfile : fs.bytes? l = some b) : ok l := by
  rcases h.last_of_strict hcur with hdir | hok
  · rw [isDir_iff, bytes?_eq_some_iff.mp hfile] at hdir
    cases hdir
  · exact hok.2

/-- The kernel's walk does not go on from what is no directory. -/
theorem eq_of_not_isDir (h : Leads fs true ok cur cs l) (hcur : fs.isDir cur = false) :
    cs = [] ∧ l = cur := by
  have hfalse : ¬(true = true → fs.isDir cur = true) := by simp [hcur]
  cases h with
  | nil => exact ⟨rfl, rfl⟩
  | up hdir => exact absurd hdir hfalse
  | step _ hdir => exact absurd hdir hfalse
  | link _ hdir => exact absurd hdir hfalse

/-- A walk along two lists of components, one after the other. -/
theorem append_iff {cs' : List (Comp ν)} :
    Leads fs strict ok cur (cs ++ cs') l ↔
      ∃ m, Leads fs strict ok cur cs m ∧ Leads fs strict ok m cs' l := by
  constructor
  · intro h
    induction cs generalizing cur with
    | nil => exact ⟨cur, .nil cur, h⟩
    | cons c cs ih =>
      cases h with
      | up hdir rest =>
        obtain ⟨m, hm, hl⟩ := ih rest
        exact ⟨m, .up hdir hm, hl⟩
      | step hok hdir hnode hlink rest =>
        obtain ⟨m, hm, hl⟩ := ih rest
        exact ⟨m, .step hok hdir hnode hlink hm, hl⟩
      | link hok hdir hget target rest =>
        obtain ⟨m, hm, hl⟩ := ih rest
        exact ⟨m, .link hok hdir hget target hm, hl⟩
  · rintro ⟨m, hm, hl⟩
    induction hm with
    | nil cur => exact hl
    | up hdir _ ih => exact .up hdir (ih hl)
    | step hok hdir hnode hlink _ ih => exact .step hok hdir hnode hlink (ih hl)
    | link hok hdir hget target _ _ ih => exact .link hok hdir hget target (ih hl)

theorem up_iff (hdir : strict = true → fs.isDir cur = true) :
    Leads fs strict ok cur (.up :: cs) l ↔ Leads fs strict ok cur.tail cs l := by
  constructor
  · intro h
    cases h with
    | up _ rest => exact rest
  · exact .up hdir

theorem step_iff {n : ν} (hok : ok (n :: cur)) (hdir : strict = true → fs.isDir cur = true)
    (hnode : strict = true → (fs.get? (n :: cur)).isSome)
    (hlink : ∀ p, fs.get? (n :: cur) ≠ some (.link p)) :
    Leads fs strict ok cur (.name n :: cs) l ↔ Leads fs strict ok (n :: cur) cs l := by
  constructor
  · intro h
    cases h with
    | step _ _ _ _ rest => exact rest
    | link _ _ hget _ _ => exact absurd hget (hlink _)
  · exact .step hok hdir hnode hlink

theorem link_iff {n : ν} {p : Path ν} (hok : ok (n :: cur))
    (hdir : strict = true → fs.isDir cur = true) (hget : fs.get? (n :: cur) = some (.link p)) :
    Leads fs strict ok cur (.name n :: cs) l ↔
      ∃ l', Leads fs strict ok (p.base cur) p.comps l' ∧ Leads fs strict ok l' cs l := by
  constructor
  · intro h
    cases h with
    | step _ _ _ hlink _ => exact absurd hget (hlink _)
    | link _ _ hget' target rest =>
      obtain rfl : p = _ := by simpa [hget] using hget'
      exact ⟨_, target, rest⟩
  · rintro ⟨l', target, rest⟩
    exact .link hok hdir hget target rest

/-- In a directory, a name that holds no link leads to its location. -/
theorem name_iff {n : ν} (hdir : strict = true → fs.isDir cur = true)
    (hlink : ∀ p, fs.get? (n :: cur) ≠ some (.link p)) :
    Leads fs strict (fun _ => True) cur [.name n] l ↔
      l = n :: cur ∧ (strict = true → (fs.get? (n :: cur)).isSome) := by
  constructor
  · intro h
    cases h with
    | step _ _ hnode _ rest =>
      cases rest
      exact ⟨rfl, hnode⟩
    | link _ _ hget _ _ => exact absurd hget (hlink _)
  · rintro ⟨rfl, hnode⟩
    exact .step trivial hdir hnode hlink (.nil _)

end Leads

/-! ### Results without links -/

/-- No location on the way to `l` holds a link. -/
def LinkFree (fs : FileSystem ν β) (l : Loc ν) : Prop :=
  ∀ m, m <:+ l → ∀ p, fs.get? m ≠ some (.link p)

instance (l : Loc ν) : Decidable (fs.LinkFree l) :=
  decidable_of_iff (∀ m ∈ l.tails, fs.isLink m = false) <|
    forall_congr' fun m => imp_congr (List.mem_tails m l) isLink_eq_false_iff

theorem linkFree_root : fs.LinkFree [] := by
  intro m hm p
  rw [List.suffix_nil.mp hm, get?_root]
  simp

theorem LinkFree.of_suffix {l m : Loc ν} (h : fs.LinkFree l) (hm : m <:+ l) : fs.LinkFree m :=
  fun m' hm' => h m' (hm'.trans hm)

theorem LinkFree.cons {l : Loc ν} (h : fs.LinkFree l) {n : ν}
    (hn : ∀ p, fs.get? (n :: l) ≠ some (.link p)) : fs.LinkFree (n :: l) := by
  intro m hm
  rcases List.suffix_cons_iff.mp hm with rfl | hm
  · exact hn
  · exact h m hm

theorem LinkFree.base (h : fs.LinkFree cur) (p : Path ν) : fs.LinkFree (p.base cur) := by
  rw [Path.base]
  split_ifs
  · exact linkFree_root
  · exact h

/-- What components lead to is free of links. -/
theorem Leads.linkFree (h : Leads fs strict ok cur cs l) (hcur : fs.LinkFree cur) :
    fs.LinkFree l := by
  induction h with
  | nil cur => exact hcur
  | up _ _ ih => exact ih (hcur.of_suffix (List.tail_suffix _))
  | step _ _ _ hlink _ ih => exact ih (hcur.cons hlink)
  | link _ _ _ _ _ ihp ih => exact ih (ihp (hcur.base _))

/-- Follow a component by its text alone. -/
def stepText (l : Loc ν) : Comp ν → Loc ν
  | .up => l.tail
  | .name n => n :: l

/-- Without links, components lead where their text says. -/
theorem NoLinks.eq_of_leads (h : fs.NoLinks) (hl : Leads fs strict ok cur cs l) :
    l = cs.foldl stepText cur := by
  induction hl with
  | nil cur => rfl
  | up _ _ ih => exact ih
  | step _ _ _ _ _ ih => exact ih
  | link _ _ hget _ _ _ _ => exact absurd hget (h _ _)

/-- Without links, a lenient walk always comes to its end. -/
theorem NoLinks.leads (h : fs.NoLinks) (cur : Loc ν) (cs : List (Comp ν)) :
    Leads fs false (fun _ => True) cur cs (cs.foldl stepText cur) := by
  induction cs generalizing cur with
  | nil => exact .nil cur
  | cons c cs ih =>
    cases c with
    | up => exact .up (fun hs => by cases hs) (ih _)
    | name n => exact .step trivial (fun hs => by cases hs) (fun hs => by cases hs) (h _) (ih _)

/-- The names of a location without links lead to it, looking up nothing else. -/
theorem LinkFree.leads {l : Loc ν} (h : fs.LinkFree l) (hl : (fs.get? l).isSome) :
    Leads fs strict (fun m => m <:+ l) [] (l.reverse.map .name) l := by
  induction l with
  | nil => exact .nil []
  | cons n l ih =>
    have hdir := isDir_of_isSome hl
    have hbefore := ih (h.of_suffix (List.suffix_cons n l)) (isSome_of_isDir hdir)
    rw [List.reverse_cons, List.map_append, Leads.append_iff]
    have hlink : ∀ p, fs.get? (n :: l) ≠ some (.link p) := h _ (List.suffix_refl _)
    refine ⟨l, hbefore.mono fun m hm => hm.trans (List.suffix_cons n l), ?_⟩
    exact .step (List.suffix_refl _) (fun _ => hdir) (fun _ => hl) hlink (.nil _)

/-- The names of a location without links lead nowhere else. -/
theorem LinkFree.eq_of_leads {l l' : Loc ν} (h : fs.LinkFree l)
    (hl : Leads fs strict ok [] (l.reverse.map .name) l') : l' = l := by
  induction l generalizing l' with
  | nil =>
    cases hl
    rfl
  | cons n l ih =>
    rw [List.reverse_cons, List.map_append, Leads.append_iff] at hl
    obtain ⟨m, hm, hl⟩ := hl
    obtain rfl := ih (h.of_suffix (List.suffix_cons n l)) hm
    cases hl with
    | step _ _ _ _ rest =>
      cases rest
      rfl
    | link _ _ hget _ _ => exact absurd hget (h _ (List.suffix_refl _) _)

/-- Below a directory, there is no link on the way down to a location, except for the directory
itself. -/
def LinkFreeBelow (fs : FileSystem ν β) (d l : Loc ν) : Prop :=
  ∀ m, d <:+ m → m ≠ d → m <:+ l → ∀ p, fs.get? m ≠ some (.link p)

/-- Names lead down to a location, if anywhere. -/
theorem Leads.eq_of_names {d : Loc ν} {names : List ν}
    (hlinks : fs.LinkFreeBelow d (names.reverse ++ d))
    (h : Leads fs strict ok d (names.map .name) l) : l = names.reverse ++ d := by
  induction names generalizing d with
  | nil =>
    cases h
    rfl
  | cons n names ih =>
    have hway : (n :: names).reverse ++ d = names.reverse ++ n :: d := by simp
    rw [hway] at hlinks ⊢
    have hfirst : ∀ p, fs.get? (n :: d) ≠ some (.link p) :=
      hlinks _ (List.suffix_cons n d) (List.cons_ne_self n d) (List.suffix_append _ _)
    cases h with
    | step _ _ _ _ rest =>
      refine ih (fun m hm hne hsuffix => hlinks m ((List.suffix_cons n d).trans hm) ?_ hsuffix) rest
      rintro rfl
      have hlength := hm.length_le
      rw [List.length_cons] at hlength
      omega
    | link _ _ hget _ _ => exact absurd hget (hfirst _)

/-! ### The first visit to a location -/

/-- A walk looks up `m` for the first time, with the components `rest` left to walk. -/
inductive Visits (fs : FileSystem ν β) (strict : Bool) (m : Loc ν) :
    Loc ν → List (Comp ν) → List (Comp ν) → Prop
  | here {cur : Loc ν} {n : ν} {cs : List (Comp ν)} (hm : n :: cur = m)
      (hdir : strict = true → fs.isDir cur = true) : Visits fs strict m cur (.name n :: cs) cs
  | up {cur : Loc ν} {cs rest : List (Comp ν)} (hdir : strict = true → fs.isDir cur = true)
      (h : Visits fs strict m cur.tail cs rest) : Visits fs strict m cur (.up :: cs) rest
  | step {cur : Loc ν} {n : ν} {cs rest : List (Comp ν)} (hne : n :: cur ≠ m)
      (hdir : strict = true → fs.isDir cur = true)
      (hnode : strict = true → (fs.get? (n :: cur)).isSome)
      (hlink : ∀ p, fs.get? (n :: cur) ≠ some (.link p))
      (h : Visits fs strict m (n :: cur) cs rest) : Visits fs strict m cur (.name n :: cs) rest
  | inLink {cur : Loc ν} {n : ν} {p : Path ν} {cs rest : List (Comp ν)} (hne : n :: cur ≠ m)
      (hdir : strict = true → fs.isDir cur = true) (hget : fs.get? (n :: cur) = some (.link p))
      (h : Visits fs strict m (p.base cur) p.comps rest) :
      Visits fs strict m cur (.name n :: cs) (rest ++ cs)
  | afterLink {cur l' : Loc ν} {n : ν} {p : Path ν} {cs rest : List (Comp ν)}
      (hne : n :: cur ≠ m) (hdir : strict = true → fs.isDir cur = true)
      (hget : fs.get? (n :: cur) = some (.link p))
      (target : Leads fs strict (· ≠ m) (p.base cur) p.comps l')
      (h : Visits fs strict m l' cs rest) : Visits fs strict m cur (.name n :: cs) rest

/-- A walk either avoids a location or visits it a first time. -/
theorem Leads.avoids_or_visits (h : Leads fs strict ok cur cs l) (m : Loc ν) :
    Leads fs strict (· ≠ m) cur cs l ∨ ∃ rest, Visits fs strict m cur cs rest := by
  induction h with
  | nil cur => exact .inl (.nil cur)
  | up hdir _ ih =>
    rcases ih with ih | ⟨rest, ih⟩
    · exact .inl (.up hdir ih)
    · exact .inr ⟨rest, .up hdir ih⟩
  | @step cur l n cs _ hdir hnode hlink _ ih =>
    by_cases hm : n :: cur = m
    · exact .inr ⟨cs, .here hm hdir⟩
    · rcases ih with ih | ⟨rest, ih⟩
      · exact .inl (.step hm hdir hnode hlink ih)
      · exact .inr ⟨rest, .step hm hdir hnode hlink ih⟩
  | @link cur l l' n p cs _ hdir hget _ _ ihp ih =>
    by_cases hm : n :: cur = m
    · exact .inr ⟨cs, .here hm hdir⟩
    · rcases ihp with ihp | ⟨rest, ihp⟩
      · rcases ih with ih | ⟨rest, ih⟩
        · exact .inl (.link hm hdir hget ihp ih)
        · exact .inr ⟨rest, .afterLink hm hdir hget ihp ih⟩
      · exact .inr ⟨rest ++ cs, .inLink hm hdir hget ihp⟩

namespace Visits

variable {m : Loc ν} {rest : List (Comp ν)}

/-- **From the first visit on, a walk is a walk from the location visited.** -/
theorem leads_iff {n : ν} {d : Loc ν} (h : Visits fs strict (n :: d) cur cs rest) {l : Loc ν} :
    Leads fs strict (fun _ => True) cur cs l ↔
      Leads fs strict (fun _ => True) d (.name n :: rest) l := by
  generalize hm : n :: d = m at h
  induction h generalizing l with
  | here hm' _ =>
    obtain ⟨rfl, rfl⟩ := List.cons.inj (hm'.trans hm.symm)
    rfl
  | up hdir _ ih => rw [Leads.up_iff hdir, ih]
  | step _ hdir hnode hlink _ ih => rw [Leads.step_iff trivial hdir hnode hlink, ih]
  | inLink _ hdir hget _ ih =>
    rw [Leads.link_iff trivial hdir hget, ← List.cons_append, Leads.append_iff]
    exact exists_congr fun l' => and_congr_left fun _ => ih
  | afterLink _ hdir hget target _ ih =>
    rw [Leads.link_iff trivial hdir hget, ← ih]
    constructor
    · rintro ⟨l', htarget, hl⟩
      rwa [target.unique htarget]
    · exact fun hl => ⟨_, target.anywhere, hl⟩

/-- The way to the first visit does not depend on what the location holds. -/
theorem transfer {fs' : FileSystem ν β} (h : Visits fs strict m cur cs rest)
    (hget : ∀ m', m' ≠ m → fs'.get? m' = fs.get? m')
    (hdirs : ∀ m', fs.isDir m' = true → fs'.isDir m' = true) :
    Visits fs' strict m cur cs rest := by
  induction h with
  | here hm hdir => exact .here hm fun hs => hdirs _ (hdir hs)
  | up hdir _ ih => exact .up (fun hs => hdirs _ (hdir hs)) ih
  | @step cur n cs rest hne hdir hnode hlink _ ih =>
    have hsame : fs'.get? (n :: cur) = fs.get? (n :: cur) := hget _ hne
    refine .step hne (fun hs => hdirs _ (hdir hs)) (fun hs => ?_) (fun p => ?_) ih
    · rw [hsame]
      exact hnode hs
    · rw [hsame]
      exact hlink p
  | inLink hne hdir hp _ ih =>
    exact .inLink hne (fun hs => hdirs _ (hdir hs)) ((hget _ hne).trans hp) ih
  | afterLink hne hdir hp target _ ih =>
    exact .afterLink hne (fun hs => hdirs _ (hdir hs)) ((hget _ hne).trans hp)
      (target.transfer hget hdirs) ih

end Visits

/-! ### One location changed -/

section

variable {n : ν} {d : Loc ν} {node : Node ν β} {hput : fs.CanPut n d}

/-- A new entry that is no link is found under its name. -/
theorem Leads.put_name (hlink : ∀ p, node ≠ .link p) :
    Leads (fs.put n d node hput) strict (fun _ => True) d [.name n] (n :: d) := by
  have hget : (fs.put n d node hput).get? (n :: d) = some node := by simp
  have hdir : (fs.put n d node hput).isDir d = true := by
    rw [isDir_iff, get?_put_of_ne (List.cons_ne_self n d).symm]
    exact isDir_iff.mp hput.1
  refine (name_iff (fun _ => hdir) fun p hp => ?_).mpr ⟨rfl, fun _ => ?_⟩
  · exact hlink p (Option.some.inj (hget.symm.trans hp))
  · rw [hget]
    rfl

/-- Past the location that was changed, walks lead where they did. -/
theorem Leads.put_iff (hnode : node ≠ .dir) :
    Leads (fs.put n d node hput) strict (· ≠ n :: d) cur cs l ↔
      Leads fs strict (· ≠ n :: d) cur cs l := by
  constructor
  · intro h
    exact h.transfer (fun m hm => (get?_put_of_ne hm).symm) fun m hm =>
      (isDir_put hnode).symm.trans hm
  · intro h
    exact h.transfer (fun m hm => get?_put_of_ne hm) fun m hm => (isDir_put hnode).trans hm

/-- Walks arrive at the location that was changed where they did. -/
theorem Visits.put_iff {rest : List (Comp ν)} (hnode : node ≠ .dir) :
    Visits (fs.put n d node hput) strict (n :: d) cur cs rest ↔
      Visits fs strict (n :: d) cur cs rest := by
  constructor
  · intro h
    exact h.transfer (fun m hm => (get?_put_of_ne hm).symm) fun m hm =>
      (isDir_put hnode).symm.trans hm
  · intro h
    exact h.transfer (fun m hm => get?_put_of_ne hm) fun m hm => (isDir_put hnode).trans hm

end

/-- A kernel's walk that visits a location from which a file is reached ends with that file. -/
theorem Visits.eq_of_file {n : ν} {d : Loc ν} {rest : List (Comp ν)} {x : Loc ν} {b : β}
    (h : Visits fs true (n :: d) cur cs rest) (hl : Leads fs true ok cur cs l)
    (hx : Leads fs true (fun _ => True) d [.name n] x) (hfile : fs.bytes? x = some b) :
    rest = [] ∧ l = x := by
  have hrest := h.leads_iff.mp hl.anywhere
  rw [← List.singleton_append, Leads.append_iff] at hrest
  obtain ⟨y, hy, hl'⟩ := hrest
  obtain rfl := hy.unique hx
  refine hl'.eq_of_not_isDir ?_
  rw [← Bool.not_eq_true, isDir_iff, bytes?_eq_some_iff.mp hfile]
  simp

/-- A walk through a link follows it one deeper. -/
private theorem walk_link_inv {d : ℕ} {n : ν} {p : Path ν}
    (hget : fs.get? (n :: cur) = some (.link p))
    (h : fs.walk strict d cur (.name n :: cs) = .ok l) :
    ∃ e l', d = e + 1 ∧ fs.walk strict e (p.base cur) p.comps = .ok l' ∧
      fs.walk strict d l' cs = .ok l := by
  cases d with
  | zero =>
    rw [walk, walkWith] at h
    by_cases hdir : (strict && !fs.isDir cur) = true
    · rw [if_pos hdir] at h
      cases h
    · rw [if_neg hdir] at h
      simp only [hget] at h
      cases h
  | succ e =>
    rw [walk, walkWith] at h
    by_cases hdir : (strict && !fs.isDir cur) = true
    · rw [if_pos hdir] at h
      cases h
    · rw [if_neg hdir] at h
      simp only [hget] at h
      rcases hf : fs.walk strict e (p.base cur) p.comps with _ | l'
      · simp only [hf] at h
        cases h
      · simp only [hf] at h
        exact ⟨e, l', rfl, hf, h⟩

/-- A walk that visits a link follows it at a smaller depth. -/
private theorem Visits.exists_walk_lt {m : Loc ν} {rest : List (Comp ν)} {n : ν} {c : Loc ν}
    {p : Path ν} (h : Visits fs strict m cur cs rest) (hm : n :: c = m)
    (hget : fs.get? m = some (.link p)) {d : ℕ} {l : Loc ν}
    (hwalk : fs.walk strict d cur cs = .ok l) :
    ∃ e < d, ∃ l', fs.walk strict e (p.base c) p.comps = .ok l' := by
  induction h generalizing d l with
  | here hm' _ =>
    obtain ⟨rfl, rfl⟩ := List.cons.inj (hm'.trans hm.symm)
    obtain ⟨e, l', rfl, hl', -⟩ := walk_link_inv (hm ▸ hget) hwalk
    exact ⟨e, by omega, l', hl'⟩
  | up hdir _ ih => exact ih ((walk_up hdir).symm.trans hwalk)
  | step _ hdir hnode hlink _ ih => exact ih ((walk_step hdir hnode hlink).symm.trans hwalk)
  | inLink _ _ hget' _ ih =>
    obtain ⟨e, l', rfl, hl', -⟩ := walk_link_inv hget' hwalk
    obtain ⟨e', he', hl''⟩ := ih hl'
    exact ⟨e', by omega, hl''⟩
  | afterLink _ _ hget' target _ ih =>
    obtain ⟨e, l', -, hl', hrest⟩ := walk_link_inv hget' hwalk
    obtain rfl := (Leads.of_walk hl').unique target
    exact ih hrest

/-- **No loops.** Where a link leads, it leads without passing through itself. -/
theorem Leads.avoids_self {n : ν} {c : Loc ν} {p : Path ν}
    (hget : fs.get? (n :: c) = some (.link p)) (h : Leads fs strict ok (p.base c) p.comps l) :
    Leads fs strict (· ≠ n :: c) (p.base c) p.comps l := by
  refine (h.avoids_or_visits (n :: c)).resolve_right ?_
  rintro ⟨rest, hvisits⟩
  have hex : ∃ d, ∃ l, fs.walk strict d (p.base c) p.comps = .ok l :=
    h.exists_walk.imp fun d hd => ⟨l, hd⟩
  classical
  -- the shallowest walk along the target would contain a shallower one
  obtain ⟨l₀, hl₀⟩ := Nat.find_spec hex
  obtain ⟨e, he, hl⟩ := hvisits.exists_walk_lt rfl hget hl₀
  exact Nat.find_min hex he hl

end FileSystem

end Lib
