import TftpOS.EngineRuns
import TftpOS.Lib.StableSort

/-!
# The TFTP root as a shelf

`unstage` and `list_staged` of `tftpos/staging.py`, and runs of them and of `stage` on one TFTP
root. What the directory holds is a `Shelf`: what was there before, and under the names that were
staged the bytes of the firmware. A staging that returns puts its firmware on the shelf, `unstage`
takes an entry off, and `list_staged` lists the names.

Whatever fails in a run, the directory is the shelf that the replies tell of, every firmware on it
can be read, and nothing else has changed (`staging_refines_shelf`).
-/

namespace TftpOS

open Lib
open FirmwareEngine (EntryHolds LeadsPast ReadsPast)

section

variable (cwd : Loc String)

/-- `p.is_symlink()`. -/
def pathIsSymlink (fs : FS) (p : PyPath) : Bool :=
  match entry cwd fs p with
  | .ok (d, n) => fs.isLink (n :: d)
  | .error _ => false

/-- `unstage`. -/
def unstage (stagedPath : PyPath) : Action PyExc FS Bool := do
  let refused ← .read fun fs =>
    .ok (pathIsDir cwd fs stagedPath && !pathIsSymlink cwd fs stagedPath)
  if refused then return false
  else
    try
      .modify (osUnlink cwd stagedPath)
      pure true
    catch e => if e.cls = .fileNotFoundError then pure false else throw e

/-- The names in a directory. -/
def namesIn (fs : FS) (d : Loc String) : List String :=
  fs.nodes.keys.filterMap fun
    | n :: l => if l = d then some n else none
    | [] => none

theorem mem_namesIn {fs : FS} {R : Loc String} {n : String} :
    n ∈ namesIn fs R ↔ (fs.get? (n :: R)).isSome := by
  rw [namesIn, List.mem_filterMap]
  constructor
  · rintro ⟨m, hm, hn⟩
    cases m with
    | nil => cases hn
    | cons n' l =>
      dsimp only at hn
      split_ifs at hn with hl
      obtain rfl := Option.some.inj hn
      obtain ⟨v, hv⟩ := Dict.mem_keys_iff.mp hm
      rw [← hl]
      exact Option.isSome_of_eq_some hv
  · intro h
    obtain ⟨v, hv⟩ := Option.isSome_iff_exists.mp h
    exact ⟨n :: R, Dict.mem_keys_iff.mpr ⟨v, hv⟩, if_pos rfl⟩

theorem nodup_namesIn {fs : FS} {R : Loc String} : (namesIn fs R).Nodup := by
  refine List.Nodup.filterMap (fun m m' n hm hm' => ?_) fs.nodes.nodup
  rcases m with _ | ⟨k, l⟩ <;> rcases m' with _ | ⟨k', l'⟩
  · rfl
  · cases hm
  · cases hm'
  · dsimp only at hm hm'
    split_ifs at hm hm' with hl hl' <;> cases hm <;> cases hm'
    rw [hl, hl']

/-- `list_staged`. -/
def listStaged (fs : FS) (tftpRoot : PyPath) : List PyPath :=
  if !pathIsDir cwd fs tftpRoot then []
  else
    match locate cwd fs tftpRoot with
    | .ok d => (sortOn id (namesIn fs d)).map (child tftpRoot)
    | .error _ => []

/-- A call on the TFTP root. An entry is unstaged by the path of its name in the TFTP root. -/
inductive StagingOp
  | stage (env : StageEnv) (firmware : PyPath) (name : Option String) (symlink : Bool)
  | unstage (name : String)
  | listStaged

/-- What a call returns or raises. -/
inductive StagingReply
  | staged (result : Except PyExc PyPath)
  | unstaged (result : Except PyExc Bool)
  | listed (paths : List PyPath)

/-- One call. -/
def stagingStep (py : StrLib) (tftpRoot : PyPath) (fs : FS) : StagingOp → StagingReply × FS
  | .stage env firmware name symlink =>
    let r := (stage cwd py env firmware tftpRoot name symlink).run fs
    (.staged r.1, r.2)
  | .unstage name =>
    let r := (unstage cwd (child tftpRoot name)).run fs
    (.unstaged r.1, r.2)
  | .listStaged => (.listed (listStaged cwd fs tftpRoot), fs)

end

/-! ### Shelves -/

/-- What a shelf has under a name: a directory or another entry that was there before, or the bytes
of a firmware. -/
inductive Held
  | dir
  | other
  | firmware (bytes : Bytes)
  deriving DecidableEq

/-- What a TFTP root holds, by name. -/
abbrev Shelf := Dict String Held

/-- The shelf after a call and its reply, where `content` has the bytes of the firmware. -/
def Shelf.after (content : PyPath → Bytes) (shelf : Shelf) : StagingOp × StagingReply → Shelf
  | (.stage _ firmware name _, .staged (.ok _)) =>
    shelf.set (name.getD (pathName firmware)) (.firmware (content firmware))
  | (.unstage name, .unstaged (.ok true)) => shelf.del name
  | _ => shelf

/-- The replies that a shelf has for a call. A staging may always fail. -/
def Shelf.Replies (tftpRoot : PyPath) (shelf : Shelf) : StagingOp → StagingReply → Prop
  | .stage _ firmware name _, .staged (.ok target) =>
    target = child tftpRoot (name.getD (pathName firmware)) ∧
      shelf.get? (name.getD (pathName firmware)) ≠ some .dir
  | .stage _ _ _ _, .staged (.error _) => True
  | .unstage name, .unstaged result =>
    result = if hasChar '\x00' name then .error nulError
      else .ok ((shelf.get? name).any fun held => held ≠ .dir)
  | .listStaged, .listed paths => paths = (sortOn id shelf.keys).map (child tftpRoot)
  | _, _ => False

/-- What a directory has under a name. -/
def Shown (fs : FS) (R : Loc String) (n : String) : Option Held → Prop
  | none => fs.get? (n :: R) = none
  | some .dir => fs.isDir (n :: R) = true
  | some .other => (fs.get? (n :: R)).isSome ∧ fs.isDir (n :: R) = false
  | some (.firmware b) => hasChar '\x00' n = false ∧ EntryHolds fs R n b

/-- A directory holds what is on a shelf. -/
def Shows (fs : FS) (R : Loc String) (shelf : Shelf) : Prop :=
  ∀ n, Shown fs R n (shelf.get? n)

/-- What a directory holds, when nothing has been staged. -/
def shelfOf (fs : FS) (R : Loc String) : Shelf where
  entries := (namesIn fs R).map fun n => (n, if fs.isDir (n :: R) then .dir else .other)
  nodup := by
    rw [List.map_map]
    exact (List.map_id _).symm ▸ nodup_namesIn

/-- A firmware is read, as it is and by its absolute path, past the entries of the TFTP root. -/
structure Supplies (cwd : Loc String) (fs : FS) (R : Loc String) (firmware : PyPath) (b : Bytes) :
    Prop where
  reads : ReadsPast cwd fs R firmware b
  leads : LeadsPast fs R [] (absPath (abspath cwd firmware)).comps b

/-! ### Making a directory that is there -/

section

variable {cwd : Loc String} {py : StrLib} {fs fs' : FS} {R d : Loc String} {p tftpRoot : PyPath}
  {b : Bytes} {name : String} {node : Node String Bytes} {shelf : Shelf}

/-- A path that ends with a name leads through the directory of its entry. -/
theorem entry_of_reaches {ok : Loc String → Prop} (h : Reaches cwd fs ok p d) {n : String}
    (hlast : p.comps.getLast? = some (.name n)) :
    ∃ l, entry cwd fs p = .ok (l, n) ∧ (fs.get? (n :: l)).isSome := by
  have hp : p = child (parentPath p) n :=
    Lib.Path.ext rfl (List.dropLast_append_getLast? _ hlast).symm
  rw [hp, reaches_child_iff] at h
  obtain ⟨hn, l, hl, hleads⟩ := h
  rw [hp]
  cases hleads with
  | step _ hdir hnode _ _ => exact ⟨l, entry_child hl (hdir rfl) hn, hnode rfl⟩
  | link _ hdir hget _ _ =>
    refine ⟨l, entry_child hl (hdir rfl) hn, ?_⟩
    rw [hget]
    rfl

/-- `os.mkdir` of what is there raises `FileExistsError`. -/
theorem osMkdir_of_reaches {ok : Loc String → Prop} (h : Reaches cwd fs ok p d) :
    osMkdir cwd p fs = .error ⟨.fileExistsError, "File exists"⟩ := by
  rw [osMkdir]
  split
  · rename_i n hlast
    obtain ⟨l, hentry, hsome⟩ := entry_of_reaches h hlast
    rw [hentry, ok_bind]
    exact if_pos hsome
  · rw [locate_eq_ok.mpr h.anywhere]
    rfl

/-- `mkdir` of a directory that is there does nothing. -/
theorem mkdir_of_isDir {ok : Loc String → Prop} (h : Reaches cwd fs ok p d)
    (hdir : fs.isDir d = true) : (mkdir cwd p).run fs = (.ok (), fs) := by
  have hexist : (mkdirExistOk cwd p).run fs = (.ok (), fs) := by
    have hisDir : pathIsDir cwd fs p = true := pathIsDir_iff.mpr ⟨d, h.anywhere, hdir⟩
    rw [mkdirExistOk, Action.tryCatch_of_error (Action.modify_of_error (osMkdir_of_reaches h)),
      Action.bind_of_ok rfl, hisDir]
    rfl
  rw [mkdir]
  rcases hcomps : p.comps.reverse with _ | ⟨c, cs⟩
  · rw [mkdirParents]
    have hp : p = ⟨p.absolute, []⟩ := Lib.Path.ext rfl (List.reverse_eq_nil_iff.mp hcomps)
    rwa [← hp]
  · rw [mkdirParents]
    have hp : p = ⟨p.absolute, (c :: cs).reverse⟩ :=
      Lib.Path.ext rfl (List.reverse_eq_iff.mp hcomps)
    rw [← hp, Action.tryCatch_of_ok hexist]

/-! ### Changes of the entries of one directory -/

/-- Nothing changed but entries of a directory that are no directories. -/
structure SameOutside (R : Loc String) (fs fs' : FS) : Prop where
  get : ∀ m, m.tail ≠ R → fs'.get? m = fs.get? m
  dirs : ∀ m, fs'.isDir m = fs.isDir m

namespace SameOutside

theorem refl (R : Loc String) (fs : FS) : SameOutside R fs fs := ⟨fun _ _ => rfl, fun _ => rfl⟩

theorem trans {fs'' : FS} (h : SameOutside R fs fs') (h' : SameOutside R fs' fs'') :
    SameOutside R fs fs'' :=
  ⟨fun m hm => (h'.get m hm).trans (h.get m hm), fun m => (h'.dirs m).trans (h.dirs m)⟩

theorem put (hnode : node ≠ .dir) (hcan : fs.CanPut name R) :
    SameOutside R fs (fs.put name R node hcan) where
  get _ hm := FileSystem.get?_put_of_ne fun heq => hm (congrArg List.tail heq)
  dirs _ := FileSystem.isDir_put hnode

theorem remove (hfile : fs.isDir (name :: R) = false) :
    SameOutside R fs (fs.remove (name :: R) hfile) where
  get _ hm := FileSystem.get?_remove.trans (if_neg fun heq => hm (congrArg List.tail heq))
  dirs _ := FileSystem.isDir_remove

variable (h : SameOutside R fs fs')

include h

theorem reaches (hroot : Reaches cwd fs (fun m => m.tail ≠ R) p d) :
    Reaches cwd fs' (fun m => m.tail ≠ R) p d :=
  hroot.transfer h.get fun m hm => (h.dirs m).trans hm

theorem leadsPast {cur : Loc String} {cs : List (Comp String)} (hleads : LeadsPast fs R cur cs b)
    (hcur : fs.isDir cur = true) : LeadsPast fs' R cur cs b := by
  obtain ⟨l, hl, hbytes⟩ := hleads
  refine ⟨l, hl.transfer h.get fun m hm => (h.dirs m).trans hm, ?_⟩
  rw [FileSystem.bytes?_congr (h.get l (hl.ok_of_file hcur hbytes)), hbytes]

theorem supplies (hsupplies : Supplies cwd fs R p b) : Supplies cwd fs' R p b where
  reads := ⟨hsupplies.reads.nul, (h.dirs _).trans hsupplies.reads.base,
    h.leadsPast hsupplies.reads.leads hsupplies.reads.base⟩
  leads := h.leadsPast hsupplies.leads FileSystem.isDir_root

theorem entryHolds (hsame : fs'.get? (name :: R) = fs.get? (name :: R))
    (hholds : EntryHolds fs R name b) : EntryHolds fs' R name b := by
  rcases hholds with hget | ⟨t, hget, habs, hleads⟩
  · exact .inl (hsame.trans hget)
  · exact .inr ⟨t, hsame.trans hget, habs, h.leadsPast hleads FileSystem.isDir_root⟩

/-- What is shown under a name is still shown when its entry is the same. -/
theorem shown (hsame : fs'.get? (name :: R) = fs.get? (name :: R)) {held : Option Held}
    (hshown : Shown fs R name held) : Shown fs' R name held := by
  rcases held with _ | _ | _ | b
  · exact hsame.trans hshown
  · exact (h.dirs _).trans hshown
  · exact ⟨hsame ▸ hshown.1, (h.dirs _).trans hshown.2⟩
  · exact ⟨hshown.1, h.entryHolds hsame hshown.2⟩

end SameOutside

/-! ### What the calls do on a shelf -/

/-- A name that is free holds nothing, and what is on a shelf is there. -/
theorem Shows.isSome (h : Shows fs R shelf) (n : String) :
    (fs.get? (n :: R)).isSome = (shelf.get? n).isSome := by
  have hshown := h n
  rcases hheld : shelf.get? n with _ | _ | _ | b
  · rw [hheld] at hshown
    rw [hshown]
    rfl
  · rw [hheld] at hshown
    exact FileSystem.isSome_of_isDir hshown
  · rw [hheld] at hshown
    exact hshown.1
  · rw [hheld] at hshown
    rcases hshown.2 with hget | ⟨t, hget, -⟩ <;> rw [hget] <;> rfl

/-- The directories in a directory are those on the shelf. -/
theorem Shows.isDir (h : Shows fs R shelf) (n : String) :
    fs.isDir (n :: R) = decide (shelf.get? n = some .dir) := by
  have hshown := h n
  rcases hheld : shelf.get? n with _ | _ | _ | b
  · rw [hheld] at hshown
    rw [decide_eq_false (by simp)]
    exact Bool.eq_false_iff.mpr fun hdir => by
      rw [FileSystem.isDir_iff, hshown] at hdir
      cases hdir
  · rw [hheld] at hshown
    rw [decide_eq_true rfl]
    exact hshown
  · rw [hheld] at hshown
    rw [decide_eq_false (by simp)]
    exact hshown.2
  · rw [hheld] at hshown
    rw [decide_eq_false (by simp)]
    refine Bool.eq_false_iff.mpr fun hdir => ?_
    rw [FileSystem.isDir_iff] at hdir
    rcases hshown.2 with hget | ⟨t, hget, -⟩ <;> cases hdir.symm.trans hget

/-- `list_staged` lists the shelf. -/
theorem Shows.listStaged (h : Shows fs R shelf) {ok : Loc String → Prop}
    (hroot : Reaches cwd fs ok tftpRoot R) (hdir : fs.isDir R = true) :
    listStaged cwd fs tftpRoot = (sortOn id shelf.keys).map (child tftpRoot) := by
  have hperm : (namesIn fs R).Perm shelf.keys :=
    (List.perm_ext_iff_of_nodup nodup_namesIn shelf.nodup).mpr fun n => by
      rw [mem_namesIn, h.isSome, Option.isSome_iff_exists]
      exact Dict.mem_keys_iff.symm
  rw [TftpOS.listStaged, pathIsDir_iff.mpr ⟨R, hroot.anywhere, hdir⟩,
    locate_eq_ok.mpr hroot.anywhere, ← sortOn_id_eq_of_perm hperm]
  rfl

theorem unstage_of_refused
    (h : (pathIsDir cwd fs p && !pathIsSymlink cwd fs p) = true) :
    (unstage cwd p).run fs = (.ok false, fs) := by
  rw [unstage, Action.bind_of_ok (by rw [Action.run_read, h])]
  rfl

theorem unstage_of_error {e : PyExc}
    (h : (pathIsDir cwd fs p && !pathIsSymlink cwd fs p) = false)
    (he : osUnlink cwd p fs = .error e) :
    (unstage cwd p).run fs = (if e.cls = .fileNotFoundError then .ok false else .error e, fs) := by
  rw [unstage, Action.bind_of_ok (by rw [Action.run_read, h])]
  change (tryCatch _ _ : Action PyExc FS Bool).run fs = _
  rw [Action.tryCatch_of_error (Action.bind_of_error (Action.modify_of_error he))]
  split_ifs <;> rfl

theorem unstage_of_ok (h : (pathIsDir cwd fs p && !pathIsSymlink cwd fs p) = false)
    (hok : osUnlink cwd p fs = .ok fs') : (unstage cwd p).run fs = (.ok true, fs') := by
  rw [unstage, Action.bind_of_ok (by rw [Action.run_read, h])]
  change (tryCatch _ _ : Action PyExc FS Bool).run fs = _
  rw [Action.tryCatch_of_ok (Action.bind_of_ok (Action.modify_of_ok hok))]

theorem unstage_nul (hname : hasChar '\x00' name = true) :
    (unstage cwd (child tftpRoot name)).run fs = (.error nulError, fs) := by
  have hlast : (child tftpRoot name).comps.getLast? = some (.name name) := by simp [child]
  have hnul : hasNul (child tftpRoot name) = true := by
    rw [← Bool.not_eq_false, hasNul_child, hname]
    simp
  have hnotDir : pathIsDir cwd fs (child tftpRoot name) = false := by
    rw [pathIsDir, locate, if_pos hnul]
  have hraise : osUnlink cwd (child tftpRoot name) fs = .error nulError := by
    rw [osUnlink, entry, hlast]
    simp only [if_pos hnul, error_bind]
  exact unstage_of_error (by rw [hnotDir, Bool.false_and]) hraise

section

variable (hroot : Reaches cwd fs (fun m => m.tail ≠ R) tftpRoot R) (hdir : fs.isDir R = true)
  (hname : hasChar '\x00' name = false)

include hroot hdir hname

theorem osUnlink_child :
    osUnlink cwd (child tftpRoot name) fs = removeNode fs (name :: R) := by
  rw [osUnlink, entry_child hroot hdir hname]
  rfl

theorem pathIsSymlink_child :
    pathIsSymlink cwd fs (child tftpRoot name) = fs.isLink (name :: R) := by
  rw [pathIsSymlink, entry_child hroot hdir hname]

/-- The path of an entry that is no link leads to it. -/
theorem pathIsDir_child_iff (hlink : ∀ t, fs.get? (name :: R) ≠ some (.link t)) :
    pathIsDir cwd fs (child tftpRoot name) = true ↔ fs.isDir (name :: R) = true := by
  rw [pathIsDir_iff]
  constructor
  · rintro ⟨l, hreach, hl⟩
    obtain ⟨-, d, hd, hleads⟩ := reaches_child_iff.mp hreach
    obtain rfl := hroot.unique hd
    obtain ⟨rfl, -⟩ := (FileSystem.Leads.name_iff (fun _ => hdir) hlink).mp hleads
    exact hl
  · intro hl
    have hleads : fs.Leads true (fun _ => True) R [.name name] (name :: R) :=
      (FileSystem.Leads.name_iff (fun _ => hdir) hlink).mpr
        ⟨rfl, fun _ => FileSystem.isSome_of_isDir hl⟩
    exact ⟨_, reaches_child_iff.mpr ⟨hname, R, hroot.anywhere, hleads⟩, hl⟩

theorem unstage_missing (hfree : fs.get? (name :: R) = none) :
    (unstage cwd (child tftpRoot name)).run fs = (.ok false, fs) := by
  have hmissing : removeNode fs (name :: R) = .error (walkError .missing) := by
    rw [removeNode, hfree]
    rfl
  cases hrefused : pathIsDir cwd fs (child tftpRoot name) &&
      !pathIsSymlink cwd fs (child tftpRoot name) with
  | true => exact unstage_of_refused hrefused
  | false =>
    rw [unstage_of_error hrefused ((osUnlink_child hroot hdir hname).trans hmissing)]
    rfl

/-- `unstage` refuses directories. -/
theorem unstage_dir (hisDir : fs.isDir (name :: R) = true) :
    (unstage cwd (child tftpRoot name)).run fs = (.ok false, fs) := by
  have hget := FileSystem.isDir_iff.mp hisDir
  have hlink : ∀ t, fs.get? (name :: R) ≠ some (.link t) := by simp [hget]
  refine unstage_of_refused ?_
  rw [(pathIsDir_child_iff hroot hdir hname hlink).mpr hisDir,
    pathIsSymlink_child hroot hdir hname, FileSystem.isLink_eq_false_iff.mpr hlink]
  rfl

/-- It removes files and links. -/
theorem unstage_file (hsome : (fs.get? (name :: R)).isSome)
    (hfile : fs.isDir (name :: R) = false) :
    (unstage cwd (child tftpRoot name)).run fs = (.ok true, fs.remove (name :: R) hfile) := by
  refine unstage_of_ok ?_ ?_
  · rw [pathIsSymlink_child hroot hdir hname, Bool.and_eq_false_imp, Bool.not_eq_false']
    intro hpath
    by_contra hnot
    rw [Bool.not_eq_true, FileSystem.isLink_eq_false_iff] at hnot
    rw [pathIsDir_child_iff hroot hdir hname hnot, hfile] at hpath
    cases hpath
  · rw [osUnlink_child hroot hdir hname, removeNode,
      if_neg (by simpa using Option.isSome_iff_ne_none.mp hsome), dif_pos hfile]

end

section

variable {content : PyPath → Bytes} (hroot : Reaches cwd fs (fun m => m.tail ≠ R) tftpRoot R)
  (hdir : fs.isDir R = true) (hshows : Shows fs R shelf)

include hroot hdir hshows

/-- `unstage` takes a file or a link off the shelf. -/
theorem unstage_spec (n : String) {result : Except PyExc Bool}
    (hrun : (unstage cwd (child tftpRoot n)).run fs = (result, fs')) :
    shelf.Replies tftpRoot (.unstage n) (.unstaged result) ∧
      Shows fs' R (shelf.after content (.unstage n, .unstaged result)) ∧
      SameOutside R fs fs' := by
  rw [Shelf.Replies]
  cases hn : hasChar '\x00' n with
  | true =>
    obtain ⟨rfl, rfl⟩ := Prod.mk.inj ((unstage_nul hn).symm.trans hrun)
    exact ⟨rfl, hshows, .refl R fs⟩
  | false =>
    have hisDir := hshows.isDir n
    have hsome := hshows.isSome n
    rcases hheld : shelf.get? n with _ | held
    · rw [hheld, Option.isSome_none, Option.isSome_eq_false_iff, Option.isNone_iff_eq_none] at hsome
      obtain ⟨rfl, rfl⟩ := Prod.mk.inj ((unstage_missing hroot hdir hn hsome).symm.trans hrun)
      exact ⟨rfl, hshows, .refl R fs⟩
    rw [hheld] at hisDir hsome
    by_cases hheldDir : held = .dir
    · rw [hheldDir, decide_eq_true rfl] at hisDir
      obtain ⟨rfl, rfl⟩ := Prod.mk.inj ((unstage_dir hroot hdir hn hisDir).symm.trans hrun)
      rw [hheldDir]
      exact ⟨rfl, hshows, .refl R fs⟩
    · rw [decide_eq_false (by simpa using hheldDir)] at hisDir
      obtain ⟨rfl, rfl⟩ := Prod.mk.inj ((unstage_file hroot hdir hn hsome hisDir).symm.trans hrun)
      have hsame : SameOutside R fs (fs.remove (n :: R) hisDir) := .remove hisDir
      refine ⟨?_, fun m => ?_, hsame⟩
      · rw [if_neg Bool.false_ne_true, Option.any_some, decide_eq_true hheldDir]
      · have hget : (fs.remove (n :: R) hisDir).get? (m :: R) =
            if m :: R = n :: R then none else fs.get? (m :: R) := FileSystem.get?_remove
        rw [Shelf.after, Dict.get?_del]
        split_ifs with hm
        · rw [hm] at hget ⊢
          exact hget.trans (if_pos rfl)
        · refine hsame.shown (hget.trans (if_neg fun heq => ?_)) (hshows m)
          exact hm (List.cons.inj heq).1

/-- `stage` puts its firmware on the shelf, or leaves everything as it was. -/
theorem stage_spec {env : StageEnv} {firmware : PyPath} {symlink : Bool} {given : Option String}
    {result : Except PyExc PyPath} (hsupplies : Supplies cwd fs R firmware (content firmware))
    (hrun : (stage cwd py env firmware tftpRoot given symlink).run fs = (result, fs')) :
    shelf.Replies tftpRoot (.stage env firmware given symlink) (.staged result) ∧
      Shows fs' R (shelf.after content (.stage env firmware given symlink, .staged result)) ∧
      SameOutside R fs fs' := by
  have hmkdir := mkdir_of_isDir hroot hdir
  rcases result with e | target
  · have hsame : fs' = fs := by
      rcases stage_error hrun with heq | heq
      · exact heq
      · rw [heq, hmkdir]
    rw [hsame]
    exact ⟨trivial, hshows, .refl R fs⟩
  · obtain ⟨fs₁, R', safe, rfl, hmade, hR', hnul, rfl, hcan, rfl⟩ :=
      stage_eq_ok hsupplies.reads.reads hrun
    obtain ⟨-, rfl⟩ := Prod.mk.inj (hmkdir.symm.trans hmade)
    obtain rfl := hroot.unique hR'
    have hsame : SameOutside R fs (fs.put _ R (stagedNode cwd env fs firmware tftpRoot symlink
        (content firmware)) hcan) := .put stagedNode_ne_dir hcan
    refine ⟨⟨rfl, fun hheld => ?_⟩, fun m => ?_, hsame⟩
    · have hfile := (hshows.isDir _).symm.trans hcan.2
      exact Bool.false_ne_true (hfile.symm.trans (decide_eq_true hheld))
    · rw [Shelf.after, Dict.get?_set]
      split_ifs with hm
      · rw [hm]
        exact ⟨hnul, FirmwareEngine.entryHolds_staged (fun _ => hsupplies.leads) hcan⟩
      · refine hsame.shown (FileSystem.get?_put_of_ne fun heq => ?_) (hshows m)
        exact hm (List.cons.inj heq).1

end

/-! ### Runs -/

/-- The firmware of a call is supplied from outside the TFTP root. -/
def StagingOp.Supplied (cwd : Loc String) (fs : FS) (R : Loc String) (content : PyPath → Bytes) :
    StagingOp → Prop
  | .stage _ firmware _ _ => Supplies cwd fs R firmware (content firmware)
  | _ => True

/-- The shelf after some calls and their replies. -/
def Shelf.afterAll (content : PyPath → Bytes) (shelf : Shelf)
    (log : List (StagingOp × StagingReply)) : Shelf :=
  log.foldl (Shelf.after content) shelf

variable {content : PyPath → Bytes}

/-- **Step.** Every call replies what the shelf replies, and leaves the shelf that its reply tells
of. -/
theorem stagingStep_spec (hroot : Reaches cwd fs (fun m => m.tail ≠ R) tftpRoot R)
    (hdir : fs.isDir R = true) (hshows : Shows fs R shelf) {op : StagingOp} {reply : StagingReply}
    (hop : op.Supplied cwd fs R content) (hrun : stagingStep cwd py tftpRoot fs op = (reply, fs')) :
    shelf.Replies tftpRoot op reply ∧ Shows fs' R (shelf.after content (op, reply)) ∧
      SameOutside R fs fs' := by
  cases op with
  | stage env firmware given symlink =>
    obtain ⟨rfl, rfl⟩ := Prod.mk.inj hrun
    exact stage_spec hroot hdir hshows hop rfl
  | unstage n =>
    obtain ⟨rfl, rfl⟩ := Prod.mk.inj hrun
    exact unstage_spec hroot hdir hshows n rfl
  | listStaged =>
    obtain ⟨rfl, rfl⟩ := Prod.mk.inj hrun
    exact ⟨hshows.listStaged hroot hdir, hshows, .refl R fs⟩

theorem StagingOp.Supplied.sameOutside {op : StagingOp} (hop : op.Supplied cwd fs R content)
    (h : SameOutside R fs fs') : op.Supplied cwd fs' R content := by
  cases op with
  | stage env firmware given symlink => exact h.supplies hop
  | unstage n => exact trivial
  | listStaged => exact trivial

/-- **Run.** So does every run. -/
theorem staging_run (py : StrLib) (hroot : Reaches cwd fs (fun m => m.tail ≠ R) tftpRoot R)
    (hdir : fs.isDir R = true) (hshows : Shows fs R shelf) {ops : List StagingOp}
    (hops : ∀ op ∈ ops, op.Supplied cwd fs R content) :
    (∀ pre op reply,
      pre ++ [(op, reply)] <+: ops.zip (outputs (stagingStep cwd py tftpRoot) fs ops) →
        (shelf.afterAll content pre).Replies tftpRoot op reply) ∧
    Shows (run (stagingStep cwd py tftpRoot) fs ops) R
      (shelf.afterAll content (ops.zip (outputs (stagingStep cwd py tftpRoot) fs ops))) ∧
    SameOutside R fs (run (stagingStep cwd py tftpRoot) fs ops) := by
  induction ops generalizing fs shelf with
  | nil => exact ⟨fun pre op reply hpre => by simp at hpre, hshows, .refl R fs⟩
  | cons op ops ih =>
    rw [List.forall_mem_cons] at hops
    obtain ⟨hreply, hnext, hsame⟩ := stagingStep_spec hroot hdir hshows hops.1
      (Prod.eta (stagingStep cwd py tftpRoot fs op)).symm
    obtain ⟨hreplies, hlast, hrest⟩ := ih (hsame.reaches hroot) ((hsame.dirs R).trans hdir) hnext
      fun op' hop' => (hops.2 op' hop').sameOutside hsame
    refine ⟨fun pre op' reply hpre => ?_, hlast, hsame.trans hrest⟩
    rw [outputs_cons, List.zip_cons_cons] at hpre
    cases pre with
    | nil =>
      obtain ⟨rfl, rfl⟩ := Prod.mk.inj (List.cons_prefix_cons.mp hpre).1
      exact hreply
    | cons e pre =>
      obtain ⟨rfl, hlater⟩ := List.cons_prefix_cons.mp hpre
      exact hreplies pre op' reply hlater

theorem shows_shelfOf (fs : FS) (R : Loc String) : Shows fs R (shelfOf fs R) := by
  intro n
  rcases hheld : (shelfOf fs R).get? n with _ | held
  · have hfree : n ∉ namesIn fs R := fun hn =>
      Dict.get?_eq_none_iff.mp hheld _ (List.mem_map_of_mem hn)
    rw [mem_namesIn, Option.not_isSome_iff_eq_none] at hfree
    exact hfree
  · obtain ⟨n', hn', heq⟩ := List.mem_map.mp (Dict.get?_eq_some_iff.mp hheld)
    obtain ⟨rfl, rfl⟩ := Prod.mk.inj heq
    split_ifs with hisDir
    · exact hisDir
    · exact ⟨mem_namesIn.mp hn', Bool.eq_false_iff.mpr hisDir⟩

/-- **The TFTP root is a shelf.** In a run of stagings of firmware from outside the TFTP root, of
removals and of listings, whatever fails in them, every call replies what the shelf of the replies
so far says: a staging returns the path of its name and never replaces a directory, `unstage` says
whether there is a file or a link, and `list_staged` lists the names in order. In the end the TFTP
root holds that shelf and nothing else, every firmware on it is read under its name, and no other
part of the file system has changed. -/
theorem staging_refines_shelf (cwd : Loc String) (py : StrLib) (tftpRoot : PyPath) (R : Loc String)
    (fs : FS) (content : PyPath → Bytes) (hroot : Reaches cwd fs (fun m => m.tail ≠ R) tftpRoot R)
    (hdir : fs.isDir R = true) (ops : List StagingOp)
    (hops : ∀ op ∈ ops, op.Supplied cwd fs R content) :
    let log := ops.zip (outputs (stagingStep cwd py tftpRoot) fs ops)
    let last := run (stagingStep cwd py tftpRoot) fs ops
    (∀ pre op reply, pre ++ [(op, reply)] <+: log →
      ((shelfOf fs R).afterAll content pre).Replies tftpRoot op reply) ∧
    (∀ n, n ∈ namesIn last R ↔ n ∈ ((shelfOf fs R).afterAll content log).keys) ∧
    (∀ n b, ((shelfOf fs R).afterAll content log).get? n = some (.firmware b) →
      readBytes cwd last (child tftpRoot n) = .ok b) ∧
    (∀ m, m.tail ≠ R → last.get? m = fs.get? m) := by
  intro log last
  obtain ⟨hreplies, hshows, hsame⟩ := staging_run py hroot hdir (shows_shelfOf fs R) hops
  refine ⟨hreplies, fun n => ?_, fun n b hheld => ?_, hsame.get⟩
  · rw [mem_namesIn, hshows.isSome, Option.isSome_iff_exists]
    exact Dict.mem_keys_iff.symm
  · have hshown := hshows n
    rw [hheld] at hshown
    exact (target_bytes_iff (hsame.reaches hroot).anywhere hshown.1).mpr hshown.2.reads

/-- Firmware outside the TFTP root is supplied. -/
theorem supplies_of_outside {ok : Loc String → Prop}
    (hout : FirmwareEngine.Outside cwd fs tftpRoot p true) (hroot : Reaches cwd fs ok tftpRoot R)
    (hread : readBytes cwd fs p = .ok b) :
    Reaches cwd fs (fun m => m.tail ≠ R) tftpRoot R ∧ Supplies cwd fs R p b := by
  obtain ⟨R', b', hroot', hreads, hleads⟩ := hout
  obtain rfl := hroot'.unique hroot
  obtain rfl := Except.ok.inj (hreads.reads.symm.trans hread)
  exact ⟨hroot', hreads, hleads rfl⟩

end

/-- A TFTP root, and a firmware beside it. -/
private def shelfTree : FS :=
  .ofNodes [(["srv"], .dir), (["tftp", "srv"], .dir), (["fw"], .dir),
    (["a.bin", "fw"], .file [1, 2, 3])]

/-- The firmware under its own name and under another one, which is taken off again. -/
private def shelfCalls : List StagingOp :=
  [.stage calm (absPath ["a.bin", "fw"]) none true,
    .stage calm (absPath ["a.bin", "fw"]) (some "b.bin") false, .unstage "b.bin", .listStaged]

theorem staging_refines_shelf_two_names :
    readBytes [] (run (stagingStep [] .ascii (absPath ["tftp", "srv"])) shelfTree shelfCalls)
      (child (absPath ["tftp", "srv"]) "a.bin") = .ok [1, 2, 3] := by
  have hout : FirmwareEngine.Outside [] shelfTree (absPath ["tftp", "srv"])
      (absPath ["a.bin", "fw"]) true := by
    refine FirmwareEngine.outside_of_linkFree (R := ["tftp", "srv"]) (b := [1, 2, 3])
      (l := ["a.bin", "fw"]) ?_ ?_ ?_ ?_ ?_ ?_ ?_ <;> decide +kernel
  have hlocate : locate [] shelfTree (absPath ["tftp", "srv"]) = .ok ["tftp", "srv"] := by
    decide +kernel
  obtain ⟨hroot, hsupplies⟩ := supplies_of_outside (b := [1, 2, 3]) hout (locate_eq_ok.mp hlocate)
    (by decide +kernel)
  refine (staging_refines_shelf [] .ascii _ _ _ (fun _ => [1, 2, 3]) hroot (by decide +kernel)
    shelfCalls fun op hop => ?_).2.2.1 _ _ (by decide +kernel)
  simp only [shelfCalls, List.mem_cons, List.not_mem_nil, or_false] at hop
  rcases hop with rfl | rfl | rfl | rfl
  · exact hsupplies
  · exact hsupplies
  · exact trivial
  · exact trivial

end TftpOS
