import TftpOS.RepoMirror

/-!
# Mirrors over several sessions

A manager reads `mirrors.json` when it is made and never again, so a session on a data directory is
a run of calls, and a restart puts in place of the mirrors in memory those of the file.

Over such runs, every path that `add_mirror` stores leads to the directory of all mirrors or below
it, and a call changes nothing outside of that directory, except that it makes the directories that
are missing on its way (`mirrors_confined`). A call that fails leaves the mirrors as they were, and
as they are in the file, exactly as long as no save fails behind a change
(`failed_calls_atomic_iff`).
-/

namespace TftpOS

open Lib

namespace RepoManager

/-- `_load`: a file that is missing or cannot be read has no mirrors. -/
def load : MirrorsFile → Dict String RepoMirror
  | .absent => ∅
  | .torn => ∅
  | .mirrors l => .ofEntries (l.map fun mirror => (mirror.name, mirror))

/-- `RepoManager(data_dir)`. -/
def opened (file : MirrorsFile) (fs : FS) : RepoManager := { mirrors := load file, file, fs }

section

variable (site : RepoSite)

/-- What happens to a manager: a call, or the end of the session and a new one. -/
inductive Event where
  | call (op : Op site)
  | restart

/-- Let something happen. -/
def perform (t : RepoManager) : Event site → Except PyExc Unit × RepoManager
  | .call op => step site t op
  | .restart => (.ok (), opened t.file t.fs)

/-- A call fails: it raises, or it is a `sync_mirror` that reports no success. -/
def fails (t : RepoManager) : Event site → Bool
  | .call (.add mirror fault) => !((addMirror site mirror fault).run t).1.isOk
  | .call (.remove name fault) => !((removeMirror site name fault).run t).1.isOk
  | .call (.sync name weather) => !reportsSync ((syncMirror site name weather).run t).1
  | .restart => false

variable {site} {t : RepoManager} {mirror : RepoMirror} {name : String} {fs fs' : FS} {p : PyPath}
  {fault : Option SaveFault} {l : Loc String}

/-! ### The file -/

/-- Every mirror stands under its own name. -/
def Keyed (d : Dict String RepoMirror) : Prop := ∀ name mirror, d.get? name = some mirror →
  mirror.name = name

theorem keyed_load (file : MirrorsFile) : Keyed (load file) := by
  intro name mirror h
  cases file with
  | absent => cases h
  | torn => cases h
  | mirrors l =>
    have hmem := Dict.mem_of_mem_ofEntries (Dict.get?_eq_some_iff.mp h)
    obtain ⟨mirror', -, heq⟩ := List.mem_map.mp hmem
    obtain ⟨rfl, rfl⟩ := Prod.mk.inj heq
    rfl

/-- Mirrors that were written are read back. -/
theorem load_values {d : Dict String RepoMirror} (h : Keyed d) : load (.mirrors d.values) = d := by
  have hentry : ∀ e ∈ d.entries, ((fun mirror => (mirror.name, mirror)) ∘ Prod.snd) e = id e := by
    intro e he
    exact Prod.ext (h e.1 e.2 (Dict.get?_eq_some_iff.mpr he)) rfl
  have hentries : d.values.map (fun mirror => (mirror.name, mirror)) = d.entries := by
    rw [Dict.values, List.map_map, List.map_congr_left hentry, List.map_id]
  rw [load, hentries, Dict.ofEntries_entries]

theorem Keyed.set {d : Dict String RepoMirror} (h : Keyed d) (hname : mirror.name = name) :
    Keyed (d.set name mirror) := by
  intro n m hn
  rw [Dict.get?_set] at hn
  split_ifs at hn with heq
  · obtain rfl := Option.some.inj hn
    exact hname.trans heq.symm
  · exact h n m hn

theorem Keyed.del {d : Dict String RepoMirror} (h : Keyed d) : Keyed (d.del name) := by
  intro n m hn
  rw [Dict.get?_del] at hn
  split_ifs at hn
  exact h n m hn

variable (site) in
/-- A save empties the file, and fails before all mirrors are in it. -/
def Tears (fs : FS) (fault : Option SaveFault) : Prop :=
  Makes site (parsePath site.dataDir) fs ∧ ∃ e, fault = some (.late e false)

theorem savedFile_of_not_saveFails (h : ¬ SaveFails site t.fs fault) :
    savedFile site t fault = .mirrors t.mirrors.values := by
  rw [SaveFails, not_or, not_not, not_not] at h
  obtain ⟨hmakes, rfl⟩ := h
  rw [savedFile.eq_def, if_pos hmakes]

theorem savedFile_of_tears (h : Tears site t.fs fault) : savedFile site t fault = .torn := by
  obtain ⟨hmakes, e, rfl⟩ := h
  rw [savedFile.eq_def, if_pos hmakes]
  rfl

/-- A save that does not tear the file leaves it alone or writes all mirrors. -/
theorem savedFile_of_not_tears (h : ¬ Tears site t.fs fault) :
    savedFile site t fault = t.file ∨ savedFile site t fault = .mirrors t.mirrors.values := by
  rw [savedFile.eq_def]
  split_ifs with hmakes
  · rcases fault with _ | (e | ⟨e, _ | _⟩)
    · exact .inr rfl
    · exact .inl rfl
    · exact absurd ⟨hmakes, e, rfl⟩ h
    · exact .inr rfl
  · exact .inl rfl

/-- A save puts into the file what is in memory, or nothing new. -/
theorem mem_load_savedFile (h : mirror ∈ (load (savedFile site t fault)).values) :
    mirror ∈ (load t.file).values ∨ mirror ∈ t.mirrors.values := by
  by_cases htears : Tears site t.fs fault
  · rw [savedFile_of_tears htears] at h
    cases h
  rcases savedFile_of_not_tears htears with hfile | hfile
  · exact .inl (hfile ▸ h)
  · rw [hfile] at h
    obtain ⟨name, hget⟩ := Dict.mem_values_iff.mp h
    obtain ⟨mirror', hmem, heq⟩ :=
      List.mem_map.mp (Dict.mem_of_mem_ofEntries (Dict.get?_eq_some_iff.mp hget))
    obtain ⟨-, rfl⟩ := Prod.mk.inj heq
    exact .inr hmem

/-! ### Where the calls work -/

theorem rootDir_suffix_requestedDir : rootDir site <:+ requestedDir site mirror := by
  rw [requestedDir]
  split_ifs with h
  · exact h.2
  · exact List.suffix_cons _ _

/-- **Where `add_mirror` stores a mirror**: at the directory of all mirrors or below it. -/
theorem rootDir_suffix_of_storedPath (hlinks : fs.NoLinks)
    (hname : validateMirrorName site.py mirror.name = .ok ())
    (h : storedPath site fs mirror = .ok p) :
    rootDir site <:+ dirOf site { mirror with localPath := pathText p } := by
  obtain ⟨hclean, habs⟩ := storedPath_eq_ok hlinks (cleanName_of_validateMirrorName hname) h
  rw [dirOf, parsePath_pathText hclean, habs]
  exact rootDir_suffix_requestedDir

variable (site) in
/-- A mirror is in the directory of all mirrors, unless its path was in the file at first. -/
def Placed (file : MirrorsFile) (mirror : RepoMirror) : Prop :=
  (∃ first ∈ (load file).values, first.localPath = mirror.localPath) ∨
    rootDir site <:+ dirOf site mirror

variable (site) in
/-- All mirrors are placed, those in memory and those in the file, and there are no links. -/
structure AllPlaced (file : MirrorsFile) (t : RepoManager) : Prop where
  noLinks : t.fs.NoLinks
  memory : ∀ mirror ∈ t.mirrors.values, Placed site file mirror
  stored : ∀ mirror ∈ (load t.file).values, Placed site file mirror

theorem AllPlaced.saved {file : MirrorsFile} (h : AllPlaced site file t)
    (fault : Option SaveFault) : AllPlaced site file (saved site t fault) where
  noLinks := (dirsMade_made _ _).noLinks h.noLinks
  memory := h.memory
  stored mirror hmem := (mem_load_savedFile hmem).elim (h.stored mirror) (h.memory mirror)

theorem allPlaced_opened (file : MirrorsFile) (hlinks : fs.NoLinks) :
    AllPlaced site file (opened file fs) where
  noLinks := hlinks
  memory mirror hmem := .inl ⟨mirror, hmem, rfl⟩
  stored mirror hmem := .inl ⟨mirror, hmem, rfl⟩

theorem allPlaced_step {file : MirrorsFile} (h : AllPlaced site file t) (op : Op site) :
    AllPlaced site file (step site t op).2 := by
  have hlinks := (step_tree h.noLinks op).1
  cases op with
  | add mirror fault =>
    rcases addMirror_run site t mirror fault with
      ⟨-, e, hrun⟩ | ⟨p, hp, haccepts, r, hrun, -⟩
    · rw [step, hrun]
      exact h
    · rw [step, hrun]
      have hstored := rootDir_suffix_of_storedPath h.noLinks haccepts.name hp
      have hset : AllPlaced site file { t with
          mirrors := t.mirrors.set mirror.name { mirror with localPath := pathText p } } := by
        refine ⟨h.noLinks, fun mirror' hmem => ?_, h.stored⟩
        rcases Dict.mem_values_set hmem with rfl | hmem
        · exact .inr hstored
        · exact h.memory mirror' hmem
      exact hset.saved fault
  | remove name fault =>
    have hdel : AllPlaced site file { t with mirrors := t.mirrors.del name } :=
      ⟨h.noLinks, fun mirror hmem => h.memory mirror (Dict.mem_values_del hmem), h.stored⟩
    have hsaved := hdel.saved fault
    rcases removeMirror_run site t name fault with
      ⟨-, r, hrun⟩ | ⟨mirror, -, -, ⟨-, e, hrun⟩ | ⟨-, fs', hrun, -⟩⟩
    · rw [step, hrun]
      exact h
    · rw [step, hrun]
      exact hsaved
    · rw [step, hrun] at hlinks ⊢
      exact ⟨hlinks, hsaved.memory, hsaved.stored⟩
  | sync name weather =>
    rcases syncMirror_run site t name weather with
      ⟨-, r, fs', hrun, -⟩ | ⟨mirror, htransfers, r, hrun, -⟩
    · rw [step, hrun] at hlinks ⊢
      exact ⟨hlinks, h.memory, h.stored⟩
    · rw [step, hrun]
      have hplaced : Placed site file mirror :=
        h.memory mirror (Dict.mem_values_iff.mpr ⟨name, htransfers.found⟩)
      have hbefore : AllPlaced site file (beforeSave site t name weather mirror) := by
        have hlinks₁ := (@dirsMade_made site (parsePath mirror.localPath) _).noLinks h.noLinks
        refine ⟨noLinks_treeAfter hlinks₁, fun mirror' hmem => ?_, h.stored⟩
        rcases Dict.mem_values_set hmem with rfl | hmem
        · exact hplaced
        · exact h.memory mirror' hmem
      exact hbefore.saved weather.saveFault

variable (site) in
/-- A directory that was missing is there, and the text of a path passes it. -/
def MadeOnWay (p : PyPath) (fs fs' : FS) (l : Loc String) : Prop :=
  fs.get? l = none ∧ fs'.get? l = some .dir ∧
    ∃ cs, cs <+: p.comps ∧ abspath site.cwd ⟨p.absolute, cs⟩ = l

theorem get?_of_dirsMade (hlinks : fs.NoLinks) (h : DirsMade site.cwd p fs fs') (l : Loc String) :
    fs'.get? l = fs.get? l ∨ MadeOnWay site p fs fs' l := by
  refine (h l).imp_right ?_
  rintro ⟨hnone, hdir, cs, hcs, hreach⟩
  have hloc := locate_eq_abspath (h.noLinks hlinks) (locate_eq_ok.mpr hreach)
  exact ⟨hnone, hdir, cs, hcs, hloc.symm⟩

variable (site) in
/-- What a call may do to a location outside the directory of all mirrors: it leaves it alone, or it
makes a directory that is missing on the way of the data directory or of its mirror. -/
def AtMostMade (t : RepoManager) (op : Op site) (l : Loc String) : Prop :=
  let fs' := (step site t op).2.fs
  fs'.get? l = t.fs.get? l ∨ MadeOnWay site (parsePath site.dataDir) t.fs fs' l ∨
    ∃ mirror, t.mirrors.get? op.target = some mirror ∧
      MadeOnWay site (parsePath mirror.localPath) t.fs fs' l

/-- **A call does not touch what is outside the directory of all mirrors**, if its mirror is in
there. -/
theorem atMostMade_of_outside (hlinks : t.fs.NoLinks) (op : Op site)
    (hdir : ∀ d, dirs site t op.target = some d → rootDir site <:+ d)
    (hl : ¬ rootDir site <:+ l) : AtMostMade site t op l := by
  rw [AtMostMade]
  cases op with
  | add mirror fault =>
    rcases addMirror_cases site t mirror fault with ⟨hsame, -⟩ | ⟨p, -, -, -, hmade⟩
    · rw [hsame]
      exact .inl rfl
    · exact (get?_of_dirsMade hlinks hmade l).imp_right .inl
  | remove name fault =>
    rcases removeMirror_cases site t name fault with
      hsame | ⟨mirror, hget, -, fs₁, hmade, hfs⟩
    · rw [hsame]
      exact .inl rfl
    have hroot : rootDir site <:+ dirOf site mirror := hdir _ (by rw [Op.target, dirs, hget]; rfl)
    have hl' : ¬ dirOf site mirror <:+ l := fun h => hl (hroot.trans h)
    -- the tree that is removed is in the directory of all mirrors
    have hkept : (step site t (.remove name fault)).2.fs.get? l = fs₁.get? l := by
      rcases hfs with hfs | hfs
      · rw [hfs]
      · rw [hfs, get?_rmtree (hmade.noLinks hlinks) hl']
    rw [MadeOnWay, hkept]
    exact (get?_of_dirsMade hlinks hmade l).imp_right .inl
  | sync name weather =>
    rcases syncMirror_cases site t name weather with
      hsame | ⟨mirror, hget, -, fs₁, hmade, hkept | ⟨hisDir, hmade'⟩⟩
    · rw [hsame]
      exact .inl rfl
    · rw [hkept]
      exact (get?_of_dirsMade hlinks hmade l).imp_right fun h => .inr ⟨mirror, hget, h⟩
    have hroot : rootDir site <:+ dirOf site mirror := hdir _ (by rw [Op.target, dirs, hget]; rfl)
    have hl' : ¬ dirOf site mirror <:+ l := fun h => hl (hroot.trans h)
    have hlinks₁ := hmade.noLinks hlinks
    -- so is the one in which the command works
    have hcopied : (treeAfter weather mirror fs₁).get? l = fs₁.get? l :=
      get?_treeAfter hlinks₁ hisDir hl'
    have hlast := get?_of_dirsMade (noLinks_treeAfter hlinks₁) hmade' l
    rw [MadeOnWay, hcopied] at hlast
    rcases get?_of_dirsMade hlinks hmade l with hfirst | ⟨hnone, hmadeDir, hway⟩
    · rw [hfirst] at hlast
      exact hlast.imp_right .inl
    · refine .inr (.inr ⟨mirror, hget, hnone, ?_, hway⟩)
      rcases hlast with hlast | ⟨hnone', -⟩
      · rw [hlast, hmadeDir]
      · rw [hmadeDir] at hnone'
        cases hnone'

variable (site) in
/-- Mirrors are stored in the directory of all mirrors, those that are there are in it unless their
paths were in the file at first, and a call about one of these changes nothing outside of it, apart
from missing directories that it makes. -/
structure Confined (file : MirrorsFile) (t : RepoManager) : Prop where
  stored : ∀ mirror p, validateMirrorName site.py mirror.name = .ok () →
    storedPath site t.fs mirror = .ok p →
    rootDir site <:+ dirOf site { mirror with localPath := pathText p }
  registered : ∀ mirror ∈ t.mirrors.values, Placed site file mirror
  outside : ∀ op : Op site, (∀ d, dirs site t op.target = some d → rootDir site <:+ d) →
    ∀ l, ¬ rootDir site <:+ l → AtMostMade site t op l

/-- **Mirrors are confined.** From any `mirrors.json`, in a tree without links, over any run of
calls and restarts and whatever fails: every `local_path` that is stored for a valid name leads to
the directory of all mirrors or below it, and no call about a mirror in there changes or removes
anything outside of it. All that it can do there is to make directories that are missing on the way
of the data directory or of the path of the mirror. -/
theorem mirrors_confined (site : RepoSite) (file : MirrorsFile) (fs : FS) (hlinks : fs.NoLinks)
    (events : List (Event site)) :
    Confined site file (run (perform site) (opened file fs) events) := by
  have hplaced : AllPlaced site file (run (perform site) (opened file fs) events) := by
    refine run_invariant (A := fun _ => True) (fun t event _ h => ?_)
      (allPlaced_opened file hlinks) fun _ _ => trivial
    cases event with
    | call op => exact allPlaced_step h op
    | restart => exact ⟨h.noLinks, h.stored, h.stored⟩
  exact ⟨fun mirror p hname hp => rootDir_suffix_of_storedPath hplaced.noLinks hname hp,
    hplaced.memory, fun op hdir l hl => atMostMade_of_outside hplaced.noLinks op hdir hl⟩

/-- A mirror stored at a path that leaves the directory of all mirrors and comes back: syncing it
makes the directory that the path passes outside. -/
theorem passed_directory_made :
    let mirror := labMirror "x" "/evil/../srv/mirrors/x"
    let t := (step labSite (opened .absent labTree) (.add mirror none)).2
    let sync := Op.sync "x" ⟨0, 1, 2, none, idle labSite.cwd, none⟩
    t.mirrors.get? "x" = some mirror ∧ rootDir labSite <:+ dirOf labSite mirror ∧
      ¬ rootDir labSite <:+ ["evil"] ∧ t.fs.get? ["evil"] = none ∧
      (step labSite t sync).2.fs.isDir ["evil"] = true := by
  intro mirror t sync
  refine ⟨?_, ?_, ?_, ?_, ?_⟩ <;> decide +kernel

theorem mirrors_confined_synced :
    Confined labSite .absent (run (perform labSite) (opened .absent .empty)
      [.call (.add (labMirror "x" "/evil/../srv/mirrors/x") none),
        .call (.sync "x" ⟨0, 1, 2, none, idle labSite.cwd, none⟩), .restart,
        .call (.remove "x" none)]) :=
  mirrors_confined labSite .absent .empty FileSystem.noLinks_empty _

/-! ### Calls that fail -/

/-- The mirrors in memory are those in the file. -/
def InSync (t : RepoManager) : Prop := load t.file = t.mirrors

theorem InSync.keyed (h : InSync t) : Keyed t.mirrors := h ▸ keyed_load t.file

theorem inSync_saved (h : Keyed t.mirrors) (hsave : ¬ SaveFails site t.fs fault) :
    InSync (saved site t fault) := by
  rw [InSync, saved, savedFile_of_not_saveFails hsave, load_values h]

variable (site) in
/-- A call that fails leaves the mirrors as they were, and as they are in the file. -/
def Atomic (t : RepoManager) (event : Event site) : Prop :=
  fails site t event = true → (perform site t event).2.mirrors = t.mirrors ∧
    load (perform site t event).2.file = (perform site t event).2.mirrors

variable (site) in
/-- A save fails behind a change: of a mirror that was added or removed, or of the time of a
`sync_mirror`. A save that tears the file needs no change. -/
def SavesTooLate (t : RepoManager) : Event site → Prop
  | .call (.add mirror fault) => Accepts site t mirror ∧ SaveFails site t.fs fault
  | .call (.remove name fault) => validateMirrorName site.py name = .ok () ∧
    (∃ mirror, t.mirrors.get? name = some mirror) ∧ SaveFails site t.fs fault
  | .call (.sync name weather) => ∃ mirror, Transfers t name weather mirror ∧
    SaveFails site (beforeSave site t name weather mirror).fs weather.saveFault ∧
      (mirror.lastSync ≠ some weather.onSynced ∨
        Tears site (beforeSave site t name weather mirror).fs weather.saveFault)
  | .restart => False

variable (site) in
/-- What happens is one of two things: the mirrors in memory are those in the file after it, and if
it failed they are those there were; or a save failed too late, and one of the two is not so. -/
def Accounted (t : RepoManager) (event : Event site) : Prop :=
  let t' := (perform site t event).2
  (¬ SavesTooLate site t event ∧ InSync t' ∧ (fails site t event = true → t'.mirrors = t.mirrors)) ∨
    SavesTooLate site t event ∧ fails site t event = true ∧
      ¬ (t'.mirrors = t.mirrors ∧ InSync t')

theorem accounted_add (h : InSync t) (mirror : RepoMirror) (fault : Option SaveFault) :
    Accounted site t (.call (.add mirror fault)) := by
  rw [Accounted, SavesTooLate, perform, step, fails]
  rcases addMirror_run site t mirror fault with
    ⟨hnot, e, hrun⟩ | ⟨p, -, haccepts, r, hrun, hr⟩
  · rw [hrun]
    exact .inl ⟨fun hlate => hnot hlate.1, h, fun _ => rfl⟩
  · rw [hrun]
    by_cases hsave : SaveFails site t.fs fault
    · have hraised : r.isOk = false := by simpa [hsave] using hr
      refine .inr ⟨⟨haccepts, hsave⟩, by rw [hraised]; rfl, fun hsame => ?_⟩
      -- the mirror is there now, and was not before
      have hset : t.mirrors.set mirror.name { mirror with localPath := pathText p } = t.mirrors :=
        hsame.1
      rw [Dict.set_eq_self_iff, haccepts.fresh] at hset
      cases hset
    · have hkeyed : Keyed (t.mirrors.set mirror.name { mirror with localPath := pathText p }) :=
        h.keyed.set rfl
      refine .inl ⟨fun hlate => hsave hlate.2, inSync_saved hkeyed hsave, fun hfails => ?_⟩
      rw [hr.mpr hsave] at hfails
      cases hfails

theorem accounted_remove (h : InSync t) (name : String) (fault : Option SaveFault) :
    Accounted site t (.call (.remove name fault)) := by
  rw [Accounted, SavesTooLate, perform, step, fails]
  rcases removeMirror_run site t name fault with
    ⟨hnot, r, hrun⟩ | ⟨mirror, hvalid, hget, ⟨hsave, e, hrun⟩ | ⟨hsave, fs', hrun, -⟩⟩
  · rw [hrun]
    exact .inl ⟨fun hlate => hnot ⟨hlate.1, hlate.2.1⟩, h, fun _ => rfl⟩
  · rw [hrun]
    refine .inr ⟨⟨hvalid, ⟨mirror, hget⟩, hsave⟩, rfl, fun hsame => ?_⟩
    -- the mirror is gone, and was there before
    have hdel : t.mirrors.del name = t.mirrors := hsame.1
    rw [← hdel, Dict.get?_del, if_pos rfl] at hget
    cases hget
  · rw [hrun]
    have hsync : InSync (saved site { t with mirrors := t.mirrors.del name } fault) :=
      inSync_saved h.keyed.del hsave
    exact .inl ⟨fun hlate => hsave hlate.2.2, hsync, fun hfails => absurd hfails Bool.false_ne_true⟩

theorem savesTooLate_sync_iff {weather : SyncWeather site.cwd}
    (h : Transfers t name weather mirror) :
    SavesTooLate site t (.call (.sync name weather)) ↔
      SaveFails site (beforeSave site t name weather mirror).fs weather.saveFault ∧
        (mirror.lastSync ≠ some weather.onSynced ∨
          Tears site (beforeSave site t name weather mirror).fs weather.saveFault) := by
  constructor
  · rintro ⟨mirror', h', hlate⟩
    obtain rfl := Option.some.inj (h'.found.symm.trans h.found)
    exact hlate
  · exact fun hlate => ⟨mirror, h, hlate⟩

theorem accounted_sync (h : InSync t) (name : String) (weather : SyncWeather site.cwd) :
    Accounted site t (.call (.sync name weather)) := by
  rcases syncMirror_run site t name weather with
    ⟨hnot, r, fs', hrun, -⟩ | ⟨mirror, htransfers, r, hrun, hr⟩
  · rw [Accounted, perform, step, hrun]
    exact .inl ⟨fun hlate => hlate.elim fun mirror hlate => hnot mirror hlate.1, h, fun _ => rfl⟩
  rw [Accounted, savesTooLate_sync_iff htransfers, perform, step, fails, hrun]
  have hname : mirror.name = name := h.keyed _ _ htransfers.found
  have hkeyed : Keyed (beforeSave site t name weather mirror).mirrors := h.keyed.set hname
  by_cases hsave : SaveFails site (beforeSave site t name weather mirror).fs weather.saveFault
  · have hreport : reportsSync r = false := by simpa [hsave] using hr
    by_cases hlast : mirror.lastSync = some weather.onSynced
    · -- the time is the one it was, so that only the file can change
      have hsame : (beforeSave site t name weather mirror).mirrors = t.mirrors := by
        rw [beforeSave, Dict.set_eq_self_iff, ← hlast]
        exact htransfers.found
      by_cases htears : Tears site (beforeSave site t name weather mirror).fs weather.saveFault
      · refine .inr ⟨⟨hsave, .inr htears⟩, by rw [hreport]; rfl, fun hkept => ?_⟩
        have hempty : load (savedFile site (beforeSave site t name weather mirror)
            weather.saveFault) = (beforeSave site t name weather mirror).mirrors := hkept.2
        have hfound := htransfers.found
        rw [savedFile_of_tears htears, hsame] at hempty
        rw [← hempty] at hfound
        cases hfound
      · refine .inl ⟨fun hlate => hlate.2.elim (· hlast) htears, ?_, fun _ => hsame⟩
        change load (savedFile site (beforeSave site t name weather mirror) weather.saveFault) =
          (beforeSave site t name weather mirror).mirrors
        rcases savedFile_of_not_tears htears with hfile | hfile
        · rw [hfile, hsame]
          exact h
        · rw [hfile, load_values hkeyed]
    · refine .inr ⟨⟨hsave, .inl hlast⟩, by rw [hreport]; rfl, fun hkept => ?_⟩
      have hset : t.mirrors.set name { mirror with lastSync := some weather.onSynced } =
          t.mirrors := hkept.1
      rw [Dict.set_eq_self_iff, htransfers.found, Option.some.injEq] at hset
      exact hlast (congrArg RepoMirror.lastSync hset)
  · refine .inl ⟨fun hlate => hsave hlate.1, inSync_saved hkeyed hsave, fun hfails => ?_⟩
    rw [hr.mpr hsave] at hfails
    cases hfails

theorem accounted (h : InSync t) (event : Event site) : Accounted site t event := by
  cases event with
  | call op =>
    cases op with
    | add mirror fault => exact accounted_add h mirror fault
    | remove name fault => exact accounted_remove h name fault
    | sync name weather => exact accounted_sync h name weather
  | restart => exact .inl ⟨id, rfl, fun hfails => absurd hfails Bool.false_ne_true⟩

theorem atomic_iff (h : InSync t) (event : Event site) :
    Atomic site t event ↔ ¬ SavesTooLate site t event := by
  rcases accounted h event with ⟨hlate, hsync, hkept⟩ | ⟨hlate, hfails, hbroken⟩
  · exact iff_of_true (fun hfails => ⟨hkept hfails, hsync⟩) hlate
  · exact iff_of_false (fun hatomic => hbroken (hatomic hfails)) (not_not_intro hlate)

theorem inSync_perform (h : InSync t) {event : Event site} (hlate : ¬ SavesTooLate site t event) :
    InSync (perform site t event).2 := by
  rcases accounted h event with ⟨-, hsync, -⟩ | ⟨hlate', -⟩
  · exact hsync
  · exact absurd hlate' hlate

/-- **When failed calls change nothing.** From any `mirrors.json`, over any run of calls and
restarts and whatever fails: every `add_mirror` and `remove_mirror` that raises, and every
`sync_mirror` that raises or reports no success, leaves the mirrors as they were and as they are in
the file, if and only if no save fails behind a change. -/
theorem failed_calls_atomic_iff (site : RepoSite) (file : MirrorsFile) (fs : FS)
    (events : List (Event site)) :
    (∀ pre event, pre ++ [event] <+: events →
      Atomic site (run (perform site) (opened file fs) pre) event) ↔
      ∀ pre event, pre ++ [event] <+: events →
        ¬ SavesTooLate site (run (perform site) (opened file fs) pre) event := by
  have hopened : InSync (opened file fs) := rfl
  have hpreserved : ∀ (t : RepoManager) (event : Event site), InSync t →
      ¬ SavesTooLate site t event → InSync (perform site t event).2 :=
    fun _ _ h hlate => inSync_perform h hlate
  exact forall_steps_iff (fun _ event h => atomic_iff h event) hpreserved hopened events

/-- A disk without space: the write of `mirrors.json` fails before it has touched the file. -/
def diskFull : SaveFault := .early ⟨.osError, "No space left on device"⟩

/-- A mirror whose `add_mirror` raises is registered, and one whose `sync_mirror` reports no success
is marked as synced. -/
theorem failed_calls_change_mirrors :
    let add := Event.call (Op.add (labMirror "a" "") (some diskFull))
    let sync := Event.call (Op.sync "a" ⟨0, 1, 2, none, idle labSite.cwd, some diskFull⟩)
    let t := (step labSite (opened .absent labTree) (.add (labMirror "a" "") none)).2
    (fails labSite (opened .absent labTree) add = true ∧
      ¬ Atomic labSite (opened .absent labTree) add) ∧
    fails labSite t sync = true ∧
      ((perform labSite t sync).2.mirrors.get? "a").map (·.lastSync) = some (some 1) ∧
      ¬ Atomic labSite t sync := by
  intro add sync t
  have hadd : fails labSite (opened .absent labTree) add = true := by decide +kernel
  have hsync : fails labSite t sync = true := by decide +kernel
  have hregistered : ((perform labSite (opened .absent labTree) add).2.mirrors.get? "a").isSome :=
    by decide +kernel
  have hmarked : ((perform labSite t sync).2.mirrors.get? "a").map (·.lastSync) =
    some (some 1) := by decide +kernel
  have hunmarked : (t.mirrors.get? "a").map (·.lastSync) = some none := by decide +kernel
  refine ⟨⟨hadd, fun h => ?_⟩, hsync, hmarked, fun h => ?_⟩
  · rw [(h hadd).1] at hregistered
    cases hregistered
  · rw [(h hsync).1, hunmarked] at hmarked
    cases hmarked

end

end RepoManager

end TftpOS
