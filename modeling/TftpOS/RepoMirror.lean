import Mathlib.Algebra.Order.Ring.Rat
import Mathlib.Data.List.DropRight
import TftpOS.Lib.Run
import TftpOS.Python.Os

/-!
# Repository mirrors

`RepoManager` of `tftpos/repo_mirror.py`: the mirrors it keeps in memory, the file
`mirrors.json` and the tree below it. The file, a sibling of the directory of all mirrors, is
held apart from the tree, as the list of mirrors it spells. The commands `rsync` and `wget` are
actions on the tree that change nothing outside the directory they are given.

In a tree without links, a mirror is kept below the directory of all mirrors. Two mirrors are kept
apart exactly when none was added at, below or above the directory of another one
(`mirrors_apart_iff`), and as long as they are, removing or syncing one of them leaves the files of
the others alone.
-/

namespace TftpOS

open Lib

/-- `RepoMirror`. -/
structure RepoMirror where
  name : String
  sourceUrl : String
  localPath : String
  syncInterval : ℤ := 86400
  lastSync : Option ℚ := none
  deriving DecidableEq

/-- `SyncResult`. -/
structure SyncResult where
  mirrorName : String
  success : Bool
  startedAt : ℚ
  finishedAt : ℚ
  error : String := ""

/-- What `mirrors.json` holds. -/
inductive MirrorsFile where
  | absent
  | torn
  | mirrors (l : List RepoMirror)

/-- The manager, with the file and the tree it works on. -/
structure RepoManager where
  mirrors : Dict String RepoMirror := ∅
  file : MirrorsFile := .absent
  fs : FS

/-- Where a manager works: the interpreter, the current directory and the data directory it was
given. -/
structure RepoSite where
  py : StrLib
  /-- The scheme and the network location `urlparse` finds; `none` is a `ValueError`. -/
  urlparse : String → Option (String × String)
  cwd : Loc String
  dataDir : String
  clean : CleanLoc cwd

/-- How a write of `mirrors.json` fails: before it has touched the file, or on the way, with all of
the text but its final newline written or less. -/
inductive SaveFault where
  | early (e : PyExc)
  | late (e : PyExc) (complete : Bool)

/-- `url.rstrip("/")`. -/
def rstripSlash (url : String) : String := String.ofList (url.toList.rdropWhile (· = '/'))

/-- The command of `_sync_rsync`. -/
def rsyncCommand (url : String) (dest : PyPath) : List String :=
  ["rsync", "-avz", "--delete", rstripSlash url ++ "/", pathText dest ++ "/"]

/-- The command of `_sync_wget`. -/
def wgetCommand (url : String) (dest : PyPath) : List String :=
  ["wget", "--mirror", "--no-parent", "--no-host-directories", "--directory-prefix",
    pathText dest, "--cut-dirs=99", rstripSlash url ++ "/"]

/-- `subprocess.run(cmd, check=True)` in a tree without links: a command works in the directory it
is given. -/
structure Subprocess (cwd : Loc String) where
  run : List String → Action PyExc FS Unit
  noLinks : ∀ cmd fs, fs.NoLinks → ((run cmd).run fs).2.NoLinks
  rsync_within : ∀ url dest fs l m, CleanPath dest → locate cwd fs dest = .ok l → ¬ l <:+ m →
    ((run (rsyncCommand url dest)).run fs).2.get? m = fs.get? m
  wget_within : ∀ url dest fs l m, CleanPath dest → locate cwd fs dest = .ok l → ¬ l <:+ m →
    ((run (wgetCommand url dest)).run fs).2.get? m = fs.get? m

/-- What a call of `sync_mirror` meets: its clock readings, the command it runs, and how its
directory and its file fail. -/
structure SyncWeather (cwd : Loc String) where
  onStart : ℚ
  onSynced : ℚ
  onFinish : ℚ
  mkdirFault : Option PyExc := none
  process : Subprocess cwd
  saveFault : Option SaveFault := none

/-- `_validate_mirror_name`. -/
def validateMirrorName (py : StrLib) (name : String) : Except PyExc Unit :=
  if !reLine (fun cs => isSafeName cs && cs.length ≤ 128) name then
    .error ⟨.valueError, "invalid mirror name: " ++ py.repr name ++
      " (must start with alphanumeric, 1-128 chars, only alphanumeric/dot/hyphen/underscore)"⟩
  else if hasDotDot name then
    .error ⟨.valueError, "path traversal detected in mirror name: " ++ py.repr name⟩
  else .ok ()

/-- `_ALLOWED_SCHEMES`, sorted. -/
def allowedSchemes : List String := ["ftp", "http", "https", "rsync"]

namespace RepoManager

section

variable (site : RepoSite)

/-- `_validate_source_url`. -/
def validateSourceUrl (url : String) : Except PyExc Unit :=
  match site.urlparse url with
  | none => .error ⟨.valueError, "invalid source URL: " ++ site.py.repr url⟩
  | some (scheme, netloc) =>
    if scheme ∉ allowedSchemes then
      .error ⟨.valueError, "unsupported URL scheme " ++ site.py.repr scheme ++ " in " ++
        site.py.repr url ++ "; allowed: " ++ ", ".intercalate allowedSchemes⟩
    else if netloc = "" then
      .error ⟨.valueError, "source URL must include a host: " ++ site.py.repr url⟩
    else .ok ()

/-- `_mirrors_root`. -/
def mirrorsRoot : PyPath := joinPath (parsePath site.dataDir) "mirrors"

/-- The path that `add_mirror` looks at: the one it was given, if that is absolute. -/
def givenPath (mirror : RepoMirror) : PyPath :=
  let path := parsePath mirror.localPath
  if path.absolute then path else joinPath (mirrorsRoot site) mirror.name

/-- The path that `add_mirror` stores. -/
def storedPath (fs : FS) (mirror : RepoMirror) : Except PyExc PyPath := do
  let path := givenPath site mirror
  let resolved ← realpath site.cwd site.py fs path
  let root ← realpath site.cwd site.py fs (mirrorsRoot site)
  if startsWith (pathText (absPath resolved)) (pathText (absPath root) ++ "/") ∨
      resolved = root then
    return path
  else return joinPath (mirrorsRoot site) mirror.name

/-- An action on the tree. -/
def onTree {α : Type} (x : Action PyExc FS α) : Action PyExc RepoManager α :=
  .zoom (·.fs) (fun fs t => { t with fs }) x

/-- `_save`. -/
def save (fault : Option SaveFault) : Action PyExc RepoManager Unit := do
  onTree (mkdir site.cwd (parsePath site.dataDir))
  match fault with
  | none => .modify fun t => .ok { t with file := .mirrors t.mirrors.values }
  | some (.early e) => throw e
  | some (.late e complete) => do
    .modify fun t => .ok { t with file := if complete then .mirrors t.mirrors.values else .torn }
    throw e

/-- `add_mirror`. -/
def addMirror (mirror : RepoMirror) (fault : Option SaveFault) :
    Action PyExc RepoManager RepoMirror := do
  .read fun _ => validateMirrorName site.py mirror.name
  .read fun _ => validateSourceUrl site mirror.sourceUrl
  .read fun t =>
    if t.mirrors.contains mirror.name then
      .error ⟨.valueError, "mirror " ++ site.py.repr mirror.name ++ " already exists"⟩
    else .ok ()
  let path ← .read fun t => storedPath site t.fs mirror
  let stored := { mirror with localPath := pathText path }
  .modify fun t => .ok { t with mirrors := t.mirrors.set mirror.name stored }
  save site fault
  return stored

/-- `remove_mirror`. -/
def removeMirror (name : String) (fault : Option SaveFault) : Action PyExc RepoManager Bool := do
  .read fun _ => validateMirrorName site.py name
  match ← .read fun t => .ok (t.mirrors.get? name) with
  | none => return false
  | some mirror => do
    .modify fun t => .ok { t with mirrors := t.mirrors.del name }
    save site fault
    let path := parsePath mirror.localPath
    .modify fun t => .ok <|
      if pathExists site.cwd t.fs path ∧ pathIsDir site.cwd t.fs path then
        { t with fs := rmtree site.cwd path t.fs }
      else t
    return true

/-- The command that `sync_mirror` runs. -/
def syncCommand (mirror : RepoMirror) : List String :=
  if startsWith mirror.sourceUrl "rsync://" then
    rsyncCommand mirror.sourceUrl (parsePath mirror.localPath)
  else wgetCommand mirror.sourceUrl (parsePath mirror.localPath)

/-- What `sync_mirror` does between `try` and `except`. -/
def syncGuarded (name : String) (mirror : RepoMirror) (weather : SyncWeather site.cwd) :
    Action PyExc RepoManager SyncResult := do
  onTree (weather.process.run (syncCommand mirror))
  let synced := { mirror with lastSync := some weather.onSynced }
  .modify fun t => .ok { t with mirrors := t.mirrors.set name synced }
  save site weather.saveFault
  return ⟨name, true, weather.onStart, weather.onFinish, ""⟩

/-- `sync_mirror`. -/
def syncMirror (name : String) (weather : SyncWeather site.cwd) :
    Action PyExc RepoManager SyncResult := do
  .read fun _ => validateMirrorName site.py name
  match ← .read fun t => .ok (t.mirrors.get? name) with
  | none => throw ⟨.valueError, "mirror " ++ site.py.repr name ++ " not found"⟩
  | some mirror => do
    match weather.mkdirFault with
    | some e => throw e
    | none => onTree (mkdir site.cwd (parsePath mirror.localPath))
    try syncGuarded site name mirror weather
    catch e =>
      if e.cls = .calledProcessError ∨ e.cls.isOSError then
        pure ⟨name, false, weather.onStart, weather.onFinish, e.msg⟩
      else throw e

/-- A call on the manager. -/
inductive Op where
  | add (mirror : RepoMirror) (fault : Option SaveFault)
  | remove (name : String) (fault : Option SaveFault)
  | sync (name : String) (weather : SyncWeather site.cwd)

/-- Perform a call; the outcome tells an exception from a value. -/
def step (t : RepoManager) : Op site → Except PyExc Unit × RepoManager
  | .add mirror fault => ((addMirror site mirror fault).run t).map (·.map fun _ => ()) id
  | .remove name fault => ((removeMirror site name fault).run t).map (·.map fun _ => ()) id
  | .sync name weather => ((syncMirror site name weather).run t).map (·.map fun _ => ()) id

/-! ### Where the mirrors are -/

/-- The directory of all mirrors. -/
def rootDir : Loc String := abspath site.cwd (mirrorsRoot site)

/-- The directory of a mirror, where its path resolves in a tree without links. -/
def dirOf (mirror : RepoMirror) : Loc String := abspath site.cwd (parsePath mirror.localPath)

/-- The directory a mirror asks for: the one of its path, if that is absolute and leads to the
directory of all mirrors or below it, and else the one of its name. -/
def requestedDir (mirror : RepoMirror) : Loc String :=
  if (parsePath mirror.localPath).absolute ∧ rootDir site <:+ dirOf site mirror then
    dirOf site mirror
  else mirror.name :: rootDir site

/-- A call to `add_mirror` passes the checks, and its paths resolve. -/
structure Accepts (t : RepoManager) (mirror : RepoMirror) : Prop where
  name : validateMirrorName site.py mirror.name = .ok ()
  url : validateSourceUrl site mirror.sourceUrl = .ok ()
  fresh : t.mirrors.get? mirror.name = none
  given : ∃ l, realpath site.cwd site.py t.fs (givenPath site mirror) = .ok l
  root : ∃ l, realpath site.cwd site.py t.fs (mirrorsRoot site) = .ok l

variable {site} {t t' : RepoManager} {mirror : RepoMirror} {name : String} {fs : FS} {p : PyPath}

private theorem cleanName_mirrors : CleanName "mirrors" := by
  refine ⟨?_, ?_, ?_, ?_⟩ <;> decide

theorem cleanName_of_validateMirrorName {py : StrLib} (h : validateMirrorName py name = .ok ()) :
    CleanName name := by
  have hsafe : ∀ cs, isSafeName cs = true → ∃ c cs', cs = c :: cs' ∧ c.isAlphanum = true ∧
      ∀ x ∈ cs', x ≠ '/' := by
    rintro (_ | ⟨c, cs'⟩) h
    · cases h
    · rw [isSafeName, Bool.and_eq_true, List.all_eq_true] at h
      refine ⟨c, cs', rfl, h.1, ?_⟩
      rintro x hx rfl
      exact absurd (h.2 _ hx) (by decide)
  have hline : ∃ c cs, name.toList = c :: cs ∧ c.isAlphanum = true ∧ ∀ x ∈ cs, x ≠ '/' := by
    rw [validateMirrorName] at h
    split_ifs at h with hre
    rw [Bool.not_eq_true', Bool.not_eq_false] at hre
    rcases reLine_iff.mp hre with hname | ⟨line, rfl, hname⟩
    · exact hsafe _ (Bool.and_eq_true_iff.mp hname).1
    · -- a final newline is no slash
      obtain ⟨c, cs, hcs, hc, hall⟩ := hsafe _ (Bool.and_eq_true_iff.mp hname).1
      refine ⟨c, cs ++ ['\n'], by rw [String.toList_append, hcs]; rfl, hc, fun x hx => ?_⟩
      rcases List.mem_append.mp hx with hx | hx
      · exact hall x hx
      · rw [List.mem_singleton.mp hx]
        decide
  obtain ⟨c, cs, hcs, hc, hall⟩ := hline
  have hfirst : ∀ s : String, s.toList.head? ≠ some c → name ≠ s := by
    rintro s hs rfl
    rw [hcs] at hs
    exact hs rfl
  have hdot : c ≠ '.' := by
    rintro rfl
    exact absurd hc (by decide)
  have hslash : c ≠ '/' := by
    rintro rfl
    exact absurd hc (by decide)
  refine ⟨hfirst "" (by simp), hfirst "." (by simpa using hdot.symm),
    hfirst ".." (by simpa using hdot.symm), ?_⟩
  rw [hasChar, hcs, decide_eq_false_iff_not, List.mem_cons, not_or]
  exact ⟨hslash.symm, fun h => hall _ h rfl⟩

theorem abspath_joinPath (cwd : Loc String) (p : PyPath) (h : CleanName name) :
    abspath cwd (joinPath p name) = name :: abspath cwd p := by
  rw [joinPath, parsePath_of_cleanName h]
  simp [joinPaths, abspath, Path.base, List.foldl_append]

theorem cleanPath_joinPath (hp : CleanPath p) (h : CleanName name) :
    CleanPath (joinPath p name) := by
  rw [joinPath, parsePath_of_cleanName h]
  intro n hn
  rcases List.mem_append.mp hn with hn | hn
  · exact hp n hn
  · cases List.mem_singleton.mp hn
    exact h

theorem cleanPath_mirrorsRoot : CleanPath (mirrorsRoot site) :=
  cleanPath_joinPath (cleanPath_parsePath _) cleanName_mirrors

theorem rootDir_ne_nil : rootDir site ≠ [] := by
  rw [rootDir, mirrorsRoot, abspath_joinPath _ _ cleanName_mirrors]
  exact List.cons_ne_nil _ _

/-- **Where a mirror is stored**: in the directory it asks for. -/
theorem storedPath_eq_ok (hlinks : fs.NoLinks) (hname : CleanName mirror.name)
    (h : storedPath site fs mirror = .ok p) :
    CleanPath p ∧ abspath site.cwd p = requestedDir site mirror := by
  rw [storedPath] at h
  obtain ⟨l, hl, h⟩ := bind_eq_ok_iff.mp h
  obtain ⟨r, hr, h⟩ := bind_eq_ok_iff.mp h
  obtain rfl := realpath_eq_abspath hlinks hl
  obtain rfl := realpath_eq_abspath hlinks hr
  have hdefault : CleanPath (joinPath (mirrorsRoot site) mirror.name) ∧
      abspath site.cwd (joinPath (mirrorsRoot site) mirror.name) = mirror.name :: rootDir site :=
    ⟨cleanPath_joinPath cleanPath_mirrorsRoot hname, abspath_joinPath _ _ hname⟩
  by_cases habs : (parsePath mirror.localPath).absolute = true
  · have hgiven : givenPath site mirror = parsePath mirror.localPath := if_pos habs
    have hclean := cleanPath_parsePath mirror.localPath
    have hbelow := startsWith_pathText_iff (cleanLoc_abspath site.clean hclean)
      (cleanLoc_abspath site.clean cleanPath_mirrorsRoot) rootDir_ne_nil
    rw [hgiven] at h
    split_ifs at h with hcheck
    · have hunder : rootDir site <:+ dirOf site mirror := by
        rcases hcheck with hstart | heq
        · exact (hbelow.mp hstart).1
        · exact (show dirOf site mirror = rootDir site from heq) ▸ List.suffix_refl _
      obtain rfl := Except.ok.inj h
      exact ⟨hclean, (if_pos ⟨habs, hunder⟩).symm⟩
    · have hunder : ¬ rootDir site <:+ dirOf site mirror := by
        rw [hbelow, not_or] at hcheck
        exact fun hsuffix => hcheck.1 ⟨hsuffix, fun heq => hcheck.2 heq.symm⟩
      obtain rfl := Except.ok.inj h
      rw [requestedDir, if_neg fun hand => hunder hand.2]
      exact hdefault
  · have hgiven : givenPath site mirror = joinPath (mirrorsRoot site) mirror.name := if_neg habs
    rw [hgiven, ite_self] at h
    obtain rfl := Except.ok.inj h
    rw [requestedDir, if_neg fun hand => habs hand.1]
    exact hdefault

theorem accepts_of_storedPath (hname : validateMirrorName site.py mirror.name = .ok ())
    (hurl : validateSourceUrl site mirror.sourceUrl = .ok ())
    (hfresh : t.mirrors.get? mirror.name = none) (h : storedPath site t.fs mirror = .ok p) :
    Accepts site t mirror := by
  rw [storedPath] at h
  obtain ⟨l, hl, h⟩ := bind_eq_ok_iff.mp h
  obtain ⟨r, hr, -⟩ := bind_eq_ok_iff.mp h
  exact ⟨hname, hurl, hfresh, ⟨l, hl⟩, ⟨r, hr⟩⟩

theorem Accepts.storedPath (h : Accepts site t mirror) :
    ∃ p, storedPath site t.fs mirror = .ok p := by
  obtain ⟨l, hl⟩ := h.given
  obtain ⟨r, hr⟩ := h.root
  rw [RepoManager.storedPath, hl, ok_bind, hr, ok_bind]
  split_ifs
  · exact ⟨_, rfl⟩
  · exact ⟨_, rfl⟩

/-! ### What the calls do -/

theorem onTree_run {α : Type} (x : Action PyExc FS α) (t : RepoManager) :
    (onTree x).run t = ((x.run t.fs).1, { t with fs := (x.run t.fs).2 }) := rfl

variable (site) in
/-- `mkdir` returns. -/
def Makes (p : PyPath) (fs : FS) : Prop := ((mkdir site.cwd p).run fs).1.isOk = true

variable (site) in
/-- The tree that `mkdir` leaves, whether it returns or not. -/
def made (p : PyPath) (fs : FS) : FS := ((mkdir site.cwd p).run fs).2

theorem dirsMade_made (p : PyPath) (fs : FS) : DirsMade site.cwd p fs (made site p fs) :=
  (mkdir_spec rfl).1

theorem pathIsDir_made (h : Makes site p fs) : pathIsDir site.cwd (made site p fs) p = true := by
  rw [Makes] at h
  rcases hmk : (mkdir site.cwd p).run fs with ⟨e | u, fs₁⟩
  · rw [hmk] at h
    cases h
  · rw [made, hmk]
    exact (mkdir_spec hmk).2 rfl

theorem makes_iff_of_run {r : Except PyExc Unit} {fs₁ : FS}
    (h : (mkdir site.cwd p).run fs = (r, fs₁)) : Makes site p fs ↔ r.isOk = true := by
  rw [Makes, h]

theorem made_of_run {r : Except PyExc Unit} {fs₁ : FS}
    (h : (mkdir site.cwd p).run fs = (r, fs₁)) : made site p fs = fs₁ := by
  rw [made, h]

instance : Decidable (Makes site p fs) := inferInstanceAs (Decidable (_ = _))

variable (site) in
/-- `_save` raises: the data directory cannot be made, or the write fails. -/
def SaveFails (fs : FS) (fault : Option SaveFault) : Prop :=
  ¬ Makes site (parsePath site.dataDir) fs ∨ fault ≠ none

variable (site) in
/-- `mirrors.json` as `_save` leaves it. -/
def savedFile (t : RepoManager) (fault : Option SaveFault) : MirrorsFile :=
  if Makes site (parsePath site.dataDir) t.fs then
    match fault with
    | none => .mirrors t.mirrors.values
    | some (.early _) => t.file
    | some (.late _ complete) => if complete then .mirrors t.mirrors.values else .torn
  else t.file

variable (site) in
/-- The manager as `_save` leaves it. -/
def saved (t : RepoManager) (fault : Option SaveFault) : RepoManager :=
  { t with file := savedFile site t fault, fs := made site (parsePath site.dataDir) t.fs }

/-- **What `_save` does**. -/
theorem save_run (site : RepoSite) (t : RepoManager) (fault : Option SaveFault) :
    ∃ r, (save site fault).run t = (r, saved site t fault) ∧
      (r.isOk = true ↔ ¬ SaveFails site t.fs fault) := by
  rw [save.eq_def, saved, savedFile.eq_def, SaveFails]
  have htree := onTree_run (mkdir site.cwd (parsePath site.dataDir)) t
  rcases hmk : (mkdir site.cwd (parsePath site.dataDir)).run t.fs with ⟨e | u, fs₁⟩
  · have hnot : ¬ Makes site (parsePath site.dataDir) t.fs := by
      rw [makes_iff_of_run hmk]
      exact Bool.false_ne_true
    rw [hmk] at htree
    refine ⟨.error e, ?_, iff_of_false Bool.false_ne_true fun h => h (.inl hnot)⟩
    rw [Action.bind_of_error htree, if_neg hnot, made_of_run hmk]
  · have hmakes : Makes site (parsePath site.dataDir) t.fs := (makes_iff_of_run hmk).mpr rfl
    rw [hmk] at htree
    rw [Action.bind_of_ok htree, if_pos hmakes, made_of_run hmk]
    have hfails : ∀ {f : SaveFault}, ¬ ¬ (¬ Makes site (parsePath site.dataDir) t.fs ∨
        some f ≠ none) := fun h => h (.inr (Option.some_ne_none _))
    rcases fault with _ | (e | ⟨e, complete⟩)
    · exact ⟨.ok (), rfl, iff_of_true rfl fun h => h.elim (· hmakes) (· rfl)⟩
    · exact ⟨.error e, rfl, iff_of_false Bool.false_ne_true hfails⟩
    · exact ⟨.error e, rfl, iff_of_false Bool.false_ne_true hfails⟩

/-- **What `add_mirror` does**: it raises and changes nothing, or it registers the mirror at its
path and saves. -/
theorem addMirror_run (site : RepoSite) (t : RepoManager) (mirror : RepoMirror)
    (fault : Option SaveFault) :
    (¬ Accepts site t mirror ∧ ∃ e, (addMirror site mirror fault).run t = (.error e, t)) ∨
      ∃ p, storedPath site t.fs mirror = .ok p ∧ Accepts site t mirror ∧
        ∃ r, (addMirror site mirror fault).run t = (r, saved site { t with
            mirrors := t.mirrors.set mirror.name { mirror with localPath := pathText p } } fault) ∧
          (r.isOk = true ↔ ¬ SaveFails site t.fs fault) := by
  rw [addMirror]
  -- one case for each check, in their order
  rcases hname : validateMirrorName site.py mirror.name with e | u
  · exact .inl ⟨fun ha => by simp [ha.name] at hname, e, Action.bind_of_error rfl⟩
  rw [Action.bind_of_ok rfl]
  rcases hurl : validateSourceUrl site mirror.sourceUrl with e | u
  · exact .inl ⟨fun ha => by simp [ha.url] at hurl, e, Action.bind_of_error rfl⟩
  rw [Action.bind_of_ok rfl]
  by_cases hcontains : t.mirrors.contains mirror.name = true
  · rw [Action.bind_of_error (by rw [Action.run_read, if_pos hcontains])]
    refine .inl ⟨fun ha => ?_, _, rfl⟩
    rw [Dict.contains_eq_isSome, ha.fresh] at hcontains
    cases hcontains
  rw [Action.bind_of_ok (by rw [Action.run_read, if_neg hcontains])]
  have hfresh : t.mirrors.get? mirror.name = none := by
    simpa [Dict.contains_eq_isSome] using hcontains
  rcases hpath : storedPath site t.fs mirror with e | p
  · refine .inl ⟨fun ha => ?_, e, Action.bind_of_error (congrArg (·, t) hpath)⟩
    obtain ⟨p, hp⟩ := ha.storedPath
    rw [hp] at hpath
    cases hpath
  rw [Action.bind_of_ok (by rw [Action.run_read, hpath])]
  refine .inr ⟨p, rfl, accepts_of_storedPath hname hurl hfresh hpath, ?_⟩
  dsimp only
  rw [Action.bind_of_ok rfl]
  -- whether the save raises or not, the mirror stays registered
  obtain ⟨r, hsave, hr⟩ := save_run site { t with
    mirrors := t.mirrors.set mirror.name { mirror with localPath := pathText p } } fault
  rcases r with e | u
  · exact ⟨.error e, Action.bind_of_error hsave, hr⟩
  · exact ⟨.ok _, Action.bind_of_ok hsave, hr⟩

/-- What `add_mirror` leaves: what was there, or the mirror registered at its path. -/
theorem addMirror_cases (site : RepoSite) (t : RepoManager) (mirror : RepoMirror)
    (fault : Option SaveFault) :
    let t' := (step site t (.add mirror fault)).2
    (t' = t ∧ ¬ Accepts site t mirror) ∨
      ∃ p, storedPath site t.fs mirror = .ok p ∧ Accepts site t mirror ∧
        t'.mirrors = t.mirrors.set mirror.name { mirror with localPath := pathText p } ∧
        DirsMade site.cwd (parsePath site.dataDir) t.fs t'.fs := by
  rcases addMirror_run site t mirror fault with
    ⟨hnot, e, hrun⟩ | ⟨p, hp, haccepts, r, hrun, -⟩
  · rw [step, hrun]
    exact .inl ⟨rfl, hnot⟩
  · rw [step, hrun]
    exact .inr ⟨p, hp, haccepts, rfl, dirsMade_made _ _⟩

/-- **What `remove_mirror` does**: nothing, or it drops the mirror and saves, and then removes the
directory if there is one. -/
theorem removeMirror_run (site : RepoSite) (t : RepoManager) (name : String)
    (fault : Option SaveFault) :
    (¬ (validateMirrorName site.py name = .ok () ∧ ∃ mirror, t.mirrors.get? name = some mirror) ∧
      ∃ r, (removeMirror site name fault).run t = (r, t)) ∨
      ∃ mirror, validateMirrorName site.py name = .ok () ∧ t.mirrors.get? name = some mirror ∧
        let t₁ := saved site { t with mirrors := t.mirrors.del name } fault
        (SaveFails site t.fs fault ∧ ∃ e, (removeMirror site name fault).run t = (.error e, t₁)) ∨
          ¬ SaveFails site t.fs fault ∧ ∃ fs,
            (removeMirror site name fault).run t = (.ok true, { t₁ with fs }) ∧
            (fs = t₁.fs ∨ fs = rmtree site.cwd (parsePath mirror.localPath) t₁.fs) := by
  rw [removeMirror]
  rcases hname : validateMirrorName site.py name with e | u
  · exact .inl ⟨fun h => (nomatch h.1), .error e, Action.bind_of_error rfl⟩
  rw [Action.bind_of_ok rfl, Action.bind_of_ok rfl]
  rcases hget : t.mirrors.get? name with _ | mirror
  · exact .inl ⟨fun h => (nomatch h.2), _, rfl⟩
  refine .inr ⟨mirror, rfl, rfl, ?_⟩
  dsimp only
  rw [Action.bind_of_ok rfl]
  obtain ⟨r, hsave, hr⟩ := save_run site { t with mirrors := t.mirrors.del name } fault
  rcases r with e | u
  · refine .inl ⟨?_, e, Action.bind_of_error hsave⟩
    exact by_contra fun h => Bool.false_ne_true (hr.mpr h)
  · refine .inr ⟨hr.mp rfl, ?_⟩
    rw [Action.bind_of_ok hsave, Action.bind_of_ok rfl]
    split_ifs
    · exact ⟨_, rfl, .inr rfl⟩
    · exact ⟨_, rfl, .inl rfl⟩

/-- What `remove_mirror` leaves: what was there, or it without the mirror and perhaps without its
directory. -/
theorem removeMirror_cases (site : RepoSite) (t : RepoManager) (name : String)
    (fault : Option SaveFault) :
    let t' := (step site t (.remove name fault)).2
    t' = t ∨ ∃ mirror, t.mirrors.get? name = some mirror ∧ t'.mirrors = t.mirrors.del name ∧
      ∃ fs₁, DirsMade site.cwd (parsePath site.dataDir) t.fs fs₁ ∧
        (t'.fs = fs₁ ∨ t'.fs = rmtree site.cwd (parsePath mirror.localPath) fs₁) := by
  rcases removeMirror_run site t name fault with
    ⟨-, r, hrun⟩ | ⟨mirror, -, hget, ⟨-, e, hrun⟩ | ⟨-, fs₂, hrun, hfs⟩⟩
  · rw [step, hrun]
    exact .inl rfl
  · rw [step, hrun]
    exact .inr ⟨mirror, hget, rfl, _, dirsMade_made _ _, .inl rfl⟩
  · rw [step, hrun]
    exact .inr ⟨mirror, hget, rfl, _, dirsMade_made _ _, hfs⟩

/-- The tree after a command that ran for a mirror. -/
def treeAfter (weather : SyncWeather site.cwd) (mirror : RepoMirror) (fs : FS) : FS :=
  ((weather.process.run (syncCommand mirror)).run fs).2

/-- The command for a mirror returns. -/
def Copies (weather : SyncWeather site.cwd) (mirror : RepoMirror) (fs : FS) : Prop :=
  ((weather.process.run (syncCommand mirror)).run fs).1.isOk = true

/-- A call to `sync_mirror` gets as far as its save. -/
structure Transfers (t : RepoManager) (name : String) (weather : SyncWeather site.cwd)
    (mirror : RepoMirror) : Prop where
  valid : validateMirrorName site.py name = .ok ()
  found : t.mirrors.get? name = some mirror
  unhindered : weather.mkdirFault = none
  makes : Makes site (parsePath mirror.localPath) t.fs
  copies : Copies weather mirror (made site (parsePath mirror.localPath) t.fs)

/-- A call to `sync_mirror` reports that the mirror is in sync. -/
def reportsSync : Except PyExc SyncResult → Bool
  | .ok result => result.success
  | .error _ => false

variable (site) in
/-- The manager as `sync_mirror` sees it when it saves. -/
def beforeSave (t : RepoManager) (name : String) (weather : SyncWeather site.cwd)
    (mirror : RepoMirror) : RepoManager :=
  { t with
    mirrors := t.mirrors.set name { mirror with lastSync := some weather.onSynced }
    fs := treeAfter weather mirror (made site (parsePath mirror.localPath) t.fs) }

/-- What `sync_mirror` does once the directory is there. -/
theorem syncGuarded_run (site : RepoSite) (t : RepoManager) (name : String) (mirror : RepoMirror)
    (weather : SyncWeather site.cwd) :
    let fs₁ := treeAfter weather mirror t.fs
    let synced := { mirror with lastSync := some weather.onSynced }
    (¬ Copies weather mirror t.fs ∧
      ∃ e, (syncGuarded site name mirror weather).run t = (.error e, { t with fs := fs₁ })) ∨
      Copies weather mirror t.fs ∧ ∃ r, (syncGuarded site name mirror weather).run t =
        (r, saved site { t with mirrors := t.mirrors.set name synced, fs := fs₁ }
          weather.saveFault) ∧
        ((∃ result, r = .ok result ∧ result.success = true) ∨ ∃ e, r = .error e) ∧
        (r.isOk = true ↔ ¬ SaveFails site fs₁ weather.saveFault) := by
  rw [syncGuarded, Copies, treeAfter]
  have htree := onTree_run (weather.process.run (syncCommand mirror)) t
  rcases hrun : (weather.process.run (syncCommand mirror)).run t.fs with ⟨e | u, fs₁⟩
  · rw [hrun] at htree
    exact .inl ⟨Bool.false_ne_true, e, Action.bind_of_error htree⟩
  · rw [hrun] at htree
    refine .inr ⟨rfl, ?_⟩
    dsimp only
    rw [Action.bind_of_ok htree, Action.bind_of_ok rfl]
    obtain ⟨r, hsave, hr⟩ := save_run site { t with
      mirrors := t.mirrors.set name { mirror with lastSync := some weather.onSynced }
      fs := fs₁ } weather.saveFault
    rcases r with e | u
    · exact ⟨.error e, Action.bind_of_error hsave, .inr ⟨e, rfl⟩, hr⟩
    · exact ⟨.ok _, Action.bind_of_ok hsave, .inl ⟨_, rfl, rfl⟩, hr⟩

/-- A handler that turns exceptions into reports, or lets them through, changes what is reported
and nothing else. -/
theorem syncCaught_run (site : RepoSite) (t : RepoManager) (name : String) (mirror : RepoMirror)
    (weather : SyncWeather site.cwd) {handle : PyExc → Action PyExc RepoManager SyncResult}
    (hhandle : ∀ e t, ∃ r, (handle e).run t = (r, t) ∧ reportsSync r = false) :
    let fs₁ := treeAfter weather mirror t.fs
    let synced := { mirror with lastSync := some weather.onSynced }
    (¬ Copies weather mirror t.fs ∧ ∃ r,
      (tryCatch (syncGuarded site name mirror weather) handle).run t =
        (r, { t with fs := fs₁ }) ∧ reportsSync r = false) ∨
      Copies weather mirror t.fs ∧ ∃ r,
        (tryCatch (syncGuarded site name mirror weather) handle).run t =
          (r, saved site { t with mirrors := t.mirrors.set name synced, fs := fs₁ }
            weather.saveFault) ∧
        (reportsSync r = true ↔ ¬ SaveFails site fs₁ weather.saveFault) := by
  rcases syncGuarded_run site t name mirror weather with
    ⟨hnot, e, hrun⟩ | ⟨hcopies, r, hrun, ⟨result, rfl, hsuccess⟩ | ⟨e, rfl⟩, hr⟩
  · rw [Action.tryCatch_of_error hrun]
    exact .inl ⟨hnot, hhandle e _⟩
  · exact .inr ⟨hcopies, _, Action.tryCatch_of_ok hrun, iff_of_true hsuccess (hr.mp rfl)⟩
  · obtain ⟨r, hhandled, hreport⟩ := hhandle e (saved site { t with
      mirrors := t.mirrors.set name { mirror with lastSync := some weather.onSynced }
      fs := treeAfter weather mirror t.fs } weather.saveFault)
    refine .inr ⟨hcopies, r, (Action.tryCatch_of_error hrun).trans hhandled, ?_⟩
    rw [hreport]
    exact iff_of_false Bool.false_ne_true (mt hr.mpr Bool.false_ne_true)

/-- **What `sync_mirror` does**: it stops on the way, with the mirrors as they were, or it gets as
far as its save, and reports whether that one returns. -/
theorem syncMirror_run (site : RepoSite) (t : RepoManager) (name : String)
    (weather : SyncWeather site.cwd) :
    ((∀ mirror, ¬ Transfers t name weather mirror) ∧ ∃ r fs,
      (syncMirror site name weather).run t = (r, { t with fs }) ∧ reportsSync r = false ∧
      (fs = t.fs ∨ ∃ mirror, t.mirrors.get? name = some mirror ∧
        let fs₁ := made site (parsePath mirror.localPath) t.fs
        (fs = fs₁ ∨ Makes site (parsePath mirror.localPath) t.fs ∧
          fs = treeAfter weather mirror fs₁))) ∨
      ∃ mirror, Transfers t name weather mirror ∧ ∃ r, (syncMirror site name weather).run t =
        (r, saved site (beforeSave site t name weather mirror) weather.saveFault) ∧
        (reportsSync r = true ↔
          ¬ SaveFails site (beforeSave site t name weather mirror).fs weather.saveFault) := by
  rw [syncMirror]
  rcases hname : validateMirrorName site.py name with e | u
  · exact .inl ⟨fun mirror h => by simp [h.valid] at hname, .error e, t.fs,
      Action.bind_of_error rfl, rfl, .inl rfl⟩
  rw [Action.bind_of_ok rfl, Action.bind_of_ok rfl]
  rcases hget : t.mirrors.get? name with _ | mirror
  · exact .inl ⟨fun mirror h => by simp [h.found] at hget, _, t.fs, rfl, rfl, .inl rfl⟩
  have hself : ∀ mirror', Transfers t name weather mirror' → mirror' = mirror := fun mirror' h =>
    Option.some.inj (h.found.symm.trans hget)
  have hhandle : ∀ (e : PyExc) (t : RepoManager), ∃ r,
      (if e.cls = .calledProcessError ∨ e.cls.isOSError then
        pure ⟨name, false, weather.onStart, weather.onFinish, e.msg⟩
      else throw e : Action PyExc RepoManager SyncResult).run t = (r, t) ∧
        reportsSync r = false := by
    intro e t
    split_ifs
    · exact ⟨_, rfl, rfl⟩
    · exact ⟨_, rfl, rfl⟩
  dsimp only
  rcases hfault : weather.mkdirFault with _ | e
  · have htree := onTree_run (mkdir site.cwd (parsePath mirror.localPath)) t
    rcases hmk : (mkdir site.cwd (parsePath mirror.localPath)).run t.fs with ⟨e | u, fs₁⟩
    · rw [hmk] at htree
      refine .inl ⟨fun mirror' h => ?_, .error e, fs₁, Action.bind_of_error htree, rfl,
        .inr ⟨mirror, rfl, .inl (made_of_run hmk).symm⟩⟩
      obtain rfl := hself mirror' h
      exact Bool.false_ne_true ((makes_iff_of_run hmk).mp h.makes)
    · have hmakes : Makes site (parsePath mirror.localPath) t.fs := (makes_iff_of_run hmk).mpr rfl
      have hmade := made_of_run hmk
      rw [hmk] at htree
      rw [Action.bind_of_ok htree]
      rcases syncCaught_run site { t with fs := fs₁ } name mirror weather hhandle with
        ⟨hnot, r, hrun, hreport⟩ | ⟨hcopies, r, hrun, hr⟩
      · refine .inl ⟨fun mirror' h => ?_, r, _, hrun, hreport,
          .inr ⟨mirror, rfl, .inr ⟨hmakes, ?_⟩⟩⟩
        · obtain rfl := hself mirror' h
          exact hnot (hmade ▸ h.copies)
        · rw [hmade]
      · refine .inr ⟨mirror, ⟨hname, hget, hfault, hmakes, hmade ▸ hcopies⟩, r, ?_⟩
        rw [beforeSave, hmade]
        exact ⟨hrun, hr⟩
  · refine .inl ⟨fun mirror' h => ?_, .error e, t.fs, rfl, rfl, .inl rfl⟩
    rw [h.unhindered] at hfault
    cases hfault

/-- What `sync_mirror` leaves: what was there, or the directory of the mirror, in which a command
may have run. -/
theorem syncMirror_cases (site : RepoSite) (t : RepoManager) (name : String)
    (weather : SyncWeather site.cwd) :
    let t' := (step site t (.sync name weather)).2
    t' = t ∨ ∃ mirror, t.mirrors.get? name = some mirror ∧
      (t'.mirrors = t.mirrors ∨
        t'.mirrors = t.mirrors.set name { mirror with lastSync := some weather.onSynced }) ∧
      ∃ fs₁, DirsMade site.cwd (parsePath mirror.localPath) t.fs fs₁ ∧
        (t'.fs = fs₁ ∨ pathIsDir site.cwd fs₁ (parsePath mirror.localPath) = true ∧
          DirsMade site.cwd (parsePath site.dataDir) (treeAfter weather mirror fs₁) t'.fs) := by
  rcases syncMirror_run site t name weather with
    ⟨-, r, fs', hrun, -, rfl | ⟨mirror, hget, hfs⟩⟩ | ⟨mirror, htransfers, r, hrun, -⟩
  · rw [step, hrun]
    exact .inl rfl
  · rw [step, hrun]
    refine .inr ⟨mirror, hget, .inl rfl, _, dirsMade_made _ _, ?_⟩
    rcases hfs with rfl | ⟨hmakes, rfl⟩
    · exact .inl rfl
    · exact .inr ⟨pathIsDir_made hmakes, .refl _ _⟩
  · rw [step, hrun]
    exact .inr ⟨mirror, htransfers.found, .inr rfl, _, dirsMade_made _ _,
      .inr ⟨pathIsDir_made htransfers.makes, dirsMade_made _ _⟩⟩

/-! ### Directories kept apart -/

/-- Neither of two directories is in the other one. -/
def Apart (d d' : Loc String) : Prop := ¬ d <:+ d' ∧ ¬ d' <:+ d

/-- The directories of a family, each under a name, are apart. -/
def AllApart (f : String → Option (Loc String)) : Prop :=
  ∀ name name' d d', f name = some d → f name' = some d' → name ≠ name' → Apart d d'

theorem Apart.symm {d d' : Loc String} (h : Apart d d') : Apart d' d := ⟨h.2, h.1⟩

/-- Nothing is below two directories that are apart. -/
theorem Apart.not_suffix {d d' l : Loc String} (h : Apart d d') (hl : d' <:+ l) : ¬ d <:+ l :=
  fun hd => (List.suffix_or_suffix_of_suffix hd hl).elim h.1 h.2

theorem AllApart.update_none {f : String → Option (Loc String)} (h : AllApart f) (name : String) :
    AllApart (Function.update f name none) := by
  have hold : ∀ n d, Function.update f name none n = some d → f n = some d := by
    intro n d hn
    by_cases hname : n = name
    · subst hname
      simp at hn
    · rwa [Function.update_of_ne hname] at hn
  exact fun n n' d d' hn hn' => h n n' d d' (hold n d hn) (hold n' d' hn')

theorem allApart_update_some {f : String → Option (Loc String)} {d : Loc String} (h : AllApart f)
    (hname : f name = none) :
    AllApart (Function.update f name (some d)) ↔ ∀ n d', f n = some d' → Apart d d' := by
  have hne : ∀ n d', f n = some d' → n ≠ name := by
    rintro n d' hn rfl
    rw [hname] at hn
    cases hn
  constructor
  · intro hall n d' hn
    refine hall name n d d' (Function.update_self ..) ?_ (hne n d' hn).symm
    rw [Function.update_of_ne (hne n d' hn), hn]
  · intro hnew n n' e e' hn hn' hnn
    by_cases hn0 : n = name
    · subst hn0
      rw [Function.update_self, Option.some.injEq] at hn
      rw [Function.update_of_ne hnn.symm] at hn'
      exact hn ▸ hnew n' e' hn'
    · rw [Function.update_of_ne hn0] at hn
      by_cases hn0' : n' = name
      · subst hn0'
        rw [Function.update_self, Option.some.injEq] at hn'
        exact hn' ▸ (hnew n e hn).symm
      · rw [Function.update_of_ne hn0'] at hn'
        exact h n n' e e' hn hn' hnn

variable (site) in
/-- The directories of the registered mirrors, by name. -/
def dirs (t : RepoManager) : String → Option (Loc String) :=
  fun name => (t.mirrors.get? name).map (dirOf site)

theorem dirs_congr (h : t'.mirrors = t.mirrors) : dirs site t' = dirs site t := by
  funext n
  rw [dirs, h, dirs]

theorem dirs_of_set {m : Dict String RepoMirror} (h : t'.mirrors = m.set name mirror) :
    dirs site t' = Function.update (fun n => (m.get? n).map (dirOf site)) name
      (some (dirOf site mirror)) := by
  funext n
  by_cases hn : n = name
  · subst hn
    simp [dirs, h]
  · simp [dirs, h, hn, Dict.get?_set_of_ne hn]

/-- `add_mirror` registers the directory the mirror asks for. -/
theorem dirs_addMirror (fault : Option SaveFault) (hlinks : t.fs.NoLinks) :
    (Accepts site t mirror → dirs site (step site t (.add mirror fault)).2 =
      Function.update (dirs site t) mirror.name (some (requestedDir site mirror))) ∧
    (¬ Accepts site t mirror → dirs site (step site t (.add mirror fault)).2 = dirs site t) := by
  rcases addMirror_cases site t mirror fault with ⟨hsame, hnot⟩ | ⟨p, hp, haccepts, hmirrors, -⟩
  · rw [hsame]
    exact ⟨fun ha => absurd ha hnot, fun _ => rfl⟩
  · refine ⟨fun _ => ?_, fun hnot => absurd haccepts hnot⟩
    obtain ⟨hclean, habs⟩ :=
      storedPath_eq_ok hlinks (cleanName_of_validateMirrorName haccepts.name) hp
    have hdir : dirOf site { mirror with localPath := pathText p } = requestedDir site mirror := by
      rw [dirOf, parsePath_pathText hclean, habs]
    rw [dirs_of_set hmirrors, hdir]
    rfl

theorem dirs_removeMirror (fault : Option SaveFault) :
    dirs site (step site t (.remove name fault)).2 = dirs site t ∨
      dirs site (step site t (.remove name fault)).2 =
        Function.update (dirs site t) name none := by
  rcases removeMirror_cases site t name fault with hsame | ⟨mirror, -, hmirrors, -⟩
  · exact .inl (congrArg (dirs site) hsame)
  · refine .inr (funext fun n => ?_)
    by_cases hn : n = name
    · subst hn
      simp [dirs, hmirrors, Dict.get?_del]
    · simp [dirs, hmirrors, Dict.get?_del, hn]

theorem dirs_syncMirror {weather : SyncWeather site.cwd} :
    dirs site (step site t (.sync name weather)).2 = dirs site t := by
  rcases syncMirror_cases site t name weather with hsame | ⟨mirror, hget, hsame | hsynced, -⟩
  · rw [hsame]
  · exact dirs_congr hsame
  · rw [dirs_of_set hsynced]
    exact Function.update_eq_iff.mpr ⟨by simp [dirs, hget, dirOf], fun _ _ => rfl⟩

/-! ### What the calls leave alone -/

/-- The mirror a call is about. -/
def Op.target : Op site → String
  | .add mirror _ => mirror.name
  | .remove name _ => name
  | .sync name _ => name

theorem noLinks_treeAfter {weather : SyncWeather site.cwd} (hlinks : fs.NoLinks) :
    (treeAfter weather mirror fs).NoLinks :=
  weather.process.noLinks _ _ hlinks

/-- A command changes nothing outside the directory of its mirror. -/
theorem get?_treeAfter {weather : SyncWeather site.cwd} {l : Loc String} (hlinks : fs.NoLinks)
    (hdir : pathIsDir site.cwd fs (parsePath mirror.localPath) = true)
    (hl : ¬ dirOf site mirror <:+ l) : (treeAfter weather mirror fs).get? l = fs.get? l := by
  obtain ⟨d, hd, -⟩ := pathIsDir_iff.mp hdir
  have hlocate := locate_eq_ok.mpr hd
  have hclean := cleanPath_parsePath mirror.localPath
  have hd' : ¬ d <:+ l := by rwa [locate_eq_abspath hlinks hlocate]
  rw [treeAfter, syncCommand]
  split_ifs
  · exact weather.process.rsync_within _ _ fs d l hclean hlocate hd'
  · exact weather.process.wget_within _ _ fs d l hclean hlocate hd'

/-- **A call only changes files of its own mirror**, in a tree without links. -/
theorem step_tree (hlinks : t.fs.NoLinks) (op : Op site) :
    (step site t op).2.fs.NoLinks ∧
      ∀ l, (∀ d, dirs site t op.target = some d → ¬ d <:+ l) →
        (step site t op).2.fs.bytes? l = t.fs.bytes? l := by
  cases op with
  | add mirror fault =>
    rcases addMirror_cases site t mirror fault with ⟨hsame, -⟩ | ⟨p, -, -, -, hmade⟩
    · rw [hsame]
      exact ⟨hlinks, fun _ _ => rfl⟩
    · exact ⟨hmade.noLinks hlinks, fun l _ => hmade.bytes?_eq l⟩
  | remove name fault =>
    rcases removeMirror_cases site t name fault with
      hsame | ⟨mirror, hget, -, fs₁, hmade, hkept | hremoved⟩
    · rw [hsame]
      exact ⟨hlinks, fun _ _ => rfl⟩
    · rw [hkept]
      exact ⟨hmade.noLinks hlinks, fun l _ => hmade.bytes?_eq l⟩
    · rw [hremoved]
      refine ⟨noLinks_rmtree (hmade.noLinks hlinks), fun l hl => ?_⟩
      have hl' : ¬ dirOf site mirror <:+ l := hl _ (by rw [Op.target, dirs, hget]; rfl)
      rw [FileSystem.bytes?_congr (get?_rmtree (hmade.noLinks hlinks) hl'), hmade.bytes?_eq]
  | sync name weather =>
    rcases syncMirror_cases site t name weather with
      hsame | ⟨mirror, hget, -, fs₁, hmade, hkept | ⟨hdir, hmade'⟩⟩
    · rw [hsame]
      exact ⟨hlinks, fun _ _ => rfl⟩
    · rw [hkept]
      exact ⟨hmade.noLinks hlinks, fun l _ => hmade.bytes?_eq l⟩
    · have hlinks₁ := hmade.noLinks hlinks
      refine ⟨hmade'.noLinks (noLinks_treeAfter hlinks₁), fun l hl => ?_⟩
      have hl' : ¬ dirOf site mirror <:+ l := hl _ (by rw [Op.target, dirs, hget]; rfl)
      rw [hmade'.bytes?_eq, FileSystem.bytes?_congr (get?_treeAfter hlinks₁ hdir hl'),
        hmade.bytes?_eq]

variable (site) in
/-- The mirrors are apart, and no call about one of them changes a file of another one. -/
structure KeptApart (t : RepoManager) : Prop where
  apart : AllApart (dirs site t)
  untouched : ∀ op name d, name ≠ Op.target op → dirs site t name = some d →
    ∀ l, d <:+ l → (step site t op).2.fs.bytes? l = t.fs.bytes? l

variable (site) in
/-- A mirror is only added in a directory apart from those of all mirrors there are. -/
def Clear (t : RepoManager) : Op site → Prop
  | .add mirror _ => Accepts site t mirror →
    ∀ name d, dirs site t name = some d → Apart (requestedDir site mirror) d
  | _ => True

theorem keptApart_iff (hlinks : t.fs.NoLinks) : KeptApart site t ↔ AllApart (dirs site t) := by
  refine ⟨fun h => h.apart, fun h => ⟨h, fun op name d hne hd l hl => ?_⟩⟩
  refine (step_tree hlinks op).2 l fun d' hd' => ?_
  exact (h _ _ _ _ hd' hd hne.symm).not_suffix hl

theorem allApart_step_iff (hlinks : t.fs.NoLinks) (hapart : AllApart (dirs site t)) (op : Op site) :
    AllApart (dirs site (step site t op).2) ↔ Clear site t op := by
  cases op with
  | add mirror fault =>
    obtain ⟨hregistered, hrefused⟩ := dirs_addMirror fault hlinks
    by_cases ha : Accepts site t mirror
    · have hfree : dirs site t mirror.name = none := by
        rw [dirs, ha.fresh]
        rfl
      rw [hregistered ha, allApart_update_some hapart hfree]
      exact ⟨fun h _ => h, fun h => h ha⟩
    · rw [hrefused ha]
      exact iff_of_true hapart fun h => absurd h ha
  | remove name fault =>
    refine iff_of_true ?_ trivial
    rcases dirs_removeMirror fault with h | h
    · rwa [h]
    · rw [h]
      exact hapart.update_none name
  | sync name weather =>
    rw [dirs_syncMirror]
    exact iff_of_true hapart trivial

/-- **When the mirrors are kept apart.** From no mirrors and no `mirrors.json`, in a tree without
links: whatever is called and whatever fails, the directories of the mirrors stay apart, and no
call about one mirror changes a file of another one, if and only if every mirror that is added asks
for a directory apart from those of the mirrors there are. -/
theorem mirrors_apart_iff (site : RepoSite) (fs : FS) (hlinks : fs.NoLinks) (ops : List (Op site)) :
    (∀ pre, pre <+: ops → KeptApart site (run (step site) { fs } pre)) ↔
      ∀ pre op, pre ++ [op] <+: ops → Clear site (run (step site) { fs } pre) op := by
  have hstart : AllApart (dirs site { fs }) := fun _ _ _ _ h => by cases h
  have hinv : ∀ (t : RepoManager) op, t.fs.NoLinks → (step site t op).2.fs.NoLinks :=
    fun t op h => (step_tree h op).1
  refine forall_run_iff hinv (fun t op h hgood => ?_) (s := { fs }) hlinks
    ((keptApart_iff hlinks).mpr hstart) ops
  rw [keptApart_iff (step_tree h op).1]
  exact allApart_step_iff h hgood.apart op

/-- Two mirrors that leave the choice of their directories to the manager are apart. -/
theorem apart_of_default {n n' : String} (h : n ≠ n') :
    Apart (n :: rootDir site) (n' :: rootDir site) := by
  have hnot : ∀ {m m' : String}, m ≠ m' → ¬ m :: rootDir site <:+ m' :: rootDir site := by
    intro m m' hne hsuffix
    have heq := hsuffix.eq_of_length (by simp)
    exact hne (List.cons.inj heq).1
  exact ⟨hnot h, hnot h.symm⟩

end

/-! ### A mirror in the directory of another one -/

/-- A manager on `/srv` for mirrors of one host. -/
def labSite : RepoSite where
  py := .ascii
  urlparse _ := some ("rsync", "lab")
  cwd := []
  dataDir := "/srv"
  clean := fun _ h => absurd h List.not_mem_nil

def labTree : FS :=
  .ofNodes [(["srv"], .dir), (["mirrors", "srv"], .dir), (["a", "mirrors", "srv"], .dir),
    (["sub", "a", "mirrors", "srv"], .dir), (["pkg", "sub", "a", "mirrors", "srv"], .file [1])]

def labMirror (name localPath : String) : RepoMirror where
  name := name
  sourceUrl := "rsync://lab/repo/"
  localPath := localPath

/-- A mirror added in the directory of another one goes when that one is removed. -/
theorem nested_mirror_removed :
    let t := run (step labSite) { fs := labTree }
      [.add (labMirror "a" "") none, .add (labMirror "b" "/srv/mirrors/a/sub") none]
    t.fs.bytes? ["pkg", "sub", "a", "mirrors", "srv"] = some [1] ∧
      (step labSite t (.remove "a" none)).2.fs.bytes? ["pkg", "sub", "a", "mirrors", "srv"] = none ∧
      ¬ KeptApart labSite t := by
  have hbefore : (run (step labSite) { fs := labTree }
      [.add (labMirror "a" "") none, .add (labMirror "b" "/srv/mirrors/a/sub") none]).fs.bytes?
        ["pkg", "sub", "a", "mirrors", "srv"] = some [1] := by decide +kernel
  have hafter : (step labSite (run (step labSite) { fs := labTree }
      [.add (labMirror "a" "") none, .add (labMirror "b" "/srv/mirrors/a/sub") none])
        (.remove "a" none)).2.fs.bytes? ["pkg", "sub", "a", "mirrors", "srv"] = none := by
    decide +kernel
  have hdir : dirs labSite (run (step labSite) { fs := labTree }
      [.add (labMirror "a" "") none, .add (labMirror "b" "/srv/mirrors/a/sub") none]) "b" =
        some ["sub", "a", "mirrors", "srv"] := by decide +kernel
  refine ⟨hbefore, hafter, fun h => ?_⟩
  have huntouched := h.untouched (.remove "a" none) "b" _ (by decide) hdir
    ["pkg", "sub", "a", "mirrors", "srv"] (List.suffix_cons _ _)
  rw [hafter, hbefore] at huntouched
  cases huntouched

/-- A command that finds nothing to copy. -/
def idle (cwd : Loc String) : Subprocess cwd where
  run _ := pure ()
  noLinks _ _ h := h
  rsync_within _ _ _ _ _ _ _ _ := rfl
  wget_within _ _ _ _ _ _ _ _ := rfl

/-- Two mirrors with a file each. -/
private def pairNodes : List (Loc String × Node String Bytes) :=
  [(["srv"], .dir), (["mirrors", "srv"], .dir), (["a", "mirrors", "srv"], .dir),
    (["pkg", "a", "mirrors", "srv"], .file [1]), (["b", "mirrors", "srv"], .dir),
    (["pkg", "b", "mirrors", "srv"], .file [2])]

/-- Both are added where the manager puts them, one is synced, and the other is removed. -/
private def pairCalls : List (Op labSite) :=
  [.add (labMirror "a" "") none, .add (labMirror "b" "") none,
    .sync "b" ⟨0, 1, 2, none, idle labSite.cwd, none⟩, .remove "a" none]

theorem mirrors_apart_iff_pair :
    (∀ pre, pre <+: pairCalls →
        KeptApart labSite (run (step labSite) { fs := .ofNodes pairNodes } pre)) ∧
      (run (step labSite) { fs := .ofNodes pairNodes } pairCalls).fs.bytes?
        ["pkg", "a", "mirrors", "srv"] = none ∧
      (run (step labSite) { fs := .ofNodes pairNodes } pairCalls).fs.bytes?
        ["pkg", "b", "mirrors", "srv"] = some [2] := by
  have hlinks : (FileSystem.ofNodes pairNodes).NoLinks :=
    FileSystem.noLinks_ofNodes (by simp [pairNodes])
  refine ⟨(mirrors_apart_iff labSite (.ofNodes pairNodes) hlinks pairCalls).mpr ?_,
    by decide +kernel, by decide +kernel⟩
  refine forall_steps_cons.mpr ⟨fun _ name d hd => (by cases hd), forall_steps_cons.mpr
    ⟨fun _ name d hd => ?_, forall_steps_cons.mpr ⟨trivial, forall_steps_cons.mpr ⟨trivial,
      fun pre op hpre => by simp at hpre⟩⟩⟩⟩
  -- only the first mirror is there, in the directory of its name
  by_cases ha : Accepts labSite { fs := .ofNodes pairNodes } (labMirror "a" "")
  · rw [run_cons, run_nil, (dirs_addMirror none hlinks).1 ha, Function.update_apply] at hd
    split_ifs at hd
    · obtain rfl := Option.some.inj hd
      exact apart_of_default (by decide)
    · cases hd
  · rw [run_cons, run_nil, (dirs_addMirror none hlinks).2 ha] at hd
    cases hd

end RepoManager

end TftpOS
