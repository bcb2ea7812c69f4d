import TftpOS.Lib.Actions
import TftpOS.Lib.Resolution
import TftpOS.Python.Text
import TftpOS.Python.Value

/-!
# Paths and the file system

The parts of `os`, `pathlib`, `shutil` and `tempfile` that the sources call, over a file system
with symbolic links. `locate` is the kernel's walk, strict in every component; `realpath` is
the lenient one of `Path.resolve`; `abspath` looks at nothing but the text of the path. Calls
that name an entry rather than what it leads to go through `entry`, which does not follow the
last component.

`Reaches` says where the kernel's walk ends and bounds what it looks up on the way.
-/

namespace TftpOS

open Lib

/-- A file system of named files. -/
abbrev FS := FileSystem String Bytes

/-- A `pathlib` path. -/
abbrev PyPath := Lib.Path String

/-! ### Paths as text -/

/-- A component of a path as it is written; empty components and `.` stand for nothing. -/
def parseComp (cs : List Char) : Option (Comp String) :=
  if cs = [] ∨ cs = ['.'] then none
  else if cs = ['.', '.'] then some .up
  else some (.name (String.ofList cs))

/-- `Path(s)`. -/
def parsePath (s : String) : PyPath where
  absolute := startsWith s "/"
  comps := (s.toList.splitOn '/').filterMap parseComp

/-- A component as it is printed. -/
def compText : Comp String → String
  | .up => ".."
  | .name n => n

/-- `str(p)`. -/
def pathText (p : PyPath) : String :=
  let body := "/".intercalate (p.comps.map compText)
  if p.absolute then "/" ++ body else if p.comps = [] then "." else body

/-- `p / q` for two paths. -/
def joinPaths (p q : PyPath) : PyPath :=
  if q.absolute then q else ⟨p.absolute, p.comps ++ q.comps⟩

/-- `p / s`. -/
def joinPath (p : PyPath) (s : String) : PyPath := joinPaths p (parsePath s)

/-- The path of a name in a directory. -/
def child (p : PyPath) (n : String) : PyPath := ⟨p.absolute, p.comps ++ [.name n]⟩

/-- `p.parent`. -/
def parentPath (p : PyPath) : PyPath := ⟨p.absolute, p.comps.dropLast⟩

/-- `p.name`. -/
def pathName (p : PyPath) : String :=
  match p.comps.getLast? with
  | some c => compText c
  | none => ""

/-- The path of a location, without links and steps up. -/
def absPath (l : Loc String) : PyPath := ⟨true, l.reverse.map .name⟩

/-- `os.path.commonpath` of two absolute paths. -/
def commonpath (a b : Loc String) : Loc String :=
  (((a.reverse.zip b.reverse).takeWhile fun (x, y) => x = y).map Prod.fst).reverse

/-- A null byte is in a name of the path. -/
def hasNul (p : PyPath) : Bool := p.comps.any fun c => hasChar '\x00' (compText c)

/-! ### Paths read back -/

/-- A name as a component of a path can spell it. -/
def CleanName (n : String) : Prop := n ≠ "" ∧ n ≠ "." ∧ n ≠ ".." ∧ hasChar '/' n = false

/-- No name of the path is empty, a dot or two, or has a slash. -/
def CleanPath (p : PyPath) : Prop := ∀ n, .name n ∈ p.comps → CleanName n

theorem parseComp_compText {c : Comp String} (h : ∀ n, c = .name n → CleanName n) :
    parseComp (compText c).toList = some c := by
  cases c with
  | up => rfl
  | name n =>
    obtain ⟨h0, h1, h2, -⟩ := h n rfl
    have h0' : n.toList ≠ [] := fun h => h0 (String.toList_inj.mp h)
    have h1' : n.toList ≠ ['.'] := fun h => h1 (String.toList_inj.mp h)
    have h2' : n.toList ≠ ['.', '.'] := fun h => h2 (String.toList_inj.mp h)
    rw [parseComp, compText, if_neg (by simp [h0', h1']), if_neg h2', String.ofList_toList]

private theorem not_mem_of_mem_splitOn {α : Type} [DecidableEq α] {a : α} {xs l : List α}
    (h : l ∈ xs.splitOn a) : a ∉ l := by
  induction xs generalizing l with
  | nil => simp_all
  | cons x xs ih =>
    rw [List.splitOn_cons_eq_if_modifyHead] at h
    split_ifs at h with hx
    · rcases List.mem_cons.mp h with rfl | h
      · simp
      · exact ih h
    · rcases hsplit : xs.splitOn a with _ | ⟨y, ys⟩
      · exact absurd hsplit (List.splitOn_ne_nil a xs)
      · rw [hsplit, List.modifyHead_cons] at h
        rw [hsplit] at ih
        rcases List.mem_cons.mp h with rfl | h
        · have hy := ih (List.mem_cons_self ..)
          have hne : a ≠ x := fun hax => hx (by simp [hax])
          simp [hne, hy]
        · exact ih (List.mem_cons_of_mem _ h)

theorem cleanPath_parsePath (s : String) : CleanPath (parsePath s) := by
  intro n hn
  obtain ⟨cs, hcs, hparse⟩ := List.mem_filterMap.mp hn
  rw [parseComp] at hparse
  split_ifs at hparse with h0 h2
  · cases hparse
  cases hparse
  have hne : ∀ t : String, cs ≠ t.toList → String.ofList cs ≠ t := fun t ht heq =>
    ht (by rw [← heq, String.toList_ofList])
  rw [not_or] at h0
  refine ⟨hne "" h0.1, hne "." h0.2, hne ".." h2, ?_⟩
  simpa [hasChar] using not_mem_of_mem_splitOn hcs

theorem filterMap_parseComp {p : PyPath} (h : CleanPath p) :
    ((p.comps.map compText).map String.toList).filterMap parseComp = p.comps := by
  rw [List.map_map, List.filterMap_map]
  have hcomp : ∀ c ∈ p.comps, (parseComp ∘ String.toList ∘ compText) c = some c :=
    fun c hc => parseComp_compText fun n hn => h n (hn ▸ hc)
  rw [List.filterMap_congr hcomp, List.filterMap_some]

theorem splitOn_intercalate_compText {comps : List (Comp String)}
    (h : ∀ n, .name n ∈ comps → CleanName n) (hne : comps ≠ []) :
    ("/".intercalate (comps.map compText)).toList.splitOn '/' =
      (comps.map compText).map String.toList := by
  have hslash : ∀ l ∈ (comps.map compText).map String.toList, '/' ∉ l := by
    intro l hl
    obtain ⟨s, hs, rfl⟩ := List.mem_map.mp hl
    obtain ⟨c, hc, rfl⟩ := List.mem_map.mp hs
    cases c with
    | up => decide
    | name n => simpa [hasChar, compText] using (h n hc).2.2.2
  rw [String.toList_intercalate]
  exact List.splitOn_intercalate '/' hslash (by simpa using hne)

/-- The text of a relative path starts with its first component, which has no slash. -/
theorem not_slash_prefix_intercalate {comps : List (Comp String)}
    (h : ∀ n, .name n ∈ comps → CleanName n) (hne : comps ≠ []) :
    "/".toList.isPrefixOf ("/".intercalate (comps.map compText)).toList = false := by
  have hbody := splitOn_intercalate_compText h hne
  rcases hchars : ("/".intercalate (comps.map compText)).toList with _ | ⟨c, cs⟩
  · rfl
  · have hc : '/' ≠ c := by
      rintro rfl
      rw [hchars, List.splitOn_cons_eq_if_modifyHead, if_pos (by simp)] at hbody
      have hempty : [] ∈ (comps.map compText).map String.toList := hbody ▸ List.mem_cons_self ..
      obtain ⟨text, htext, hnil⟩ := List.mem_map.mp hempty
      obtain ⟨comp, hcomp, rfl⟩ := List.mem_map.mp htext
      have hparse := parseComp_compText fun n hn => h n (hn ▸ hcomp)
      rw [hnil] at hparse
      cases hparse
    simp [List.isPrefixOf, hc]

/-- A path is read back from its text. -/
theorem parsePath_pathText {p : PyPath} (h : CleanPath p) : parsePath (pathText p) = p := by
  obtain ⟨absolute, comps⟩ := p
  have hparse := filterMap_parseComp h
  by_cases hcomps : comps = []
  · subst hcomps
    cases absolute <;> rfl
  · have hbody := splitOn_intercalate_compText h hcomps
    cases absolute with
    | true =>
      have hlist : (pathText ⟨true, comps⟩).toList =
          '/' :: ("/".intercalate (comps.map compText)).toList := by
        have htext : pathText ⟨true, comps⟩ = "/" ++ "/".intercalate (comps.map compText) := rfl
        rw [htext, String.toList_append]
        rfl
      rw [parsePath, startsWith, hlist, List.splitOn_cons_eq_if_modifyHead, hbody, if_pos (by simp),
        List.filterMap_cons_none rfl, hparse]
      rfl
    | false =>
      have htext : pathText ⟨false, comps⟩ = "/".intercalate (comps.map compText) := by
        simp [pathText, hcomps]
      rw [parsePath, startsWith, htext, hbody, hparse, not_slash_prefix_intercalate h hcomps]

/-- A name is a path of one component. -/
theorem parsePath_of_cleanName {n : String} (h : CleanName n) :
    parsePath n = ⟨false, [.name n]⟩ := by
  have htext : pathText ⟨false, [.name n]⟩ = n := by simp [pathText, compText]
  have hclean : CleanPath ⟨false, [.name n]⟩ := by
    intro n' hn'
    cases List.mem_singleton.mp hn'
    exact h
  exact htext ▸ parsePath_pathText hclean

/-! ### Locations as text -/

/-- A location whose names are clean. -/
def CleanLoc (l : Loc String) : Prop := ∀ n ∈ l, CleanName n

/-- The text of names, each behind a slash. -/
private def slashed (ns : List String) : List Char := ns.flatMap fun n => '/' :: n.toList

private theorem toList_intercalate_slash (n : String) (ns : List String) :
    '/' :: ("/".intercalate (n :: ns)).toList = slashed (n :: ns) := by
  induction ns generalizing n with
  | nil => simp [slashed]
  | cons n' ns ih =>
    have hcons : slashed (n :: n' :: ns) = '/' :: n.toList ++ slashed (n' :: ns) := rfl
    rw [hcons, ← ih n', String.intercalate_cons_cons]
    simp

private theorem toList_pathText_absPath {l : Loc String} (hl : l ≠ []) :
    (pathText (absPath l)).toList = slashed l.reverse := by
  rcases hns : l.reverse with _ | ⟨n, ns⟩
  · exact absurd (List.reverse_eq_nil_iff.mp hns) hl
  · have htext : pathText (absPath l) = "/" ++ "/".intercalate (n :: ns) := by
      have hnames : compText ∘ Comp.name = id := rfl
      rw [pathText, absPath, hns, List.map_map, hnames, List.map_id]
      rfl
    rw [htext, String.toList_append, ← toList_intercalate_slash]
    rfl

/-- The text up to the first slash is the same in both. -/
private theorem append_prefix_append_iff {as bs xs ys : List Char} (has : '/' ∉ as)
    (hbs : '/' ∉ bs) (hxs : ∃ xs', xs = '/' :: xs') (hys : ys = [] ∨ ∃ ys', ys = '/' :: ys') :
    as ++ xs <+: bs ++ ys ↔ as = bs ∧ xs <+: ys := by
  have hpos : ∀ {cs : List Char}, '/' ∉ cs → ∀ c ∈ cs, decide (c ≠ '/') = true := by
    intro cs hcs c hc
    rw [decide_eq_true_iff]
    rintro rfl
    exact hcs hc
  have hstop : ∀ {cs : List Char}, cs = [] ∨ (∃ cs', cs = '/' :: cs') →
      cs.takeWhile (fun c => decide (c ≠ '/')) = [] := by
    rintro cs (rfl | ⟨cs', rfl⟩) <;> simp
  constructor
  · intro h
    have hsame : as = bs := by
      obtain ⟨rest, hrest⟩ := h
      obtain ⟨xs', rfl⟩ := hxs
      have htake := congrArg (List.takeWhile fun c => decide (c ≠ '/')) hrest
      rw [List.append_assoc, List.cons_append, List.takeWhile_append_of_pos (hpos has),
        List.takeWhile_append_of_pos (hpos hbs), hstop hys, hstop (.inr ⟨_, rfl⟩)] at htake
      simpa using htake
    subst hsame
    exact ⟨rfl, (List.prefix_append_right_inj as).mp h⟩
  · rintro ⟨rfl, h⟩
    exact (List.prefix_append_right_inj as).mpr h

private theorem slashed_prefix_iff {ns ms : List String} (hns : ∀ n ∈ ns, CleanName n)
    (hms : ∀ m ∈ ms, CleanName m) :
    slashed ms ++ ['/'] <+: slashed ns ↔ ms <+: ns ∧ ms ≠ ns := by
  induction ms generalizing ns with
  | nil => cases ns <;> simp [slashed]
  | cons m ms ih =>
    cases ns with
    | nil => simp [slashed]
    | cons n ns =>
      rw [List.forall_mem_cons] at hns hms
      have hslash : ∀ {k : String}, CleanName k → '/' ∉ k.toList := fun h => by
        simpa [hasChar] using h.2.2.2
      have hxs : ∃ xs, slashed ms ++ ['/'] = '/' :: xs := by
        cases ms <;> exact ⟨_, rfl⟩
      have hys : slashed ns = [] ∨ ∃ ys, slashed ns = '/' :: ys := by
        cases ns
        · exact .inl rfl
        · exact .inr ⟨_, rfl⟩
      have hcons : ∀ (k : String) (ks : List String),
          slashed (k :: ks) = '/' :: (k.toList ++ slashed ks) := fun _ _ => rfl
      rw [hcons, hcons, List.cons_append, List.cons_prefix_cons, List.append_assoc,
        append_prefix_append_iff (hslash hms.1) (hslash hns.1) hxs hys, ih hns.2 hms.2,
        List.cons_prefix_cons, String.toList_inj, ne_eq, ne_eq, List.cons.injEq]
      tauto

/-- The text of a location starts with that of another one and a slash exactly when it is below
it. -/
theorem startsWith_pathText_iff {l r : Loc String} (hl : CleanLoc l) (hr : CleanLoc r)
    (hroot : r ≠ []) :
    startsWith (pathText (absPath l)) (pathText (absPath r) ++ "/") = true ↔ r <:+ l ∧ r ≠ l := by
  have hclean : ∀ {k : Loc String}, CleanLoc k → ∀ n ∈ k.reverse, CleanName n :=
    fun h n hn => h n (List.mem_reverse.mp hn)
  rw [startsWith, List.isPrefixOf_iff_prefix, String.toList_append, toList_pathText_absPath hroot]
  by_cases hnil : l = []
  · subst hnil
    have htext : (pathText (absPath ([] : Loc String))).toList = ['/'] := rfl
    rw [htext]
    refine iff_of_false (fun h => ?_) fun h => h.2 (List.suffix_nil.mp h.1)
    -- the text of `r` has a name, so it is longer
    have hlength := h.length_le
    rcases hns : r.reverse with _ | ⟨n, ns⟩
    · exact hroot (List.reverse_eq_nil_iff.mp hns)
    · simp [hns, slashed] at hlength
  · have hslash : "/".toList = ['/'] := rfl
    rw [toList_pathText_absPath hnil, hslash, slashed_prefix_iff (hclean hl) (hclean hr),
      List.reverse_prefix, ne_eq, List.reverse_inj]

/-! ### Calls -/

/-- The exception of a failed walk. -/
def walkError : WalkError → PyExc
  | .missing => ⟨.fileNotFoundError, "No such file or directory"⟩
  | .notDir => ⟨.notADirectoryError, "Not a directory"⟩
  | .loop => ⟨.osError, "Too many levels of symbolic links"⟩

/-- The exception of a path with a null byte. -/
def nulError : PyExc := ⟨.valueError, "embedded null byte"⟩

section

variable (cwd : Loc String)

/-- `os.path.abspath(p)`. -/
def abspath (p : PyPath) : Loc String :=
  p.comps.foldl (fun
    | l, .up => l.tail
    | l, .name n => n :: l) (p.base cwd)

/-- What the kernel finds at a path. -/
def locate (fs : FS) (p : PyPath) : Except PyExc (Loc String) :=
  if hasNul p then .error nulError
  -- a relative path starts in a directory that may have been removed
  else if !fs.isDir (p.base cwd) then .error (walkError .missing)
  else (fs.resolve true (p.base cwd) p.comps).mapError walkError

/-- `p.resolve()`. -/
def realpath (py : StrLib) (fs : FS) (p : PyPath) : Except PyExc (Loc String) :=
  if hasNul p then .error nulError
  else if !fs.isDir (p.base cwd) then .error (walkError .missing)
  else
    (fs.resolve false (p.base cwd) p.comps).mapError fun _ =>
      ⟨.runtimeError, "Symlink loop from " ++ py.repr (pathText p)⟩

/-- `p.exists()`. -/
def pathExists (fs : FS) (p : PyPath) : Bool :=
  match locate cwd fs p with
  | .ok l => (fs.get? l).isSome
  | .error _ => false

/-- `p.is_dir()`. -/
def pathIsDir (fs : FS) (p : PyPath) : Bool :=
  match locate cwd fs p with
  | .ok l => fs.isDir l
  | .error _ => false

/-- `p.is_file()`. -/
def pathIsFile (fs : FS) (p : PyPath) : Bool :=
  match locate cwd fs p with
  | .ok l => (fs.bytes? l).isSome
  | .error _ => false

/-- `p.read_bytes()`. -/
def readBytes (fs : FS) (p : PyPath) : Except PyExc Bytes := do
  let l ← locate cwd fs p
  match fs.bytes? l with
  | some b => .ok b
  | none => .error ⟨.isADirectoryError, "Is a directory"⟩

/-- The directory and the name that a path ends with, which is not followed. The entries for a
step up cannot be changed. -/
def entry (fs : FS) (p : PyPath) : Except PyExc (Loc String × String) :=
  match p.comps.getLast? with
  | some (.name n) =>
    if hasNul p then .error nulError
    else do
      let d ← locate cwd fs (parentPath p)
      if fs.isDir d then .ok (d, n) else .error (walkError .notDir)
  | _ => .error ⟨.osError, "Device or resource busy"⟩

/-- Put a node at an entry, in place of a file or a link. -/
def putNode (fs : FS) (d : Loc String) (n : String) (node : Node String Bytes) :
    Except PyExc FS :=
  if h : fs.CanPut n d then .ok (fs.put n d node h)
  else .error ⟨.isADirectoryError, "Is a directory"⟩

/-- Put a node at an entry that is free. -/
def createNode (fs : FS) (d : Loc String) (n : String) (node : Node String Bytes) :
    Except PyExc FS :=
  if (fs.get? (n :: d)).isSome then .error ⟨.fileExistsError, "File exists"⟩
  else putNode fs d n node

/-- Remove the file or the link at a location. -/
def removeNode (fs : FS) (l : Loc String) : Except PyExc FS :=
  if (fs.get? l).isNone then .error (walkError .missing)
  else if h : fs.isDir l = false then .ok (fs.remove l h)
  else .error ⟨.isADirectoryError, "Is a directory"⟩

/-- `os.mkdir(p)`. -/
def osMkdir (p : PyPath) (fs : FS) : Except PyExc FS :=
  match p.comps.getLast? with
  | some (.name _) => do
    let (d, n) ← entry cwd fs p
    createNode fs d n .dir
  | _ => do
    let _ ← locate cwd fs p
    .error ⟨.fileExistsError, "File exists"⟩

/-- `os.symlink(target, p)`. -/
def osSymlink (target p : PyPath) (fs : FS) : Except PyExc FS := do
  let (d, n) ← entry cwd fs p
  createNode fs d n (.link target)

/-- `os.unlink(p)`. -/
def osUnlink (p : PyPath) (fs : FS) : Except PyExc FS := do
  let (d, n) ← entry cwd fs p
  removeNode fs (n :: d)

/-- `os.replace(src, dst)` for an entry that is no directory. -/
def osReplace (src dst : PyPath) (fs : FS) : Except PyExc FS := do
  let (d, n) ← entry cwd fs src
  let (d', n') ← entry cwd fs dst
  match fs.get? (n :: d) with
  | none => .error (walkError .missing)
  | some node =>
    if n :: d = n' :: d' then .ok fs
    else do
      let fs' ← putNode fs d' n' node
      removeNode fs' (n :: d)

/-- `open(p, "wb").write(b)` for a file that exists. -/
def writeBytes (p : PyPath) (b : Bytes) (fs : FS) : Except PyExc FS := do
  match ← locate cwd fs p with
  | n :: d => putNode fs d n (.file b)
  | [] => .error ⟨.isADirectoryError, "Is a directory"⟩

/-- `tempfile.mkstemp(dir=dir, prefix=pre)`, given the random parts of the names it tries: the
path of the file it creates. -/
def mkstemp (dir : PyPath) (pre : String) : List String → FS → Except PyExc (PyPath × FS)
  | [], _ => .error ⟨.fileExistsError, "No usable temporary file name found"⟩
  | c :: cs, fs =>
    let file := child (absPath (abspath cwd dir)) (pre ++ c)
    match entry cwd fs file with
    | .error e => .error e
    | .ok (d, n) =>
      -- a name that is taken is no error, the next one is tried
      if (fs.get? (n :: d)).isSome then mkstemp dir pre cs fs
      else (putNode fs d n (.file [])).map (file, ·)

/-- `shutil.copy2(src, dst)` onto a file that exists. A copy that fails on the way leaves what
it has written. -/
def copy2 (fault : Option (Bytes × PyExc)) (src dst : PyPath) : Action PyExc FS Unit := do
  let s ← .read (locate cwd · src)
  let d ← .read (locate cwd · dst)
  if s = d then throw ⟨.osError, pathText src ++ " and " ++ pathText dst ++ " are the same file"⟩
  let b ← .read (readBytes cwd · src)
  match fault with
  | some (written, e) => do
    .modify (writeBytes cwd dst written)
    throw e
  | none => .modify (writeBytes cwd dst b)

/-- `p.mkdir(exist_ok=True)`. -/
def mkdirExistOk (p : PyPath) : Action PyExc FS Unit := do
  try .modify (osMkdir cwd p)
  catch e =>
    -- `FileNotFoundError` is left to the caller; of the other `OSError`s, an existing directory
    -- excuses all
    let isDir ← .read fun fs => .ok (pathIsDir cwd fs p)
    if e.cls = .fileNotFoundError ∨ !e.cls.isOSError ∨ !isDir then throw e

/-- `p.mkdir(parents=True, exist_ok=True)` for the path whose components, last first, are given:
the parents that are missing are made first. -/
def mkdirParents (absolute : Bool) : List (Comp String) → Action PyExc FS Unit
  | [] => mkdirExistOk cwd ⟨absolute, []⟩
  | c :: cs => do
    let p : PyPath := ⟨absolute, (c :: cs).reverse⟩
    try mkdirExistOk cwd p
    catch e =>
      if e.cls = .fileNotFoundError then
        mkdirParents absolute cs
        mkdirExistOk cwd p
      else throw e

/-- `shutil.rmtree(p, ignore_errors=True)`. -/
def rmtree (p : PyPath) (fs : FS) : FS :=
  match locate cwd fs p with
  | .ok (n :: d) => fs.removeTree n d
  | _ => fs

/-- `p.mkdir(parents=True, exist_ok=True)`. -/
def mkdir (p : PyPath) : Action PyExc FS Unit := mkdirParents cwd p.absolute p.comps.reverse

/-! ### Where a path leads -/

/-- The kernel's walk along a path ends at `l`, and what it looks up on the way satisfies `ok`. -/
structure Reaches (fs : FS) (ok : Loc String → Prop) (p : PyPath) (l : Loc String) : Prop where
  nul : hasNul p = false
  base : fs.isDir (p.base cwd) = true
  leads : fs.Leads true ok (p.base cwd) p.comps l

variable {cwd} {fs fs' : FS} {ok : Loc String → Prop} {p q : PyPath} {l d : Loc String} {n : String}

theorem locate_eq_ok : locate cwd fs p = .ok l ↔ Reaches cwd fs (fun _ => True) p l := by
  rw [locate]
  constructor
  · intro h
    split_ifs at h with hnul hbase
    rcases hres : fs.resolve true (p.base cwd) p.comps with e | l'
    · rw [hres] at h
      cases h
    · rw [hres] at h
      obtain rfl := Except.ok.inj h
      exact ⟨by simpa using hnul, by simpa using hbase, FileSystem.resolve_eq_ok.mp hres⟩
  · rintro ⟨hnul, hbase, hleads⟩
    rw [hnul, hbase, FileSystem.resolve_eq_ok.mpr hleads]
    rfl

namespace Reaches

theorem anywhere (h : Reaches cwd fs ok p l) : Reaches cwd fs (fun _ => True) p l :=
  ⟨h.nul, h.base, h.leads.anywhere⟩

theorem unique {ok' : Loc String → Prop} {l' : Loc String} (h : Reaches cwd fs ok p l)
    (h' : Reaches cwd fs ok' p l') : l = l' :=
  h.leads.unique h'.leads

/-- Additions to the file system do not change where a path leads. -/
theorem extend (h : Reaches cwd fs ok p l) (hext : fs.Extends fs') : Reaches cwd fs' ok p l :=
  ⟨h.nul, hext.isDir h.base, h.leads.extend hext⟩

/-- Growth of the file system does not change where a path leads. -/
theorem grow (h : Reaches cwd fs ok p l) (hgrows : fs.Grows fs') : Reaches cwd fs' ok p l :=
  ⟨h.nul, hgrows.dirs _ h.base, h.leads.grow hgrows⟩

/-- Where a path leads does not depend on what it does not look up. -/
theorem transfer (h : Reaches cwd fs ok p l) (hget : ∀ m, ok m → fs'.get? m = fs.get? m)
    (hdirs : ∀ m, fs.isDir m = true → fs'.isDir m = true) : Reaches cwd fs' ok p l :=
  ⟨h.nul, hdirs _ h.base, h.leads.transfer hget hdirs⟩

/-- A path to a file looks the file up. -/
theorem ok_of_file (h : Reaches cwd fs ok p l) {b : Bytes} (hfile : fs.bytes? l = some b) :
    ok l :=
  h.leads.ok_of_file h.base hfile

end Reaches

theorem hasNul_child :
    hasNul (child p n) = false ↔ hasNul p = false ∧ hasChar '\x00' n = false := by
  simp [hasNul, child, compText]

/-- The path of a name leads where the name leads from the directory. -/
theorem reaches_child_iff : Reaches cwd fs ok (child p n) l ↔
    hasChar '\x00' n = false ∧ ∃ d, Reaches cwd fs ok p d ∧ fs.Leads true ok d [.name n] l := by
  constructor
  · rintro ⟨hnul, hbase, hleads⟩
    obtain ⟨d, hd, hl⟩ := FileSystem.Leads.append_iff.mp hleads
    obtain ⟨hnul, hn⟩ := hasNul_child.mp hnul
    exact ⟨hn, d, ⟨hnul, hbase, hd⟩, hl⟩
  · rintro ⟨hn, d, ⟨hnul, hbase, hd⟩, hl⟩
    exact ⟨hasNul_child.mpr ⟨hnul, hn⟩, hbase, FileSystem.Leads.append_iff.mpr ⟨d, hd, hl⟩⟩

theorem readBytes_eq_ok {b : Bytes} :
    readBytes cwd fs p = .ok b ↔
      ∃ l, Reaches cwd fs (fun _ => True) p l ∧ fs.bytes? l = some b := by
  rw [readBytes, bind_eq_ok_iff]
  refine exists_congr fun l => and_congr locate_eq_ok ?_
  rcases fs.bytes? l with _ | b' <;> simp

/-- Additions to the file system do not change what a path reads. -/
theorem readBytes_extend {b : Bytes} (h : readBytes cwd fs p = .ok b) (hext : fs.Extends fs') :
    readBytes cwd fs' p = .ok b := by
  obtain ⟨l, hl, hbytes⟩ := readBytes_eq_ok.mp h
  exact readBytes_eq_ok.mpr ⟨l, hl.extend hext, hext.bytes? hbytes⟩

theorem pathIsDir_iff :
    pathIsDir cwd fs p = true ↔
      ∃ l, Reaches cwd fs (fun _ => True) p l ∧ fs.isDir l = true := by
  simp only [← locate_eq_ok, pathIsDir]
  rcases locate cwd fs p with e | l <;> simp

/-- `resolve` of an absolute path finds a location without links. -/
theorem linkFree_of_realpath {py : StrLib} (h : realpath cwd py fs p = .ok l)
    (habs : p.absolute = true) : fs.LinkFree l := by
  rw [realpath] at h
  split_ifs at h
  rcases hres : fs.resolve false (p.base cwd) p.comps with e | l'
  · rw [hres] at h
    cases h
  · rw [hres] at h
    obtain rfl := Except.ok.inj h
    refine (FileSystem.resolve_eq_ok.mp hres).linkFree ?_
    rw [Path.base, habs, if_pos rfl]
    exact FileSystem.linkFree_root

/-- The path of a location without links leads there, if anywhere. -/
theorem Reaches.eq_of_linkFree {l' : Loc String} (h : Reaches cwd fs ok (absPath l) l')
    (hfree : fs.LinkFree l) : l' = l :=
  hfree.eq_of_leads h.leads

theorem pathIsFile_iff : pathIsFile cwd fs p = true ↔ ∃ b, readBytes cwd fs p = .ok b := by
  simp only [readBytes_eq_ok, ← locate_eq_ok, pathIsFile]
  rcases locate cwd fs p with e | l
  · simp
  · simp [Option.isSome_iff_exists]

/-- An absolute path without steps up is what it was made of. -/
theorem abspath_absPath (l : Loc String) : abspath cwd (absPath l) = l := by
  rw [abspath, absPath, List.foldl_map, Path.base, if_pos rfl]
  simp

theorem abspath_eq_foldl (cwd : Loc String) (p : PyPath) :
    abspath cwd p = p.comps.foldl FileSystem.stepText (p.base cwd) := by
  rw [abspath]
  congr 1
  funext l c
  cases c <;> rfl

/-- The names of an absolute path are those of the path and of the current directory. -/
theorem forall_mem_abspath {P : String → Prop} (hcwd : ∀ n ∈ cwd, P n)
    (hp : ∀ n, .name n ∈ p.comps → P n) : ∀ n ∈ abspath cwd p, P n := by
  have hfold : ∀ (cs : List (Comp String)) (l : Loc String), (∀ n, .name n ∈ cs → P n) →
      (∀ n ∈ l, P n) → ∀ n ∈ cs.foldl FileSystem.stepText l, P n := by
    intro cs
    induction cs with
    | nil => exact fun _ _ hl => hl
    | cons c cs ih =>
      intro l hcs hl
      refine ih _ (fun n hn => hcs n (List.mem_cons_of_mem _ hn)) ?_
      cases c with
      | up => exact fun n hn => hl n (List.mem_of_mem_tail hn)
      | name n => exact List.forall_mem_cons.mpr ⟨hcs n (List.mem_cons_self ..), hl⟩
  rw [abspath_eq_foldl]
  refine hfold _ _ hp ?_
  rw [Path.base]
  split_ifs
  · exact fun n hn => absurd hn (List.not_mem_nil)
  · exact hcwd

theorem cleanLoc_abspath (hcwd : CleanLoc cwd) (hp : CleanPath p) : CleanLoc (abspath cwd p) :=
  forall_mem_abspath hcwd hp

/-- Without links, `resolve` only looks at the text of the path. -/
theorem realpath_eq_abspath {py : StrLib} (hlinks : fs.NoLinks) (h : realpath cwd py fs p = .ok l) :
    l = abspath cwd p := by
  rw [realpath] at h
  split_ifs at h
  rcases hres : fs.resolve false (p.base cwd) p.comps with e | l'
  · rw [hres] at h
    cases h
  · rw [hres] at h
    obtain rfl := Except.ok.inj h
    rw [abspath_eq_foldl]
    exact hlinks.eq_of_leads (FileSystem.resolve_eq_ok.mp hres)

/-- Without links, a path leads where its text says, if anywhere. -/
theorem locate_eq_abspath (hlinks : fs.NoLinks) (h : locate cwd fs p = .ok l) :
    l = abspath cwd p := by
  rw [abspath_eq_foldl]
  exact hlinks.eq_of_leads (locate_eq_ok.mp h).leads

/-- Without links, a tree that is removed is the one below the text of its path. -/
theorem get?_rmtree (hlinks : fs.NoLinks) {m : Loc String} (hm : ¬ abspath cwd p <:+ m) :
    (rmtree cwd p fs).get? m = fs.get? m := by
  rcases hl : locate cwd fs p with e | (_ | ⟨n, d⟩)
  · rw [rmtree, hl]
  · rw [rmtree, hl]
  · rw [rmtree, hl, FileSystem.get?_removeTree, if_neg]
    rwa [locate_eq_abspath hlinks hl]

theorem noLinks_rmtree (hlinks : fs.NoLinks) : (rmtree cwd p fs).NoLinks := by
  rcases hl : locate cwd fs p with e | (_ | ⟨n, d⟩)
  · rwa [rmtree, hl]
  · rwa [rmtree, hl]
  · rw [rmtree, hl]
    intro m q hm
    rw [FileSystem.get?_removeTree] at hm
    split_ifs at hm
    exact hlinks m q hm

/-! ### Entries -/

theorem entry_child (h : Reaches cwd fs ok p d) (hdir : fs.isDir d = true)
    (hn : hasChar '\x00' n = false) : entry cwd fs (child p n) = .ok (d, n) := by
  have hparent : parentPath (child p n) = p := by simp [parentPath, child]
  have hlast : (child p n).comps.getLast? = some (.name n) := by simp [child]
  rw [entry, hlast, hparent]
  simp [hasNul_child.mpr ⟨h.nul, hn⟩, locate_eq_ok.mpr h.anywhere, hdir]

theorem entry_eq_ok (h : entry cwd fs p = .ok (d, n)) :
    ∃ q, p = child q n ∧ hasChar '\x00' n = false ∧ Reaches cwd fs (fun _ => True) q d ∧
      fs.isDir d = true := by
  rw [entry] at h
  split at h
  · next n' hlast =>
    split_ifs at h with hnul
    obtain ⟨d', hd', h⟩ := bind_eq_ok_iff.mp h
    split_ifs at h with hdir
    obtain ⟨rfl, rfl⟩ := Prod.mk.inj (Except.ok.inj h)
    -- a path is the path of its parent and its last name
    have hp : p = child (parentPath p) n' := by
      refine Lib.Path.ext rfl ?_
      exact (List.dropLast_append_getLast? _ hlast).symm
    rw [hp, Bool.not_eq_true, hasNul_child] at hnul
    exact ⟨parentPath p, hp, hnul.2, locate_eq_ok.mp hd', hdir⟩
  · cases h

theorem entry_extend (h : entry cwd fs p = .ok (d, n)) (hext : fs.Extends fs') :
    entry cwd fs' p = .ok (d, n) := by
  obtain ⟨q, rfl, hn, hq, hdir⟩ := entry_eq_ok h
  exact entry_child (hq.extend hext) (hext.isDir hdir) hn

theorem createNode_eq_ok {node : Node String Bytes} (h : createNode fs d n node = .ok fs') :
    fs.get? (n :: d) = none ∧ ∃ hput : fs.CanPut n d, fs' = fs.put n d node hput := by
  rw [createNode] at h
  split_ifs at h with hsome
  rw [putNode] at h
  split_ifs at h with hput
  exact ⟨by simpa using hsome, hput, (Except.ok.inj h).symm⟩

/-! ### Making directories -/

variable (cwd) in
/-- A directory that was made on the way of a path. -/
def MadeOn (p : PyPath) (fs fs' : FS) (m : Loc String) : Prop :=
  fs.get? m = none ∧ fs'.get? m = some .dir ∧
    ∃ cs, cs <+: p.comps ∧ Reaches cwd fs' (fun _ => True) ⟨p.absolute, cs⟩ m

variable (cwd) in
/-- Nothing changed but that directories on the way of a path were made. -/
def DirsMade (p : PyPath) (fs fs' : FS) : Prop :=
  ∀ m, fs'.get? m = fs.get? m ∨ MadeOn cwd p fs fs' m

namespace DirsMade

theorem refl (p : PyPath) (fs : FS) : DirsMade cwd p fs fs := fun _ => .inl rfl

theorem extension (h : DirsMade cwd p fs fs') : fs.Extends fs' := by
  intro m hm
  refine (h m).resolve_right ?_
  rintro ⟨hnone, -⟩
  rw [hnone] at hm
  cases hm

theorem grows (h : DirsMade cwd p fs fs') : fs.Grows fs' where
  nodes m hm := by
    rw [h.extension m hm]
    exact hm
  dirs m hm := h.extension.isDir hm
  links m q := by
    rcases h m with heq | ⟨hnone, hdir, -⟩
    · rw [heq]
    · rw [hdir, hnone]
      simp

/-- No file changed. -/
theorem bytes?_eq (h : DirsMade cwd p fs fs') (m : Loc String) : fs'.bytes? m = fs.bytes? m := by
  rcases h m with heq | ⟨hnone, hdir, -⟩
  · exact FileSystem.bytes?_congr heq
  · rw [FileSystem.bytes?, hdir, FileSystem.bytes?, hnone]

theorem noLinks (h : DirsMade cwd p fs fs') (hlinks : fs.NoLinks) : fs'.NoLinks := by
  intro m q hm
  rcases h m with heq | ⟨-, hdir, -⟩
  · exact hlinks m q (heq ▸ hm)
  · rw [hdir] at hm
    cases hm

theorem trans {fs'' : FS} (h : DirsMade cwd q fs fs') (h' : DirsMade cwd p fs' fs'')
    (habs : q.absolute = p.absolute) (hcomps : q.comps <+: p.comps) : DirsMade cwd p fs fs'' := by
  intro m
  rcases h m with heq | ⟨hnone, hdir, cs, hcs, hreach⟩
  · rw [MadeOn, ← heq]
    exact h' m
  · -- made in the first step: the second one left it there
    have hext : fs'.Extends fs'' := h'.extension
    have hreach' : Reaches cwd fs'' (fun _ => True) ⟨p.absolute, cs⟩ m := habs ▸ hreach.extend hext
    exact .inr ⟨hnone, hext.get?_of_some hdir, cs, hcs.trans hcomps, hreach'⟩

end DirsMade

/-- `os.mkdir` makes the one directory its path names. -/
theorem osMkdir_eq_ok (h : osMkdir cwd p fs = .ok fs') :
    DirsMade cwd p fs fs' ∧ pathIsDir cwd fs' p = true := by
  rw [osMkdir] at h
  split at h
  · obtain ⟨⟨d, n⟩, hentry, h⟩ := bind_eq_ok_iff.mp h
    obtain ⟨hfree, hput, rfl⟩ := createNode_eq_ok h
    obtain ⟨q, rfl, hn, hq, -⟩ := entry_eq_ok hentry
    have hext : fs.Extends (fs.put n d .dir hput) := FileSystem.extends_put hfree
    have hmade : (fs.put n d .dir hput).get? (n :: d) = some .dir := by simp
    have hleads : (fs.put n d .dir hput).Leads true (fun _ => True) d [.name n] (n :: d) :=
      .put_name (by simp)
    have hreach : Reaches cwd (fs.put n d .dir hput) (fun _ => True) (child q n) (n :: d) :=
      reaches_child_iff.mpr ⟨hn, d, hq.extend hext, hleads⟩
    refine ⟨fun m => ?_, pathIsDir_iff.mpr ⟨_, hreach, FileSystem.isDir_iff.mpr hmade⟩⟩
    by_cases hm : m = n :: d
    · subst hm
      exact .inr ⟨hfree, hmade, _, List.prefix_refl _, hreach⟩
    · exact .inl (FileSystem.get?_put_of_ne hm)
  · obtain ⟨l, -, h⟩ := bind_eq_ok_iff.mp h
    cases h

theorem mkdirExistOk_spec {r : Except PyExc Unit} (h : (mkdirExistOk cwd p).run fs = (r, fs')) :
    DirsMade cwd p fs fs' ∧ (r = .ok () → pathIsDir cwd fs' p = true) := by
  rw [mkdirExistOk] at h
  rcases hmk : osMkdir cwd p fs with e | fs''
  · rw [Action.tryCatch_of_error (Action.modify_of_error hmk), Action.bind_of_ok rfl] at h
    split_ifs at h with hraise
    · obtain ⟨rfl, rfl⟩ := Prod.mk.inj h
      exact ⟨.refl p fs, nofun⟩
    · obtain ⟨rfl, rfl⟩ := Prod.mk.inj h
      simp only [not_or, Bool.not_eq_true, Bool.not_eq_false'] at hraise
      exact ⟨.refl p fs, fun _ => hraise.2.2⟩
  · rw [Action.tryCatch_of_ok (Action.modify_of_ok hmk)] at h
    obtain ⟨rfl, rfl⟩ := Prod.mk.inj h
    obtain ⟨hmade, hdir⟩ := osMkdir_eq_ok hmk
    exact ⟨hmade, fun _ => hdir⟩

theorem mkdirParents_spec {absolute : Bool} {cs : List (Comp String)} {r : Except PyExc Unit}
    (h : (mkdirParents cwd absolute cs).run fs = (r, fs')) :
    DirsMade cwd ⟨absolute, cs.reverse⟩ fs fs' ∧
      (r = .ok () → pathIsDir cwd fs' ⟨absolute, cs.reverse⟩ = true) := by
  induction cs generalizing fs fs' r with
  | nil => exact mkdirExistOk_spec h
  | cons c cs ih =>
    rw [mkdirParents] at h
    rcases hmk : (mkdirExistOk cwd ⟨absolute, (c :: cs).reverse⟩).run fs with ⟨e | u, fs₁⟩
    · have hmade := (mkdirExistOk_spec hmk).1
      rw [Action.tryCatch_of_error hmk] at h
      split_ifs at h
      · -- a parent was missing: make the parents, then try again
        rcases hpar : (mkdirParents cwd absolute cs).run fs₁ with ⟨e' | u, fs₂⟩
        · rw [Action.bind_of_error hpar] at h
          obtain ⟨rfl, rfl⟩ := Prod.mk.inj h
          refine ⟨hmade.trans ?_ rfl (List.prefix_refl _), nofun⟩
          exact (ih hpar).1.trans (.refl _ _) rfl (by simp)
        · rw [Action.bind_of_ok hpar] at h
          obtain ⟨hmade', hdir⟩ := mkdirExistOk_spec h
          refine ⟨hmade.trans ?_ rfl (List.prefix_refl _), hdir⟩
          exact (ih hpar).1.trans hmade' rfl (by simp)
      · obtain ⟨rfl, rfl⟩ := Prod.mk.inj h
        exact ⟨hmade, nofun⟩
    · rw [Action.tryCatch_of_ok hmk] at h
      obtain ⟨rfl, rfl⟩ := Prod.mk.inj h
      exact mkdirExistOk_spec hmk

/-- **What `mkdir` does**: it makes directories on the way of its path, and when it returns the
path leads to a directory. -/
theorem mkdir_spec {r : Except PyExc Unit} (h : (mkdir cwd p).run fs = (r, fs')) :
    DirsMade cwd p fs fs' ∧ (r = .ok () → pathIsDir cwd fs' p = true) := by
  have hspec := mkdirParents_spec h
  rwa [List.reverse_reverse] at hspec

end

end TftpOS
