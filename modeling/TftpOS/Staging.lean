import TftpOS.Python.Os

/-!
# Staging

`tftpos/staging.py`: firmware files are placed in the directory that a TFTP daemon serves,
as links or as copies. A staged entry is built under a temporary name and then moved to its
target, so that a call which fails leaves the target as it was.

The calls that can fail for reasons outside the tree (links that the file system does not
have, moves across devices, full disks) do so as a `StageEnv` says.
-/

namespace TftpOS

open Lib

/-- What a call of `stage` meets outside the tree: the random parts of the temporary names it
tries, for the link and for the copy, and the exceptions of its calls. -/
structure StageEnv where
  candidates : List String
  symlinkFault : Option PyExc := none
  replaceFault : Option PyExc := none
  copyCandidates : List String
  copyFault : Option (Bytes × PyExc) := none
  copyReplaceFault : Option PyExc := none

/-- A call that raises when the environment says so. -/
def failing (fault : Option PyExc) (call : FS → Except PyExc FS) (fs : FS) : Except PyExc FS :=
  match fault with
  | some e => .error e
  | none => call fs

@[simp]
theorem failing_none (call : FS → Except PyExc FS) : failing none call = call := rfl

@[simp]
theorem failing_some (e : PyExc) (call : FS → Except PyExc FS) (fs : FS) :
    failing (some e) call fs = .error e := rfl

/-- `_safe_name`. -/
def safeName (py : StrLib) (name : String) : Except PyExc String :=
  let e : PyExc := ⟨.valueError, "unsafe staged filename: " ++ py.repr name⟩
  if hasChar '/' name then .error e
  else if name = "" ∨ name = "." ∨ name = ".." then .error e
  else if hasChar '\x00' name then .error e
  else .ok name

section

variable (cwd : Loc String) (py : StrLib)

/-- `_validate_under_root`. -/
def validateUnderRoot (fs : FS) (path root : PyPath) : Except PyExc Unit := do
  let parentResolved ← realpath cwd py fs (parentPath path)
  let rootResolved ← realpath cwd py fs root
  if commonpath parentResolved rootResolved ≠ rootResolved then
    .error ⟨.valueError,
      "path traversal detected: " ++ pathText path ++ " escapes " ++ pathText root⟩

/-- The clean-up of a failed staging. -/
def discard (tmpName : PyPath) : Action PyExc FS Unit := do
  try .modify (osUnlink cwd tmpName)
  catch e => if !e.cls.isOSError then throw e

/-- The calls that fill a temporary entry and move it; when they raise, it is removed. -/
def guarded (tmpName : PyPath) (calls : Action PyExc FS Unit) : Action PyExc FS Unit := do
  try calls
  catch e =>
    discard cwd tmpName
    throw e

/-- The calls of the link branch of `stage` once the temporary name is free. -/
def linkAndMove (env : StageEnv) (firmwarePath tmpName target : PyPath) :
    Action PyExc FS Unit := do
  let source := absPath (abspath cwd firmwarePath)
  .modify (failing env.symlinkFault (osSymlink cwd source tmpName))
  .modify (failing env.replaceFault (osReplace cwd tmpName target))

/-- The link branch of `stage`. -/
def stageLink (env : StageEnv) (firmwarePath tftpRoot target : PyPath) : Action PyExc FS Unit := do
  let tmpName ← .change (mkstemp cwd tftpRoot ".stage-" env.candidates)
  .modify (osUnlink cwd tmpName)
  guarded cwd tmpName (linkAndMove cwd env firmwarePath tmpName target)

/-- The calls of the copy branch of `stage` on its temporary file. -/
def copyAndMove (env : StageEnv) (firmwarePath tmpName target : PyPath) :
    Action PyExc FS Unit := do
  copy2 cwd env.copyFault firmwarePath tmpName
  .modify (failing env.copyReplaceFault (osReplace cwd tmpName target))

/-- The copy branch of `stage`, which the link branch falls back to. -/
def stageCopy (env : StageEnv) (firmwarePath tftpRoot target : PyPath) : Action PyExc FS Unit := do
  let tmpName ← .change (mkstemp cwd tftpRoot ".stage-" env.copyCandidates)
  guarded cwd tmpName (copyAndMove cwd env firmwarePath tmpName target)

/-- Put the link or the copy at the target. -/
def stageEntry (env : StageEnv) (firmwarePath tftpRoot target : PyPath) (symlink : Bool) :
    Action PyExc FS Unit := do
  if symlink then
    try stageLink cwd env firmwarePath tftpRoot target
    catch e =>
      -- links may not be supported: fall back to a copy
      if e.cls.isOSError then stageCopy cwd env firmwarePath tftpRoot target else throw e
  else stageCopy cwd env firmwarePath tftpRoot target

/-- The checks of a firmware path. -/
def checkFirmware (fs : FS) (firmwarePath : PyPath) : Except PyExc Unit :=
  if !pathExists cwd fs firmwarePath then
    .error ⟨.fileNotFoundError, "firmware file not found: " ++ pathText firmwarePath⟩
  else if pathIsDir cwd fs firmwarePath then
    .error ⟨.isADirectoryError, "firmware path is a directory: " ++ pathText firmwarePath⟩
  else .ok ()

/-- `stage`. -/
def stage (env : StageEnv) (firmwarePath tftpRoot : PyPath) (name : Option String)
    (symlink : Bool) : Action PyExc FS PyPath := do
  .read fun fs => checkFirmware cwd fs firmwarePath
  let safe ← .read fun _ => safeName py (name.getD (pathName firmwarePath))
  mkdir cwd tftpRoot
  let target := joinPath tftpRoot safe
  .read fun fs => validateUnderRoot cwd py fs target tftpRoot
  stageEntry cwd env firmwarePath tftpRoot target symlink
  return target

end

section

variable {cwd : Loc String} {py : StrLib} {env : StageEnv} {fs fs' : FS}
  {firmwarePath tftpRoot tmpName target : PyPath} {d R : Loc String} {n safe : String}

/-! ### Temporary entries -/

/-- `mkstemp` creates an empty file under a name that was free. -/
theorem mkstemp_eq_ok {dir : PyPath} {pre : String} {cs : List String}
    (h : mkstemp cwd dir pre cs fs = .ok (tmpName, fs')) :
    ∃ d n, entry cwd fs tmpName = .ok (d, n) ∧ fs.get? (n :: d) = none ∧
      ∃ hput : fs.CanPut n d, fs' = fs.put n d (.file []) hput := by
  induction cs with
  | nil => cases h
  | cons c cs ih =>
    rw [mkstemp] at h
    rcases hentry : entry cwd fs (child (absPath (abspath cwd dir)) (pre ++ c)) with e | ⟨d, n⟩
    · simp only [hentry] at h
      cases h
    · simp only [hentry] at h
      split_ifs at h with hsome
      · exact ih h
      · obtain ⟨fs'', hfs'', hres⟩ := map_eq_ok_iff.mp h
        obtain ⟨rfl, rfl⟩ := Prod.mk.inj hres
        rw [putNode] at hfs''
        split_ifs at hfs'' with hput
        exact ⟨d, n, hentry, by simpa using hsome, hput, (Except.ok.inj hfs'').symm⟩

/-- A temporary entry is moved to a target in its place. -/
theorem osReplace_tmp {node : Node String Bytes} (hnode : node ≠ .dir)
    (htmp : entry cwd fs tmpName = .ok (d, n)) (hfree : fs.get? (n :: d) = none)
    (htarget : entry cwd fs target = .ok (R, safe)) (hput : fs.CanPut n d) :
    osReplace cwd tmpName target (fs.put n d node hput) =
      if h : fs.CanPut safe R then .ok (fs.put safe R node h)
      else .error ⟨.isADirectoryError, "Is a directory"⟩ := by
  have hext : fs.Extends (fs.put n d node hput) := FileSystem.extends_put hfree
  have hget : (fs.put n d node hput).get? (n :: d) = some node := by simp
  rw [osReplace, entry_extend htmp hext, entry_extend htarget hext]
  simp only [ok_bind, hget]
  split_ifs with heq h h
  · -- the temporary entry is the target: nothing is moved
    obtain ⟨rfl, rfl⟩ := List.cons.inj heq
    rfl
  · obtain ⟨rfl, rfl⟩ := List.cons.inj heq
    exact absurd hput h
  · have hcan : (fs.put n d node hput).CanPut safe R := by
      rw [FileSystem.CanPut, FileSystem.isDir_put hnode, FileSystem.isDir_put hnode]
      exact h
    have hdir : ((fs.put n d node hput).put safe R node hcan).isDir (n :: d) = false := by
      rw [FileSystem.isDir_put hnode, FileSystem.isDir_put hnode]
      exact hput.2
    rw [putNode, dif_pos hcan, ok_bind, removeNode, if_neg, dif_pos hdir,
      FileSystem.remove_put_put hfree heq]
    rw [FileSystem.get?_put, if_neg heq, hget]
    simp
  · have hcan : ¬(fs.put n d node hput).CanPut safe R := by
      rw [FileSystem.CanPut, FileSystem.isDir_put hnode, FileSystem.isDir_put hnode]
      exact h
    rw [putNode, dif_neg hcan]
    rfl

/-- The move of a temporary entry, which may fail as the environment says. -/
theorem move_tmp {node : Node String Bytes} (fault : Option PyExc) (hnode : node ≠ .dir)
    (htmp : entry cwd fs tmpName = .ok (d, n)) (hfree : fs.get? (n :: d) = none)
    (htarget : entry cwd fs target = .ok (R, safe)) (hput : fs.CanPut n d) :
    ∃ r fs', (Action.modify (failing fault (osReplace cwd tmpName target))).run
        (fs.put n d node hput) = (r, fs') ∧
      (r = .ok () ↔ fault = none ∧ fs.CanPut safe R) ∧
      (r = .ok () → ∃ hcan : fs.CanPut safe R, fs' = fs.put safe R node hcan) ∧
      (r ≠ .ok () → fs' = fs.put n d node hput) := by
  rcases fault with _ | e
  · have hreplace := osReplace_tmp hnode htmp hfree htarget hput
    by_cases hcan : fs.CanPut safe R
    · rw [dif_pos hcan] at hreplace
      exact ⟨_, _, Action.modify_of_ok hreplace, by simp [hcan], fun _ => ⟨hcan, rfl⟩, by simp⟩
    · rw [dif_neg hcan] at hreplace
      exact ⟨_, _, Action.modify_of_error hreplace, by simp [hcan], by simp, fun _ => rfl⟩
  · exact ⟨_, _, Action.modify_of_error (failing_some _ _ _), by simp, by simp, fun _ => rfl⟩

/-- The removal of a temporary entry restores the file system. -/
theorem osUnlink_tmp {node : Node String Bytes} (hnode : node ≠ .dir)
    (htmp : entry cwd fs tmpName = .ok (d, n)) (hfree : fs.get? (n :: d) = none)
    (hput : fs.CanPut n d) : osUnlink cwd tmpName (fs.put n d node hput) = .ok fs := by
  have hext : fs.Extends (fs.put n d node hput) := FileSystem.extends_put hfree
  have hget : (fs.put n d node hput).get? (n :: d) = some node := by simp
  have hdir : (fs.put n d node hput).isDir (n :: d) = false := by
    rw [FileSystem.isDir_put hnode]
    exact hput.2
  rw [osUnlink, entry_extend htmp hext, ok_bind]
  simp only
  rw [removeNode, if_neg (by simp [hget]), dif_pos hdir, FileSystem.remove_put hfree]

/-- The clean-up leaves nothing of a temporary entry, also where it was never made. -/
theorem discard_tmp {node : Node String Bytes} (hnode : node ≠ .dir)
    (htmp : entry cwd fs tmpName = .ok (d, n)) (hfree : fs.get? (n :: d) = none)
    (hput : fs.CanPut n d) : (discard cwd tmpName).run (fs.put n d node hput) = (.ok (), fs) :=
  Action.tryCatch_of_ok (Action.modify_of_ok (osUnlink_tmp hnode htmp hfree hput))

theorem discard_free (htmp : entry cwd fs tmpName = .ok (d, n))
    (hfree : fs.get? (n :: d) = none) : (discard cwd tmpName).run fs = (.ok (), fs) := by
  have hunlink : osUnlink cwd tmpName fs = .error (walkError .missing) := by
    rw [osUnlink, htmp, ok_bind]
    simp [removeNode, hfree]
  exact Action.tryCatch_of_error (Action.modify_of_error hunlink)

/-! ### What the branches do -/

theorem guarded_run {calls : Action PyExc FS Unit} {r : Except PyExc Unit} {fs₀ fs₁ : FS}
    (hcalls : calls.run fs = (r, fs₁))
    (hdiscard : r ≠ .ok () → (discard cwd tmpName).run fs₁ = (.ok (), fs₀)) :
    (guarded cwd tmpName calls).run fs = (r, if r = .ok () then fs₁ else fs₀) := by
  rcases r with e | u
  · rw [guarded, Action.tryCatch_of_error hcalls, Action.bind_of_ok (hdiscard nofun)]
    rfl
  · rw [guarded, Action.tryCatch_of_ok hcalls]
    rfl

/-- The calls of the link branch put the link at the target, or they raise and leave at most the
temporary entry behind. -/
theorem linkAndMove_cases (env : StageEnv) (firmwarePath : PyPath)
    (htmp : entry cwd fs tmpName = .ok (d, n))
    (hfree : fs.get? (n :: d) = none) (hput : fs.CanPut n d)
    (htarget : entry cwd fs target = .ok (R, safe)) :
    ∃ r fs', (linkAndMove cwd env firmwarePath tmpName target).run fs = (r, fs') ∧
      (r = .ok () ↔ env.symlinkFault = none ∧ env.replaceFault = none ∧ fs.CanPut safe R) ∧
      (r = .ok () → ∃ hcan : fs.CanPut safe R,
        fs' = fs.put safe R (.link (absPath (abspath cwd firmwarePath))) hcan) ∧
      (r ≠ .ok () → (discard cwd tmpName).run fs' = (.ok (), fs)) := by
  set link : Node String Bytes := .link (absPath (abspath cwd firmwarePath)) with hlink
  have hnode : link ≠ .dir := by simp [hlink]
  have hsymlink : osSymlink cwd (absPath (abspath cwd firmwarePath)) tmpName fs =
      .ok (fs.put n d link hput) := by
    rw [osSymlink, htmp, ok_bind]
    simp only
    rw [createNode, if_neg (by simp [hfree]), putNode, dif_pos hput]
  rw [linkAndMove]
  rcases env.symlinkFault with _ | e
  · rw [failing_none, Action.bind_of_ok (Action.modify_of_ok hsymlink)]
    obtain ⟨r, fs', hrun, hok, hmoved, hfailed⟩ :=
      move_tmp env.replaceFault hnode htmp hfree htarget hput
    refine ⟨r, fs', hrun, by simpa using hok, hmoved, fun hr => ?_⟩
    rw [hfailed hr]
    exact discard_tmp hnode htmp hfree hput
  · exact ⟨_, _, Action.bind_of_error (Action.modify_of_error (failing_some _ _ _)), by simp,
      by simp, fun _ => discard_free htmp hfree⟩

variable (cwd env) in
/-- Nothing but the target itself can keep the link branch from succeeding. -/
def linkable (tftpRoot : PyPath) (fs : FS) : Bool :=
  env.symlinkFault = none && env.replaceFault = none &&
    (mkstemp cwd tftpRoot ".stage-" env.candidates fs).isOk

/-- The link branch puts a link at the target, or it raises and changes nothing. -/
theorem stageLink_cases (htarget : entry cwd fs target = .ok (R, safe)) {r : Except PyExc Unit}
    (h : (stageLink cwd env firmwarePath tftpRoot target).run fs = (r, fs')) :
    (r = .ok () ↔ linkable cwd env tftpRoot fs = true ∧ fs.CanPut safe R) ∧
      (r = .ok () → ∃ hcan : fs.CanPut safe R,
        fs' = fs.put safe R (.link (absPath (abspath cwd firmwarePath))) hcan) ∧
      (r ≠ .ok () → fs' = fs) := by
  rw [stageLink] at h
  rcases hmk : mkstemp cwd tftpRoot ".stage-" env.candidates fs with e | ⟨tmpName, fs₁⟩
  · rw [Action.bind_of_error (Action.change_of_error hmk)] at h
    obtain ⟨rfl, rfl⟩ := Prod.mk.inj h
    exact ⟨by simp [linkable, hmk, Except.isOk, Except.toBool], nofun, fun _ => rfl⟩
  · obtain ⟨d, n, htmp, hfree, hput, rfl⟩ := mkstemp_eq_ok hmk
    have hunlink : osUnlink cwd tmpName (fs.put n d (.file []) hput) = .ok fs :=
      osUnlink_tmp (by simp) htmp hfree hput
    rw [Action.bind_of_ok (Action.change_of_ok hmk),
      Action.bind_of_ok (Action.modify_of_ok hunlink)] at h
    obtain ⟨r', fs₁, hrun, hok, hput', hdiscard⟩ :=
      linkAndMove_cases env firmwarePath htmp hfree hput htarget
    rw [guarded_run hrun hdiscard] at h
    obtain ⟨rfl, rfl⟩ := Prod.mk.inj h
    refine ⟨?_, fun hr => ?_, fun hr => if_neg hr⟩
    · simp [hok, linkable, hmk, Except.isOk, Except.toBool, and_assoc]
    · rw [if_pos hr]
      exact hput' hr

/-- A temporary file is found under its name. -/
theorem locate_tmp {b : Bytes} (htmp : entry cwd fs tmpName = .ok (d, n))
    (hfree : fs.get? (n :: d) = none) (hput : fs.CanPut n d) :
    locate cwd (fs.put n d (.file b) hput) tmpName = .ok (n :: d) := by
  have hext : fs.Extends (fs.put n d (.file b) hput) := FileSystem.extends_put hfree
  have hleads : (fs.put n d (.file b) hput).Leads true (fun _ => True) d [.name n] (n :: d) :=
    .put_name (by simp)
  obtain ⟨q, rfl, hn, hq, -⟩ := entry_eq_ok htmp
  exact locate_eq_ok.mpr (reaches_child_iff.mpr ⟨hn, d, hq.extend hext, hleads⟩)

/-- Writing to a temporary file. -/
theorem writeBytes_tmp {b b' : Bytes} (htmp : entry cwd fs tmpName = .ok (d, n))
    (hfree : fs.get? (n :: d) = none) (hput : fs.CanPut n d) :
    writeBytes cwd tmpName b' (fs.put n d (.file b) hput) = .ok (fs.put n d (.file b') hput) := by
  have hcan : (fs.put n d (.file b) hput).CanPut n d := by
    rw [FileSystem.CanPut, FileSystem.isDir_put (by simp), FileSystem.isDir_put (by simp)]
    exact hput
  rw [writeBytes, locate_tmp htmp hfree hput, ok_bind]
  simp only
  rw [putNode, dif_pos hcan, FileSystem.put_put]

/-- `copy2` onto a temporary file writes the bytes of the firmware, or it raises and leaves
something in the temporary file. -/
theorem copy2_tmp (fault : Option (Bytes × PyExc)) {b : Bytes}
    (hfirmware : readBytes cwd fs firmwarePath = .ok b)
    (htmp : entry cwd fs tmpName = .ok (d, n)) (hfree : fs.get? (n :: d) = none)
    (hput : fs.CanPut n d) :
    ∃ r written, (copy2 cwd fault firmwarePath tmpName).run (fs.put n d (.file []) hput) =
        (r, fs.put n d (.file written) hput) ∧
      (r = .ok () ↔ fault = none) ∧ (r = .ok () → written = b) := by
  obtain ⟨f, hf, hbytes⟩ := readBytes_eq_ok.mp hfirmware
  have hext : fs.Extends (fs.put n d (.file []) hput) := FileSystem.extends_put hfree
  have hget := FileSystem.bytes?_eq_some_iff.mp hbytes
  have hlocate := locate_eq_ok.mpr (hf.extend hext)
  have hread := readBytes_extend hfirmware hext
  have hne : f ≠ n :: d := by
    rintro rfl
    rw [hfree] at hget
    cases hget
  have hwrite (b' : Bytes) : writeBytes cwd tmpName b' (fs.put n d (.file []) hput) =
      .ok (fs.put n d (.file b') hput) := writeBytes_tmp htmp hfree hput
  have hdst : locate cwd (fs.put n d (.file []) hput) tmpName = .ok (n :: d) :=
    locate_tmp htmp hfree hput
  rw [copy2, Action.bind_of_ok (by rw [Action.run_read, hlocate]),
    Action.bind_of_ok (by rw [Action.run_read, hdst]), if_neg hne]
  beta_reduce
  rw [Action.bind_of_ok (by rw [Action.run_read, hread])]
  rcases fault with _ | ⟨written, e⟩
  · exact ⟨_, b, Action.modify_of_ok (hwrite b), by simp, fun _ => rfl⟩
  · refine ⟨.error e, written, ?_, by simp, nofun⟩
    exact Action.bind_of_ok (Action.modify_of_ok (hwrite written))

/-- The calls of the copy branch put the bytes of the firmware at the target, or they raise and
leave at most the temporary entry behind. -/
theorem copyAndMove_cases (env : StageEnv) {b : Bytes}
    (hfirmware : readBytes cwd fs firmwarePath = .ok b)
    (htmp : entry cwd fs tmpName = .ok (d, n)) (hfree : fs.get? (n :: d) = none)
    (hput : fs.CanPut n d) (htarget : entry cwd fs target = .ok (R, safe)) :
    ∃ r fs', (copyAndMove cwd env firmwarePath tmpName target).run
        (fs.put n d (.file []) hput) = (r, fs') ∧
      (r = .ok () → ∃ hcan : fs.CanPut safe R, fs' = fs.put safe R (.file b) hcan) ∧
      (r ≠ .ok () → (discard cwd tmpName).run fs' = (.ok (), fs)) := by
  obtain ⟨r, written, hcopy, -, hwritten⟩ :=
    copy2_tmp env.copyFault hfirmware htmp hfree hput
  have hnode : Node.file written ≠ (.dir : Node String Bytes) := by simp
  have hdiscard := discard_tmp hnode htmp hfree hput
  rw [copyAndMove]
  rcases r with e | u
  · exact ⟨_, _, Action.bind_of_error hcopy, nofun, fun _ => hdiscard⟩
  · obtain rfl := hwritten rfl
    rw [Action.bind_of_ok hcopy]
    obtain ⟨r, fs', hrun, -, hmoved, hfailed⟩ :=
      move_tmp env.copyReplaceFault hnode htmp hfree htarget hput
    refine ⟨r, fs', hrun, hmoved, fun hr => ?_⟩
    rw [hfailed hr]
    exact hdiscard

/-- The copy branch puts a copy at the target, or it raises and changes nothing. -/
theorem stageCopy_cases {b : Bytes} (hfirmware : readBytes cwd fs firmwarePath = .ok b)
    (htarget : entry cwd fs target = .ok (R, safe)) {r : Except PyExc Unit}
    (h : (stageCopy cwd env firmwarePath tftpRoot target).run fs = (r, fs')) :
    (r = .ok () → ∃ hcan : fs.CanPut safe R, fs' = fs.put safe R (.file b) hcan) ∧
      (r ≠ .ok () → fs' = fs) := by
  rw [stageCopy] at h
  rcases hmk : mkstemp cwd tftpRoot ".stage-" env.copyCandidates fs with e | ⟨tmpName, fs₁⟩
  · rw [Action.bind_of_error (Action.change_of_error hmk)] at h
    obtain ⟨rfl, rfl⟩ := Prod.mk.inj h
    exact ⟨nofun, fun _ => rfl⟩
  · obtain ⟨d, n, htmp, hfree, hput, rfl⟩ := mkstemp_eq_ok hmk
    rw [Action.bind_of_ok (Action.change_of_ok hmk)] at h
    obtain ⟨r', fs₁, hrun, hmoved, hdiscard⟩ :=
      copyAndMove_cases env hfirmware htmp hfree hput htarget
    rw [guarded_run hrun hdiscard] at h
    obtain ⟨rfl, rfl⟩ := Prod.mk.inj h
    refine ⟨fun hr => ?_, fun hr => if_neg hr⟩
    rw [if_pos hr]
    exact hmoved hr

variable (cwd env) in
/-- What a call of `stage` that returns puts at the target. -/
def stagedNode (fs : FS) (firmwarePath tftpRoot : PyPath) (symlink : Bool) (b : Bytes) :
    Node String Bytes :=
  if symlink && linkable cwd env tftpRoot fs then .link (absPath (abspath cwd firmwarePath))
  else .file b

theorem stagedNode_ne_dir {symlink : Bool} {b : Bytes} :
    stagedNode cwd env fs firmwarePath tftpRoot symlink b ≠ .dir := by
  rw [stagedNode]
  split_ifs <;> simp

/-- **What staging an entry does**: it puts a link or a copy at the target, or it raises and
changes nothing. -/
theorem stageEntry_cases {b : Bytes} (hfirmware : readBytes cwd fs firmwarePath = .ok b)
    (htarget : entry cwd fs target = .ok (R, safe)) {symlink : Bool} {r : Except PyExc Unit}
    (h : (stageEntry cwd env firmwarePath tftpRoot target symlink).run fs = (r, fs')) :
    (r ≠ .ok () → fs' = fs) ∧ (r = .ok () → ∃ hcan : fs.CanPut safe R,
      fs' = fs.put safe R (stagedNode cwd env fs firmwarePath tftpRoot symlink b) hcan) := by
  rw [stageEntry] at h
  cases symlink with
  | false =>
    obtain ⟨hok, hfailed⟩ := stageCopy_cases hfirmware htarget h
    exact ⟨hfailed, hok⟩
  | true =>
    rw [if_pos rfl] at h
    rcases hlink : (stageLink cwd env firmwarePath tftpRoot target).run fs with ⟨e | u, fs₁⟩
    · -- the link branch has raised and left nothing behind, so the copy starts from `fs`
      obtain ⟨hnot, -, hsame⟩ := stageLink_cases htarget hlink
      obtain rfl := hsame nofun
      rw [Action.tryCatch_of_error hlink] at h
      split_ifs at h with hos
      · obtain ⟨hok, hfailed⟩ := stageCopy_cases hfirmware htarget h
        refine ⟨hfailed, fun hr => ?_⟩
        obtain ⟨hcan, hput⟩ := hok hr
        refine ⟨hcan, hput.trans ?_⟩
        have hlinkable : linkable cwd env tftpRoot fs₁ = false := by
          by_contra hl
          exact absurd (hnot.mpr ⟨by simpa using hl, hcan⟩) nofun
        simp [stagedNode, hlinkable]
      · obtain ⟨rfl, rfl⟩ := Prod.mk.inj h
        exact ⟨fun _ => rfl, nofun⟩
    · obtain ⟨hiff, hput, -⟩ := stageLink_cases htarget hlink
      rw [Action.tryCatch_of_ok hlink] at h
      obtain ⟨rfl, rfl⟩ := Prod.mk.inj h
      refine ⟨fun hr => absurd rfl hr, fun _ => ?_⟩
      simpa [stagedNode, (hiff.mp rfl).1] using hput rfl

/-- The names that `_safe_name` accepts. -/
theorem safeName_eq_ok {name : String} (h : safeName py name = .ok safe) :
    safe = name ∧ '/' ∉ name.toList ∧ (name ≠ "" ∧ name ≠ "." ∧ name ≠ "..") ∧
      hasChar '\x00' name = false := by
  rw [safeName] at h
  split_ifs at h with hslash hdots hnul
  simp only [not_or] at hdots
  exact ⟨(Except.ok.inj h).symm, by simpa [hasChar] using hslash, hdots, by simpa using hnul⟩

/-- A name that `_safe_name` accepts is one component of a path. -/
theorem joinPath_safe {name : String} (h : safeName py name = .ok safe) (p : PyPath) :
    joinPath p safe = child p safe := by
  obtain ⟨rfl, hslash, ⟨hempty, hdot, hdots⟩, -⟩ := safeName_eq_ok h
  have hclean : CleanName safe := ⟨hempty, hdot, hdots, by simpa [hasChar] using hslash⟩
  rw [joinPath, parsePath_of_cleanName hclean]
  rfl

/-- **What `stage` does** with the path of a file: when it returns, the TFTP root leads to a
directory and holds a link or a copy under the name of the target. -/
theorem stage_eq_ok {b : Bytes} {name : Option String} {symlink : Bool}
    (hfirmware : readBytes cwd fs firmwarePath = .ok b)
    (h : (stage cwd py env firmwarePath tftpRoot name symlink).run fs = (.ok target, fs')) :
    ∃ fs₁ R safe, safe = name.getD (pathName firmwarePath) ∧
      (mkdir cwd tftpRoot).run fs = (.ok (), fs₁) ∧
      Reaches cwd fs₁ (fun _ => True) tftpRoot R ∧ hasChar '\x00' safe = false ∧
      target = child tftpRoot safe ∧ ∃ hcan : fs₁.CanPut safe R,
        fs' = fs₁.put safe R (stagedNode cwd env fs₁ firmwarePath tftpRoot symlink b) hcan := by
  rw [stage] at h
  obtain ⟨_, fs₀, hcheck, h⟩ := Action.bind_eq_ok_iff.mp h
  obtain ⟨-, rfl⟩ := Prod.mk.inj hcheck
  obtain ⟨safe, fs₀, hname, h⟩ := Action.bind_eq_ok_iff.mp h
  obtain ⟨hsafe, rfl⟩ := Prod.mk.inj hname
  obtain ⟨_, fs₁, hmkdir, h⟩ := Action.bind_eq_ok_iff.mp h
  obtain ⟨_, fs₀, hvalid, h⟩ := Action.bind_eq_ok_iff.mp h
  obtain ⟨-, rfl⟩ := Prod.mk.inj hvalid
  obtain ⟨_, fs₂, hentry, h⟩ := Action.bind_eq_ok_iff.mp h
  obtain ⟨htarget, rfl⟩ := Prod.mk.inj h
  rw [joinPath_safe hsafe] at hentry htarget
  obtain ⟨rfl, -, -, hnul⟩ := safeName_eq_ok hsafe
  obtain ⟨hmade, hdir⟩ := mkdir_spec hmkdir
  obtain ⟨R, hR, hRdir⟩ := pathIsDir_iff.mp (hdir rfl)
  have hfirmware₁ := readBytes_extend hfirmware hmade.extension
  obtain ⟨hcan, hput⟩ := (stageEntry_cases hfirmware₁ (entry_child hR hRdir hnul) hentry).2 rfl
  exact ⟨fs₁, R, _, rfl, hmkdir, hR, hnul, (Except.ok.inj htarget).symm, hcan, hput⟩

/-- What passes the checks of a firmware path is a file. -/
theorem checkFirmware_eq_ok (h : checkFirmware cwd fs firmwarePath = .ok ()) :
    ∃ b, readBytes cwd fs firmwarePath = .ok b := by
  rw [checkFirmware] at h
  split_ifs at h with hexists hdir
  rw [pathExists] at hexists
  rcases hl : locate cwd fs firmwarePath with e | l
  · simp [hl] at hexists
  · -- what exists and is no directory is a file, since the kernel has followed all links
    have hreach := locate_eq_ok.mp hl
    have hlink := hreach.leads.not_link_of_strict hreach.base
    have hndir : fs.isDir l ≠ true := fun hd => hdir (pathIsDir_iff.mpr ⟨l, hreach, hd⟩)
    rw [ne_eq, FileSystem.isDir_iff] at hndir
    rcases hget : fs.get? l with _ | (b | _ | p)
    · simp [hl, hget] at hexists
    · exact ⟨b, readBytes_eq_ok.mpr ⟨l, hreach, FileSystem.bytes?_eq_some_iff.mpr hget⟩⟩
    · exact absurd hget hndir
    · exact absurd hget (hlink p)

/-- A call of `stage` that returns was given the path of a file. -/
theorem stage_reads {name : Option String} {symlink : Bool}
    (h : (stage cwd py env firmwarePath tftpRoot name symlink).run fs = (.ok target, fs')) :
    ∃ b, readBytes cwd fs firmwarePath = .ok b := by
  rw [stage] at h
  obtain ⟨u, fs₀, hcheck, h⟩ := Action.bind_eq_ok_iff.mp h
  exact checkFirmware_eq_ok (Prod.mk.inj hcheck).1

/-- A call of `stage` that raises has at most made the TFTP root. -/
theorem stage_error {name : Option String} {symlink : Bool} {e : PyExc}
    (h : (stage cwd py env firmwarePath tftpRoot name symlink).run fs = (.error e, fs')) :
    fs' = fs ∨ fs' = ((mkdir cwd tftpRoot).run fs).2 := by
  have hstop {fs₁ : FS} {e' : PyExc}
      (h : ((.error e', fs₁) : Except PyExc PyPath × FS) = (.error e, fs')) : fs' = fs₁ :=
    (Prod.mk.inj h).2.symm
  rw [stage] at h
  -- one case for each call that can raise, in the order of the calls
  rcases hcheck : checkFirmware cwd fs firmwarePath with e' | u
  · rw [Action.bind_of_error (by rw [Action.run_read, hcheck])] at h
    exact .inl (hstop h)
  · obtain ⟨b, hfirmware⟩ := checkFirmware_eq_ok hcheck
    rw [Action.bind_of_ok (by rw [Action.run_read, hcheck])] at h
    rcases hname : safeName py (name.getD (pathName firmwarePath)) with e' | safe
    · rw [Action.bind_of_error (by rw [Action.run_read, hname])] at h
      exact .inl (hstop h)
    · rw [Action.bind_of_ok (by rw [Action.run_read, hname])] at h
      rcases hmk : (mkdir cwd tftpRoot).run fs with ⟨e' | u, fs₁⟩
      · rw [Action.bind_of_error hmk] at h
        exact .inr (hstop h)
      · obtain ⟨hmade, hdir⟩ := mkdir_spec hmk
        obtain ⟨R, hR, hRdir⟩ := pathIsDir_iff.mp (hdir rfl)
        obtain ⟨hsafe, -, -, hnul⟩ := safeName_eq_ok hname
        rw [← hsafe] at hnul
        rw [Action.bind_of_ok hmk, joinPath_safe hname] at h
        dsimp only at h
        rcases hvalid : validateUnderRoot cwd py fs₁ (child tftpRoot safe) tftpRoot with e' | u
        · rw [Action.bind_of_error (by rw [Action.run_read, hvalid])] at h
          exact .inr (hstop h)
        · rw [Action.bind_of_ok (by rw [Action.run_read, hvalid])] at h
          rcases hentry : (stageEntry cwd env firmwarePath tftpRoot (child tftpRoot safe)
              symlink).run fs₁ with ⟨e' | u, fs₂⟩
          · rw [Action.bind_of_error hentry] at h
            obtain rfl := hstop h
            have hfirmware₁ := readBytes_extend hfirmware hmade.extension
            have htarget := entry_child hR hRdir hnul
            exact .inr ((stageEntry_cases hfirmware₁ htarget hentry).1 nofun)
          · rw [Action.bind_of_ok hentry] at h
            cases h

end

end TftpOS
