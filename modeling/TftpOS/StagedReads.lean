import TftpOS.Staging

/-!
# What a staged path reads

`Staged` is what `stage` promises of the file system it leaves behind. The target is a new link
or a new copy, so the promise can only be broken by walks that come to the target: that of the
TFTP root, that of the firmware, and that of the text of the new link. `Stageable` says that
these three are harmless, and `staged_iff` that nothing else matters.
-/

namespace TftpOS

open Lib

section

variable (cwd : Loc String)

/-- What `stage` promises: the target is an entry of the TFTP root, it reads as the firmware did
before the call and so does the firmware, and nothing else changed but that the TFTP root was
made. -/
structure Staged (fs fs' : FS) (firmwarePath tftpRoot target : PyPath) (b : Bytes) : Prop where
  frame : ∃ R name, target = child tftpRoot name ∧
    Reaches cwd fs' (fun _ => True) tftpRoot R ∧
    ∀ m, m ≠ name :: R → fs'.get? m = fs.get? m ∨ MadeOn cwd tftpRoot fs fs' m
  target_bytes : readBytes cwd fs' target = .ok b
  firmware_bytes : readBytes cwd fs' firmwarePath = .ok b

/-- The part of the promise that is about the target: the target is an entry of the TFTP root that
reads as the firmware did before the call, and nothing else changed but that the TFTP root was
made. -/
structure TargetStaged (fs fs' : FS) (tftpRoot target : PyPath) (b : Bytes) : Prop where
  frame : ∃ R name, target = child tftpRoot name ∧
    Reaches cwd fs' (fun _ => True) tftpRoot R ∧
    ∀ m, m ≠ name :: R → fs'.get? m = fs.get? m ∨ MadeOn cwd tftpRoot fs fs' m
  target_bytes : readBytes cwd fs' target = .ok b

/-- The kernel's walk along a path looks up `m`, with `rest` left to walk. -/
def LooksUp (fs : FS) (p : PyPath) (m : Loc String) (rest : List (Comp String)) : Prop :=
  fs.Visits true m (p.base cwd) p.comps rest

/-- Where a target can be staged, in a file system that has the TFTP root. -/
structure Stageable (env : StageEnv) (fs : FS) (firmwarePath tftpRoot : PyPath) (symlink : Bool)
    (b : Bytes) (T : Loc String) : Prop where
  /-- The path of the TFTP root does not pass through the target. -/
  root : ∀ rest, ¬LooksUp cwd fs tftpRoot T rest
  /-- The path of the firmware passes through the target in its last step at most. -/
  firmware : ∀ rest, LooksUp cwd fs firmwarePath T rest → rest = []
  /-- The text of a link leads past the target to a file with the bytes of the firmware. -/
  link : symlink = true → linkable cwd env tftpRoot fs = true →
    ∃ l, fs.Leads true (· ≠ T) [] (absPath (abspath cwd firmwarePath)).comps l ∧
      fs.bytes? l = some b

/-- Where an entry can be put that reads as the firmware, in a file system that has the TFTP
root. -/
structure TargetStageable (env : StageEnv) (fs : FS) (firmwarePath tftpRoot : PyPath)
    (symlink : Bool) (b : Bytes) (T : Loc String) : Prop where
  /-- The path of the TFTP root does not pass through the target. -/
  root : ∀ rest, ¬LooksUp cwd fs tftpRoot T rest
  /-- The text of a link leads past the target to a file with the bytes of the firmware. -/
  link : symlink = true → linkable cwd env tftpRoot fs = true →
    ∃ l, fs.Leads true (· ≠ T) [] (absPath (abspath cwd firmwarePath)).comps l ∧
      fs.bytes? l = some b

end

variable {cwd : Loc String} {py : StrLib} {env : StageEnv} {fs fs' fs₁ : FS}
  {firmwarePath tftpRoot target : PyPath} {R : Loc String} {safe : String} {b : Bytes}
  {symlink : Bool} {p : PyPath} {node : Node String Bytes} {hcan : fs₁.CanPut safe R}

/-- A walk that does not look up a location avoids it. -/
private theorem Reaches.avoids {ok : Loc String → Prop} {l m : Loc String}
    (h : Reaches cwd fs ok p l) (hm : ∀ rest, ¬LooksUp cwd fs p m rest) :
    Reaches cwd fs (· ≠ m) p l := by
  refine ⟨h.nul, h.base, (h.leads.avoids_or_visits m).resolve_right ?_⟩
  rintro ⟨rest, hrest⟩
  exact hm rest hrest

private theorem Reaches.put {l : Loc String} (hnode : node ≠ .dir)
    (h : Reaches cwd fs₁ (· ≠ safe :: R) p l) :
    Reaches cwd (fs₁.put safe R node hcan) (· ≠ safe :: R) p l := by
  have hbase : (fs₁.put safe R node hcan).isDir (p.base cwd) = true :=
    (FileSystem.isDir_put hnode).trans h.base
  exact ⟨h.nul, hbase, (FileSystem.Leads.put_iff hnode).mpr h.leads⟩

/-- The new entry of the TFTP root reads as the firmware. -/
def EntryReads (fs : FS) (R : Loc String) (safe : String) (b : Bytes) : Prop :=
  ∃ x, fs.Leads true (fun _ => True) R [.name safe] x ∧ fs.bytes? x = some b

/-- A copy reads as the firmware. -/
theorem entryReads_file : EntryReads (fs₁.put safe R (.file b) hcan) R safe b := by
  have hget : (fs₁.put safe R (.file b) hcan).get? (safe :: R) = some (.file b) := by simp
  have hleads : (fs₁.put safe R (.file b) hcan).Leads true (fun _ => True) R [.name safe]
      (safe :: R) := .put_name (by simp)
  exact ⟨safe :: R, hleads, FileSystem.bytes?_eq_some_iff.mpr hget⟩

/-- A link reads as the firmware exactly when its text leads past it to such a file. -/
theorem entryReads_link {t : PyPath} (habs : t.absolute = true) :
    EntryReads (fs₁.put safe R (.link t) hcan) R safe b ↔
      ∃ l, fs₁.Leads true (· ≠ safe :: R) [] t.comps l ∧ fs₁.bytes? l = some b := by
  set fs' := fs₁.put safe R (.link t) hcan with hfs'
  have hnode : Node.link t ≠ (.dir : Node String Bytes) := by simp
  have hget : fs'.get? (safe :: R) = some (.link t) := by simp [hfs']
  have hdir : fs'.isDir R = true := (FileSystem.isDir_put hnode).trans hcan.1
  have hbase : t.base R = [] := by simp [Path.base, habs]
  constructor
  · rintro ⟨x, hx, hbytes⟩
    obtain ⟨y, hy, hyx⟩ := (FileSystem.Leads.link_iff trivial (fun _ => hdir) hget).mp hx
    cases hyx
    -- a link that leads somewhere does not lead through itself
    have hself := hy.avoids_self hget
    rw [hbase] at hself
    have hne : x ≠ safe :: R := hself.ok_of_file FileSystem.isDir_root hbytes
    rw [hfs', FileSystem.bytes?_put_of_ne hne] at hbytes
    exact ⟨x, (FileSystem.Leads.put_iff hnode).mp hself, hbytes⟩
  · rintro ⟨l, hl, hbytes⟩
    have hne : l ≠ safe :: R := hl.ok_of_file FileSystem.isDir_root hbytes
    have hl' : fs'.Leads true (fun _ => True) [] t.comps l :=
      ((FileSystem.Leads.put_iff hnode).mpr hl).anywhere
    refine ⟨l, (FileSystem.Leads.link_iff trivial (fun _ => hdir) hget).mpr ⟨l, ?_, .nil l⟩, ?_⟩
    · rwa [hbase]
    · rw [hfs', FileSystem.bytes?_put_of_ne hne, hbytes]

/-- The target reads as the firmware exactly when its entry does, if the TFTP root leads where
it did. -/
theorem target_bytes_iff (hR : Reaches cwd fs (fun _ => True) tftpRoot R)
    (hsafe : hasChar '\x00' safe = false) :
    readBytes cwd fs (child tftpRoot safe) = .ok b ↔ EntryReads fs R safe b := by
  rw [readBytes_eq_ok]
  refine exists_congr fun x => and_congr_left fun _ => ?_
  rw [reaches_child_iff]
  constructor
  · rintro ⟨-, d, hd, hx⟩
    rwa [hR.unique hd]
  · exact fun hx => ⟨hsafe, R, hR, hx⟩

/-- Once its entry reads as the firmware, a walk through the target can only end there. -/
theorem EntryReads.rest_eq_nil {rest : List (Comp String)} {l : Loc String}
    (h : EntryReads fs R safe b) (hvisit : LooksUp cwd fs p (safe :: R) rest)
    {ok : Loc String → Prop} (hl : Reaches cwd fs ok p l) : rest = [] ∧ fs.bytes? l = some b := by
  obtain ⟨x, hx, hbytes⟩ := h
  obtain ⟨hrest, rfl⟩ := hvisit.eq_of_file hl.leads hx hbytes
  exact ⟨hrest, hbytes⟩

/-- The firmware reads as before exactly when its path passes through the target in its last
step at most. -/
theorem firmware_bytes_iff (hnode : node ≠ .dir)
    (hentry : EntryReads (fs₁.put safe R node hcan) R safe b)
    (hfirmware : readBytes cwd fs₁ firmwarePath = .ok b) :
    readBytes cwd (fs₁.put safe R node hcan) firmwarePath = .ok b ↔
      ∀ rest, LooksUp cwd fs₁ firmwarePath (safe :: R) rest → rest = [] := by
  obtain ⟨f, hf, hbytes⟩ := readBytes_eq_ok.mp hfirmware
  constructor
  · intro h rest hrest
    obtain ⟨l, hl, -⟩ := readBytes_eq_ok.mp h
    exact (hentry.rest_eq_nil ((FileSystem.Visits.put_iff hnode).mpr hrest) hl).1
  · intro h
    rcases hf.leads.avoids_or_visits (safe :: R) with havoids | ⟨rest, hrest⟩
    · have hf' : Reaches cwd fs₁ (· ≠ safe :: R) firmwarePath f := ⟨hf.nul, hf.base, havoids⟩
      refine readBytes_eq_ok.mpr ⟨f, (hf'.put hnode).anywhere, ?_⟩
      rw [FileSystem.bytes?_put_of_ne (hf'.ok_of_file hbytes), hbytes]
    · -- the path ends with the target, which reads as the firmware
      obtain rfl := h rest hrest
      obtain ⟨x, hx, hxbytes⟩ := hentry
      have hvisit : LooksUp cwd (fs₁.put safe R node hcan) firmwarePath (safe :: R) [] :=
        (FileSystem.Visits.put_iff hnode).mpr hrest
      have hbase : (fs₁.put safe R node hcan).isDir (firmwarePath.base cwd) = true :=
        (FileSystem.isDir_put hnode).trans hf.base
      exact readBytes_eq_ok.mpr ⟨x, ⟨hf.nul, hbase, hvisit.leads_iff.mpr hx⟩, hxbytes⟩

private theorem entryReads_iff :
    EntryReads (fs₁.put safe R (stagedNode cwd env fs₁ firmwarePath tftpRoot symlink b) hcan)
        R safe b ↔
      (symlink = true → linkable cwd env tftpRoot fs₁ = true →
        ∃ l, fs₁.Leads true (· ≠ safe :: R) [] (absPath (abspath cwd firmwarePath)).comps l ∧
          fs₁.bytes? l = some b) := by
  by_cases hlink : (symlink && linkable cwd env tftpRoot fs₁) = true
  · simp only [stagedNode, if_pos hlink]
    rw [Bool.and_eq_true] at hlink
    rw [entryReads_link rfl]
    exact ⟨fun h _ _ => h, fun h => h hlink.1 hlink.2⟩
  · simp only [stagedNode, if_neg hlink]
    refine iff_of_true entryReads_file fun hs hl => ?_
    exact absurd (by rw [hs, hl]; rfl) hlink

/-- A directory made on the way of the TFTP root is still on its way. -/
private theorem MadeOn.put {m : Loc String} (hnode : node ≠ .dir)
    (hroot : Reaches cwd fs₁ (· ≠ safe :: R) tftpRoot R) (hne : m ≠ safe :: R)
    (h : MadeOn cwd tftpRoot fs fs₁ m) :
    MadeOn cwd tftpRoot fs (fs₁.put safe R node hcan) m := by
  obtain ⟨hnone, hdir, cs, ⟨rest, hcs⟩, hreach⟩ := h
  refine ⟨hnone, (FileSystem.get?_put_of_ne hne).trans hdir, cs, ⟨rest, hcs⟩, ?_⟩
  have hleads := hroot.leads
  rw [← hcs, FileSystem.Leads.append_iff] at hleads
  obtain ⟨m', hm', -⟩ := hleads
  obtain rfl := hm'.unique hreach.leads
  have havoids : Reaches cwd fs₁ (· ≠ safe :: R) ⟨tftpRoot.absolute, cs⟩ m' :=
    ⟨hreach.nul, hreach.base, hm'⟩
  exact (havoids.put hnode).anywhere

/-- The TFTP root of a promise that is kept is where the target was put. -/
private theorem root_eq {R' : Loc String} (hmade : DirsMade cwd tftpRoot fs fs₁)
    (hnode : node ≠ .dir) (hR : Reaches cwd fs₁ (fun _ => True) tftpRoot R)
    (hR' : Reaches cwd (fs₁.put safe R node hcan) (fun _ => True) tftpRoot R')
    (hframe : ∀ m, m ≠ safe :: R' → (fs₁.put safe R node hcan).get? m = fs.get? m ∨
      MadeOn cwd tftpRoot fs (fs₁.put safe R node hcan) m) : R' = R := by
  by_contra hne
  have hput : (fs₁.put safe R node hcan).get? (safe :: R) = some node := by simp
  have hT : safe :: R ≠ safe :: R' := fun heq => hne (List.cons.inj heq).2.symm
  rcases hframe _ hT with hsame | ⟨-, hdir, -⟩
  · -- the target held the same node before, so nothing has changed at all
    have hbefore : fs₁.get? (safe :: R) = some node :=
      hmade.extension.get?_of_some (hsame.symm.trans hput)
    have hext : fs₁.Extends (fs₁.put safe R node hcan) := by
      intro m _
      rw [FileSystem.get?_put]
      split_ifs with hm
      · rw [hm, hbefore]
      · rfl
    exact hne (hR'.unique (hR.extend hext))
  · rw [hput] at hdir
    exact hnode (Option.some.inj hdir)

/-- A new entry of the TFTP root reads as the firmware exactly where it can be put. -/
theorem targetStaged_put_iff (hmade : DirsMade cwd tftpRoot fs fs₁)
    (hR : Reaches cwd fs₁ (fun _ => True) tftpRoot R) (hnul : hasChar '\x00' safe = false) :
    TargetStaged cwd fs
        (fs₁.put safe R (stagedNode cwd env fs₁ firmwarePath tftpRoot symlink b) hcan) tftpRoot
        (child tftpRoot safe) b ↔
      TargetStageable cwd env fs₁ firmwarePath tftpRoot symlink b (safe :: R) := by
  have hnode : stagedNode cwd env fs₁ firmwarePath tftpRoot symlink b ≠ .dir := stagedNode_ne_dir
  constructor
  · rintro ⟨⟨R', name', hchild, hR', hframe⟩, htarget⟩
    obtain rfl : safe = name' := by simpa [child] using hchild
    obtain rfl := root_eq hmade hnode hR hR' hframe
    have hentry := (target_bytes_iff hR' hnul).mp htarget
    refine ⟨fun rest hrest => ?_, entryReads_iff.mp hentry⟩
    -- a path of the TFTP root that comes to the target would end at a file there
    have hvisit : LooksUp cwd (fs₁.put safe R' _ hcan) tftpRoot (safe :: R') rest :=
      (FileSystem.Visits.put_iff hnode).mpr hrest
    have hfile := (hentry.rest_eq_nil hvisit hR').2
    have hdir := (FileSystem.isDir_put (h := hcan) hnode).trans hcan.1
    rw [FileSystem.isDir_iff, FileSystem.bytes?_eq_some_iff.mp hfile] at hdir
    cases hdir
  · rintro ⟨hroot, hlink⟩
    have hentry : EntryReads (fs₁.put safe R _ hcan) R safe b := entryReads_iff.mpr hlink
    have havoids := hR.avoids hroot
    have hreach : Reaches cwd (fs₁.put safe R _ hcan) (fun _ => True) tftpRoot R :=
      (havoids.put hnode).anywhere
    refine ⟨⟨R, safe, rfl, hreach, fun m hm => ?_⟩, (target_bytes_iff hreach hnul).mpr hentry⟩
    rcases hmade m with hsame | hmade'
    · exact .inl ((FileSystem.get?_put_of_ne hm).trans hsame)
    · exact .inr (hmade'.put hnode havoids hm)

/-- **The promise of `stage`** is kept exactly where the target can be staged: the paths of the
TFTP root and of the firmware do not go on from the target, and the text of a new link leads
past it to the bytes of the firmware. -/
theorem staged_iff {name : Option String} (hfirmware : readBytes cwd fs firmwarePath = .ok b)
    (hstage : (stage cwd py env firmwarePath tftpRoot name symlink).run fs = (.ok target, fs')) :
    Staged cwd fs fs' firmwarePath tftpRoot target b ↔
      ∃ R, locate cwd ((mkdir cwd tftpRoot).run fs).2 tftpRoot = .ok R ∧
        Stageable cwd env ((mkdir cwd tftpRoot).run fs).2 firmwarePath tftpRoot symlink b
          (name.getD (pathName firmwarePath) :: R) := by
  obtain ⟨fs₁, R, safe, hsafe, hmkdir, hR, hnul, rfl, hcan, rfl⟩ :=
    stage_eq_ok hfirmware hstage
  obtain ⟨hmade, -⟩ := mkdir_spec hmkdir
  have hfirmware₁ := readBytes_extend hfirmware hmade.extension
  have hnode : stagedNode cwd env fs₁ firmwarePath tftpRoot symlink b ≠ .dir := stagedNode_ne_dir
  have htarget : TargetStaged cwd fs (fs₁.put safe R _ hcan) tftpRoot (child tftpRoot safe) b ↔
      TargetStageable cwd env fs₁ firmwarePath tftpRoot symlink b (safe :: R) :=
    targetStaged_put_iff hmade hR hnul
  rw [hmkdir, ← hsafe]
  simp only
  constructor
  · rintro ⟨hframe, hbytes, hread⟩
    have hstageable := htarget.mp ⟨hframe, hbytes⟩
    have hentry : EntryReads (fs₁.put safe R _ hcan) R safe b :=
      entryReads_iff.mpr hstageable.link
    exact ⟨R, locate_eq_ok.mpr hR, hstageable.root,
      (firmware_bytes_iff hnode hentry hfirmware₁).mp hread, hstageable.link⟩
  · rintro ⟨R', hR', hroot, hfw, hlink⟩
    obtain rfl := hR.unique (locate_eq_ok.mp hR')
    have hentry : EntryReads (fs₁.put safe R _ hcan) R safe b := entryReads_iff.mpr hlink
    obtain ⟨hframe, hbytes⟩ := htarget.mpr ⟨hroot, hlink⟩
    exact ⟨hframe, hbytes, (firmware_bytes_iff hnode hentry hfirmware₁).mpr hfw⟩

/-- An environment in which no call fails. -/
def calm : StageEnv where
  candidates := ["a"]
  copyCandidates := ["b"]

/-- The promise at a firmware file outside a TFTP root that is still to be made. -/
theorem staged_iff_outside :
    let fs : FS := .ofNodes [(["distros"], .dir), (["fw.bin", "distros"], .file [1, 2, 3])]
    let firmware : PyPath := ⟨true, [.name "distros", .name "fw.bin"]⟩
    let root : PyPath := ⟨true, [.name "srv", .name "tftp"]⟩
    let fs' := ((stage [] .ascii calm firmware root none true).run fs).2
    Staged [] fs fs' firmware root (child root "fw.bin") [1, 2, 3] ↔
      ∃ R, locate [] ((mkdir [] root).run fs).2 root = .ok R ∧
        Stageable [] calm ((mkdir [] root).run fs).2 firmware root true [1, 2, 3]
          (Option.getD none (pathName firmware) :: R) := by
  intro fs firmware root fs'
  have hread : readBytes [] fs firmware = .ok [1, 2, 3] := by decide +kernel
  have hok : ((stage [] .ascii calm firmware root none true).run fs).1 =
      .ok (child root "fw.bin") := by decide +kernel
  exact staged_iff hread (Prod.ext hok rfl)

/-- **Staged in place.** A firmware file that already is where it is staged becomes a link to
itself, and its bytes are lost. -/
theorem stage_in_place_loses_firmware :
    let fs : FS := .ofNodes [(["srv"], .dir), (["tftp", "srv"], .dir),
      (["fw.bin", "tftp", "srv"], .file [1, 2, 3])]
    let root : PyPath := ⟨true, [.name "srv", .name "tftp"]⟩
    let firmware := child root "fw.bin"
    let result := (stage [] .ascii calm firmware root none true).run fs
    readBytes [] fs firmware = .ok [1, 2, 3] ∧ result.1 = .ok firmware ∧
      readBytes [] result.2 firmware = .error (walkError .loop) ∧
      ¬Staged [] fs result.2 firmware root firmware [1, 2, 3] := by
  intro fs root firmware result
  have hloop : readBytes [] result.2 firmware = .error (walkError .loop) := by decide +kernel
  refine ⟨by decide +kernel, by decide +kernel, hloop, fun h => ?_⟩
  have hbytes := h.target_bytes
  rw [hloop] at hbytes
  cases hbytes

end TftpOS
