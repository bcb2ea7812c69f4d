import TftpOS.StagedReads

/-!
# Atomic staging

Whatever fails in a call of `stage`, the TFTP root is left as it was or holds the new entry, and
no temporary entry stays behind. A call that returns can still leave an entry that does not read
as the firmware: the text of a link is `os.path.abspath(firmware_path)`, which drops a step up
together with the name before it, whereas the kernel follows that name first.
-/

namespace TftpOS

open Lib

section

variable (cwd : Loc String)

/-- The temporary entries of the TFTP root, but for a target, were there before or are directories
on its way. -/
def NoTemporary (fs fs' : FS) (tftpRoot : PyPath) (target : Option PyPath) : Prop :=
  ∀ R n, Reaches cwd fs' (fun _ => True) tftpRoot R → startsWith n ".stage-" = true →
    target ≠ some (child tftpRoot n) → (fs'.get? (n :: R)).isSome →
      (fs.get? (n :: R)).isSome ∨ MadeOn cwd tftpRoot fs fs' (n :: R)

/-- What a call of `stage` that raises promises: nothing changed but that the TFTP root was made,
and no temporary entry remains. -/
structure RaisedCleanly (fs fs' : FS) (tftpRoot : PyPath) : Prop where
  frame : DirsMade cwd tftpRoot fs fs'
  temporary : NoTemporary cwd fs fs' tftpRoot none

/-- What a call of `stage` that returns promises: nothing else than the target changed, the target
reads as the firmware, and no temporary entry remains. -/
structure StagedCleanly (fs fs' : FS) (tftpRoot target : PyPath) (b : Bytes) : Prop where
  staged : TargetStaged cwd fs fs' tftpRoot target b
  temporary : NoTemporary cwd fs fs' tftpRoot (some target)

end

variable {cwd : Loc String} {py : StrLib} {env : StageEnv} {fs fs' : FS}
  {firmwarePath tftpRoot target : PyPath} {b : Bytes} {symlink : Bool} {name : Option String}

theorem DirsMade.noTemporary (h : DirsMade cwd tftpRoot fs fs') (target : Option PyPath) :
    NoTemporary cwd fs fs' tftpRoot target := by
  intro R n _ _ _ hsome
  rcases h (n :: R) with hsame | hmade
  · exact .inl (hsame ▸ hsome)
  · exact .inr hmade

theorem TargetStaged.noTemporary (h : TargetStaged cwd fs fs' tftpRoot target b) :
    NoTemporary cwd fs fs' tftpRoot (some target) := by
  obtain ⟨R, safe, rfl, hR, hframe⟩ := h.frame
  intro R' n hR' _ htarget hsome
  obtain rfl := hR.unique hR'
  have hne : n :: R ≠ safe :: R := fun heq => htarget (by rw [(List.cons.inj heq).1])
  rcases hframe _ hne with hsame | hmade
  · exact .inl (hsame ▸ hsome)
  · exact .inr hmade

/-- A call of `stage` that raises changes nothing but that it makes the TFTP root. -/
theorem dirsMade_of_stage_error {e : PyExc}
    (h : (stage cwd py env firmwarePath tftpRoot name symlink).run fs = (.error e, fs')) :
    DirsMade cwd tftpRoot fs fs' := by
  rcases stage_error h with rfl | rfl
  · exact .refl tftpRoot _
  · exact (mkdir_spec rfl).1

/-- **Staging is atomic.** Whichever of its calls fail, a call of `stage` that raises leaves the
TFTP root as it was. One that returns changes the target alone, which reads as the firmware if and
only if the path of the TFTP root does not lead through the target and the text of a link leads
past it to a file with the bytes of the firmware. No temporary entry remains. -/
theorem stage_atomic_iff (cwd : Loc String) (py : StrLib) (env : StageEnv) (fs : FS)
    (firmwarePath tftpRoot : PyPath) (name : Option String) (symlink : Bool) (b : Bytes)
    (hfirmware : readBytes cwd fs firmwarePath = .ok b) :
    let result := (stage cwd py env firmwarePath tftpRoot name symlink).run fs
    (∀ e, result.1 = .error e → RaisedCleanly cwd fs result.2 tftpRoot) ∧
      ∀ target, result.1 = .ok target → (StagedCleanly cwd fs result.2 tftpRoot target b ↔
        ∃ R, locate cwd ((mkdir cwd tftpRoot).run fs).2 tftpRoot = .ok R ∧
          TargetStageable cwd env ((mkdir cwd tftpRoot).run fs).2 firmwarePath tftpRoot symlink b
            (name.getD (pathName firmwarePath) :: R)) := by
  intro result
  refine ⟨fun e he => ?_, fun target htarget => ?_⟩
  · have hmade := dirsMade_of_stage_error (Prod.ext he rfl : result = (.error e, result.2))
    exact ⟨hmade, hmade.noTemporary none⟩
  · obtain ⟨fs₁, R, safe, hsafe, hmkdir, hR, hnul, rfl, hcan, hput⟩ :=
      stage_eq_ok hfirmware (Prod.ext htarget rfl : result = (.ok target, result.2))
    have hmade := (mkdir_spec hmkdir).1
    rw [hmkdir, ← hsafe, hput]
    constructor
    · rintro ⟨hstaged, -⟩
      exact ⟨R, locate_eq_ok.mpr hR, (targetStaged_put_iff hmade hR hnul).mp hstaged⟩
    · rintro ⟨R', hR', hstageable⟩
      obtain rfl := hR.unique (locate_eq_ok.mp hR')
      have hstaged : TargetStaged cwd fs (fs₁.put safe R _ hcan) tftpRoot _ b :=
        (targetStaged_put_iff hmade hR hnul).mpr hstageable
      exact ⟨hstaged, hstaged.noTemporary⟩

/-- A tree in which `/a/link` leads to the directory `/b/c`, and the firmware is in `/b`. -/
private def linkedTree : FS :=
  .ofNodes [(["a"], .dir), (["b"], .dir), (["c", "b"], .dir), (["fw.bin", "b"], .file [1, 2, 3]),
    (["link", "a"], .link ⟨true, [.name "b", .name "c"]⟩)]

/-- The TFTP root, which is still to be made. -/
private def servedRoot : PyPath := ⟨true, [.name "srv", .name "tftp"]⟩

/-- An environment in which links cannot be made, and the copy breaks off. -/
private def fullDisk : StageEnv where
  candidates := ["a"]
  symlinkFault := some ⟨.osError, "Operation not permitted"⟩
  copyCandidates := ["b"]
  copyFault := some ([1], ⟨.osError, "No space left on device"⟩)

/-- A staging that fails half-way leaves nothing behind. -/
theorem stage_atomic_full_disk :
    let firmware : PyPath := ⟨true, [.name "b", .name "fw.bin"]⟩
    let result := (stage [] .ascii fullDisk firmware servedRoot none true).run linkedTree
    result.1 = .error ⟨.osError, "No space left on device"⟩ ∧
      RaisedCleanly [] linkedTree result.2 servedRoot := by
  intro firmware result
  have hread : readBytes [] linkedTree firmware = .ok [1, 2, 3] := by decide +kernel
  have hraised : result.1 = .error ⟨.osError, "No space left on device"⟩ := by decide +kernel
  exact ⟨hraised, (stage_atomic_iff [] .ascii fullDisk linkedTree firmware servedRoot none true
    [1, 2, 3] hread).1 _ hraised⟩

/-- **A dangling link.** `/a/link/../fw.bin` is the file `/b/fw.bin`, but the link that is staged
for it has the text `/a/fw.bin`, and there is no such file. -/
theorem stage_up_from_link_dangles :
    let firmware : PyPath := ⟨true, [.name "a", .name "link", .up, .name "fw.bin"]⟩
    let result := (stage [] .ascii calm firmware servedRoot none true).run linkedTree
    locate [] linkedTree firmware = .ok ["fw.bin", "b"] ∧
      readBytes [] linkedTree firmware = .ok [1, 2, 3] ∧
      result.1 = .ok (child servedRoot "fw.bin") ∧
      readBytes [] result.2 (child servedRoot "fw.bin") = .error (walkError .missing) ∧
      ¬ StagedCleanly [] linkedTree result.2 servedRoot (child servedRoot "fw.bin") [1, 2, 3] := by
  intro firmware result
  have hmissing : readBytes [] result.2 (child servedRoot "fw.bin") =
      .error (walkError .missing) := by decide +kernel
  refine ⟨by decide +kernel, by decide +kernel, by decide +kernel, hmissing, fun h => ?_⟩
  have hbytes := h.staged.target_bytes
  rw [hmissing] at hbytes
  cases hbytes

end TftpOS
