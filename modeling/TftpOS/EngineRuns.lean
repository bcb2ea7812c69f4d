import TftpOS.Engine
import TftpOS.Lib.Run
import TftpOS.StagedReads

/-!
# Runs of staging calls

What hosts are served after a run of `FirmwareEngine.stage` with the default name. All stagings
share the flat directory of the TFTP root, where the name of the firmware file is the name of
the entry. So a staged path reads as the firmware of the last staging under its name, whichever
host that was for (`staged_reads_last`).
-/

namespace TftpOS

open Lib

namespace FirmwareEngine

/-- A call of `stage` with the default name. -/
structure StageCall where
  mac : String
  req : Request := {}
  symlink : Bool := true
  env : StageEnv
  clock : CacheClock

/-- A call of `stage` that returned: the host, the firmware that `serve` resolved and the path
returned. -/
structure Staging where
  mac : String
  firmware : PyPath
  target : PyPath
  deriving DecidableEq

/-- The name of the entry of a staging. -/
def Staging.name (s : Staging) : String := pathName s.firmware

section

variable (sys : Platform) (e : FirmwareEngine)

/-- One call of `stage`. -/
def stageStep (w : EngineState) (c : StageCall) : Except PyExc PyPath × EngineState :=
  (e.stage sys c.env c.clock c.mac c.req none c.symlink).run w

/-- What `serve` resolves for a call. -/
def firmwareOf (w : EngineState) (c : StageCall) : Except PyExc PyPath :=
  ((e.serve sys c.clock c.mac c.req).run w).1

/-- The staging of a call, if it returns. -/
def staging? (w : EngineState) (c : StageCall) : Option Staging :=
  match e.firmwareOf sys w c, (e.stageStep sys w c).1 with
  | .ok firmware, .ok target => some ⟨c.mac, firmware, target⟩
  | _, _ => none

/-- The stagings of a run. -/
def stagings : EngineState → List StageCall → List Staging
  | _, [] => []
  | w, c :: cs => (e.staging? sys w c).toList ++ stagings (e.stageStep sys w c).2 cs

theorem stagings_append (w : EngineState) (cs cs' : List StageCall) :
    e.stagings sys w (cs ++ cs') =
      e.stagings sys w cs ++ e.stagings sys (run (e.stageStep sys) w cs) cs' := by
  induction cs generalizing w with
  | nil => rfl
  | cons c cs ih => simp [stagings, ih]

/-- The last staging of a run under a name. -/
def lastUnder (log : List Staging) (name : String) : Option Staging :=
  (log.filter fun s => s.name = name).getLast?

end

/-! ### Firmware outside the TFTP root -/

/-- Components lead to a file with the given bytes, and look up no entry of a directory. -/
def LeadsPast (fs : FS) (R cur : Loc String) (cs : List (Comp String)) (b : Bytes) : Prop :=
  ∃ l, fs.Leads true (fun m => m.tail ≠ R) cur cs l ∧ fs.bytes? l = some b

/-- A path leads to a file with the given bytes, and looks up no entry of a directory. -/
structure ReadsPast (cwd : Loc String) (fs : FS) (R : Loc String) (p : PyPath) (b : Bytes) :
    Prop where
  nul : hasNul p = false
  base : fs.isDir (p.base cwd) = true
  leads : LeadsPast fs R (p.base cwd) p.comps b

/-- A firmware path outside the TFTP root: neither the path of the TFTP root nor that of the
firmware looks up an entry of the TFTP root. A link is made of the absolute form of the path, so
where one may be made that form leads to a file with the same bytes, also past those entries. -/
def Outside (cwd : Loc String) (fs : FS) (tftpRoot firmware : PyPath) (symlink : Bool) : Prop :=
  ∃ R b, Reaches cwd fs (fun m => m.tail ≠ R) tftpRoot R ∧ ReadsPast cwd fs R firmware b ∧
    (symlink = true → LeadsPast fs R [] (absPath (abspath cwd firmware)).comps b)

/-- An entry of a directory reads as the given bytes, past the other entries. -/
def EntryHolds (fs : FS) (R : Loc String) (name : String) (b : Bytes) : Prop :=
  fs.get? (name :: R) = some (.file b) ∨
    ∃ t, fs.get? (name :: R) = some (.link t) ∧ t.absolute = true ∧ LeadsPast fs R [] t.comps b

section

variable {cwd : Loc String} {fs fs' : FS} {R cur : Loc String} {cs : List (Comp String)}
  {p tftpRoot : PyPath} {b : Bytes} {name name' : String} {node : Node String Bytes}
  {hcan : fs.CanPut name R}

theorem LeadsPast.extend (h : LeadsPast fs R cur cs b) (hext : fs.Extends fs') :
    LeadsPast fs' R cur cs b := by
  obtain ⟨l, hl, hbytes⟩ := h
  exact ⟨l, hl.extend hext, hext.bytes? hbytes⟩

/-- What leads past the entries of a directory is not affected by a new entry. -/
theorem LeadsPast.put (hnode : node ≠ .dir) (h : LeadsPast fs R cur cs b)
    (hcur : fs.isDir cur = true) : LeadsPast (fs.put name R node hcan) R cur cs b := by
  have hne {m : Loc String} (hm : m.tail ≠ R) : m ≠ name :: R := by
    rintro rfl
    exact hm rfl
  obtain ⟨l, hl, hbytes⟩ := h
  have hlne : l ≠ name :: R := hne (hl.ok_of_file hcur hbytes)
  refine ⟨l, hl.transfer (fun m hm => FileSystem.get?_put_of_ne (hne hm)) fun m hm => ?_, ?_⟩
  · rwa [FileSystem.isDir_put hnode]
  · rw [FileSystem.bytes?_put_of_ne hlne, hbytes]

theorem ReadsPast.reads (h : ReadsPast cwd fs R p b) : readBytes cwd fs p = .ok b := by
  obtain ⟨l, hl, hbytes⟩ := h.leads
  exact readBytes_eq_ok.mpr ⟨l, ⟨h.nul, h.base, hl.anywhere⟩, hbytes⟩

theorem ReadsPast.extend (h : ReadsPast cwd fs R p b) (hext : fs.Extends fs') :
    ReadsPast cwd fs' R p b :=
  ⟨h.nul, hext.isDir h.base, h.leads.extend hext⟩

theorem ReadsPast.put (hnode : node ≠ .dir) (h : ReadsPast cwd fs R p b) :
    ReadsPast cwd (fs.put name R node hcan) R p b := by
  have hbase : (fs.put name R node hcan).isDir (p.base cwd) = true :=
    (FileSystem.isDir_put hnode).trans h.base
  exact ⟨h.nul, hbase, h.leads.put hnode h.base⟩

theorem EntryHolds.extend (h : EntryHolds fs R name b) (hext : fs.Extends fs') :
    EntryHolds fs' R name b := by
  rcases h with hget | ⟨t, hget, habs, hleads⟩
  · exact .inl (hext.get?_of_some hget)
  · exact .inr ⟨t, hext.get?_of_some hget, habs, hleads.extend hext⟩

theorem EntryHolds.put (hnode : node ≠ .dir) (h : EntryHolds fs R name' b) (hne : name' ≠ name) :
    EntryHolds (fs.put name R node hcan) R name' b := by
  have hloc : name' :: R ≠ name :: R := fun heq => hne (List.cons.inj heq).1
  rcases h with hget | ⟨t, hget, habs, hleads⟩
  · exact .inl ((FileSystem.get?_put_of_ne hloc).trans hget)
  · exact .inr ⟨t, (FileSystem.get?_put_of_ne hloc).trans hget, habs,
      hleads.put hnode FileSystem.isDir_root⟩

/-- A new entry reads as the firmware it was made of. -/
theorem entryHolds_staged {env : StageEnv} {firmware : PyPath} {symlink : Bool}
    (h : symlink = true → LeadsPast fs R [] (absPath (abspath cwd firmware)).comps b)
    (hcan : fs.CanPut name R) :
    EntryHolds (fs.put name R (stagedNode cwd env fs firmware tftpRoot symlink b) hcan) R name
      b := by
  by_cases hlink : (symlink && linkable cwd env tftpRoot fs) = true
  · have hsymlink : symlink = true := (Bool.and_eq_true_iff.mp hlink).1
    simp only [stagedNode, if_pos hlink]
    exact .inr ⟨_, by simp, rfl, (h hsymlink).put (by simp) FileSystem.isDir_root⟩
  · simp only [stagedNode, if_neg hlink]
    exact .inl (by simp)

theorem EntryHolds.reads (h : EntryHolds fs R name b) : EntryReads fs R name b := by
  have hthere : (fs.get? (name :: R)).isSome := by
    rcases h with hget | ⟨t, hget, -⟩
    · simp [hget]
    · simp [hget]
  have hdir : fs.isDir R = true := FileSystem.isDir_of_isSome hthere
  rcases h with hget | ⟨t, hget, habs, l, hl, hbytes⟩
  · have hlink : ∀ t, fs.get? (name :: R) ≠ some (.link t) := by simp [hget]
    have hleads : fs.Leads true (fun _ => True) R [.name name] (name :: R) :=
      (FileSystem.Leads.name_iff (fun _ => hdir) hlink).mpr ⟨rfl, fun _ => hthere⟩
    exact ⟨name :: R, hleads, FileSystem.bytes?_eq_some_iff.mpr hget⟩
  · refine ⟨l, (FileSystem.Leads.link_iff trivial (fun _ => hdir) hget).mpr ⟨l, ?_, .nil l⟩, hbytes⟩
    rw [Path.base, habs, if_pos rfl]
    exact hl.anywhere

/-- **Firmware of the built-in plugins.** A file that is not below the TFTP root is outside it,
when neither has links on the way. -/
theorem outside_of_linkFree {l : Loc String} {symlink : Bool} (hroot : fs.LinkFree R)
    (hdir : fs.isDir R = true) (hnul : hasNul (absPath R) = false) (hfile : fs.LinkFree l)
    (hbytes : fs.bytes? l = some b) (hnul' : hasNul (absPath l) = false) (hout : ¬R <:+ l) :
    Outside cwd fs (absPath R) (absPath l) symlink := by
  have hsome : (fs.get? l).isSome := by
    rw [FileSystem.bytes?_eq_some_iff.mp hbytes]
    rfl
  have hpast : LeadsPast fs R [] (absPath l).comps b := by
    refine ⟨l, (hfile.leads hsome).mono fun m hm heq => ?_, hbytes⟩
    exact hout (heq ▸ (List.tail_suffix m).trans hm)
  have hRsome : (fs.get? R).isSome := FileSystem.isSome_of_isDir hdir
  have hRne : R ≠ [] := by
    rintro rfl
    exact hout (List.nil_suffix)
  refine ⟨R, b, ⟨hnul, FileSystem.isDir_root, (hroot.leads hRsome).mono fun m hm heq => ?_⟩,
    ⟨hnul', FileSystem.isDir_root, hpast⟩, fun _ => ?_⟩
  · -- an entry of a directory is not on the way to it
    have hlen : m.length ≤ R.length := hm.length_le
    subst heq
    cases m with
    | nil => exact hRne rfl
    | cons n m => simp at hlen
  · rw [abspath_absPath]
    exact hpast

/-- A path reads as the given bytes, past the entries of the directory of the TFTP root. -/
def ReadsPastRoot (cwd : Loc String) (fs : FS) (tftpRoot p : PyPath) (b : Bytes) : Prop :=
  ∃ R, Reaches cwd fs (fun m => m.tail ≠ R) tftpRoot R ∧ ReadsPast cwd fs R p b

theorem ReadsPastRoot.extend (h : ReadsPastRoot cwd fs tftpRoot p b) (hext : fs.Extends fs') :
    ReadsPastRoot cwd fs' tftpRoot p b := by
  obtain ⟨R, hroot, hreads⟩ := h
  exact ⟨R, hroot.extend hext, hreads.extend hext⟩

end

/-! ### The invariant of a run -/

/-- Every staged path is an entry of the TFTP root that reads as the firmware of the last staging
under its name, and that firmware is still what it was. -/
def Served (cwd : Loc String) (tftpRoot : PyPath) (fs : FS) (log : List Staging) : Prop :=
  ∀ s ∈ log, s.target = child tftpRoot s.name ∧ hasChar '\x00' s.name = false ∧
    ∃ R t b, Reaches cwd fs (fun m => m.tail ≠ R) tftpRoot R ∧ lastUnder log s.name = some t ∧
      EntryHolds fs R s.name b ∧ ReadsPast cwd fs R t.firmware b

theorem lastUnder_concat (log : List Staging) (s : Staging) (name : String) :
    lastUnder (log ++ [s]) name = if s.name = name then some s else lastUnder log name := by
  by_cases h : s.name = name
  · simp [lastUnder, h]
  · simp [lastUnder, h]

section

variable {cwd : Loc String} {py : StrLib} {env : StageEnv} {tftpRoot firmware target : PyPath}
  {fs fs' : FS} {log : List Staging} {symlink : Bool}

theorem Served.extend (h : Served cwd tftpRoot fs log) (hext : fs.Extends fs') :
    Served cwd tftpRoot fs' log := by
  intro s hs
  obtain ⟨htarget, hnul, R, t, b, hR, hlast, hentry, hreads⟩ := h s hs
  exact ⟨htarget, hnul, R, t, b, hR.extend hext, hlast, hentry.extend hext, hreads.extend hext⟩

/-- A new entry of a directory leaves the way to that directory as it is. -/
theorem reaches_put {R : Loc String} {name : String} {node : Node String Bytes}
    {hcan : fs.CanPut name R} (hnode : node ≠ .dir)
    (hroot : Reaches cwd fs (fun m => m.tail ≠ R) tftpRoot R) :
    Reaches cwd (fs.put name R node hcan) (fun m => m.tail ≠ R) tftpRoot R := by
  refine hroot.transfer (fun m hm => FileSystem.get?_put_of_ne ?_) fun m hm => ?_
  · rintro rfl
    exact hm rfl
  · rwa [FileSystem.isDir_put hnode]

/-- A new entry of the TFTP root. -/
private theorem Served.put {R : Loc String} {s : Staging} {b : Bytes} {node : Node String Bytes}
    (h : Served cwd tftpRoot fs log) (hnode : node ≠ .dir) (hcan : fs.CanPut s.name R)
    (hroot : Reaches cwd fs (fun m => m.tail ≠ R) tftpRoot R)
    (htarget : s.target = child tftpRoot s.name) (hnul : hasChar '\x00' s.name = false)
    (hentry : EntryHolds (fs.put s.name R node hcan) R s.name b)
    (hreads : ReadsPast cwd fs R s.firmware b) :
    Served cwd tftpRoot (fs.put s.name R node hcan) (log ++ [s]) := by
  have hroot' : Reaches cwd (fs.put s.name R node hcan) (fun m => m.tail ≠ R) tftpRoot R :=
    reaches_put hnode hroot
  intro s' hs'
  rw [List.mem_append, List.mem_singleton] at hs'
  by_cases hname : s.name = s'.name
  · -- the entry now belongs to the new staging, also for those staged before it
    have hentry' : s'.target = child tftpRoot s'.name ∧ hasChar '\x00' s'.name = false := by
      rcases hs' with hs' | rfl
      · exact ⟨(h s' hs').1, (h s' hs').2.1⟩
      · exact ⟨htarget, hnul⟩
    refine ⟨hentry'.1, hentry'.2, R, s, b, hroot', ?_, hname ▸ hentry, hreads.put hnode⟩
    rw [lastUnder_concat, if_pos hname]
  · rcases hs' with hs' | rfl
    · obtain ⟨htarget', hnul', R', t, b', hR', hlast, hold, hread⟩ := h s' hs'
      obtain rfl := hR'.unique hroot
      refine ⟨htarget', hnul', R', t, b', hroot', ?_, hold.put hnode (Ne.symm hname),
        hread.put hnode⟩
      rw [lastUnder_concat, if_neg hname, hlast]
    · exact absurd rfl hname

/-- **Files beside the TFTP root are kept.** Staging leaves what reads past the entries of the
TFTP root as it is. -/
theorem ReadsPastRoot.stage {p : PyPath} {b : Bytes} (h : ReadsPastRoot cwd fs tftpRoot p b)
    (hstage : (TftpOS.stage cwd py env firmware tftpRoot none symlink).run fs = (.ok target, fs')) :
    ReadsPastRoot cwd fs' tftpRoot p b := by
  obtain ⟨b', hfirmware⟩ := stage_reads hstage
  obtain ⟨fs₁, R₁, safe, -, hmkdir, hR, -, -, hcan, rfl⟩ := stage_eq_ok hfirmware hstage
  obtain ⟨R, hroot, hreads⟩ := h.extend (mkdir_spec hmkdir).1.extension
  obtain rfl := hroot.unique hR
  exact ⟨R, reaches_put stagedNode_ne_dir hroot, hreads.put stagedNode_ne_dir⟩

/-- Firmware outside the TFTP root still reads the same after its staging. -/
theorem readsPastRoot_of_outside
    (hstage : (TftpOS.stage cwd py env firmware tftpRoot none symlink).run fs = (.ok target, fs'))
    (hout : Outside cwd ((mkdir cwd tftpRoot).run fs).2 tftpRoot firmware symlink) :
    ∃ b, readBytes cwd fs firmware = .ok b ∧ ReadsPastRoot cwd fs' tftpRoot firmware b := by
  obtain ⟨b, hfirmware⟩ := stage_reads hstage
  obtain ⟨fs₁, R₁, safe, -, hmkdir, hR, -, -, hcan, rfl⟩ := stage_eq_ok hfirmware hstage
  rw [hmkdir] at hout
  obtain ⟨R, b', hroot, hreads, -⟩ := hout
  obtain rfl := hroot.unique hR
  have hbytes : readBytes cwd fs₁ firmware = .ok b :=
    readBytes_extend hfirmware (mkdir_spec hmkdir).1.extension
  obtain rfl := Except.ok.inj (hreads.reads.symm.trans hbytes)
  exact ⟨b', hfirmware, R, reaches_put stagedNode_ne_dir hroot, hreads.put stagedNode_ne_dir⟩

/-- One more staging of firmware outside the TFTP root. -/
theorem Served.stage (h : Served cwd tftpRoot fs log)
    (hstage : (TftpOS.stage cwd py env firmware tftpRoot none symlink).run fs = (.ok target, fs'))
    (hout : Outside cwd ((mkdir cwd tftpRoot).run fs).2 tftpRoot firmware symlink)
    (mac : String) :
    Served cwd tftpRoot fs' (log ++ [⟨mac, firmware, target⟩]) := by
  obtain ⟨b, hfirmware⟩ := stage_reads hstage
  obtain ⟨fs₁, R, safe, hsafe, hmkdir, hR, hnul, rfl, hcan, rfl⟩ := stage_eq_ok hfirmware hstage
  rw [Option.getD_none] at hsafe
  subst hsafe
  rw [hmkdir] at hout
  obtain ⟨R', b', hroot, hreads, hleads⟩ := hout
  obtain rfl := hroot.unique hR
  have hext : fs.Extends fs₁ := (mkdir_spec hmkdir).1.extension
  have hbytes : readBytes cwd fs₁ firmware = .ok b := readBytes_extend hfirmware hext
  obtain rfl := Except.ok.inj (hreads.reads.symm.trans hbytes)
  exact (h.extend hext).put (s := ⟨mac, firmware, _⟩) stagedNode_ne_dir hcan hroot rfl hnul
    (entryHolds_staged hleads hcan) hreads

end

/-! ### Runs -/

section

variable {sys : Platform} {e : FirmwareEngine} {w : EngineState} {c : StageCall}

/-- A call of `stage` either returns with a staging, or it has at most made the TFTP root. -/
theorem stageStep_cases (sys : Platform) (e : FirmwareEngine) (w : EngineState) (c : StageCall) :
    (e.staging? sys w c = none ∧ w.fs.Extends (e.stageStep sys w c).2.fs) ∨
      ∃ firmware target, e.staging? sys w c = some ⟨c.mac, firmware, target⟩ ∧
        (TftpOS.stage sys.cwd sys.py c.env firmware e.config.tftpRoot none c.symlink).run w.fs =
          (.ok target, (e.stageStep sys w c).2.fs) := by
  rw [staging?, firmwareOf, stageStep, stage]
  rcases hserve : (e.serve sys c.clock c.mac c.req).run w with ⟨e' | firmware, w₁⟩
  · rw [Action.bind_of_error hserve]
    refine .inl ⟨rfl, ?_⟩
    rw [(serve_reads hserve).1]
    exact .refl _
  · have hfs := (serve_reads hserve).1
    rcases hstage : (TftpOS.stage sys.cwd sys.py c.env firmware e.config.tftpRoot none
        c.symlink).run w.fs with ⟨e' | target, fs'⟩
    · rw [Action.bind_of_ok hserve, Action.zoom_of_run (hfs ▸ hstage)]
      refine .inl ⟨rfl, ?_⟩
      rcases stage_error hstage with rfl | rfl
      · exact .refl _
      · exact (mkdir_spec rfl).1.extension
    · rw [Action.bind_of_ok hserve, Action.zoom_of_run (hfs ▸ hstage)]
      exact .inr ⟨firmware, target, rfl, hstage⟩

/-- The invariant of a run whose firmware lies outside the TFTP root. -/
theorem served_run {cs : List StageCall}
    (hout : ∀ pre c, pre ++ [c] <+: cs →
      ∀ s, e.staging? sys (run (e.stageStep sys) w pre) c = some s →
        Outside sys.cwd ((mkdir sys.cwd e.config.tftpRoot).run
          (run (e.stageStep sys) w pre).fs).2 e.config.tftpRoot s.firmware c.symlink) :
    Served sys.cwd e.config.tftpRoot (run (e.stageStep sys) w cs).fs (e.stagings sys w cs) := by
  induction cs using List.reverseRecOn with
  | nil => exact nofun
  | append_singleton cs c ih =>
    have hbefore := ih fun pre c' hpre => hout pre c' (hpre.trans (List.prefix_append cs [c]))
    rw [run_concat, stagings_append]
    rcases stageStep_cases sys e (run (e.stageStep sys) w cs) c with
      ⟨hnone, hext⟩ | ⟨firmware, target, hsome, hstage⟩
    · rw [stagings, hnone, stagings]
      simpa using hbefore.extend hext
    · rw [stagings, hsome, stagings]
      exact hbefore.stage hstage (hout cs c (List.prefix_refl _) _ hsome) c.mac

theorem readsPastRoot_run {p : PyPath} {b : Bytes} (cs : List StageCall)
    (h : ReadsPastRoot sys.cwd w.fs e.config.tftpRoot p b) :
    ReadsPastRoot sys.cwd (run (e.stageStep sys) w cs).fs e.config.tftpRoot p b := by
  induction cs generalizing w with
  | nil => exact h
  | cons c cs ih =>
    apply ih
    rcases stageStep_cases sys e w c with ⟨-, hext⟩ | ⟨firmware, target, -, hstage⟩
    · exact h.extend hext
    · exact h.stage hstage

/-- Firmware outside the TFTP root is kept by the staging that resolved it and by all later
ones. -/
theorem firmware_kept {s : Staging} (cs : List StageCall) (hs : e.staging? sys w c = some s)
    (hout : Outside sys.cwd ((mkdir sys.cwd e.config.tftpRoot).run w.fs).2 e.config.tftpRoot
      s.firmware c.symlink) :
    ∃ b, readBytes sys.cwd w.fs s.firmware = .ok b ∧
      readBytes sys.cwd (run (e.stageStep sys) w (c :: cs)).fs s.firmware = .ok b := by
  rcases stageStep_cases sys e w c with ⟨hnone, -⟩ | ⟨firmware, target, hsome, hstage⟩
  · rw [hnone] at hs
    cases hs
  · obtain rfl := Option.some.inj (hsome.symm.trans hs)
    obtain ⟨b, hbefore, hpast⟩ := readsPastRoot_of_outside hstage hout
    obtain ⟨R, -, hafter⟩ := readsPastRoot_run cs hpast
    exact ⟨b, hbefore, hafter.reads⟩

/-- The last staging under a name is that of a call after which no other one is staged under
the name. -/
theorem exists_of_lastUnder {cs : List StageCall} {name : String} {t : Staging}
    (h : lastUnder (e.stagings sys w cs) name = some t) :
    ∃ pre c post, cs = pre ++ c :: post ∧
      e.staging? sys (run (e.stageStep sys) w pre) c = some t ∧
      lastUnder (e.stagings sys (run (e.stageStep sys) w (pre ++ [c])) post) name = none := by
  induction cs using List.reverseRecOn with
  | nil => simp [stagings, lastUnder] at h
  | append_singleton cs c ih =>
    rw [stagings_append, stagings, stagings, List.append_nil] at h
    rcases hlast : e.staging? sys (run (e.stageStep sys) w cs) c with _ | s
    · rw [hlast, Option.toList_none, List.append_nil] at h
      obtain ⟨pre, c', post, rfl, hs, hnone⟩ := ih h
      refine ⟨pre, c', post ++ [c], by simp, hs, ?_⟩
      have hrun : run (e.stageStep sys) (run (e.stageStep sys) w (pre ++ [c'])) post =
          run (e.stageStep sys) w (pre ++ c' :: post) := by simp
      rw [stagings_append, hrun, stagings, hlast]
      simpa [stagings] using hnone
    · rw [hlast, Option.toList_some, lastUnder_concat] at h
      split_ifs at h with hname
      · obtain rfl := Option.some.inj h
        exact ⟨cs, c, [], rfl, hlast, rfl⟩
      · obtain ⟨pre, c', post, rfl, hs, hnone⟩ := ih h
        refine ⟨pre, c', post ++ [c], by simp, hs, ?_⟩
        have hrun : run (e.stageStep sys) (run (e.stageStep sys) w (pre ++ [c'])) post =
            run (e.stageStep sys) w (pre ++ c' :: post) := by simp
        rw [stagings_append, hrun, stagings, hlast, stagings, Option.toList_some, List.append_nil,
          lastUnder_concat, if_neg hname, hnone]

/-- **The last staging under a name wins.** After a run of calls of `stage` with the default
name, whose firmware lies outside the TFTP root, every path that was returned is the entry of the
TFTP root under the name of its firmware file, and it reads as the firmware of the last staging
under that name, which is still what it was when that call was made. -/
theorem staged_reads_last {cs : List StageCall}
    (hout : ∀ pre c, pre ++ [c] <+: cs →
      ∀ s, e.staging? sys (run (e.stageStep sys) w pre) c = some s →
        Outside sys.cwd ((mkdir sys.cwd e.config.tftpRoot).run
          (run (e.stageStep sys) w pre).fs).2 e.config.tftpRoot s.firmware c.symlink) :
    ∀ s ∈ e.stagings sys w cs, s.target = child e.config.tftpRoot (pathName s.firmware) ∧
      ∃ t b, lastUnder (e.stagings sys w cs) (pathName s.firmware) = some t ∧
        readBytes sys.cwd (run (e.stageStep sys) w cs).fs s.target = .ok b ∧
        readBytes sys.cwd (run (e.stageStep sys) w cs).fs t.firmware = .ok b ∧
        ∃ pre c post, cs = pre ++ c :: post ∧
          e.staging? sys (run (e.stageStep sys) w pre) c = some t ∧
          lastUnder (e.stagings sys (run (e.stageStep sys) w (pre ++ [c])) post)
            (pathName s.firmware) = none ∧
          readBytes sys.cwd (run (e.stageStep sys) w pre).fs t.firmware = .ok b := by
  intro s hs
  obtain ⟨htarget, hnul, R, t, b, hroot, hlast, hentry, hreads⟩ := served_run hout s hs
  obtain ⟨pre, c, post, rfl, ht, hnone⟩ := exists_of_lastUnder hlast
  have hpre : pre ++ [c] <+: pre ++ c :: post := ⟨post, by simp⟩
  obtain ⟨b', hbefore, hafter⟩ := firmware_kept post ht (hout pre c hpre t ht)
  rw [← run_append] at hafter
  obtain rfl := Except.ok.inj (hafter.symm.trans hreads.reads)
  refine ⟨htarget, t, b', hlast, ?_, hafter, pre, c, post, rfl, ht, hnone, hbefore⟩
  rw [htarget]
  exact (target_bytes_iff hroot.anywhere hnul).mpr hentry.reads

end

/-! ### Two hosts of the lab -/

/-- A call for a host of the lab. -/
def labCall (mac : String) : StageCall where
  mac := mac
  env := calm
  clock := ⟨0, 0, 0⟩

/-- The firmware of a version in the lab. -/
def labFirmware (version : String) : Loc String := ["firmware.bin", version, "openwrt", "distros"]

/-- The staging of a host of the lab. -/
def labStaging (mac version : String) : Staging where
  mac := mac
  firmware := absPath (labFirmware version)
  target := child (absPath ["tftp", "srv"]) "firmware.bin"

/-- Both hosts of the lab, staged one after the other. -/
theorem staged_reads_last_lab :
    let w := run (labEngine.stageStep labPlatform) labState [labCall "01", labCall "02"]
    let log := labEngine.stagings labPlatform labState [labCall "01", labCall "02"]
    log = [labStaging "01" "23.05", labStaging "02" "24.10"] ∧
      ∀ s ∈ log, s.target = child labEngine.config.tftpRoot (pathName s.firmware) ∧
        ∃ t b, lastUnder log (pathName s.firmware) = some t ∧
          readBytes [] w.fs s.target = .ok b ∧ readBytes [] w.fs t.firmware = .ok b ∧
          ∃ pre c post, [labCall "01", labCall "02"] = pre ++ c :: post ∧
            labEngine.staging? labPlatform
              (run (labEngine.stageStep labPlatform) labState pre) c = some t ∧
            lastUnder (labEngine.stagings labPlatform
              (run (labEngine.stageStep labPlatform) labState (pre ++ [c])) post)
              (pathName s.firmware) = none ∧
            readBytes [] (run (labEngine.stageStep labPlatform) labState pre).fs t.firmware =
              .ok b := by
  intro w log
  refine ⟨by decide +kernel, staged_reads_last (forall_steps_cons.mpr ⟨fun s hs => ?_,
    forall_steps_cons.mpr ⟨fun s hs => ?_, fun pre c hpre => by simp at hpre⟩⟩)⟩
  · have hstaging : labEngine.staging? labPlatform labState (labCall "01") =
        some (labStaging "01" "23.05") := by decide +kernel
    obtain rfl := Option.some.inj (hstaging.symm.trans hs)
    refine outside_of_linkFree (R := ["tftp", "srv"]) (b := [1]) (l := labFirmware "23.05")
      ?_ ?_ ?_ ?_ ?_ ?_ ?_ <;> decide +kernel
  · have hstaging : labEngine.staging? labPlatform
        (run (labEngine.stageStep labPlatform) labState [labCall "01"]) (labCall "02") =
        some (labStaging "02" "24.10") := by decide +kernel
    obtain rfl := Option.some.inj (hstaging.symm.trans hs)
    refine outside_of_linkFree (R := ["tftp", "srv"]) (b := [2]) (l := labFirmware "24.10")
      ?_ ?_ ?_ ?_ ?_ ?_ ?_ <;> decide +kernel

/-- **One name for all.** Staging the second host replaces what the first host is served: its
staged path now reads as the firmware of another version. -/
theorem second_staging_replaces_first :
    let w := run (labEngine.stageStep labPlatform) labState [labCall "01", labCall "02"]
    let first := labStaging "01" "23.05"
    labEngine.staging? labPlatform labState (labCall "01") = some first ∧
      readBytes [] labState.fs first.firmware = .ok [1] ∧
      readBytes [] w.fs first.firmware = .ok [1] ∧ readBytes [] w.fs first.target = .ok [2] := by
  decide +kernel

end FirmwareEngine

end TftpOS
