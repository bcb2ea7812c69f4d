import TftpOS.CloudImages

/-!
# The directory of images

A `Site` is a path whose end may still have to be made, as the directory of the images. It is `Tidy`
while it has directories in it with nothing but files in them. Then the paths below it lead where
they say, and an import into a directory there puts two files into it, the image and the metadata,
or raises and has made directories at most (`import_cases`).
-/

namespace TftpOS

open Lib

/-- One call into a directory of images. -/
def importStep (cwd : Loc String) (py : StrLib) (env : ImageEnv) (imagesDir : PyPath) (fs : FS)
    (call : ImportCall) : Except PyExc CloudImage × FS :=
  (importCloudImage cwd py env (some imagesDir) none call).run fs

/-- A path that leads to a directory for some way, and goes down from there. -/
structure Site where
  base : PyPath
  dir : Loc String
  names : List String

namespace Site

/-- The path. -/
def path (site : Site) : PyPath := ⟨site.base.absolute, site.base.comps ++ site.names.map .name⟩

/-- Where the path leads. -/
def loc (site : Site) : Loc String := site.names.reverse ++ site.dir

/-- The directory is there or is still to be made, and has nothing in it. -/
structure Vacant (cwd : Loc String) (fs : FS) (site : Site) : Prop where
  reaches : Reaches cwd fs (fun _ => True) site.base site.dir
  isDir : fs.isDir site.dir = true
  missing : ∀ m, site.dir <:+ m → m ≠ site.dir → m <:+ site.loc → fs.get? m = none
  empty : ∀ n m, site.loc <:+ m → fs.get? (n :: m) = none

/-- The directory has directories in it, with nothing but files in them. -/
structure Tidy (cwd : Loc String) (fs : FS) (site : Site) : Prop where
  reaches : Reaches cwd fs (fun _ => True) site.base site.dir
  isDir : fs.isDir site.dir = true
  way : ∀ m, site.dir <:+ m → m <:+ site.loc → (fs.get? m).isSome → fs.isDir m = true
  below : ∀ n m, site.loc <:+ m → (fs.get? (n :: m)).isSome →
    m = site.loc ∧ fs.isDir (n :: m) = true ∨
      (∃ n', m = n' :: site.loc) ∧ ∃ b, fs.get? (n :: m) = some (.file b)

variable {cwd : Loc String} {site : Site} {fs fs' : FS} {ok : Loc String → Prop} {n x : String}
  {l : Loc String}

theorem Vacant.tidy (h : site.Vacant cwd fs) : site.Tidy cwd fs where
  reaches := h.reaches
  isDir := h.isDir
  way m hm hloc hthere := by
    by_cases hne : m = site.dir
    · rw [hne]
      exact h.isDir
    · rw [h.missing m hm hne hloc] at hthere
      cases hthere
  below n m hm hthere := by
    rw [h.empty n m hm] at hthere
    cases hthere

namespace Tidy

/-- No link is on the way down to a directory in the directory of images. -/
theorem linkFreeBelow (h : site.Tidy cwd fs) (n : String) :
    fs.LinkFreeBelow site.dir (n :: site.loc) := by
  intro m hm hne hsuffix p hlink
  have hthere : (fs.get? m).isSome := by
    rw [hlink]
    rfl
  rcases List.suffix_cons_iff.mp hsuffix with rfl | hsuffix
  · rcases h.below n _ (List.suffix_refl _) hthere with ⟨-, hdir⟩ | ⟨-, b, hfile⟩
    · rw [FileSystem.isDir_iff, hlink] at hdir
      cases hdir
    · rw [hlink] at hfile
      cases hfile
  · have hdir := h.way m hm hsuffix hthere
    rw [FileSystem.isDir_iff, hlink] at hdir
    cases hdir

/-- The path of a directory in the directory of images leads there. -/
theorem eq_of_reaches_child (h : site.Tidy cwd fs) (hl : Reaches cwd fs ok (child site.path n) l) :
    l = n :: site.loc := by
  have hcomps : (child site.path n).comps = site.base.comps ++ (site.names ++ [n]).map .name := by
    simp [child, path]
  have hleads := hl.leads
  rw [hcomps, FileSystem.Leads.append_iff] at hleads
  obtain ⟨d, hd, hleads⟩ := hleads
  obtain rfl := hd.unique h.reaches.leads
  have hway : (site.names ++ [n]).reverse ++ site.dir = n :: site.loc := by simp [loc]
  have hfree := h.linkFreeBelow n
  rw [← hway] at hfree ⊢
  exact FileSystem.Leads.eq_of_names hfree hleads

theorem eq_of_reaches (h : site.Tidy cwd fs) (hl : Reaches cwd fs ok site.path l) :
    l = site.loc := by
  obtain ⟨d, hd, hleads⟩ := FileSystem.Leads.append_iff.mp hl.leads
  obtain rfl := hd.unique h.reaches.leads
  refine FileSystem.Leads.eq_of_names (fun m hm hne hsuffix => ?_) hleads
  exact h.linkFreeBelow "" m hm hne (hsuffix.trans (List.suffix_cons "" site.loc))

/-- Directories are made on the way to the directory of images, and in it. -/
theorem made_cases (h : site.Tidy cwd fs) (hgrows : fs.Grows fs') {m : Loc String}
    (hmade : MadeOn cwd (child site.path n) fs fs' m) :
    site.dir <:+ m ∧ m <:+ site.loc ∨ m = n :: site.loc := by
  obtain ⟨hnone, -, cs, hcs, hreach⟩ := hmade
  have hcomps : (child site.path n).comps = site.base.comps ++ (site.names ++ [n]).map .name := by
    simp [child, path]
  rw [hcomps] at hcs
  obtain ⟨rest, hsplit⟩ := hcs
  rcases List.append_eq_append_iff.mp hsplit with ⟨rest', hbase', -⟩ | ⟨cs', rfl, hcs'⟩
  · -- all of the base was there
    have hbase := h.reaches.leads
    rw [hbase', FileSystem.Leads.append_iff] at hbase
    obtain ⟨m', hm', -⟩ := hbase
    obtain rfl := hreach.leads.unique (hm'.grow hgrows)
    have hthere : (fs.get? m).isSome := by
      rcases hm'.last_of_strict h.reaches.base with hdir | ⟨hsome, -⟩
      · exact FileSystem.isSome_of_isDir hdir
      · exact hsome
    rw [hnone] at hthere
    cases hthere
  · obtain ⟨names, hnames, rfl⟩ : ∃ names, names <+: site.names ++ [n] ∧ cs' = names.map .name := by
      obtain ⟨names, rest', hnames, rfl, -⟩ := List.map_eq_append_iff.mp hcs'
      exact ⟨names, ⟨rest', hnames.symm⟩, rfl⟩
    obtain ⟨d, hd, hleads⟩ := FileSystem.Leads.append_iff.mp hreach.leads
    obtain rfl := hd.unique (h.reaches.leads.grow hgrows)
    have hsuffix : names.reverse ++ site.dir <:+ n :: site.loc := by
      have hway : n :: site.loc = (site.names ++ [n]).reverse ++ site.dir := by simp [loc]
      obtain ⟨rest', hrest'⟩ := hnames
      refine ⟨rest'.reverse, ?_⟩
      rw [hway, ← hrest']
      simp
    obtain rfl := FileSystem.Leads.eq_of_names (fun m hm hne hsuf p hlink =>
      h.linkFreeBelow n m hm hne (hsuf.trans hsuffix) p ((hgrows.links m p).mp hlink)) hleads
    rcases List.suffix_cons_iff.mp hsuffix with heq | hsuffix
    · exact .inr heq
    · exact .inl ⟨List.suffix_append _ _, hsuffix⟩

/-- Making the directory of an image keeps the directory of images tidy. -/
theorem dirsMade (h : site.Tidy cwd fs)
    (hmade : DirsMade cwd (child site.path n) fs fs') : site.Tidy cwd fs' where
  reaches := h.reaches.grow hmade.grows
  isDir := hmade.grows.dirs _ h.isDir
  way m hm hloc hthere := by
    rcases hmade m with heq | ⟨-, hdir, -⟩
    · rw [heq] at hthere
      exact hmade.grows.dirs m (h.way m hm hloc hthere)
    · exact FileSystem.isDir_iff.mpr hdir
  below x m hm hthere := by
    rcases hmade (x :: m) with heq | hnew
    · rw [heq] at hthere ⊢
      refine (h.below x m hm hthere).imp_left ?_
      rintro ⟨hloc, hdir⟩
      exact ⟨hloc, hmade.grows.dirs _ hdir⟩
    · rcases h.made_cases hmade.grows hnew with ⟨-, hsuffix⟩ | heq
      · have hlength := (hm.trans (List.suffix_cons x m)).length_le
        have hlength' := hsuffix.length_le
        have hlength'' := hm.length_le
        simp only [List.length_cons] at hlength hlength'
        omega
      · obtain ⟨rfl, rfl⟩ := List.cons.inj heq
        exact .inl ⟨rfl, FileSystem.isDir_iff.mpr hnew.2.1⟩

/-- There is a file under a name in the directory of an image, or nothing. -/
theorem file_or_none (h : site.Tidy cwd fs) (x n : String) :
    fs.get? (x :: n :: site.loc) = none ∨ ∃ b, fs.get? (x :: n :: site.loc) = some (.file b) := by
  rw [or_iff_not_imp_left]
  intro hthere
  rcases h.below x (n :: site.loc) (List.suffix_cons n _) (Option.isSome_iff_ne_none.mpr hthere)
    with ⟨heq, -⟩ | ⟨-, hfile⟩
  · exact absurd heq (List.cons_ne_self _ _)
  · exact hfile

/-- A file can be put into the directory of an image. -/
theorem canPut (h : site.Tidy cwd fs) (hdir : fs.isDir (n :: site.loc) = true) :
    fs.CanPut x (n :: site.loc) := by
  refine ⟨hdir, ?_⟩
  rw [Bool.eq_false_iff, ne_eq, FileSystem.isDir_iff]
  rcases h.file_or_none x n with hnone | ⟨b, hfile⟩
  · simp [hnone]
  · simp [hfile]

theorem grows_put (h : site.Tidy cwd fs) (hput : fs.CanPut x (n :: site.loc)) (b : Bytes) :
    fs.Grows (fs.put x (n :: site.loc) (.file b) hput) := by
  refine FileSystem.grows_put (fun p hp => by cases hp) fun p => ?_
  rcases h.file_or_none x n with hnone | ⟨b, hfile⟩
  · simp [hnone]
  · simp [hfile]

/-- Putting a file into the directory of an image keeps the directory of images tidy. -/
theorem put (h : site.Tidy cwd fs) (hput : fs.CanPut x (n :: site.loc)) (b : Bytes) :
    site.Tidy cwd (fs.put x (n :: site.loc) (.file b) hput) where
  reaches := h.reaches.grow (h.grows_put hput b)
  isDir := (h.grows_put hput b).dirs _ h.isDir
  way m hm hloc hthere := by
    have hne : m ≠ x :: n :: site.loc := by
      rintro rfl
      have hlength := hloc.length_le
      simp only [List.length_cons] at hlength
      omega
    rw [FileSystem.get?_put_of_ne hne] at hthere
    exact (h.grows_put hput b).dirs m (h.way m hm hloc hthere)
  below y m hm hthere := by
    by_cases hym : y :: m = x :: n :: site.loc
    · obtain ⟨rfl, rfl⟩ := List.cons.inj hym
      exact .inr ⟨⟨n, rfl⟩, b, by simp⟩
    · rw [FileSystem.get?_put_of_ne hym] at hthere ⊢
      refine (h.below y m hm hthere).imp_left ?_
      rintro ⟨hloc, hdir⟩
      exact ⟨hloc, (h.grows_put hput b).dirs _ hdir⟩

/-- The path of a name in the directory of an image leads to the file there, if anywhere. -/
theorem reaches_file_iff (h : site.Tidy cwd fs) {q : PyPath}
    (hq : Reaches cwd fs (fun _ => True) q (n :: site.loc)) (hdir : fs.isDir (n :: site.loc) = true)
    (hx : hasChar '\x00' x = false) :
    Reaches cwd fs (fun _ => True) (child q x) l ↔
      l = x :: n :: site.loc ∧ (fs.get? (x :: n :: site.loc)).isSome := by
  have hlink : ∀ p, fs.get? (x :: n :: site.loc) ≠ some (.link p) := by
    intro p hp
    rcases h.file_or_none x n with hnone | ⟨b, hfile⟩
    · rw [hnone] at hp
      cases hp
    · rw [hfile] at hp
      cases hp
  rw [reaches_child_iff]
  constructor
  · rintro ⟨-, d, hd, hl⟩
    obtain rfl := hd.unique hq
    obtain ⟨rfl, hthere⟩ := (FileSystem.Leads.name_iff (fun _ => hdir) hlink).mp hl
    exact ⟨rfl, hthere rfl⟩
  · rintro ⟨rfl, hthere⟩
    exact ⟨hx, _, hq, .step trivial (fun _ => hdir) (fun _ => hthere) hlink (.nil _)⟩

/-- Writing a file into the directory of an image. -/
theorem createBytes_eq (h : site.Tidy cwd fs) {q : PyPath}
    (hq : Reaches cwd fs (fun _ => True) q (n :: site.loc)) (hdir : fs.isDir (n :: site.loc) = true)
    (hx : hasChar '\x00' x = false) (b : Bytes) :
    createBytes cwd (child q x) b fs =
      .ok (fs.put x (n :: site.loc) (.file b) (h.canPut hdir)) := by
  have hplace : openPlace fs 40 cwd (child q x) = .ok (x :: n :: site.loc) := by
    rw [openPlace]
    rcases hloc : locate cwd fs (child q x) with e | l
    · have hnone : fs.get? (x :: n :: site.loc) = none := by
        by_contra hthere
        have hreach := (h.reaches_file_iff hq hdir hx).mpr
          ⟨rfl, Option.isSome_iff_ne_none.mpr hthere⟩
        rw [locate_eq_ok.mpr hreach] at hloc
        cases hloc
      simp only [entry_child hq hdir hx, ok_bind, hnone]
    · obtain ⟨rfl, -⟩ := (h.reaches_file_iff hq hdir hx).mp (locate_eq_ok.mp hloc)
      rfl
  rw [createBytes, hplace, ok_bind]
  simp only [putNode, dif_pos (h.canPut hdir)]

end Tidy

end Site

/-! ### One import -/

section

variable {cwd : Loc String} {py : StrLib} {env : ImageEnv} {site : Site} {fs fs' : FS}
  {ok : Loc String → Prop} {n : String} {p q : PyPath} {l : Loc String}

/-- The path of a file ends in the name of the file. -/
theorem name_of_file (h : Reaches cwd fs ok p l) {b : Bytes} (hfile : fs.bytes? l = some b) :
    ∃ x, .name x ∈ p.comps ∧ pathName p = x ∧ hasChar '\x00' x = false := by
  have hnodir : fs.isDir l = false := by
    rw [Bool.eq_false_iff, ne_eq, FileSystem.isDir_iff, FileSystem.bytes?_eq_some_iff.mp hfile]
    simp
  rcases List.eq_nil_or_concat p.comps with hnil | ⟨init, c, hcomps⟩
  · have hleads := h.leads
    rw [hnil] at hleads
    cases hleads
    rw [h.base] at hnodir
    cases hnodir
  · rw [List.concat_eq_append] at hcomps
    have hlast : p.comps.getLast? = some c := by rw [hcomps, List.getLast?_concat]
    have hmem : c ∈ p.comps := List.mem_of_getLast? hlast
    cases c with
    | up =>
      have hleads := h.leads
      rw [hcomps, FileSystem.Leads.append_iff] at hleads
      obtain ⟨m, -, hup⟩ := hleads
      cases hup with
      | up hdir rest =>
        cases rest
        rw [FileSystem.isDir_tail (hdir rfl)] at hnodir
        cases hnodir
    | name x =>
      refine ⟨x, hmem, by simp only [pathName, hlast, compText], ?_⟩
      have hnul := h.nul
      rw [hasNul, List.any_eq_false] at hnul
      simpa [compText] using hnul _ hmem

/-- A name in a directory, as it is joined to the path of the directory. -/
theorem joinPath_of_cleanName {x : String} (h : CleanName x) : joinPath q x = child q x := by
  rw [joinPath, parsePath_of_cleanName h]
  rfl

/-- A copy into the directory of an image puts the file there, or raises and changes nothing. -/
theorem copyFile_cases (h : site.Tidy cwd fs)
    (hq : Reaches cwd fs (fun _ => True) q (n :: site.loc)) (hdir : fs.isDir (n :: site.loc) = true)
    (source : String) {r : Except PyExc Unit}
    (hrun : (copyFile cwd (parsePath source) (joinPath q (pathName (parsePath source)))).run fs =
      (r, fs')) :
    (∃ e, r = .error e ∧ fs' = fs) ∨
      ∃ x b, CleanName x ∧ hasChar '\x00' x = false ∧ pathName (parsePath source) = x ∧
        r = .ok () ∧ fs' = fs.put x (n :: site.loc) (.file b) (h.canPut hdir) := by
  rw [copyFile, Action.bind_of_ok (by rw [Action.run_read]), copyBytes,
    Action.bind_of_ok (by rw [Action.run_read])] at hrun
  by_cases hsame : sameFile cwd fs (parsePath source)
      (if pathIsDir cwd fs (joinPath q (pathName (parsePath source))) = true then
        joinPath (joinPath q (pathName (parsePath source))) (pathName (parsePath source))
      else joinPath q (pathName (parsePath source))) = true
  · rw [if_pos hsame] at hrun
    obtain ⟨rfl, rfl⟩ := Prod.mk.inj hrun
    exact .inl ⟨_, rfl, rfl⟩
  · rw [if_neg hsame] at hrun
    rcases hread : readBytes cwd fs (parsePath source) with e | b
    · rw [Action.bind_of_error (by rw [Action.run_read, hread])] at hrun
      obtain ⟨rfl, rfl⟩ := Prod.mk.inj hrun
      exact .inl ⟨_, rfl, rfl⟩
    · obtain ⟨l, hl, hfile⟩ := readBytes_eq_ok.mp hread
      obtain ⟨x, hmem, hname, hnul⟩ := name_of_file hl hfile
      have hx : CleanName x := cleanPath_parsePath source x hmem
      have hnodir : pathIsDir cwd fs (child q x) = false := by
        rw [Bool.eq_false_iff]
        intro hxdir
        obtain ⟨l', hl', hdir'⟩ := pathIsDir_iff.mp hxdir
        obtain ⟨rfl, -⟩ := (h.reaches_file_iff hq hdir hnul).mp hl'
        exact Bool.false_ne_true ((h.canPut hdir).2.symm.trans hdir')
      rw [Action.bind_of_ok (by rw [Action.run_read, hread]), hname, joinPath_of_cleanName hx,
        hnodir, if_neg Bool.false_ne_true,
        Action.modify_of_ok (h.createBytes_eq hq hdir hnul b)] at hrun
      obtain ⟨rfl, rfl⟩ := Prod.mk.inj hrun
      exact .inr ⟨x, b, hx, hnul, hname, rfl, rfl⟩

/-- Where an import has stored an image: the file and the metadata are in the directory. -/
def StoredIn (env : ImageEnv) (site : Site) (fs fs' : FS) (n x : String) (b : Bytes)
    (image : CloudImage) : Prop :=
  ∃ hput hput', fs' = (fs.put x (n :: site.loc) (.file b) hput).put "image.json" (n :: site.loc)
    (.file (env.dumps image.metadata)) hput'

/-- The rest of an import, once the directory of the image is there. -/
theorem storeImage_cases (h : site.Tidy cwd fs)
    (hq : Reaches cwd fs (fun _ => True) q (n :: site.loc)) (hdir : fs.isDir (n :: site.loc) = true)
    {call : ImportCall} (hlocal : isUrl call.source = false)
    {r : Except PyExc PyPath} (hrun : (storeImage cwd env call q).run fs = (r, fs')) :
    (∃ e, r = .error e ∧ fs' = fs) ∨
      ∃ x b, CleanName x ∧ hasChar '\x00' x = false ∧ r = .ok (child q x) ∧
        fs' = fs.put x (n :: site.loc) (.file b) (h.canPut hdir) := by
  rw [storeImage, hlocal, if_neg Bool.false_ne_true] at hrun
  rw [Action.bind_of_ok (by rw [Action.run_read])] at hrun
  by_cases hthere : pathExists cwd fs (parsePath call.source) = true
  · rw [hthere, Bool.not_true, if_neg Bool.false_ne_true] at hrun
    rcases hcopy : (copyFile cwd (parsePath call.source)
      (joinPath q (pathName (parsePath call.source)))).run fs with ⟨r', fs₁⟩
    rcases copyFile_cases h hq hdir call.source hcopy with ⟨e, rfl, rfl⟩ |
      ⟨x, b, hx, hnul, hname, rfl, rfl⟩
    · rw [Action.bind_of_error hcopy] at hrun
      obtain ⟨rfl, rfl⟩ := Prod.mk.inj hrun
      exact .inl ⟨e, rfl, rfl⟩
    · rw [Action.bind_of_ok hcopy, hname, joinPath_of_cleanName hx] at hrun
      obtain ⟨rfl, rfl⟩ := Prod.mk.inj hrun
      exact .inr ⟨x, b, hx, hnul, rfl, rfl⟩
  · rw [Bool.not_eq_true] at hthere
    rw [hthere, Bool.not_false, if_pos rfl] at hrun
    obtain ⟨rfl, rfl⟩ := Prod.mk.inj hrun
    exact .inl ⟨_, rfl, rfl⟩

variable (env) in
/-- Behind a stored file: its size is read, and the metadata are put next to it. -/
theorem recordImage_run (h : site.Tidy cwd fs)
    (hq : Reaches cwd fs (fun _ => True) (child site.path n) (n :: site.loc))
    (hdir : fs.isDir (n :: site.loc) = true) {x : String} (hnul : hasChar '\x00' x = false)
    (b : Bytes) (call : ImportCall) :
    let stored := fs.put x (n :: site.loc) (.file b) (h.canPut hdir)
    let image := call.image (child (child site.path n) x) b.length
    statSize cwd env (child (child site.path n) x) stored = .ok b.length ∧
      ∃ hput, (saveMetadata cwd env image).run stored =
        (.ok (),
          stored.put "image.json" (n :: site.loc) (.file (env.dumps image.metadata)) hput) := by
  have hput : fs.CanPut x (n :: site.loc) := h.canPut hdir
  have h₂ := h.put hput b
  have hgrows := h.grows_put hput b
  have hq₂ := hq.grow hgrows
  have hdir₂ := hgrows.dirs _ hdir
  have hfile := (h₂.reaches_file_iff hq₂ hdir₂ hnul).mpr ⟨rfl, by simp⟩
  have hbytes : (fs.put x (n :: site.loc) (.file b) hput).bytes? (x :: n :: site.loc) = some b :=
    FileSystem.bytes?_eq_some_iff.mpr (by simp)
  have hpath : metadataPath (parentPath (call.image (child (child site.path n) x)
      b.length).path) = child (child site.path n) "image.json" := by
    simp [metadataPath, parentPath, child, ImportCall.image]
  have hsave := h₂.createBytes_eq hq₂ hdir₂ (by decide : hasChar '\x00' "image.json" = false)
    (env.dumps (call.image (child (child site.path n) x) b.length).metadata)
  refine ⟨?_, h₂.canPut hdir₂, ?_⟩
  · rw [statSize, locate_eq_ok.mpr hfile, ok_bind, hbytes]
  · rw [saveMetadata, hpath]
    exact Action.modify_of_ok hsave

/-- **One import** into a directory of its own stores the file and the metadata there, or raises
and has made directories at most. -/
theorem import_cases (h : site.Tidy cwd fs) {call : ImportCall}
    (hdest : joinPath site.path (imageName call.vendor call.version call.arch) = child site.path n)
    (hlocal : isUrl call.source = false) {r : Except PyExc CloudImage}
    (hrun : importStep cwd py env site.path fs call = (r, fs')) :
    ∃ fs₁, DirsMade cwd (child site.path n) fs fs₁ ∧
      ((∃ e, r = .error e ∧ fs' = fs₁) ∨
        Reaches cwd fs₁ (fun _ => True) (child site.path n) (n :: site.loc) ∧
          ∃ x b size, CleanName x ∧ r = .ok (call.image (child (child site.path n) x) size) ∧
          StoredIn env site fs₁ fs' n x b (call.image (child (child site.path n) x) size)) := by
  rw [importStep, importCloudImage] at hrun
  by_cases hfmt : call.fmt ∈ supportedFormats
  · rw [if_neg (not_not.mpr hfmt)] at hrun
    simp only [importInto, imageSubdir, hdest] at hrun
    rcases hmk : (mkdir cwd (child site.path n)).run fs with ⟨e | ⟨⟩, fs₁⟩
    · rw [Action.bind_of_error (Action.bind_of_error hmk)] at hrun
      obtain ⟨rfl, rfl⟩ := Prod.mk.inj hrun
      exact ⟨fs₁, (mkdir_spec hmk).1, .inl ⟨e, rfl, rfl⟩⟩
    · obtain ⟨hmade, hisdir⟩ := mkdir_spec hmk
      have h₁ := h.dirsMade hmade
      obtain ⟨l, hq, hdir⟩ := pathIsDir_iff.mp (hisdir rfl)
      obtain rfl := h₁.eq_of_reaches_child hq
      refine ⟨fs₁, hmade, ?_⟩
      have hsub : (do mkdir cwd (child site.path n); return child site.path n).run fs =
          (.ok (child site.path n), fs₁) := by
        rw [Action.bind_of_ok hmk]
        rfl
      rw [Action.bind_of_ok hsub] at hrun
      rcases hstore : (storeImage cwd env call (child site.path n)).run fs₁ with ⟨r', fs₂⟩
      rcases storeImage_cases h₁ hq hdir hlocal hstore with ⟨e, rfl, rfl⟩ |
        ⟨x, b, hx, hnul, rfl, rfl⟩
      · rw [Action.bind_of_error hstore] at hrun
        obtain ⟨rfl, rfl⟩ := Prod.mk.inj hrun
        exact .inl ⟨e, rfl, rfl⟩
      · obtain ⟨hsize, hput, hsave⟩ := recordImage_run env h₁ hq hdir hnul b call
        rw [Action.bind_of_ok hstore, Action.bind_of_ok (by rw [Action.run_read, hsize]),
          Action.bind_of_ok hsave] at hrun
        obtain ⟨rfl, rfl⟩ := Prod.mk.inj hrun
        exact .inr ⟨hq, x, b, b.length, hx, rfl, h₁.canPut hdir, hput, rfl⟩
  · rw [if_pos hfmt] at hrun
    obtain ⟨rfl, rfl⟩ := Prod.mk.inj hrun
    exact ⟨fs, .refl _ _, .inl ⟨_, rfl, rfl⟩⟩

end

end TftpOS
