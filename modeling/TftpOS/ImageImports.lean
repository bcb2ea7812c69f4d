import TftpOS.ImageDirectories
import TftpOS.Lib.Run

/-!
# Imported images

Runs of imports into one directory of images. Vendor, version and architecture are taken as they
come into the name of an image's directory: they may have hyphens of their own, and slashes.
`imports_kept_iff` says for which of them every image keeps its own directory, and is listed until
it is imported again.
-/

namespace TftpOS

open Lib

section

variable (cwd : Loc String) (py : StrLib) (env : ImageEnv) (imagesDir : PyPath) (fs : FS)

/-- What the calls of a run return and raise. -/
def importOutputs (calls : List ImportCall) : List (Except PyExc CloudImage) :=
  outputs (importStep cwd py env imagesDir) fs calls

/-- The images that a run imports, in order. -/
def imported (calls : List ImportCall) : List CloudImage :=
  (importOutputs cwd py env imagesDir fs calls).filterMap Except.toOption

/-- Vendor, version and architecture. -/
def CloudImage.triple (image : CloudImage) : String × String × String :=
  (image.vendor, image.version, image.arch)

/-- An image is the last one of its vendor, version and architecture. -/
def IsLast (images : List CloudImage) (image : CloudImage) : Prop :=
  ∃ before later, images = before ++ image :: later ∧
    ∀ other ∈ later, other.triple ≠ image.triple

/-- Every image keeps its own directory: it is stored in a child of the directory of images, those
of other vendors, versions and architectures are stored elsewhere, and after any of the calls the
listing has the last image of each. -/
structure ImportsKept (calls : List ImportCall) : Prop where
  direct : ∀ image ∈ imported cwd py env imagesDir fs calls, ∃ n file,
    image.path = child (child imagesDir n) file
  separate : ∀ image ∈ imported cwd py env imagesDir fs calls,
    ∀ other ∈ imported cwd py env imagesDir fs calls,
      parentPath image.path = parentPath other.path → image.triple = other.triple
  listed : ∀ before, before <+: calls → ∃ images,
    listImages cwd env (run (importStep cwd py env imagesDir) fs before) (some imagesDir) none =
      .ok images ∧ images.Nodup ∧
    ∀ image, image ∈ images ↔ IsLast (imported cwd py env imagesDir fs before) image

/-- The name of a call's image is a name of a child, and no call of another vendor, version and
architecture has it. -/
structure OwnDirectories (calls : List ImportCall) : Prop where
  direct : ∀ call ∈ calls, ∃ n,
    joinPath imagesDir (imageName call.vendor call.version call.arch) = child imagesDir n
  separate : ∀ call ∈ calls, ∀ other ∈ calls,
    joinPath imagesDir (imageName call.vendor call.version call.arch) =
      joinPath imagesDir (imageName other.vendor other.version other.arch) →
    (call.vendor, call.version, call.arch) = (other.vendor, other.version, other.arch)

end

section

variable {cwd : Loc String} {py : StrLib} {env : ImageEnv} {site : Site} {fs fs' : FS}
  {ok : Loc String → Prop} {n : String} {p q : PyPath} {l : Loc String}

/-! ### Runs of imports -/

/-- The last image in a child of the directory of images. -/
def lastAt (imagesDir : PyPath) (images : List CloudImage) (n : String) : Option CloudImage :=
  images.reverse.find? fun image => decide (parentPath image.path = child imagesDir n)

theorem lastAt_concat (imagesDir : PyPath) (images : List CloudImage) (image : CloudImage)
    (n : String) : lastAt imagesDir (images ++ [image]) n =
      if parentPath image.path = child imagesDir n then some image
      else lastAt imagesDir images n := by
  rw [lastAt, List.reverse_append, List.reverse_singleton, List.singleton_append, List.find?_cons]
  split_ifs with h
  · rw [decide_eq_true h]
  · rw [decide_eq_false h, lastAt]

theorem mem_of_lastAt {imagesDir : PyPath} {images : List CloudImage} {image : CloudImage}
    {n : String} (h : lastAt imagesDir images n = some image) :
    image ∈ images ∧ parentPath image.path = child imagesDir n := by
  have hparent := List.find?_some h
  rw [decide_eq_true_iff] at hparent
  exact ⟨List.mem_reverse.mp (List.mem_of_find?_eq_some h), hparent⟩

theorem child_inj {p q : PyPath} {n m : String} (h : child p n = child q m) : p = q ∧ n = m := by
  obtain ⟨habs, hcomps⟩ := Lib.Path.mk.inj h
  obtain ⟨hinit, hlast⟩ := List.append_inj' hcomps rfl
  obtain rfl := Comp.name.inj (List.cons.inj hlast).1
  exact ⟨Lib.Path.ext habs hinit, rfl⟩

@[simp]
theorem parentPath_child : parentPath (child p n) = p := by simp [parentPath, child]

/-- What the directory of images holds after some imports. -/
structure Gallery (cwd : Loc String) (env : ImageEnv) (site : Site) (fs : FS)
    (images : List CloudImage) : Prop where
  tidy : site.Tidy cwd fs
  paths : ∀ image ∈ images, ∃ n x, CleanName x ∧ image.path = child (child site.path n) x ∧
    Reaches cwd fs (fun _ => True) (child site.path n) (n :: site.loc)
  metadata : ∀ n, fs.bytes? ("image.json" :: n :: site.loc) =
    (lastAt site.path images n).map fun image => env.dumps image.metadata

namespace Gallery

variable {images : List CloudImage} {image : CloudImage}

theorem of_vacant (h : site.Vacant cwd fs) : Gallery cwd env site fs [] where
  tidy := h.tidy
  paths _ himage := absurd himage List.not_mem_nil
  metadata n := by
    rw [FileSystem.bytes?, h.empty _ _ (List.suffix_cons n site.loc)]
    rfl

theorem dirsMade (h : Gallery cwd env site fs images)
    (hmade : DirsMade cwd (child site.path n) fs fs') : Gallery cwd env site fs' images where
  tidy := h.tidy.dirsMade hmade
  paths image himage := by
    obtain ⟨m, x, hx, hpath, hreach⟩ := h.paths image himage
    exact ⟨m, x, hx, hpath, hreach.grow hmade.grows⟩
  metadata m := by rw [hmade.bytes?_eq, h.metadata]

/-- A stored image is the last one in its directory. -/
theorem stored (h : Gallery cwd env site fs images)
    (hreach : Reaches cwd fs (fun _ => True) (child site.path n) (n :: site.loc)) {x : String}
    {b : Bytes}
    (hx : CleanName x) (hpath : image.path = child (child site.path n) x)
    (hstored : StoredIn env site fs fs' n x b image) :
    Gallery cwd env site fs' (images ++ [image]) := by
  obtain ⟨hput, hput', rfl⟩ := hstored
  have h₁ := h.tidy.put hput b
  have hgrows := (h.tidy.grows_put hput b).trans (h₁.grows_put hput' (env.dumps image.metadata))
  refine ⟨h₁.put hput' _, ?_, ?_⟩
  · intro image' himage'
    rcases List.mem_append.mp himage' with himage' | himage'
    · obtain ⟨m, y, hy, hpath', hreach'⟩ := h.paths image' himage'
      exact ⟨m, y, hy, hpath', hreach'.grow hgrows⟩
    · rw [List.mem_singleton.mp himage']
      exact ⟨n, x, hx, hpath, hreach.grow hgrows⟩
  · intro m
    rw [lastAt_concat, hpath, parentPath_child]
    by_cases hm : m = n
    · subst hm
      rw [if_pos rfl, Option.map_some, FileSystem.bytes?_eq_some_iff]
      simp
    · have hne : child site.path n ≠ child site.path m := fun heq => hm (child_inj heq).2.symm
      rw [if_neg hne, FileSystem.bytes?_put_of_ne (by simp [hm]),
        FileSystem.bytes?_put_of_ne (by simp [hm]), h.metadata]

/-- One call: what it returns is added. -/
theorem step (py : StrLib) (h : Gallery cwd env site fs images) {call : ImportCall}
    (hdest : joinPath site.path (imageName call.vendor call.version call.arch) = child site.path n)
    (hlocal : isUrl call.source = false) :
    Gallery cwd env site (importStep cwd py env site.path fs call).2
      (images ++ (importStep cwd py env site.path fs call).1.toOption.toList) := by
  rcases hrun : importStep cwd py env site.path fs call with ⟨r, fs'⟩
  obtain ⟨fs₁, hmade, ⟨e, rfl, rfl⟩ | ⟨hreach, x, b, size, hx, rfl, hstored⟩⟩ :=
    import_cases h.tidy hdest hlocal hrun
  · have h₁ := h.dirsMade hmade
    simpa [Except.toOption] using h₁
  · exact (h.dirsMade hmade).stored hreach hx rfl hstored

theorem run (h : Gallery cwd env site fs images) {calls : List ImportCall}
    (hlocal : ∀ call ∈ calls, isUrl call.source = false)
    (hown : ∀ call ∈ calls, ∃ n, joinPath site.path (imageName call.vendor call.version call.arch) =
      child site.path n) :
    Gallery cwd env site (Lib.run (importStep cwd py env site.path) fs calls)
      (images ++ imported cwd py env site.path fs calls) := by
  induction calls generalizing fs images with
  | nil =>
    rw [imported, importOutputs, outputs_nil, List.filterMap_nil, List.append_nil]
    exact h
  | cons call calls ih =>
    rw [List.forall_mem_cons] at hlocal hown
    obtain ⟨n, hn⟩ := hown.1
    have hnext := ih (h.step py hn hlocal.1) hlocal.2 hown.2
    rw [run_cons]
    convert hnext using 1
    rw [imported, importOutputs, outputs_cons, List.filterMap_cons, List.append_assoc]
    congr 1
    rcases (importStep cwd py env site.path fs call).1.toOption with _ | image
    · rfl
    · rfl

end Gallery

/-! ### What is listed -/

/-- Metadata are read back as the image, in the directory they are in. -/
theorem imageOfMetadata_metadata (metaPath : PyPath) (image : CloudImage) :
    imageOfMetadata metaPath image.metadata =
      .ok { image with path := joinPath (parentPath metaPath) (pathName image.path) } := by
  simp [imageOfMetadata, CloudImage.metadata, CloudImage.fields, Value.item, Value.getItem,
    Value.lookup, Dict.ofEntries, Dict.get?_set]

theorem pathExists_of_reaches (h : Reaches cwd fs ok p l) : pathExists cwd fs p = true := by
  rw [pathExists, locate_eq_ok.mpr h.anywhere]
  rcases h.leads.last_of_strict h.base with hdir | ⟨hthere, -⟩
  · exact FileSystem.isSome_of_isDir hdir
  · exact hthere

/-- What is found below a directory. -/
theorem mem_rglobSorted {d : Loc String} (hd : Reaches cwd fs ok p d) {name : String} :
    q ∈ rglobSorted cwd fs p name ↔
      (∃ l, (fs.get? (name :: l)).isSome ∧ d <:+ l ∧
        q = ⟨p.absolute, p.comps ++ (namesBelow d (name :: l)).map .name⟩) ∧
      pathExists cwd fs q = true := by
  rw [rglobSorted, locate_eq_ok.mpr hd.anywhere]
  simp only [List.mem_filter, List.mem_map, mem_sortOn, decide_eq_true_eq]
  refine and_congr_left fun _ => ?_
  constructor
  · rintro ⟨_, ⟨l, ⟨hkey, hname, hsuffix⟩, rfl⟩, rfl⟩
    obtain ⟨l, rfl⟩ := List.head?_eq_some_iff.mp hname
    obtain ⟨node, hnode⟩ := Dict.mem_keys_iff.mp hkey
    exact ⟨l, Option.isSome_iff_exists.mpr ⟨node, hnode⟩, hsuffix, rfl⟩
  · rintro ⟨l, hthere, hsuffix, rfl⟩
    have hkey := Dict.mem_keys_iff.mpr (Option.isSome_iff_exists.mp hthere)
    exact ⟨_, ⟨name :: l, ⟨hkey, rfl, hsuffix⟩, rfl⟩, rfl⟩

theorem namesBelow_append (names d : Loc String) : namesBelow d (names ++ d) = names.reverse := by
  simp [namesBelow]

/-- Nothing is found twice. -/
theorem nodup_rglobSorted (name : String) : (rglobSorted cwd fs p name).Nodup := by
  rw [rglobSorted]
  split
  · exact List.nodup_nil
  · next d _ =>
    refine List.Nodup.filter _ (List.Nodup.map ?_ ?_)
    · intro names names' h
      have hcomps := List.append_cancel_left (Lib.Path.mk.inj h).2
      exact List.map_injective_iff.mpr (fun _ _ h => Comp.name.inj h) hcomps
    · refine (perm_sortOn _ _).nodup_iff.mpr (List.Nodup.map_on ?_ (fs.nodes.nodup.filter _))
      intro l hl l' hl' h
      have hsuffix : ∀ {l : Loc String}, l ∈ fs.nodes.keys.filter
          (fun l => decide (l.head? = some name ∧ d <:+ l.tail)) → ∃ names, l = names ++ d := by
        intro l hl
        rw [List.mem_filter, decide_eq_true_iff] at hl
        obtain ⟨names, hnames⟩ := hl.2.2.trans (List.tail_suffix l)
        exact ⟨names, hnames.symm⟩
      obtain ⟨names, rfl⟩ := hsuffix hl
      obtain ⟨names', rfl⟩ := hsuffix hl'
      rw [namesBelow_append, namesBelow_append] at h
      rw [List.reverse_injective h]

namespace Gallery

variable {images : List CloudImage} {image : CloudImage}

/-- The metadata in a child of the directory of images. -/
theorem readBytes_metadata (h : Gallery cwd env site fs images)
    (hlast : lastAt site.path images n = some image) :
    readBytes cwd fs (metadataPath (child site.path n)) = .ok (env.dumps image.metadata) := by
  have hbytes := h.metadata n
  rw [hlast, Option.map_some] at hbytes
  obtain ⟨hmem, hparent⟩ := mem_of_lastAt hlast
  obtain ⟨m, x, -, hpath, hreach⟩ := h.paths image hmem
  rw [hpath, parentPath_child] at hparent
  obtain ⟨-, rfl⟩ := child_inj hparent
  have hthere : (fs.get? ("image.json" :: m :: site.loc)).isSome := by
    rw [FileSystem.bytes?_eq_some_iff.mp hbytes]
    rfl
  have hdir := FileSystem.isDir_of_isSome hthere
  exact readBytes_eq_ok.mpr ⟨_, (h.tidy.reaches_file_iff hreach hdir (by decide)).mpr
    ⟨rfl, hthere⟩, hbytes⟩

/-- The metadata in a child of the directory of images are those of the last image there. -/
theorem loadMetadata_metadata (h : Gallery cwd env site fs images)
    (hlast : lastAt site.path images n = some image) :
    loadMetadata cwd env fs (metadataPath (child site.path n)) = .ok (some image) := by
  obtain ⟨hmem, hparent⟩ := mem_of_lastAt hlast
  obtain ⟨m, x, hx, hpath, -⟩ := h.paths image hmem
  rw [hpath, parentPath_child] at hparent
  obtain ⟨-, rfl⟩ := child_inj hparent
  have hname : pathName (child (child site.path m) x) = x := by simp [pathName, child, compText]
  have hsame : joinPath (parentPath (metadataPath (child site.path m))) (pathName image.path) =
      image.path := by
    rw [metadataPath, parentPath_child, hpath, hname, joinPath_of_cleanName hx]
  rw [loadMetadata, h.readBytes_metadata hlast]
  simp only [env.loads_dumps, imageOfMetadata_metadata, hsame]

/-- What is found under the directory of images: metadata, or a directory that is called so. -/
theorem mem_rglobSorted_iff (h : Gallery cwd env site fs images)
    (hreach : Reaches cwd fs (fun _ => True) site.path site.loc)
    (hq : q ∈ rglobSorted cwd fs site.path "image.json") :
    loadMetadata cwd env fs q = .ok none ∨ ∃ m image, q = metadataPath (child site.path m) ∧
      lastAt site.path images m = some image := by
  obtain ⟨⟨l, hthere, hsuffix, rfl⟩, hexists⟩ := (mem_rglobSorted hreach).mp hq
  rcases h.tidy.below _ l hsuffix hthere with ⟨rfl, hdir⟩ | ⟨⟨m, rfl⟩, b, hfile⟩
  · left
    have hbelow := namesBelow_append ["image.json"] site.loc
    simp only [List.cons_append, List.nil_append] at hbelow
    rw [hbelow] at hexists ⊢
    change pathExists cwd fs (child site.path "image.json") = true at hexists
    change loadMetadata cwd env fs (child site.path "image.json") = .ok none
    rw [pathExists] at hexists
    rcases hloc : locate cwd fs (child site.path "image.json") with e | l
    · rw [hloc] at hexists
      cases hexists
    · obtain rfl := h.tidy.eq_of_reaches_child (locate_eq_ok.mp hloc)
      have hbytes : fs.bytes? ("image.json" :: site.loc) = none := by
        rw [FileSystem.bytes?, FileSystem.isDir_iff.mp hdir]
      have hread : readBytes cwd fs (child site.path "image.json") =
          .error ⟨.isADirectoryError, "Is a directory"⟩ := by
        rw [readBytes, hloc, ok_bind, hbytes]
      rw [loadMetadata, hread]
      rfl
  · right
    have hbytes := h.metadata m
    rw [FileSystem.bytes?_eq_some_iff.mpr hfile] at hbytes
    obtain ⟨image, hlast, -⟩ := Option.map_eq_some_iff.mp hbytes.symm
    refine ⟨m, image, ?_, hlast⟩
    have hbelow := namesBelow_append ["image.json", m] site.loc
    simp only [List.cons_append, List.nil_append] at hbelow
    rw [hbelow]
    simp [metadataPath, child]

/-- Metadata are found. -/
theorem metadataPath_mem (h : Gallery cwd env site fs images)
    (hreach : Reaches cwd fs (fun _ => True) site.path site.loc)
    (hlast : lastAt site.path images n = some image) :
    metadataPath (child site.path n) ∈ rglobSorted cwd fs site.path "image.json" := by
  have hbytes := h.metadata n
  rw [hlast, Option.map_some] at hbytes
  have hthere : (fs.get? ("image.json" :: n :: site.loc)).isSome := by
    rw [FileSystem.bytes?_eq_some_iff.mp hbytes]
    rfl
  have hbelow := namesBelow_append ["image.json", n] site.loc
  simp only [List.cons_append, List.nil_append] at hbelow
  refine (mem_rglobSorted hreach).mpr ⟨⟨_, hthere, List.suffix_cons n site.loc, ?_⟩, ?_⟩
  · rw [hbelow]
    simp [metadataPath, child]
  · obtain ⟨l, hl, -⟩ := readBytes_eq_ok.mp (h.readBytes_metadata hlast)
    exact pathExists_of_reaches hl

/-- What is read from a file found is the last image of its directory, or nothing. -/
theorem loadMetadata_found (h : Gallery cwd env site fs images)
    (hreach : Reaches cwd fs (fun _ => True) site.path site.loc) {q : PyPath}
    (hq : q ∈ rglobSorted cwd fs site.path "image.json") :
    ∃ o : Option CloudImage, loadMetadata cwd env fs q = .ok o ∧
      ∀ image, o = some image →
        ∃ m, q = metadataPath (child site.path m) ∧ lastAt site.path images m = some image := by
  rcases h.mem_rglobSorted_iff hreach hq with hnone | ⟨m, image, rfl, hlast⟩
  · exact ⟨none, hnone, fun _ himage => by cases himage⟩
  · exact ⟨some image, h.loadMetadata_metadata hlast, fun image' himage =>
      ⟨m, rfl, Option.some.inj himage ▸ hlast⟩⟩

/-- **A listing** has the last image of each child of the directory of images. -/
theorem listImages_eq (h : Gallery cwd env site fs images) : ∃ found,
    listImages cwd env fs (some site.path) none = .ok found ∧ found.Nodup ∧
      ∀ image, image ∈ found ↔ ∃ n, lastAt site.path images n = some image := by
  rcases hloc : locate cwd fs site.path with e | l
  · have hexists : pathExists cwd fs site.path = false := by rw [pathExists, hloc]
    refine ⟨[], ?_, List.nodup_nil, fun image => ⟨fun hmem => absurd hmem List.not_mem_nil, ?_⟩⟩
    · simp [listImages, hexists]
    · rintro ⟨n, hlast⟩
      obtain ⟨m, -, -, -, hreach⟩ := h.paths image (mem_of_lastAt hlast).1
      obtain ⟨-, d, hd, -⟩ := reaches_child_iff.mp hreach
      rw [locate_eq_ok.mpr hd] at hloc
      cases hloc
  · have hreach := locate_eq_ok.mp hloc
    obtain rfl := h.tidy.eq_of_reaches hreach
    have hexists := pathExists_of_reaches hreach
    -- what each of the files found gives
    have hload : ∀ q ∈ rglobSorted cwd fs site.path "image.json",
        loadMetadata cwd env fs (id q) = .ok (loadMetadata cwd env fs q).toOption.join := by
      intro q hq
      obtain ⟨o, ho, -⟩ := h.loadMetadata_found hreach hq
      rw [id, ho]
      rfl
    have hfound := mapM_map_eq_ok hload
    rw [List.map_id] at hfound
    have hinv : ∀ q ∈ rglobSorted cwd fs site.path "image.json", ∀ image,
        (loadMetadata cwd env fs q).toOption.join = some image →
          ∃ m, q = metadataPath (child site.path m) ∧ lastAt site.path images m = some image := by
      intro q hq image himage
      obtain ⟨o, ho, hlast⟩ := h.loadMetadata_found hreach hq
      rw [ho] at himage
      exact hlast image himage
    refine ⟨(rglobSorted cwd fs site.path "image.json").filterMap fun q =>
      (loadMetadata cwd env fs q).toOption.join, ?_, ?_, fun image => ?_⟩
    · have hreduce : ∀ l : List (Option CloudImage), l.reduceOption = l.filterMap id := fun _ => rfl
      simp only [listImages, hexists, Bool.not_true, Bool.false_eq_true, if_false, pure_eq_ok,
        ok_bind, hfound, hreduce, List.filterMap_map]
      rfl
    · refine List.pairwise_filterMap.mpr ((nodup_rglobSorted _).pairwise_of_forall_ne ?_)
      rintro q hq q' hq' hne image himage _ himage' rfl
      obtain ⟨m, rfl, hlast⟩ := hinv q hq image himage
      obtain ⟨m', rfl, hlast'⟩ := hinv q' hq' image himage'
      have hsame := (mem_of_lastAt hlast).2.symm.trans (mem_of_lastAt hlast').2
      obtain ⟨-, rfl⟩ := child_inj hsame
      exact hne rfl
    · rw [List.mem_filterMap]
      constructor
      · rintro ⟨q, hq, himage⟩
        obtain ⟨m, -, hlast⟩ := hinv q hq image himage
        exact ⟨m, hlast⟩
      · rintro ⟨m, hlast⟩
        refine ⟨_, h.metadataPath_mem hreach hlast, ?_⟩
        rw [h.loadMetadata_metadata hlast]
        rfl

end Gallery

/-! ### What is returned -/

/-- A copy that returns is one of a file. -/
theorem clean_of_copyFile {source : String} {dst : PyPath} {r : Unit}
    (h : (copyFile cwd (parsePath source) dst).run fs = (.ok r, fs')) :
    CleanName (pathName (parsePath source)) := by
  obtain ⟨file, fs₁, hfile, h⟩ := Action.bind_eq_ok_iff.mp h
  obtain ⟨-, rfl⟩ := Prod.mk.inj hfile
  obtain ⟨same, fs₁, hsame, h⟩ := Action.bind_eq_ok_iff.mp h
  obtain ⟨-, rfl⟩ := Prod.mk.inj hsame
  cases same with
  | true => cases h
  | false =>
    obtain ⟨b, fs₁, hread, -⟩ := Action.bind_eq_ok_iff.mp h
    obtain ⟨l, hl, hfile⟩ := readBytes_eq_ok.mp (Prod.mk.inj hread).1
    obtain ⟨x, hmem, hname, -⟩ := name_of_file hl hfile
    rw [hname]
    exact cleanPath_parsePath source x hmem

theorem storeImage_eq_ok {call : ImportCall} (hlocal : isUrl call.source = false)
    (h : (storeImage cwd env call q).run fs = (.ok p, fs')) :
    ∃ x, CleanName x ∧ p = child q x := by
  rw [storeImage, hlocal, if_neg Bool.false_ne_true] at h
  obtain ⟨there, fs₁, hthere, h⟩ := Action.bind_eq_ok_iff.mp h
  obtain ⟨-, rfl⟩ := Prod.mk.inj hthere
  cases there with
  | false => cases h
  | true =>
    obtain ⟨u, fs₁, hcopy, h⟩ := Action.bind_eq_ok_iff.mp h
    obtain ⟨hp, -⟩ := Prod.mk.inj h
    have hclean := clean_of_copyFile hcopy
    exact ⟨_, hclean, (Except.ok.inj hp).symm.trans (joinPath_of_cleanName hclean)⟩

/-- An import that returns gives an image in the directory that is called after it. -/
theorem importStep_eq_ok {imagesDir : PyPath} {call : ImportCall} {image : CloudImage}
    (hlocal : isUrl call.source = false)
    (h : importStep cwd py env imagesDir fs call = (.ok image, fs')) :
    ∃ x size, CleanName x ∧ image = call.image
      (child (joinPath imagesDir (imageName call.vendor call.version call.arch)) x) size := by
  rw [importStep, importCloudImage] at h
  by_cases hfmt : call.fmt ∈ supportedFormats
  · rw [if_neg (not_not.mpr hfmt)] at h
    simp only [importInto] at h
    obtain ⟨destDir, fs₁, hsub, h⟩ := Action.bind_eq_ok_iff.mp h
    obtain ⟨destFile, fs₂, hstore, h⟩ := Action.bind_eq_ok_iff.mp h
    obtain ⟨size, fs₃, hsize, h⟩ := Action.bind_eq_ok_iff.mp h
    obtain ⟨u, fs₄, hsave, h⟩ := Action.bind_eq_ok_iff.mp h
    obtain ⟨himage, -⟩ := Prod.mk.inj h
    obtain ⟨u, fs₅, hmk, hdest⟩ := Action.bind_eq_ok_iff.mp hsub
    obtain ⟨hdest, -⟩ := Prod.mk.inj hdest
    obtain rfl := Except.ok.inj hdest
    obtain ⟨x, hx, rfl⟩ := storeImage_eq_ok hlocal hstore
    exact ⟨x, size, hx, (Except.ok.inj himage).symm⟩
  · rw [if_pos hfmt] at h
    cases h

variable {imagesDir : PyPath} {calls : List ImportCall}

/-- The image comes from the call. -/
def ImportCall.Gives (imagesDir : PyPath) (call : ImportCall) (image : CloudImage) : Prop :=
  image.triple = (call.vendor, call.version, call.arch) ∧ ∃ x,
    image.path = child (joinPath imagesDir (imageName call.vendor call.version call.arch)) x

/-- Every image of a run comes from one of the calls. -/
theorem exists_call_of_imported (hlocal : ∀ call ∈ calls, isUrl call.source = false) :
    ∀ image ∈ imported cwd py env imagesDir fs calls, ∃ call ∈ calls,
      call.Gives imagesDir image := by
  induction calls generalizing fs with
  | nil => exact fun image himage => absurd himage List.not_mem_nil
  | cons call calls ih =>
    rw [List.forall_mem_cons] at hlocal
    intro image himage
    rw [imported, importOutputs, outputs_cons, List.mem_filterMap] at himage
    obtain ⟨r, hr, himage⟩ := himage
    rcases List.mem_cons.mp hr with rfl | hr
    · rcases hrun : importStep cwd py env imagesDir fs call with ⟨e | image', fs'⟩
      · rw [hrun] at himage
        cases himage
      · rw [hrun] at himage
        obtain rfl := Option.some.inj himage
        obtain ⟨x, size, -, rfl⟩ := importStep_eq_ok hlocal.1 hrun
        exact ⟨call, List.mem_cons_self, rfl, x, rfl⟩
    · obtain ⟨call', hcall', hgives⟩ :=
        ih hlocal.2 image (List.mem_filterMap.mpr ⟨r, hr, himage⟩)
      exact ⟨call', List.mem_cons_of_mem _ hcall', hgives⟩

/-- Every call of a run that returns gives one of the images. -/
theorem exists_imported_of_call (hlocal : ∀ call ∈ calls, isUrl call.source = false)
    (hreturns : ∀ r ∈ importOutputs cwd py env imagesDir fs calls, ∃ image, r = .ok image) :
    ∀ call ∈ calls, ∃ image ∈ imported cwd py env imagesDir fs calls,
      call.Gives imagesDir image := by
  induction calls generalizing fs with
  | nil => exact fun call hcall => absurd hcall List.not_mem_nil
  | cons call calls ih =>
    rw [List.forall_mem_cons] at hlocal
    rw [importOutputs, outputs_cons, List.forall_mem_cons] at hreturns
    obtain ⟨image, himage⟩ := hreturns.1
    rcases hrun : importStep cwd py env imagesDir fs call with ⟨r, fs'⟩
    rw [hrun] at himage
    obtain rfl : r = .ok image := himage
    have hcons : imported cwd py env imagesDir fs (call :: calls) =
        image :: imported cwd py env imagesDir fs' calls := by
      rw [imported, importOutputs, outputs_cons, hrun]
      rfl
    rw [hcons, List.forall_mem_cons]
    refine ⟨⟨image, List.mem_cons_self, ?_⟩, fun call' hcall' => ?_⟩
    · obtain ⟨x, size, -, rfl⟩ := importStep_eq_ok hlocal.1 hrun
      exact ⟨rfl, x, rfl⟩
    · have hrest := hreturns.2
      rw [hrun] at hrest
      obtain ⟨image', himage', hgives⟩ := ih hlocal.2 hrest call' hcall'
      exact ⟨image', List.mem_cons_of_mem _ himage', hgives⟩

/-- The last image in a directory is the last one of its vendor, version and architecture, where
these share a directory with no others. -/
theorem lastAt_iff_isLast {images : List CloudImage}
    (hchild : ∀ image ∈ images, ∃ n, parentPath image.path = child imagesDir n)
    (hsame : ∀ image ∈ images, ∀ other ∈ images,
      parentPath image.path = parentPath other.path ↔ image.triple = other.triple)
    {image : CloudImage} :
    (∃ n, lastAt imagesDir images n = some image) ↔ IsLast images image := by
  constructor
  · rintro ⟨n, hlast⟩
    obtain ⟨hmem, hparent⟩ := mem_of_lastAt hlast
    obtain ⟨-, later, before, hsplit, hlater⟩ := List.find?_eq_some_iff_append.mp hlast
    have himages : images = before.reverse ++ image :: later.reverse := by
      rw [← List.reverse_inj, hsplit]
      simp
    refine ⟨_, _, himages, fun other hother htriple => ?_⟩
    have hmem' : other ∈ images := by
      rw [himages]
      exact List.mem_append_right _ (List.mem_cons_of_mem _ hother)
    have hne := hlater other (List.mem_reverse.mp hother)
    rw [(hsame other hmem' image hmem).mpr htriple, hparent] at hne
    simp at hne
  · rintro ⟨before, later, rfl, hlater⟩
    have hmem : image ∈ before ++ image :: later := by simp
    obtain ⟨n, hparent⟩ := hchild image hmem
    refine ⟨n, List.find?_eq_some_iff_append.mpr ⟨by rw [hparent]; simp, later.reverse,
      before.reverse, by simp, fun other hother => ?_⟩⟩
    rw [List.mem_reverse] at hother
    have hmem' : other ∈ before ++ image :: later :=
      List.mem_append_right _ (List.mem_cons_of_mem _ hother)
    have hne := hlater other hother
    rw [ne_eq, ← hsame other hmem' image hmem, hparent] at hne
    simpa using hne

/-- Images with names of their own are kept, whichever calls raise. -/
theorem kept_of_own {site : Site} (hvacant : site.Vacant cwd fs)
    (hlocal : ∀ call ∈ calls, isUrl call.source = false) (hown : OwnDirectories site.path calls) :
    ImportsKept cwd py env site.path fs calls := by
  have hsame : ∀ {before}, before <+: calls →
      ∀ image ∈ imported cwd py env site.path fs before,
      ∀ other ∈ imported cwd py env site.path fs before,
        parentPath image.path = parentPath other.path ↔ image.triple = other.triple := by
    intro before hbefore image himage other hother
    have hlocal' : ∀ call ∈ before, isUrl call.source = false := fun call hcall =>
      hlocal call (hbefore.subset hcall)
    obtain ⟨call, hcall, htriple, x, hpath⟩ := exists_call_of_imported hlocal' image himage
    obtain ⟨call', hcall', htriple', x', hpath'⟩ := exists_call_of_imported hlocal' other hother
    rw [hpath, hpath', parentPath_child, parentPath_child, htriple, htriple']
    refine ⟨hown.separate call (hbefore.subset hcall) call' (hbefore.subset hcall'), fun h => ?_⟩
    obtain ⟨hvendor, hrest⟩ := Prod.mk.inj h
    obtain ⟨hversion, harch⟩ := Prod.mk.inj hrest
    rw [hvendor, hversion, harch]
  have hdirect : ∀ {before}, before <+: calls →
      ∀ image ∈ imported cwd py env site.path fs before, ∃ n file,
        image.path = child (child site.path n) file := by
    intro before hbefore image himage
    obtain ⟨call, hcall, -, x, hpath⟩ := exists_call_of_imported (fun call hcall =>
      hlocal call (hbefore.subset hcall)) image himage
    obtain ⟨n, hn⟩ := hown.direct call (hbefore.subset hcall)
    exact ⟨n, x, by rw [hpath, hn]⟩
  refine ⟨hdirect (List.prefix_refl _), fun image himage other hother =>
    (hsame (List.prefix_refl _) image himage other hother).mp, fun before hbefore => ?_⟩
  have hgallery : Gallery cwd env site (run (importStep cwd py env site.path) fs before)
      ([] ++ imported cwd py env site.path fs before) := (Gallery.of_vacant hvacant).run
    (fun call hcall => hlocal call (hbefore.subset hcall))
    fun call hcall => hown.direct call (hbefore.subset hcall)
  rw [List.nil_append] at hgallery
  obtain ⟨found, hfound, hnodup, hmem⟩ := hgallery.listImages_eq
  refine ⟨found, hfound, hnodup, fun image => (hmem image).trans (lastAt_iff_isLast ?_
    (hsame hbefore))⟩
  intro image himage
  obtain ⟨n, file, hpath⟩ := hdirect hbefore image himage
  exact ⟨n, by rw [hpath, parentPath_child]⟩

end

/-- **Images are kept** where their names are their own; and if all calls return, only there. -/
theorem imports_kept_iff (cwd : Loc String) (py : StrLib) (env : ImageEnv) {fs : FS}
    {imagesDir : PyPath} {calls : List ImportCall}
    (hvacant : ∃ site : Site, site.path = imagesDir ∧ site.Vacant cwd fs)
    (hlocal : ∀ call ∈ calls, isUrl call.source = false) :
    (OwnDirectories imagesDir calls → ImportsKept cwd py env imagesDir fs calls) ∧
    ((∀ r ∈ importOutputs cwd py env imagesDir fs calls, ∃ image, r = .ok image) →
      (ImportsKept cwd py env imagesDir fs calls ↔ OwnDirectories imagesDir calls)) := by
  obtain ⟨site, rfl, hvacant⟩ := hvacant
  refine ⟨kept_of_own hvacant hlocal, fun hreturns => ⟨fun hkept => ?_, kept_of_own hvacant hlocal⟩⟩
  refine ⟨fun call hcall => ?_, fun call hcall other hother heq => ?_⟩
  · obtain ⟨image, himage, -, x, hpath⟩ := exists_imported_of_call hlocal hreturns call hcall
    obtain ⟨n, file, hpath'⟩ := hkept.direct image himage
    exact ⟨n, (child_inj (hpath.symm.trans hpath')).1⟩
  · obtain ⟨image, himage, htriple, x, hpath⟩ := exists_imported_of_call hlocal hreturns call hcall
    obtain ⟨image', himage', htriple', x', hpath'⟩ :=
      exists_imported_of_call hlocal hreturns other hother
    rw [← htriple, ← htriple']
    refine hkept.separate image himage image' himage' ?_
    rw [hpath, hpath', parentPath_child, parentPath_child, heq]

/-! ### A laboratory -/

/-- Bytes behind their length in unary. -/
def sized (b : Bytes) : Bytes := List.replicate b.length 1 ++ 0 :: b

/-- What is behind a length, and the rest. -/
def takeSized (l : Bytes) : Bytes × Bytes :=
  let n := (l.takeWhile (· = 1)).length
  ((l.drop (n + 1)).take n, (l.drop (n + 1)).drop n)

theorem takeSized_append (b rest : Bytes) : takeSized (sized b ++ rest) = (b, rest) := by
  have hones : ((sized b ++ rest).takeWhile (· = 1)) = List.replicate b.length 1 := by
    rw [sized, List.append_assoc, List.takeWhile_append_of_pos (by simp)]
    simp
  have hdrop : (sized b ++ rest).drop (b.length + 1) = b ++ rest := by
    have hsplit : sized b ++ rest = (List.replicate b.length 1 ++ [0]) ++ (b ++ rest) := by
      simp [sized]
    rw [hsplit, List.drop_append_of_le_length (by simp)]
    simp
  rw [takeSized, hones, List.length_replicate, hdrop]
  simp

/-- A field of the metadata, as bytes. -/
def fieldBytes : Json → Bytes
  | .str s => 2 :: s.toByteArray.data.toList
  | .int n => (if n < 0 then 0 else 1) :: List.replicate n.natAbs 0
  | .bool b => [if b then 4 else 3]
  | _ => []

/-- A field of the metadata, from its bytes. -/
def fieldOfBytes : Bytes → Json
  | 2 :: b =>
    if h : ByteArray.IsValidUTF8 ⟨b.toArray⟩ then .str (.ofByteArray ⟨b.toArray⟩ h) else .null
  | 1 :: zs => .int zs.length
  | 0 :: zs => .int (-zs.length)
  | [b] => .bool (b = 4)
  | _ => .null

theorem fieldOfBytes_str (s : String) : fieldOfBytes (fieldBytes (.str s)) = .str s := by
  have h : ByteArray.IsValidUTF8 ⟨s.toByteArray.data.toList.toArray⟩ := s.isValidUTF8
  rw [fieldBytes, fieldOfBytes, dif_pos h]

theorem fieldOfBytes_int (n : ℤ) : fieldOfBytes (fieldBytes (.int n)) = .int n := by
  rw [fieldBytes]
  split_ifs with h
  · rw [fieldOfBytes, List.length_replicate, Int.ofNat_natAbs_of_nonpos h.le, Int.neg_neg]
  · rw [fieldOfBytes, List.length_replicate, Int.natAbs_of_nonneg (not_lt.mp h)]

theorem fieldOfBytes_bool (b : Bool) : fieldOfBytes (fieldBytes (.bool b)) = .bool b := by
  cases b <;> rfl

/-- The fields with given keys, from their bytes. -/
def fieldsOfBytes : List String → Bytes → List (String × Json)
  | [], _ => []
  | key :: keys, b => (key, fieldOfBytes (takeSized b).1) :: fieldsOfBytes keys (takeSized b).2

theorem fieldsOfBytes_flatMap {kvs : List (String × Json)}
    (h : ∀ e ∈ kvs, fieldOfBytes (fieldBytes e.2) = e.2) :
    fieldsOfBytes (kvs.map Prod.fst) (kvs.flatMap fun e => sized (fieldBytes e.2)) = kvs := by
  induction kvs with
  | nil => rfl
  | cons e kvs ih =>
    rw [List.forall_mem_cons] at h
    rw [List.map_cons, List.flatMap_cons, fieldsOfBytes, takeSized_append, ih h.2, h.1]

/-- Metadata in a format of their own, and no web. -/
def labImageEnv : ImageEnv where
  dumps
    | .dict kvs => kvs.flatMap fun e => sized (fieldBytes e.2)
    | _ => []
  loads b := .ok (.dict (fieldsOfBytes ["name", "os_family", "vendor", "version", "arch", "format",
    "filename", "size_bytes", "cloud_init"] b))
  loads_dumps image := by
    have hfields : ∀ e ∈ image.fields, fieldOfBytes (fieldBytes e.2) = e.2 := by
      simp [CloudImage.fields, fieldOfBytes_str, fieldOfBytes_int, fieldOfBytes_bool]
    have hread := fieldsOfBytes_flatMap hfields
    exact congrArg (fun kvs => Except.ok (Value.dict kvs)) hread
  dirSize _ _ := 4096
  urlPath url := url
  fetch _ := .refused ⟨.osError, "no route to host"⟩

/-- A file system with one image to import. -/
def labSources : FS :=
  FileSystem.empty.put "os.img" [] (.file [1, 2, 3]) (by decide)

/-- A directory of images that is still to be made. -/
def labSite : Site := ⟨⟨true, []⟩, [], ["images"]⟩

theorem labSite_vacant : labSite.Vacant [] labSources where
  reaches := locate_eq_ok.mp rfl
  isDir := rfl
  missing m _ hne hm := by
    rcases List.suffix_cons_iff.mp hm with rfl | hm
    · rfl
    · exact absurd (List.suffix_nil.mp hm) hne
  empty n m hm := by
    cases m with
    | nil => exact absurd (List.suffix_nil.mp hm) (List.cons_ne_nil _ _)
    | cons n' m =>
      have hfile : n :: n' :: m ≠ ["os.img"] := by simp
      exact FileSystem.get?_put_of_ne hfile

/-- Images of two versions are kept. -/
theorem imports_kept_lab :
    (OwnDirectories labSite.path [⟨"os.img", "fedora", "fedora", "40", "x86_64", "qcow2"⟩,
        ⟨"os.img", "fedora", "fedora", "41", "x86_64", "qcow2"⟩] →
      ImportsKept [] .ascii labImageEnv labSite.path labSources
        [⟨"os.img", "fedora", "fedora", "40", "x86_64", "qcow2"⟩,
          ⟨"os.img", "fedora", "fedora", "41", "x86_64", "qcow2"⟩]) ∧
    ((∀ r ∈ importOutputs [] .ascii labImageEnv labSite.path labSources
        [⟨"os.img", "fedora", "fedora", "40", "x86_64", "qcow2"⟩,
          ⟨"os.img", "fedora", "fedora", "41", "x86_64", "qcow2"⟩], ∃ image, r = .ok image) →
      (ImportsKept [] .ascii labImageEnv labSite.path labSources
        [⟨"os.img", "fedora", "fedora", "40", "x86_64", "qcow2"⟩,
          ⟨"os.img", "fedora", "fedora", "41", "x86_64", "qcow2"⟩] ↔
        OwnDirectories labSite.path [⟨"os.img", "fedora", "fedora", "40", "x86_64", "qcow2"⟩,
          ⟨"os.img", "fedora", "fedora", "41", "x86_64", "qcow2"⟩])) :=
  imports_kept_iff [] .ascii labImageEnv ⟨labSite, rfl, labSite_vacant⟩ (by decide)

/-- The image of one vendor and version replaces that of another. -/
theorem import_replaces_another :
    ¬ ImportsKept [] .ascii labImageEnv labSite.path labSources
      [⟨"os.img", "linux", "a-b", "c", "x86_64", "qcow2"⟩,
        ⟨"os.img", "linux", "a", "b-c", "x86_64", "qcow2"⟩] := by
  intro h
  have himported : (imported [] .ascii labImageEnv labSite.path labSources
      [⟨"os.img", "linux", "a-b", "c", "x86_64", "qcow2"⟩,
        ⟨"os.img", "linux", "a", "b-c", "x86_64", "qcow2"⟩]) =
      [⟨"a-b-c-x86_64", "linux", "a-b", "c", "x86_64", "qcow2",
          child (child labSite.path "a-b-c-x86_64") "os.img", 3, true⟩,
        ⟨"a-b-c-x86_64", "linux", "a", "b-c", "x86_64", "qcow2",
          child (child labSite.path "a-b-c-x86_64") "os.img", 3, true⟩] := by
    decide +kernel
  have hsame := h.separate
  rw [himported] at hsame
  have htriple := hsame _ (List.mem_cons_self) _ (List.mem_cons_of_mem _ List.mem_cons_self) rfl
  exact absurd htriple (by decide)

end TftpOS
