import TftpOS.Lib.StableSort
import TftpOS.Python.Json
import TftpOS.Python.Os

/-!
# Cloud images

`import_cloud_image` and `list_images` of `tftpos/cloud_image.py`. An image is stored in a directory
that is called vendor, version and architecture with hyphens between them, next to its metadata.
Images are copied from the file system or fetched from the web.
-/

namespace TftpOS

open Lib

/-- `CloudImage`. -/
structure CloudImage where
  name : String
  osFamily : String
  vendor : String
  version : String
  arch : String := "x86_64"
  format : String := "qcow2"
  path : PyPath
  sizeBytes : ℤ := 0
  cloudInit : Bool := true
  deriving DecidableEq

/-- The fields of the metadata of an image. -/
def CloudImage.fields (image : CloudImage) : List (String × Json) :=
  [("name", .str image.name), ("os_family", .str image.osFamily), ("vendor", .str image.vendor),
    ("version", .str image.version), ("arch", .str image.arch), ("format", .str image.format),
    ("filename", .str (pathName image.path)), ("size_bytes", .int image.sizeBytes),
    ("cloud_init", .bool image.cloudInit)]

/-- The metadata of an image. -/
def CloudImage.metadata (image : CloudImage) : Json := .dict image.fields

/-- Why the text of a file is no JSON document. -/
inductive JsonFault where
  | notText
  | notJson

/-- What a URL serves. -/
inductive Fetched where
  | refused (e : PyExc)
  | broken (part : Bytes) (e : PyExc)
  | whole (b : Bytes)

/-- What the functions on images use: the `json` module on files, the sizes of directories, and the
web. -/
structure ImageEnv where
  dumps : Json → Bytes
  loads : Bytes → Except JsonFault Json
  loads_dumps : ∀ image : CloudImage, loads (dumps image.metadata) = .ok image.metadata
  dirSize : FS → Loc String → ℤ
  /-- `urlparse(url).path`. -/
  urlPath : String → String
  fetch : String → Fetched

/-- `SUPPORTED_FORMATS`. -/
def supportedFormats : List String := ["qcow2", "raw", "vmdk", "vhd", "vhdx"]

/-! ### Calls that create files -/

section

variable (cwd : Loc String)

/-- Where `open(p, "wb")` writes, given how many links may be followed: a link that leads nowhere
is followed to what it names. -/
def openPlace (fs : FS) : ℕ → Loc String → PyPath → Except PyExc (Loc String)
  | 0, _, _ => .error (walkError .loop)
  | links + 1, cur, p =>
    match locate cur fs p with
    | .ok l => .ok l
    | .error e => do
      let (d, n) ← entry cur fs p
      match fs.get? (n :: d) with
      | none => .ok (n :: d)
      | some (.link target) => openPlace fs links d target
      | some _ => .error e

/-- `open(p, "wb").write(b)`. -/
def createBytes (p : PyPath) (b : Bytes) (fs : FS) : Except PyExc FS := do
  match ← openPlace fs 40 cwd p with
  | n :: d => putNode fs d n (.file b)
  | [] => .error ⟨.isADirectoryError, "Is a directory"⟩

/-- `os.path.samefile(p, q)`, which is false for what is not there. -/
def sameFile (fs : FS) (p q : PyPath) : Bool :=
  match locate cwd fs p, locate cwd fs q with
  | .ok l, .ok l' => l = l'
  | _, _ => false

/-- `shutil.copyfile(src, dst)`. -/
def copyBytes (src dst : PyPath) : Action PyExc FS Unit := do
  let same ← .read fun fs => .ok (sameFile cwd fs src dst)
  if same then
    throw ⟨.osError, pathText src ++ " and " ++ pathText dst ++ " are the same file"⟩
  else do
    let b ← .read (readBytes cwd · src)
    .modify (createBytes cwd dst b)

/-- `shutil.copy2(src, dst)`, into a directory under the name of the source. -/
def copyFile (src dst : PyPath) : Action PyExc FS Unit := do
  let file ← .read fun fs =>
    .ok (if pathIsDir cwd fs dst then joinPath dst (pathName src) else dst)
  copyBytes cwd src file

/-- `p.stat().st_size`. -/
def statSize (env : ImageEnv) (p : PyPath) (fs : FS) : Except PyExc ℤ := do
  let l ← locate cwd fs p
  match fs.bytes? l with
  | some b => .ok b.length
  | none => .ok (env.dirSize fs l)

/-! ### Importing -/

/-- `_images_dir`. -/
def imagesDirOf (dataDir : PyPath) : Action PyExc FS PyPath := do
  let d := child dataDir "images"
  mkdir cwd d
  return d

/-- The name of an image and of its directory. -/
def imageName (vendor version arch : String) : String := vendor ++ "-" ++ version ++ "-" ++ arch

/-- `_image_subdir`. -/
def imageSubdir (imagesDir : PyPath) (vendor version arch : String) : Action PyExc FS PyPath := do
  let dest := joinPath imagesDir (imageName vendor version arch)
  mkdir cwd dest
  return dest

/-- `_metadata_path`. -/
def metadataPath (imageDir : PyPath) : PyPath := child imageDir "image.json"

/-- `_save_metadata`. -/
def saveMetadata (env : ImageEnv) (image : CloudImage) : Action PyExc FS Unit :=
  .modify (createBytes cwd (metadataPath (parentPath image.path)) (env.dumps image.metadata))

/-- The source is fetched from the web. -/
def isUrl (source : String) : Bool := startsWith source "http://" || startsWith source "https://"

/-- `_filename_from_url`. -/
def filenameFromUrl (env : ImageEnv) (url fmt : String) : String :=
  let name := pathName (parsePath (env.urlPath url))
  if name = "" ∨ name = "/" then "image." ++ fmt else name

/-- `_download_file`. -/
def downloadFile (env : ImageEnv) (url : String) (dest : PyPath) : Action PyExc FS Unit :=
  match env.fetch url with
  | .refused e => throw e
  | .broken part e => do
    .modify (createBytes cwd dest part)
    throw e
  | .whole b => .modify (createBytes cwd dest b)

/-- The arguments of a call of `import_cloud_image`. -/
structure ImportCall where
  source : String
  osFamily : String
  vendor : String
  version : String
  arch : String := "x86_64"
  fmt : String := "qcow2"
  deriving DecidableEq

/-- What `import_cloud_image` does in the directory of the image: the file that holds the image. -/
def storeImage (env : ImageEnv) (call : ImportCall) (destDir : PyPath) :
    Action PyExc FS PyPath := do
  if isUrl call.source then
    let destFile := joinPath destDir (filenameFromUrl env call.source call.fmt)
    downloadFile cwd env call.source destFile
    return destFile
  else
    let srcPath := parsePath call.source
    let there ← .read fun fs => .ok (pathExists cwd fs srcPath)
    if !there then throw ⟨.fileNotFoundError, "source image not found: " ++ call.source⟩
    else do
      let destFile := joinPath destDir (pathName srcPath)
      copyFile cwd srcPath destFile
      return destFile

/-- The image that a call makes of a file. -/
def ImportCall.image (call : ImportCall) (path : PyPath) (sizeBytes : ℤ) : CloudImage where
  name := imageName call.vendor call.version call.arch
  osFamily := call.osFamily
  vendor := call.vendor
  version := call.version
  arch := call.arch
  format := call.fmt
  path := path
  sizeBytes := sizeBytes
  cloudInit := true

/-- What `import_cloud_image` does with a directory of images. -/
def importInto (env : ImageEnv) (imagesDir : PyPath) (call : ImportCall) :
    Action PyExc FS CloudImage := do
  let destDir ← imageSubdir cwd imagesDir call.vendor call.version call.arch
  let destFile ← storeImage cwd env call destDir
  let sizeBytes ← .read (statSize cwd env destFile)
  let image := call.image destFile sizeBytes
  saveMetadata cwd env image
  return image

/-- `import_cloud_image`. -/
def importCloudImage (py : StrLib) (env : ImageEnv) (imagesDir dataDir : Option PyPath)
    (call : ImportCall) : Action PyExc FS CloudImage :=
  if call.fmt ∉ supportedFormats then
    throw ⟨.valueError, "unsupported image format " ++ py.repr call.fmt ++ "; supported: " ++
      ", ".intercalate supportedFormats⟩
  else
    match imagesDir, dataDir with
    | some imagesDir, _ => importInto cwd env imagesDir call
    | none, some dataDir => do
      let imagesDir ← imagesDirOf cwd dataDir
      importInto cwd env imagesDir call
    | none, none => throw ⟨.valueError, "images_dir or data_dir is required"⟩

/-! ### Listing -/

/-- The image of metadata that were found in a file. -/
def imageOfMetadata (metaPath : PyPath) (data : Json) : Except PyExc CloudImage := do
  let filename ← (← data.item "filename").toText
  let name ← (← data.item "name").toText
  let osFamily ← (← data.item "os_family").toText
  let vendor ← (← data.item "vendor").toText
  let version ← (← data.item "version").toText
  let arch ← (← data.getItem "arch" (.str "x86_64")).toText
  let format ← (← data.getItem "format" (.str "qcow2")).toText
  let sizeBytes ← data.getItem "size_bytes" (.int 0)
  let cloudInit ← (← data.getItem "cloud_init" (.bool true)).toBool
  match sizeBytes with
  | .int sizeBytes =>
    return { name, osFamily, vendor, version, arch, format, sizeBytes, cloudInit,
             path := joinPath (parentPath metaPath) filename }
  | _ => .error ⟨.typeError, "not an int"⟩

/-- `_load_metadata`. -/
def loadMetadata (env : ImageEnv) (fs : FS) (metaPath : PyPath) :
    Except PyExc (Option CloudImage) :=
  match readBytes cwd fs metaPath with
  | .error e => if e.cls.isOSError then .ok none else .error e
  | .ok b =>
    match env.loads b with
    | .error .notJson => .ok none
    | .error .notText => .error ⟨.valueError, "codec can't decode"⟩
    | .ok data =>
      match imageOfMetadata metaPath data with
      | .ok image => .ok (some image)
      | .error e => if e.cls = .keyError then .ok none else .error e

/-- The names on the way from a directory down to a location in it. -/
def namesBelow (dir l : Loc String) : List String := (l.take (l.length - dir.length)).reverse

/-- `p.rglob(name)`, sorted: what has the name in a directory and in those below it, which are not
entered through links. -/
def rglobSorted (fs : FS) (p : PyPath) (name : String) : List PyPath :=
  match locate cwd fs p with
  | .error _ => []
  | .ok d =>
    let found := fs.nodes.keys.filter fun l => decide (l.head? = some name ∧ d <:+ l.tail)
    let paths := (sortOn id (found.map (namesBelow d))).map fun names =>
      (⟨p.absolute, p.comps ++ names.map .name⟩ : PyPath)
    paths.filter (pathExists cwd fs)

/-- `list_images`. -/
def listImages (env : ImageEnv) (fs : FS) (imagesDir dataDir : Option PyPath) :
    Except PyExc (List CloudImage) := do
  let dir ← match imagesDir, dataDir with
    | some d, _ => pure d
    | none, some data => pure (child data "images")
    | none, none => .error ⟨.valueError, "images_dir or data_dir is required"⟩
  if !pathExists cwd fs dir then .ok []
  else do
    let found ← (rglobSorted cwd fs dir "image.json").mapM (loadMetadata cwd env fs)
    return found.reduceOption

end

end TftpOS
