import FandheBackend.ExceptChecks
import FandheBackend.FileTree
import FandheBackend.HttpRequestHead
import FandheBackend.HttpResponse

set_option autoImplicit false

/-!
# Static files (`crates/plugin-static/src/lib.rs`, `crates/plugin-static/src/mime.rs`)

A `GET` whose path lies under the mount is answered from the files below the root. The
segments of the path are checked before they are looked up, and the canonical path that
they lead to is checked again.
-/
namespace FandheBackend.PluginStatic
open StdBytes HttpRequestHead HttpResponse PatternSearch ExceptChecks FileTree

/-- The files as a process sees them; names and contents are bytes. -/
structure FileSystem where
  tree : Tree Bytes Bytes
  currentDir : List Bytes
  current_dir : tree.isDir currentDir = true

abbrev PathBuf := Path Bytes

def toPath (location : List Bytes) : PathBuf := ⟨true, location.map .normal⟩

def componentOf (segment : Bytes) : Component Bytes :=
  if segment = ascii "." then .curDir
  else if segment = ascii ".." then .parentDir
  else .normal segment

/-- `PathBuf::push` of a segment without a `/`. -/
def push (path : PathBuf) (segment : Bytes) : PathBuf :=
  { path with components := path.components ++ [componentOf segment] }

/-- `std::fs::canonicalize`; the empty path names nothing. -/
def canonicalize (fs : FileSystem) (path : PathBuf) : Option (List Bytes) :=
  if path.absolute = false ∧ path.components = [] then none
  else fs.tree.resolve fs.currentDir path

/-- `std::fs::metadata`. -/
def metadata (fs : FileSystem) (path : PathBuf) : Option (Node Bytes Bytes) :=
  (canonicalize fs path).bind fs.tree.node

/-- `Metadata::is_file`. -/
def isFile : Node Bytes Bytes → Bool
  | .file _ => true
  | _ => false

/-- `Metadata::len`, which is only asked of files. -/
def len : Node Bytes Bytes → ℕ
  | .file content => content.length
  | _ => 0

/-- `std::fs::read`. -/
def read (fs : FileSystem) (path : PathBuf) : Option Bytes :=
  match metadata fs path with
  | some (.file content) => some content
  | _ => none

section Mime

def isPlain (text : Bytes) : Bool := !text.contains cr && !text.contains lf

theorem isPlain_iff {text : Bytes} : isPlain text = true ↔ cr ∉ text ∧ lf ∉ text := by
  simp [isPlain]

def literal (text : String) (h : isPlain (ascii text) = true) : ContentType :=
  ⟨ascii text, isPlain_iff.mp h⟩

def table : List (Bytes × ContentType) :=
  [(ascii "html", literal "text/html; charset=utf-8" rfl),
    (ascii "htm", literal "text/html; charset=utf-8" rfl),
    (ascii "css", literal "text/css; charset=utf-8" rfl),
    (ascii "js", literal "text/javascript; charset=utf-8" rfl),
    (ascii "mjs", literal "text/javascript; charset=utf-8" rfl),
    (ascii "json", literal "application/json" rfl),
    (ascii "map", literal "application/json" rfl),
    (ascii "webmanifest", literal "application/manifest+json" rfl),
    (ascii "xml", literal "application/xml" rfl),
    (ascii "txt", literal "text/plain; charset=utf-8" rfl),
    (ascii "md", literal "text/markdown; charset=utf-8" rfl),
    (ascii "svg", literal "image/svg+xml" rfl),
    (ascii "png", literal "image/png" rfl),
    (ascii "jpg", literal "image/jpeg" rfl),
    (ascii "jpeg", literal "image/jpeg" rfl),
    (ascii "gif", literal "image/gif" rfl),
    (ascii "webp", literal "image/webp" rfl),
    (ascii "avif", literal "image/avif" rfl),
    (ascii "ico", literal "image/x-icon" rfl),
    (ascii "wasm", literal "application/wasm" rfl),
    (ascii "woff", literal "font/woff" rfl),
    (ascii "woff2", literal "font/woff2" rfl),
    (ascii "ttf", literal "font/ttf" rfl),
    (ascii "otf", literal "font/otf" rfl),
    (ascii "pdf", literal "application/pdf" rfl),
    (ascii "mp3", literal "audio/mpeg" rfl),
    (ascii "wav", literal "audio/wav" rfl),
    (ascii "ogg", literal "audio/ogg" rfl),
    (ascii "mp4", literal "video/mp4" rfl),
    (ascii "webm", literal "video/webm" rfl)]

def defaultContentType : ContentType := literal "application/octet-stream" rfl

def extensionOf (fileName : Bytes) : Option Bytes :=
  (fileName.splitOn 46).getLast?.filter (· != fileName)

def contentTypeForExtension (fileName : Bytes) (overrides : List (Bytes × ContentType)) :
    ContentType :=
  match extensionOf fileName with
  | none => defaultContentType
  | some ext =>
    let extLower := ext.map toAsciiLowercase
    ((overrides.lookup extLower).or (table.lookup extLower)).getD defaultContentType

end Mime

section Config

/-- The system's error is not kept. -/
inductive StaticConfigError where
  | invalidMount (reason : String)
  | rootNotAccessible
  | rootNotADirectory
  | invalidMimeMapping (ext : Bytes) (reason : String)
  deriving DecidableEq

def defaultMaxFileBytes : ℕ := 8 * 1024 * 1024

structure StaticFilesConfig where
  mount : Bytes
  root : List Bytes
  maxFileBytes : ℕ
  mimeOverrides : List (Bytes × ContentType)
  fallthroughOnMiss : Bool
  deriving DecidableEq

structure StaticFilesConfigBuilder where
  mount : Bytes
  root : PathBuf
  maxFileBytes : ℕ := defaultMaxFileBytes
  mimeOverrides : List (Bytes × Bytes) := []
  fallthroughOnMiss : Bool := false

def isControl (b : UInt8) : Bool := b < 32 || b == 127

def validateMount (mount : Bytes) : Except StaticConfigError Bytes := do
  rejectIf (mount = [] ∨ mount.head? ≠ some 47)
    (.invalidMount "先頭が '/' の非空文字列である必要がある")
  rejectIf (mount ≠ ascii "/" ∧ mount.getLast? = some 47)
    (.invalidMount "'/' 単体を除き末尾に '/' を含められない")
  rejectIf ((findFirst (ascii "//") mount).isSome) (.invalidMount "連続する '/' を含められない")
  rejectIf (mount.contains 63 ∨ mount.contains 35)
    (.invalidMount "'?' / '#' を含められない（クエリ・フラグメントとの混同防止）")
  rejectIf (mount.any isControl) (.invalidMount "制御文字を含められない")
  return mount

def stripDot : Bytes → Bytes
  | 46 :: ext => ext
  | ext => ext

theorem no_line_end {contentType : Bytes} (h : ¬(contentType = [] ∨ contentType.any isControl)) :
    cr ∉ contentType ∧ lf ∉ contentType := by
  have hplain : ∀ b ∈ contentType, isControl b = false := by
    simpa using (not_or.mp h).2
  constructor <;> intro hmem
  · exact absurd (hplain cr hmem) (by decide)
  · exact absurd (hplain lf hmem) (by decide)

/-- The loop over the mappings that are left. The last one of an extension wins. -/
def validateMimeLoop : List (Bytes × Bytes) → List (Bytes × ContentType) →
    Except StaticConfigError (List (Bytes × ContentType))
  | [], normalized => .ok normalized
  | (raw, contentType) :: rest, normalized =>
    let ext := stripDot raw
    if ext = [] ∨ ext.contains 46 ∨ ext.contains 47 ∨ ext.contains 92 ∨ ext.contains 0 ∨
        ext.any isControl then
      .error (.invalidMimeMapping ext
        "が不正（非空・'.'/'/'/'\\'/NUL・制御文字を含められない）")
    else if h : contentType = [] ∨ contentType.any isControl then
      .error (.invalidMimeMapping ext
        "の Content-Type が不正（非空・CR/LF・制御文字を含められない）")
    else
      let extLower := ext.map toAsciiLowercase
      let normalized := normalized.filter (·.1 != extLower)
      validateMimeLoop rest (normalized ++ [(extLower, ⟨contentType, no_line_end h⟩)])

def validateMimeOverrides (raw : List (Bytes × Bytes)) :
    Except StaticConfigError (List (Bytes × ContentType)) := validateMimeLoop raw []

def StaticFilesConfigBuilder.build (fs : FileSystem) (b : StaticFilesConfigBuilder) :
    Except StaticConfigError StaticFilesConfig := do
  let mount ← validateMount b.mount
  let root ← orError .rootNotAccessible (canonicalize fs b.root)
  rejectIf ((metadata fs (toPath root)).any Node.isDir = false) .rootNotADirectory
  let mimeOverrides ← validateMimeOverrides b.mimeOverrides
  return { mount, root, maxFileBytes := b.maxFileBytes, mimeOverrides,
           fallthroughOnMiss := b.fallthroughOnMiss }

end Config

section Serving

/-- `strip_prefix` of one slash. -/
def stripSlash : Bytes → Option Bytes
  | 47 :: rest => some rest
  | _ => none

def stripMount (path mount : Bytes) : Option Bytes :=
  if mount = ascii "/" then stripSlash path
  else if path = mount then some []
  else if mount.isPrefixOf path then stripSlash (path.drop mount.length)
  else none

def isSafeSegment (segment : Bytes) : Bool :=
  !segment.isEmpty && segment != ascii "." && segment != ascii ".." &&
    segment.head? != some 46 && !segment.contains 0 && !segment.contains 92 &&
    !segment.contains 58

def isSafeSegmentRelaxed (segment : Bytes) : Bool :=
  !segment.isEmpty && segment != ascii "." && segment != ascii ".." &&
    segment.head? != some 46 && !segment.contains 58

/-- Every component of a canonical path is a `Normal` one. -/
def resolvedPathIsSafe (root resolved : List Bytes) : Bool :=
  root.isPrefixOf resolved &&
    (resolved.drop root.length).all fun name => !fromUtf8IsErr name && isSafeSegmentRelaxed name

/-- `canonicalize` with the two checks that follow it, once for the path and once for an index. -/
def canonicalizeSafe (fs : FileSystem) (root : List Bytes) (path : PathBuf) :
    Option (List Bytes) := do
  let canonical ← canonicalize fs path
  guard (root.isPrefixOf canonical)
  guard (resolvedPathIsSafe root canonical)
  return canonical

def fileName (location : List Bytes) : Bytes :=
  (location.getLast?.filter fun name => !fromUtf8IsErr name).getD []

/-- The `final_path` for what is at a canonical path. -/
def finalPath (fs : FileSystem) (root canonical : List Bytes) (node : Node Bytes Bytes) :
    Option (List Bytes) :=
  if node.isDir then canonicalizeSafe fs root (push (toPath canonical) (ascii "index.html"))
  else if isFile node then some canonical
  else none

/-- The size is checked before and after the file is read. -/
def readWithin (fs : FileSystem) (maxFileBytes : ℕ) (path : PathBuf) : Option Bytes := do
  let finalNode ← metadata fs path
  guard (isFile finalNode && len finalNode ≤ maxFileBytes)
  let bytes ← read fs path
  guard (bytes.length ≤ maxFileBytes)
  return bytes

def resolveAndRead (fs : FileSystem) (root segments : List Bytes) (dirRequest : Bool)
    (maxFileBytes : ℕ) (mimeOverrides : List (Bytes × ContentType)) :
    Option (Bytes × ContentType) := do
  let candidate := segments.foldl push (toPath root)
  let canonical ← canonicalizeSafe fs root candidate
  let node ← metadata fs (toPath canonical)
  guard (!(dirRequest && !node.isDir))
  let final ← finalPath fs root canonical node
  let bytes ← readWithin fs maxFileBytes (toPath final)
  return (bytes, contentTypeForExtension (fileName final) mimeOverrides)

def tryAddHeader (response : Response) (name value : Bytes) : Response :=
  (response.withHeader name value).toOption.getD response

def miss (config : StaticFilesConfig) : Option Response :=
  if config.fallthroughOnMiss then none else some (Response.empty 404)

def found (bytes : Bytes) (contentType : ContentType) : Response :=
  tryAddHeader ((Response.new 200 bytes).withContentType contentType)
    (ascii "X-Content-Type-Options") (ascii "nosniff")

/-- The last part of `try_handle_static`. `joined` says that the task of `spawn_blocking` ended
with a result. -/
def answer (fs : FileSystem) (joined : Bool) (config : StaticFilesConfig) (segments : List Bytes)
    (dirRequest : Bool) : Option Response :=
  if segments.all isSafeSegment = false then miss config
  else if joined then
    match resolveAndRead fs config.root segments dirRequest config.maxFileBytes
        config.mimeOverrides with
    | none => miss config
    | some (bytes, contentType) => some (found bytes contentType)
  else miss config

variable {TypeId : Type} {E : TypeId → Type}

def tryHandleStatic (fs : FileSystem) (joined : Bool) (head : RequestHead E)
    (config : StaticFilesConfig) : Option Response :=
  if eqIgnoreAsciiCase head.method (ascii "GET") = false then none
  else match stripMount head.path config.mount with
    | none => none
    | some tail =>
      let dirRequest := tail.getLast? == some 47
      let tail := if dirRequest then tail.dropLast else tail
      if dirRequest && tail.isEmpty then miss config
      else answer fs joined config (if tail.isEmpty then [] else tail.splitOn 47) dirRequest

end Serving

end FandheBackend.PluginStatic
