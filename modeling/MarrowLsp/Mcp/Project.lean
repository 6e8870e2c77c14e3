-- SUMMARY: Project loading for the agent tools: confinement, the cached project and its fingerprints (mcp.rs).
import MarrowLsp.Core.Workspace

/-!
# Project loading

Every project tool loads its file through `withLoadedProject`: confinement, a
freshness check of the one cached project, and a recompute when it is stale. The
fingerprints are digests in the source; the model keeps the digested data, so
equal fingerprints are equal data.
-/
namespace MarrowLsp

variable {M : Marrow}

/-! ## Confinement -/

/-- Canonicalize the longest existing prefix of the path and re-attach the rest.
`trailing` holds the names below `path`, outermost first. -/
def canonicalExistingPrefix (fs : Fs) (path : Path) (trailing : List String) : Option Path :=
  match fs.canonicalize path with
  | some resolved =>
    some (trailing.foldl (fun resolved name =>
      if name = ".." then resolved.parent.getD resolved
      else if name ≠ "." then resolved.child name
      else resolved) resolved)
  | none =>
    match path with
    | .push parent (.normal name) => canonicalExistingPrefix fs parent (name :: trailing)
    | _ => none

def isWithin (root target : Path) : Bool := target.startsWith root

def pathWithin (fs : Fs) (root target : Path) : Bool :=
  match canonicalExistingPrefix fs target [] with
  | some resolved => isWithin root resolved
  | none => false

/-- Whether confinement admits `file`: the file, and the project root above it,
lie in the allowed root. An allowed root that does not resolve admits nothing. -/
def confinementCheck (fs : Fs) (allowedRoot : Option Path) (file : Path) : Bool :=
  match allowedRoot with
  | none => true
  | some root =>
    match canonicalExistingPrefix fs root [] with
    | none => false
    | some root =>
      pathWithin fs root file &&
        (projectRootOf fs file).all fun projectRoot => pathWithin fs root projectRoot

/-- Why a project could not be loaded for a tool. -/
inductive ProjectAccessError where
  | outOfRoot
  | load (message : String)
  deriving DecidableEq, Repr

/-! ## Fingerprints -/

/-- The text a fingerprint takes for a path. A file that cannot be read counts as
empty. -/
def fingerprintText (fs : Fs) (overlay : Option (Path × Text)) (path : Path) : Text :=
  match overlay with
  | some (overlayPath, source) =>
    if overlayPath = path then source
    else match fs.readToString path with
      | .ok text => text
      | .error _ => []
  | none =>
    match fs.readToString path with
    | .ok text => text
    | .error _ => []

def sourceFingerprint (fs : Fs) (project : Project M) (overlay : Option (Path × Text)) :
    Option (List (Path × Text)) :=
  (discovered fs project.root project.config).map fun paths =>
    ((paths.insertionSort Path.le).dedup).map fun path => (path, fingerprintText fs overlay path)

def catalogFingerprint (fs : Fs) (project : Project M) : Option (List UInt8) :=
  fs.readBytes (project.root.child COMMITTED_LOCK_FILE)

/-! ## The cached project -/

structure CachedProject (M : Marrow) where
  workspace : Workspace M
  sourceFingerprint : Option (List (Path × Text))
  catalogFingerprint : Option (List UInt8)

/-- The document set of one call: empty, or its overlay under the file's URL.
`none` when the file has no URL. -/
def callDocuments (M : Marrow) (file : Path) : Option Text → Option Documents
  | none => some Documents.new
  | some source => (M.fromFilePath file).map fun url =>
      Documents.new.openWithVersion url source none

namespace CachedProject

def new : CachedProject M := ⟨Workspace.new, none, none⟩

def isFreshFor (c : CachedProject M) (fs : Fs) (file : Path) (overlay : Option (Path × Text)) :
    Bool :=
  match c.workspace.project with
  | none => false
  | some project =>
    file.startsWith project.root &&
      (MarrowLsp.sourceFingerprint fs project overlay == c.sourceFingerprint &&
        MarrowLsp.catalogFingerprint fs project == c.catalogFingerprint)

/-- The fingerprints taken after a recompute that succeeded. -/
def refingerprint (c : CachedProject M) (fs : Fs) (workspace : Workspace M)
    (overlay : Option (Path × Text)) : CachedProject M :=
  match workspace.project with
  | some project =>
    { c with
      workspace
      sourceFingerprint := MarrowLsp.sourceFingerprint fs project overlay
      catalogFingerprint := MarrowLsp.catalogFingerprint fs project }
  | none => { c with workspace, sourceFingerprint := none, catalogFingerprint := none }

/-- What a project load returns, leaves in the cache, and opens on the way. -/
structure Load (M : Marrow) where
  result : Except ProjectAccessError Unit
  cache : CachedProject M
  opens : List Path

/-- `with_loaded_project` up to the call of its closure, past confinement. -/
def load (c : CachedProject M) (w : World M) (file : Path) (source : Option Text) : Load M :=
  let overlay := source.map fun source => (file, source)
  if c.isFreshFor w.fs file overlay then ⟨.ok (), c, []⟩
  else
    match callDocuments M file source with
    | none => ⟨.error (.load "the file path is not absolute"), c, []⟩
    | some documents =>
      let recompute := c.workspace.recomputeFromSnapshot w file (documents.analysisSnapshot M)
      match recompute.result with
      | .error e =>
        ⟨.error (.load e.message), { c with workspace := recompute.workspace }, recompute.opens⟩
      | .ok _ => ⟨.ok (), c.refingerprint w.fs recompute.workspace overlay, recompute.opens⟩

/-- `with_loaded_project` up to the call of its closure. -/
def withLoadedProject (c : CachedProject M) (allowedRoot : Option Path) (w : World M)
    (file : Path) (source : Option Text) : Load M :=
  if confinementCheck w.fs allowedRoot file then c.load w file source
  else ⟨.error .outOfRoot, c, []⟩

end CachedProject

end MarrowLsp
