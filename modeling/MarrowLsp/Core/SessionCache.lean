-- SUMMARY: Reuse of a project's saved-data snapshot and roots across data-view reads (session_cache.rs, store.rs).
import MarrowLsp.Core.Workspace

/-!
# The saved-data session cache

The cache keeps the checked snapshot of a project's saved data and the roots
last read from it, under the digests of the program they were read for and the
change detector of the store file. A read that misses re-opens the project named
by the root it is given.
-/
namespace MarrowLsp

variable {M : Marrow}

/-- The reply of `marrow/savedRoots`: the stamped roots, or unavailable. -/
structure SavedRootsResult (M : Marrow) where
  available : Bool
  stamped : Option M.StampedRoots

/-- `data_explorer::saved_roots`. -/
def savedRoots (session : Option M.ReadSession) : SavedRootsResult M :=
  match session.bind M.savedDataRoots with
  | some stamped => ⟨true, some stamped⟩
  | none => ⟨false, none⟩

structure SessionGeneration where
  sourceDigest : String
  readOnlyContextDigest : String
  deriving DecidableEq, Repr

/-- `SessionGeneration::of`. -/
def SessionGeneration.ofProgram (program : M.Program) : SessionGeneration :=
  ⟨M.sourceDigest program, M.readOnlyContextDigest program⟩

structure CachedSession (M : Marrow) where
  generation : SessionGeneration
  storeStat : Option StoreFileStat
  snapshot : M.SurfaceSnapshot
  roots : SavedRootsResult M

structure SavedDataSessionCache (M : Marrow) where
  cached : Option (CachedSession M)

/-- `native_store_stat`. -/
def nativeStoreStat (fs : Fs) (project : Project M) : Option StoreFileStat :=
  project.storeFile.bind fs.stat

/-- `open_saved_data_snapshot`. -/
def openSavedDataSnapshot (w : World M) (project : Project M) : Option M.SurfaceSnapshot :=
  match M.dataViewUnavailableReason project.root project.config with
  | .ok none => w.openSurface project.root
  | .ok (some _) => none
  | .error _ => none

/-- Keep a session only when its on-disk program is the given one. -/
def sessionMatching (session : M.ReadSession) (program : M.Program) : Option M.ReadSession :=
  if M.admitsCheckedProgram session program then some session else none

namespace SavedDataSessionCache

def new : SavedDataSessionCache M := ⟨none⟩

/-- Whether the cached snapshot is for this generation and store fingerprint. An
absent fingerprint never matches. -/
def isCurrent (c : SavedDataSessionCache M) (generation : SessionGeneration)
    (storeStat : Option StoreFileStat) : Bool :=
  c.cached.any fun cached =>
    cached.generation == generation && storeStat.isSome && cached.storeStat == storeStat

/-- Re-check the project, read its roots and cache them. A failure leaves the
cache as it was. -/
def refresh (c : SavedDataSessionCache M) (w : World M) (project : Project M)
    (program : M.Program) (generation : SessionGeneration) (storeStat : Option StoreFileStat) :
    Option (CachedSession M) × SavedDataSessionCache M :=
  let fresh := do
    let snapshot ← openSavedDataSnapshot w project
    let session ← w.openReadOnly snapshot
    let session ← sessionMatching session program
    return ({ generation, storeStat, snapshot, roots := savedRoots (some session) } :
      CachedSession M)
  match fresh with
  | some cached => (some cached, ⟨some cached⟩)
  | none => (none, c)

def savedRoots (c : SavedDataSessionCache M) (w : World M) (project : Project M)
    (program : M.Program) : SavedRootsResult M × SavedDataSessionCache M :=
  let storeStat := nativeStoreStat w.fs project
  let generation := SessionGeneration.ofProgram program
  match c.cached, c.isCurrent generation storeStat with
  | some cached, true => (cached.roots, c)
  | _, _ =>
    match c.refresh w project program generation storeStat with
    | (some cached, c) => (cached.roots, c)
    | (none, c) => (MarrowLsp.savedRoots none, c)

def readSession (c : SavedDataSessionCache M) (w : World M) (project : Project M)
    (program : M.Program) : Option M.ReadSession × SavedDataSessionCache M :=
  let storeStat := nativeStoreStat w.fs project
  let generation := SessionGeneration.ofProgram program
  let refreshed :=
    if c.isCurrent generation storeStat then (c.cached, c)
    else c.refresh w project program generation storeStat
  match refreshed with
  | (none, c) => (none, c)
  | (some cached, c) =>
    ((w.openReadOnly cached.snapshot).bind fun session => sessionMatching session program, c)

end SavedDataSessionCache

end MarrowLsp
