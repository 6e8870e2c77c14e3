-- SUMMARY: Watched-file batches: which changes concern which project, and what a batch invalidates, clears and schedules (backend.rs).
import MarrowLsp.Lsp.Tracker

/-!
# Watched files

A batch of file changes is turned into events per project root, the events into
one pending entry per root, and the entries into the batch's effects. While the
analysis lock is taken the workspace cannot be asked, and the events come from the
tracker and the file system alone.
-/
namespace MarrowLsp

variable {M : Marrow}

inductive FileChangeType where
  | CREATED
  | CHANGED
  | DELETED
  deriving DecidableEq, Repr

structure WatchedPathChange where
  uri : Url
  path : Path
  typ : FileChangeType
  deriving DecidableEq, Repr

inductive WatchedProjectChange where
  | projectConfig (root path : Path) (deleted : Bool)
  | analysisFile (root path : Path) (deletedUrl : Option Url)
  deriving DecidableEq, Repr

/-- The two bits of `pending_workspace_invalidation`. -/
structure PendingInvalidation where
  project : Bool
  analysis : Bool
  deriving DecidableEq, Repr

namespace PendingInvalidation

def none : PendingInvalidation := ⟨false, false⟩

/-- `fetch_or`. -/
def or (bits more : PendingInvalidation) : PendingInvalidation :=
  ⟨bits.project || more.project, bits.analysis || more.analysis⟩

/-- Whether the bits are not zero. -/
def isPending (bits : PendingInvalidation) : Bool := bits.project || bits.analysis

@[simp] theorem isPending_none : none.isPending = false := rfl

@[simp] theorem isPending_or (bits more : PendingInvalidation) :
    (bits.or more).isPending = (bits.isPending || more.isPending) := by
  cases bits
  cases more
  simp only [or, isPending]
  grind

theorem eq_none_of_isPending {bits : PendingInvalidation} (h : bits.isPending = false) :
    bits = none := by
  obtain ⟨project, analysis⟩ := bits
  simp only [isPending, Bool.or_eq_false_iff] at h
  rw [h.1, h.2]
  rfl

end PendingInvalidation

/-- `apply_pending_workspace_invalidation`. -/
def applyPendingWorkspaceInvalidation (bits : PendingInvalidation) (ws : Workspace M) :
    Workspace M :=
  if bits.project then ws.invalidateProject
  else if bits.analysis then ws.invalidateAnalysis
  else ws

/-- One `textDocument/publishDiagnostics` notification. -/
structure PublishedDiagnostics where
  url : Url
  diagnostics : List Diagnostic
  version : Option Int
  deriving DecidableEq, Repr

/-- The versions of the open buffers, by URL. -/
abbrev DocumentVersions := AList fun _ : Url => Option Int

def openDocumentVersions (documents : DocumentAnalysisSnapshot) : DocumentVersions :=
  documents.openDocuments.foldl
    (fun versions document => versions.insert document.url document.version) ∅

/-- The version of the open buffer at a URL, if any. -/
def versionOf (versions : DocumentVersions) (url : Url) : Option Int :=
  (versions.lookup url).join

def clearPublish (url : Url) (versions : DocumentVersions) : PublishedDiagnostics :=
  ⟨url, [], versionOf versions url⟩

structure PendingWatchedRoot where
  recomputePath : Option Path
  invalidateProject : Bool
  invalidateAnalysis : Bool
  clearRoot : Bool
  deletedUrls : List Url
  deriving DecidableEq, Repr

/-- `PendingWatchedRoot::default`. -/
def PendingWatchedRoot.new : PendingWatchedRoot := ⟨none, false, false, false, []⟩

structure ScheduledRecompute where
  path : Path
  rootEpoch : Option (Path × Nat)
  deriving DecidableEq, Repr

structure WatchedRootEffects where
  bits : PendingInvalidation
  schedules : List ScheduledRecompute
  immediateClears : List PublishedDiagnostics
  invalidatedProject : Bool
  invalidatedAnalysis : Bool
  deriving DecidableEq, Repr

/-- `WatchedRootEffects::default`. -/
def WatchedRootEffects.new : WatchedRootEffects := ⟨.none, [], [], false, false⟩

/-- Whether clearing a root also schedules the recompute that drains it. -/
inductive ClearRootDrain where
  | schedule
  | skip
  deriving DecidableEq, Repr

/-! ## Events -/

def WatchedProjectChange.root : WatchedProjectChange → Path
  | .projectConfig root _ _ => root
  | .analysisFile root _ _ => root

/-- What one event adds to its root's pending entry. -/
def PendingWatchedRoot.add (pending : PendingWatchedRoot) :
    WatchedProjectChange → PendingWatchedRoot
  | .projectConfig _ path deleted =>
    { pending with
      invalidateProject := true
      recomputePath := some path
      clearRoot := pending.clearRoot || deleted
      deletedUrls := if deleted then [] else pending.deletedUrls }
  | .analysisFile _ path deletedUrl =>
    { pending with
      invalidateAnalysis := true
      recomputePath :=
        if !pending.clearRoot && pending.recomputePath.isNone then some path
        else pending.recomputePath
      deletedUrls :=
        match deletedUrl with
        | some url => if !pending.clearRoot then pending.deletedUrls.insert url
          else pending.deletedUrls
        | none => pending.deletedUrls }

/-- One pending entry per root. -/
abbrev PendingWatchedRoots := AList fun _ : Path => PendingWatchedRoot

def PendingWatchedRoots.add (pending : PendingWatchedRoots) (event : WatchedProjectChange) :
    PendingWatchedRoots :=
  pending.insert event.root (((pending.lookup event.root).getD .new).add event)

def pendingWatchedRoots (events : List WatchedProjectChange) : PendingWatchedRoots :=
  events.foldl PendingWatchedRoots.add ∅

section Changes

/-- The nearest directory above a path that holds a `marrow.json`. -/
def nearestProjectRoot (fs : Fs) (path : Path) : Option Path := projectRootOf fs path

def trackedRootAnalysisChange (root : Path) (change : WatchedPathChange) : Bool :=
  change.path == root.child COMMITTED_LOCK_FILE || change.path.extension == some "mw" ||
    change.path.fileName == some NATIVE_STORE_FILE_NAME

def snapshotHasFile (snapshot : Option (Analysis M)) (path : Path) : Bool :=
  snapshot.any fun a => a.containsFile path

/-- The changes that concern the resolved project, once per kind. -/
def watchedProjectChanges (ws : Workspace M) (changes : List WatchedPathChange) :
    List WatchedProjectChange :=
  match ws.project with
  | none => []
  | some project =>
    match changes.find? fun change => change.path == project.root.child CONFIG_FILE with
    | some change => [.projectConfig project.root change.path (change.typ == .DELETED)]
    | none =>
      let lock := changes.find? fun change => change.path == project.root.child COMMITTED_LOCK_FILE
      let store := project.storeFile.bind fun storePath =>
        changes.find? fun change => change.path == storePath
      let source := changes.find? fun change =>
        project.analyzesFile change.path || snapshotHasFile ws.latest change.path
      (lock.map fun change => .analysisFile project.root change.path none).toList ++
        (store.map fun change => .analysisFile project.root change.path none).toList ++
        (source.map fun change => .analysisFile project.root change.path
          (if change.typ == .DELETED then some change.uri else none)).toList

/-- What a tracked root makes of one change. -/
def trackedDiagnosticChange (tracker : DiagnosticsTracker) (change : WatchedPathChange) :
    Option WatchedProjectChange :=
  match tracker.trackedRootForConfigPath change.path with
  | some root => some (.projectConfig root change.path (change.typ == .DELETED))
  | none =>
    match tracker.trackedRootForPath change.path with
    | none => none
    | some root =>
      if trackedRootAnalysisChange root change then
        some (.analysisFile root change.path
          (if change.typ == .DELETED && tracker.trackedRootForUrl change.uri == some root then
            some change.uri
          else none))
      else none

def watchedTrackedDiagnosticChanges (tracker : DiagnosticsTracker)
    (changes : List WatchedPathChange) : List WatchedProjectChange :=
  changes.filterMap (trackedDiagnosticChange tracker)

/-- What a root that is not tracked makes of one change. -/
def untrackedProjectChange (fs : Fs) (tracker : DiagnosticsTracker) (change : WatchedPathChange) :
    Option WatchedProjectChange :=
  if (tracker.trackedRootForConfigPath change.path).isSome ||
      (tracker.trackedRootForPath change.path).isSome then none
  else if change.path.fileName == some CONFIG_FILE then
    change.path.parent.map fun root =>
      .projectConfig root change.path (change.typ == .DELETED)
  else
    match nearestProjectRoot fs change.path with
    | none => none
    | some root =>
      if trackedRootAnalysisChange root change then some (.analysisFile root change.path none)
      else none

def watchedUntrackedProjectChanges (fs : Fs) (tracker : DiagnosticsTracker)
    (changes : List WatchedPathChange) : List WatchedProjectChange :=
  changes.filterMap (untrackedProjectChange fs tracker)

def busyWatchedProjectChanges (fs : Fs) (tracker : DiagnosticsTracker)
    (changes : List WatchedPathChange) : List WatchedProjectChange :=
  watchedTrackedDiagnosticChanges tracker changes ++
    watchedUntrackedProjectChanges fs tracker changes

/-- The bits one change raises before the tracker is asked. -/
def preInvalidationBits (fs : Fs) (change : WatchedPathChange) : PendingInvalidation :=
  if change.path.fileName == some CONFIG_FILE then ⟨true, false⟩
  else if (change.path.fileName == some COMMITTED_LOCK_FILE ||
      change.path.fileName == some NATIVE_STORE_FILE_NAME ||
      change.path.extension == some "mw") && (nearestProjectRoot fs change.path).isSome then
    ⟨false, true⟩
  else .none

def busyWatchedPreInvalidationBits (fs : Fs) (changes : List WatchedPathChange) :
    PendingInvalidation :=
  changes.foldl (fun bits change => bits.or (preInvalidationBits fs change)) .none

end Changes

/-! ## Effects -/

/-- Clear the deleted URLs of a root that no buffer holds open. -/
def clearDeleted (versions : DocumentVersions) (root : Path) (tracker : DiagnosticsTracker)
    (urls : List Url) : List PublishedDiagnostics × DiagnosticsTracker :=
  urls.foldl (fun (clears, tracker) url =>
    if url ∈ versions then (clears, tracker)
    else
      let (tracked, tracker) := tracker.clearUrl root url
      (if tracked then clears ++ [clearPublish url versions] else clears, tracker)) ([], tracker)

/-- The effects of one root's pending entry, added to those before it. -/
def WatchedRootEffects.add (versions : DocumentVersions) (currentRoot : Option Path)
    (drain : ClearRootDrain) (before : WatchedRootEffects × DiagnosticsTracker) (root : Path)
    (pending : PendingWatchedRoot) : WatchedRootEffects × DiagnosticsTracker :=
  let (effects, tracker) := before
  let current := currentRoot == some root
  let effects :=
    { effects with
      bits := effects.bits.or ⟨pending.invalidateProject, pending.invalidateAnalysis⟩
      invalidatedProject := effects.invalidatedProject || current && pending.invalidateProject
      invalidatedAnalysis := effects.invalidatedAnalysis || current && pending.invalidateAnalysis }
  -- The epoch is bumped before the clear, so a run in flight cannot publish after it.
  if pending.clearRoot then
    let tracker := tracker.bumpRootEpoch root
    let epoch := tracker.epoch root
    let (cleared, tracker) := tracker.clearRoot root
    ({ effects with
        immediateClears := effects.immediateClears ++ cleared.map fun url => clearPublish url versions
        schedules := effects.schedules ++
          if drain == .schedule then
            (pending.recomputePath.map fun path => ⟨path, some (root, epoch)⟩).toList
          else [] },
      tracker)
  else
    let (clears, tracker) := clearDeleted versions root tracker (sortedUrls pending.deletedUrls)
    let effects := { effects with immediateClears := effects.immediateClears ++ clears }
    match pending.recomputePath with
    | none => (effects, tracker)
    | some path =>
      let tracker := tracker.bumpRootEpoch root
      ({ effects with
          schedules := effects.schedules ++ [⟨path, some (root, tracker.epoch root)⟩] },
        tracker)

/-- `watched_root_effects`: the effects of a batch and the tracker after it. -/
def watchedRootEffects (tracker : DiagnosticsTracker) (versions : DocumentVersions)
    (pending : PendingWatchedRoots) (currentRoot : Option Path) (drain : ClearRootDrain) :
    WatchedRootEffects × DiagnosticsTracker :=
  pending.entries.foldl
    (fun before entry => WatchedRootEffects.add versions currentRoot drain before entry.1 entry.2)
    (.new, tracker)

end MarrowLsp
