-- SUMMARY: The language server as a transition system: editor notifications, watched-file batches and recompute tasks, cut where a lock is taken or released (backend.rs).
import MarrowLsp.Lsp.Watch
import MarrowLsp.Core.Navigation

/-!
# The language server

A step is what one party does between two points where another may come in. The
locks are part of the state: a recompute that has committed holds the analysis lock
until its publish, a recompute that reconciles and a handler that is part way through
hold the publish lock, and `running` holds the run lock. A handler's `try_lock` of
the analysis fails when `busy`, which it must be while a recompute holds the lock.
-/
namespace MarrowLsp

open Transition

variable {M : Marrow}

/-- A recompute as `schedule_recompute` spawns it: with the root and epoch it is for,
or with an edit sequence number while its root is unknown. -/
structure Task where
  file : Path
  rootEpoch : Option (Path × Nat)
  seq : Option Nat
  scope : RecomputeScope
  deriving DecidableEq, Repr

/-- A recompute that has captured the buffers and waits for the run lock. -/
structure Waiting where
  task : Task
  documents : DocumentAnalysisSnapshot
  deriving DecidableEq, Repr

/-- Where the recompute with the run lock stands. -/
inductive RunStage (M : Marrow) where
  | prepared
  | analyzed (a : Analysis M)
  /-- Installed; holds the analysis lock and waits for the publish lock. -/
  | committed
  /-- Past the document check; holds the publish lock. -/
  | publishing (root : Path) (scope : ReconcileScope) (a : Analysis M)
      (diagnosticsByUrl : DiagnosticsByUrl)

structure Running (M : Marrow) where
  task : Task
  documents : DocumentAnalysisSnapshot
  run : PreparedRecompute M
  stage : RunStage M

/-- A notification handler that holds the publish lock and has more to do. -/
inductive Handling where
  /-- `did_open` and `did_change`, once the buffers are updated. -/
  | edit (path : Path) (scope : RecomputeScope)
  | close (url : Url) (path : Option Path)
  /-- The busy branch of `did_change_watched_files`, after its first `fetch_or`. -/
  | watch (changes : List WatchedPathChange) (versions : DocumentVersions)
      (preBits : PendingInvalidation)
  /-- The same after its second. -/
  | watchAgain (changes : List WatchedPathChange) (versions : DocumentVersions)
      (preBits : PendingInvalidation)

/-- What was sent to the client, by cause. -/
inductive Publish (M : Marrow) where
  | recompute (root : Path) (a : Analysis M) (documents : DocumentAnalysisSnapshot)
      (messages : List PublishedDiagnostics)
  | clear (messages : List PublishedDiagnostics)

structure Server (M : Marrow) where
  documents : Documents
  workspace : Workspace M
  pending : PendingInvalidation
  tracker : DiagnosticsTracker
  editSeq : Nat
  /-- Spawned tasks before and after their debounce and preflight check. -/
  sleeping : List Task
  awake : List Task
  waiting : List Waiting
  running : Option (Running M)
  handling : Option Handling
  /-- Everything sent to the client, the newest first. -/
  published : List (Publish M)

/-- The steps of the server. A step that reads the file system or a store carries the
world it finds; `i` is a place in the list of tasks the step takes one from. -/
inductive Action (M : Marrow) where
  | didOpen (url : Url) (text : Text) (version : Int)
  | didChange (url : Url) (text : Text) (version : Int)
  | didClose (url : Url)
  | didChangeWatchedFiles (fs : Fs) (busy : Bool) (events : List (Url × FileChangeType))
  | handle (fs : Fs) (busy : Bool)
  | preflight (i : Nat)
  | capture (i : Nat)
  | prepare (w : World M) (i : Nat)
  | analyze (fs : Fs)
  | commit
  | publish (fs : Fs)
  | reconcile
  | bindingIndex
  | chooseReadSource (file : Path)

namespace Server

def new : Server M where
  documents := Documents.new
  workspace := Workspace.new
  pending := .none
  tracker := DiagnosticsTracker.new
  editSeq := 0
  sleeping := []
  awake := []
  waiting := []
  running := none
  handling := none
  published := []

/-- A recompute holds the analysis lock. -/
def analysisLocked (s : Server M) : Bool :=
  s.running.any fun r => match r.stage with | .committed => true | _ => false

/-- No recompute is scheduled or in flight, and no handler is at work. -/
def quiet (s : Server M) : Bool :=
  s.sleeping.isEmpty && s.awake.isEmpty && s.waiting.isEmpty && s.running.isNone &&
    s.handling.isNone

/-- Nobody holds the publish lock. -/
def publishFree (s : Server M) : Bool :=
  s.handling.isNone && !s.running.any fun r =>
    match r.stage with | .publishing .. => true | _ => false

/-- `schedule_recompute`. -/
def scheduleRecompute (s : Server M) (file : Path) (rootEpoch : Option (Path × Nat))
    (scope : RecomputeScope) : Server M :=
  match rootEpoch with
  | some _ => { s with sleeping := s.sleeping ++ [⟨file, rootEpoch, none, scope⟩] }
  | none =>
    { s with
      editSeq := s.editSeq + 1
      sleeping := s.sleeping ++ [⟨file, none, some (s.editSeq + 1), scope⟩] }

def scheduleAll (s : Server M) (schedules : List ScheduledRecompute) : Server M :=
  schedules.foldl (fun s schedule => s.scheduleRecompute schedule.path schedule.rootEpoch .full) s

def sendClears (s : Server M) (clears : List PublishedDiagnostics) : Server M :=
  if clears.isEmpty then s else { s with published := .clear clears :: s.published }

/-- Send the clears of a watched batch and schedule its recomputes. -/
def carryOut (s : Server M) (effects : WatchedRootEffects) : Server M :=
  (s.sendClears effects.immediateClears).scheduleAll effects.schedules

/-! ## Notifications -/

def didOpen (s : Server M) (url : Url) (text : Text) (version : Int) : Server M :=
  { s with
    documents := s.documents.openWithVersion url text (some version)
    handling := (M.toFilePath url).map fun path => .edit path .full }

def didChange (s : Server M) (url : Url) (text : Text) (version : Int) : Server M :=
  { s with
    documents := s.documents.changeWithVersion url text (some version)
    handling := (M.toFilePath url).map fun path => .edit path .interactive }

def didClose (s : Server M) (url : Url) : Server M :=
  { s with
    documents := s.documents.close url
    handling := some (.close url (M.toFilePath url)) }

/-- The root known for a path by a handler that could or could not lock the analysis. -/
def knownRoot (s : Server M) (busy : Bool) (path : Path) : Option Path :=
  knownRootForPath (if busy then none else some s.workspace) s.tracker path

/-- The end of `did_open` and `did_change`: a recompute of the file, for its root's
next epoch when the root is known. -/
def finishEdit (s : Server M) (busy : Bool) (path : Path) (scope : RecomputeScope) : Server M :=
  let root := s.knownRoot busy path
  let s := { s with handling := none }
  match root with
  | some root =>
    let tracker := s.tracker.bumpRootEpoch root
    { s with tracker }.scheduleRecompute path (some (root, tracker.epoch root)) scope
  | none => s.scheduleRecompute path none scope

/-- The end of `did_close`: the closed buffer's problems are cleared. -/
def finishClose (s : Server M) (busy : Bool) (url : Url) (path : Option Path) : Server M :=
  let root := path.bind (s.knownRoot busy)
  let s := { s with handling := none }
  let cleared : List PublishedDiagnostics := [⟨url, [], none⟩]
  match path, root with
  | some path, some root =>
    let tracker := ((s.tracker.clearUrl root url).2).bumpRootEpoch root
    ({ s with tracker }.sendClears cleared).scheduleRecompute path
      (some (root, tracker.epoch root)) .full
  | some path, none => (s.sendClears cleared).scheduleRecompute path none .full
  | none, _ => s.sendClears cleared

/-- What a watched batch does to the workspace it found free. -/
def invalidateFor (effects : WatchedRootEffects) (ws : Workspace M) : Workspace M :=
  if effects.invalidatedProject then ws.invalidateProject
  else if effects.invalidatedAnalysis then ws.invalidateAnalysis
  else ws

/-- The events of a batch that found the workspace free. -/
def freeEvents (tracker : DiagnosticsTracker) (ws : Workspace M)
    (changes : List WatchedPathChange) : List WatchedProjectChange :=
  watchedProjectChanges ws changes ++ watchedTrackedDiagnosticChanges tracker changes

/-- The effects of a batch that found the workspace free, and the tracker after it. -/
def freeEffects (tracker : DiagnosticsTracker) (ws : Workspace M) (versions : DocumentVersions)
    (changes : List WatchedPathChange) : WatchedRootEffects × DiagnosticsTracker :=
  watchedRootEffects tracker versions (pendingWatchedRoots (freeEvents tracker ws changes))
    (ws.project.map (·.root)) .skip

/-- The free branch of `did_change_watched_files`. -/
def watchFree (s : Server M) (versions : DocumentVersions) (changes : List WatchedPathChange) :
    Server M :=
  let workspace := applyPendingWorkspaceInvalidation s.pending s.workspace
  if (freeEvents s.tracker workspace changes).isEmpty then { s with pending := .none, workspace }
  else
    let result := freeEffects s.tracker workspace versions changes
    { s with
      pending := .none
      workspace := invalidateFor result.1 workspace
      tracker := result.2 }.carryOut result.1

/-- The effects of a batch that did not, and the tracker after it. -/
def busyEffects (fs : Fs) (tracker : DiagnosticsTracker) (versions : DocumentVersions)
    (changes : List WatchedPathChange) : WatchedRootEffects × DiagnosticsTracker :=
  watchedRootEffects tracker versions
    (pendingWatchedRoots (busyWatchedProjectChanges fs tracker changes)) none .schedule

/-- The end of the busy branch. -/
def finishWatch (s : Server M) (fs : Fs) (versions : DocumentVersions)
    (changes : List WatchedPathChange) : Server M :=
  let result := busyEffects fs s.tracker versions changes
  { s with
    tracker := result.2
    handling := none
    pending := s.pending.or result.1.bits }.carryOut result.1

/-- The watched changes of a notification: those whose URL names a file. -/
def watchedPathChanges (M : Marrow) (events : List (Url × FileChangeType)) :
    List WatchedPathChange :=
  events.filterMap fun (uri, typ) => (M.toFilePath uri).map fun path => ⟨uri, path, typ⟩

def didChangeWatchedFiles (s : Server M) (fs : Fs) (busy : Bool)
    (changes : List WatchedPathChange) : Server M :=
  let versions := openDocumentVersions (s.documents.analysisSnapshot M)
  if busy then
    let preBits := busyWatchedPreInvalidationBits fs changes
    { s with
      pending := s.pending.or preBits
      handling := some (.watch changes versions preBits) }
  else s.watchFree versions changes

/-- The next step of the handler that holds the publish lock. -/
def handle (s : Server M) (fs : Fs) (busy : Bool) : Handling → Server M
  | .edit path scope => s.finishEdit busy path scope
  | .close url path => s.finishClose busy url path
  | .watch changes versions preBits =>
    { s with
      pending := s.pending.or preBits
      handling := some (.watchAgain changes versions preBits) }
  | .watchAgain changes versions _ => s.finishWatch fs versions changes

/-! ## Recomputes -/

/-- A task that a newer one has replaced while it slept. -/
def cancelled (s : Server M) (task : Task) : Bool :=
  match task.rootEpoch, task.seq with
  | some (root, epoch), _ => s.tracker.isStale root epoch
  | none, some seq => s.editSeq != seq
  | none, none => false

def preflight (s : Server M) (i : Nat) (task : Task) : Server M :=
  let s' := { s with sleeping := s.sleeping.eraseIdx i }
  if s.cancelled task then s' else { s' with awake := s.awake ++ [task] }

def capture (s : Server M) (i : Nat) (task : Task) : Server M :=
  { s with
    awake := s.awake.eraseIdx i
    waiting := s.waiting ++ [⟨task, s.documents.analysisSnapshot M⟩] }

/-- Take the run lock; under the analysis lock drain the pending bits and prepare. -/
def prepare (s : Server M) (w : World M) (i : Nat) (x : Waiting) : Server M :=
  let workspace := applyPendingWorkspaceInvalidation s.pending s.workspace
  let prepare := workspace.prepareRecompute w x.task.file x.documents x.task.scope
  let s :=
    { s with
      pending := .none
      workspace := prepare.workspace
      waiting := s.waiting.eraseIdx i }
  match prepare.result with
  | .error _ => s
  | .ok run => { s with running := some ⟨x.task, x.documents, run, .prepared⟩ }

def analyze (s : Server M) (fs : Fs) (r : Running M) : Server M :=
  match r.run.analyze fs with
  | .error _ => { s with running := none }
  | .ok a => { s with running := some { r with stage := .analyzed a } }

/-- Apply the pending bits and give up the run. -/
def abandon (s : Server M) : Server M :=
  { s with
    pending := .none
    workspace := applyPendingWorkspaceInvalidation s.pending s.workspace
    running := none }

/-- Commit under the analysis lock, which an installed run keeps. -/
def commit (s : Server M) (r : Running M) (a : Analysis M) : Server M :=
  if s.pending.isPending then s.abandon
  else
    let (installed, workspace) :=
      s.workspace.commitRecompute r.run.documentsGeneration r.run.invalidationEpoch a
    { s with
      workspace
      running := if installed then some { r with stage := .committed } else none }

/-- The URLs of the open buffers the project analyzes. -/
def openAnalysisDocumentUrls (documents : DocumentAnalysisSnapshot) (project : Project M) :
    List Url :=
  sortedUrls ((documents.openDocuments.filter fun document =>
    project.analyzesFile document.path).map (·.url))

/-- The diagnostics of an analysis, by URL, mapped through the captured buffers. -/
def diagnosticsByUrl (fs : Fs) (documents : DocumentAnalysisSnapshot) (project : Project M)
    (a : Analysis M) : DiagnosticsByUrl :=
  snapshotToDiagnostics M fs a.snapshot (openAnalysisDocumentUrls documents project) fun url =>
    (documents.get url).map fun document => LineIndex.new document.text

def reconcileScope (run : PreparedRecompute M) (a : Analysis M) : ReconcileScope :=
  if run.sourceOnly then .ofSnapshot M a.snapshot else .whole

/-- With both locks: check for an invalidation and for moved buffers, then release the
analysis lock with the diagnostics at hand. -/
def publish (s : Server M) (fs : Fs) (r : Running M) : Server M :=
  if s.pending.isPending then s.abandon
  else if !s.documents.matchesGeneration r.documents then { s with running := none }
  else
    match s.workspace.project, s.workspace.latest with
    | some project, some a =>
      { s with
        running := some
          { r with
            stage := .publishing project.root (reconcileScope r.run a) a
              (diagnosticsByUrl fs r.documents project a) } }
    | _, _ => { s with running := none }

/-- The epoch a publish is checked against: that the task was scheduled for, when it
was for this root. -/
def publishEpoch (s : Server M) (task : Task) (root : Path) : Nat :=
  match task.rootEpoch with
  | some (scheduledRoot, epoch) =>
    if scheduledRoot = root then epoch else s.tracker.epoch root
  | none => s.tracker.epoch root

def messages (documents : DocumentAnalysisSnapshot) (diagnostics : DiagnosticsByUrl) :
    List PublishedDiagnostics :=
  diagnostics.entries.map fun entry =>
    ⟨entry.1, entry.2, versionOf (openDocumentVersions documents) entry.1⟩

/-- With the publish lock: reconcile the tracker and send the diagnostics. -/
def reconcile (s : Server M) (r : Running M) (root : Path) (scope : ReconcileScope)
    (a : Analysis M) (diagnostics : DiagnosticsByUrl) : Server M :=
  if s.pending.isPending then s.abandon
  else
    match s.tracker.reconcileSuccess root (s.publishEpoch r.task root) scope diagnostics with
    | none => { s with running := none }
    | some (published, tracker) =>
      { s with
        tracker
        running := none
        published := .recompute root a r.documents (messages r.documents published) ::
          s.published }

/-! ## Steps -/

def step (s : Server M) : Action M → Option (Server M)
  | .didOpen url text version =>
    if s.publishFree then some (s.didOpen url text version) else none
  | .didChange url text version =>
    if s.publishFree then some (s.didChange url text version) else none
  | .didClose url => if s.publishFree then some (s.didClose url) else none
  -- A batch of nothing but URLs without a path returns at once.
  | .didChangeWatchedFiles fs busy events =>
    let changes := watchedPathChanges M events
    if changes.isEmpty then some s
    else if s.publishFree && (busy || !s.analysisLocked) then
      some (s.didChangeWatchedFiles fs busy changes)
    else none
  -- `try_lock` may fail at any time, and must where a recompute holds the lock.
  | .handle fs busy =>
    if busy || !s.analysisLocked then s.handling.map (s.handle fs busy) else none
  | .preflight i => (s.sleeping[i]?).map (s.preflight i)
  | .capture i => (s.awake[i]?).map (s.capture i)
  -- The run lock admits one recompute, which then goes through its stages in order.
  | .prepare w i => if s.running.isNone then (s.waiting[i]?).map (s.prepare w i) else none
  | .analyze fs => s.running.bind fun r =>
    match r.stage with
    | .prepared => some (s.analyze fs r)
    | _ => none
  | .commit => s.running.bind fun r =>
    match r.stage with
    | .analyzed a => some (s.commit r a)
    | _ => none
  | .publish fs => s.running.bind fun r =>
    match r.stage with
    | .committed => if s.publishFree then some (s.publish fs r) else none
    | _ => none
  | .reconcile => s.running.bind fun r =>
    match r.stage with
    | .publishing root scope a diagnostics => some (s.reconcile r root scope a diagnostics)
    | _ => none
  | .bindingIndex =>
    if s.analysisLocked then none
    else some { s with workspace := s.workspace.withBindingIndex }
  | .chooseReadSource file =>
    if s.analysisLocked then none
    else some { s with workspace := (s.workspace.chooseReadSource file).2 }

end Server

end MarrowLsp
