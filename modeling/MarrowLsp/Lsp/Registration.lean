-- SUMMARY: The watched files that the server registers with the client (backend.rs): a run that hears of every change is the run that hears of the registered ones.
import MarrowLsp.Core.Sample
import MarrowLsp.Lib.Glob
import MarrowLsp.Lsp.Backend

/-!
# The registration of watched files

The client tells of a change only where its path matches one of the registered globs.
What a batch does is decided by its registered changes alone, so that the server misses
nothing. A batch without any still gives a free workspace the occasion to apply what is
pending.
-/
namespace MarrowLsp

open Transition

variable {M : Marrow}

/-- The globs of `watched_files_registrations`. -/
def watchedFilesGlobs : List String :=
  ["**/marrow.json", "**/*.mw", "**/" ++ COMMITTED_LOCK_FILE, "**/" ++ NATIVE_STORE_FILE_NAME]

/-- A glob `**/` on the file name, in any directory. -/
def matchesGlob (path : Path) (glob : String) : Bool :=
  glob.toList.take 3 == ['*', '*', '/'] &&
    path.fileName.any fun name => Glob.matchesName (glob.toList.drop 3) name.toList

/-- The client tells of changes of the path. -/
def isWatched (path : Path) : Bool := watchedFilesGlobs.any (matchesGlob path)

/-- Marrow's files are named as the globs expect: native stores by their file name, and
test modules and whatever is analyzed by their extension. -/
structure Marrow.NamesFiles (M : Marrow) : Prop where
  nativeStorePath : ∀ root config path, M.nativeStorePath root config = .ok (some path) →
    path.fileName = some NATIVE_STORE_FILE_NAME
  testModuleFile : ∀ root config path, M.testModuleFile root config path = true →
    path.extension = some "mw"
  analyzed : ∀ (inputs : M.Inputs), ∀ file ∈ (M.check inputs).files,
    file.path.extension = some "mw"

/-! ## Which paths are watched -/

section Watched

variable {path : Path}

theorem matchesGlob_of_name {name : String} (h : path.fileName = some name)
    (hname : '*' ∉ name.toList) : matchesGlob path ("**/" ++ name) = true := by
  have hlist : ("**/" ++ name).toList = ['*', '*', '/'] ++ name.toList := by simp
  have htake : (['*', '*', '/'] ++ name.toList).take 3 = ['*', '*', '/'] := rfl
  have hdrop : (['*', '*', '/'] ++ name.toList).drop 3 = name.toList := rfl
  rw [matchesGlob, hlist, htake, hdrop, h, beq_self_eq_true, Bool.true_and]
  exact Glob.matchesName_self hname

theorem matchesGlob_of_suffix {name : String} (h : path.fileName = some name)
    (hsuffix : ".mw".toList <:+ name.toList) : matchesGlob path "**/*.mw" = true := by
  have hlist : "**/*.mw".toList = ['*', '*', '/'] ++ '*' :: ".mw".toList := by decide
  have htake : (['*', '*', '/'] ++ '*' :: ".mw".toList).take 3 = ['*', '*', '/'] := rfl
  have hdrop : (['*', '*', '/'] ++ '*' :: ".mw".toList).drop 3 = '*' :: ".mw".toList := rfl
  rw [matchesGlob, hlist, htake, hdrop, h, beq_self_eq_true, Bool.true_and]
  exact Glob.matchesName_star (by decide) hsuffix

theorem isWatched_of_config (h : path.fileName = some CONFIG_FILE) : isWatched path = true := by
  have hglob : "**/" ++ CONFIG_FILE = "**/marrow.json" := by decide
  refine List.any_eq_true.mpr ⟨"**/" ++ CONFIG_FILE, ?_, matchesGlob_of_name h (by decide)⟩
  rw [hglob]
  simp [watchedFilesGlobs]

theorem isWatched_of_lock (h : path.fileName = some COMMITTED_LOCK_FILE) :
    isWatched path = true := by
  refine List.any_eq_true.mpr ⟨"**/" ++ COMMITTED_LOCK_FILE, ?_, matchesGlob_of_name h (by decide)⟩
  simp [watchedFilesGlobs]

theorem isWatched_of_store (h : path.fileName = some NATIVE_STORE_FILE_NAME) :
    isWatched path = true := by
  refine List.any_eq_true.mpr
    ⟨"**/" ++ NATIVE_STORE_FILE_NAME, ?_, matchesGlob_of_name h (by decide)⟩
  simp [watchedFilesGlobs]

/-- A name with the extension `mw` ends in it, behind a dot. -/
theorem suffix_of_extension (h : path.extension = some "mw") :
    ∃ name, path.fileName = some name ∧ ".mw".toList <:+ name.toList := by
  unfold Path.extension at h
  cases hname : path.fileName with
  | none => simp [hname] at h
  | some name =>
    simp only [hname, Option.ite_none_right_eq_some, Option.some.injEq] at h
    obtain ⟨hlength, hafter⟩ := h
    refine ⟨name, rfl, ?_⟩
    have hsplit := List.takeWhile_append_dropWhile (p := (· ≠ '.')) (l := name.toList.reverse)
    have hmw : name.toList.reverse.takeWhile (· ≠ '.') = ['w', 'm'] := by
      have hlist := congrArg String.toList hafter
      rw [String.toList_ofList] at hlist
      exact List.reverse_injective hlist
    -- What the extension is read up to is a dot, since the name goes on before it.
    cases hdrop : name.toList.reverse.dropWhile (· ≠ '.') with
    | nil =>
      rw [hdrop, List.append_nil] at hsplit
      rw [hsplit, List.length_reverse] at hlength
      omega
    | cons dot front =>
      have hdot := List.head?_dropWhile_not (· ≠ '.') name.toList.reverse
      rw [hdrop, List.head?_cons] at hdot
      replace hdot : dot = '.' := by simpa using hdot
      rw [hmw, hdrop, hdot] at hsplit
      have hreverse := congrArg List.reverse hsplit
      rw [List.reverse_reverse] at hreverse
      exact ⟨front.reverse, by simpa using hreverse⟩

theorem isWatched_of_extension (h : path.extension = some "mw") : isWatched path = true := by
  obtain ⟨name, hname, hsuffix⟩ := suffix_of_extension h
  refine List.any_eq_true.mpr ⟨"**/*.mw", ?_, matchesGlob_of_suffix hname hsuffix⟩
  simp [watchedFilesGlobs]

end Watched

/-! ## What a batch is made of -/

def WatchedPathChange.isWatched (change : WatchedPathChange) : Bool :=
  MarrowLsp.isWatched change.path

section Batches

variable {change : WatchedPathChange} (changes : List WatchedPathChange)

theorem isWatched_of_child {name : String} {root : Path} (hname : change.path = root.child name)
    (h : ∀ path : Path, path.fileName = some name → isWatched path = true) :
    change.isWatched = true := by
  apply h
  rw [hname]
  rfl

theorem isWatched_of_tracked {root : Path} (h : trackedRootAnalysisChange root change = true) :
    change.isWatched = true := by
  simp only [trackedRootAnalysisChange, Bool.or_eq_true, beq_iff_eq] at h
  obtain (hlock | hextension) | hstore := h
  · exact isWatched_of_child hlock fun _ => isWatched_of_lock
  · exact isWatched_of_extension hextension
  · exact isWatched_of_store hstore

/-- Dropping what a search passes over does not change what it finds. -/
theorem find?_filter_watched {p : WatchedPathChange → Bool}
    (h : ∀ change, p change = true → change.isWatched = true) :
    (changes.filter (·.isWatched)).find? p = changes.find? p := by
  rw [List.find?_filter]
  congr 1
  funext change
  cases hp : p change with
  | true => simp [h change hp]
  | false => simp

theorem filterMap_filter_watched {α : Type} {f : WatchedPathChange → Option α}
    (h : ∀ change, change.isWatched = false → f change = none) :
    (changes.filter (·.isWatched)).filterMap f = changes.filterMap f := by
  rw [List.filterMap_filter]
  congr 1
  funext change
  specialize h change
  grind

theorem isWatched_of_storeFile (hM : M.NamesFiles) {project : Project M} {storePath : Path}
    (hfile : project.storeFile = some storePath) : MarrowLsp.isWatched storePath = true := by
  apply isWatched_of_store
  unfold Project.storeFile at hfile
  split at hfile
  · next path hpath =>
    rw [hfile] at hpath
    exact hM.nativeStorePath _ _ _ hpath
  · cases hfile

/-- A source of the project, or a file of its analysis, is watched. -/
theorem isWatched_of_source (hM : M.NamesFiles) {project : Project M} {latest : Option (Analysis M)}
    {path : Path} (h : (project.analyzesFile path || snapshotHasFile latest path) = true) :
    MarrowLsp.isWatched path = true := by
  apply isWatched_of_extension
  simp only [Project.analyzesFile, Project.sourceModuleFile, snapshotHasFile, Bool.or_eq_true,
    Bool.and_eq_true, decide_eq_true_eq] at h
  obtain (⟨hextension, -⟩ | htest) | hlatest := h
  · exact hextension
  · exact hM.testModuleFile _ _ _ htest
  · cases latest with
    | none => cases hlatest
    | some a =>
      obtain ⟨file, hfile, hpath⟩ := List.any_eq_true.mp hlatest
      rw [← of_decide_eq_true hpath]
      exact hM.analyzed a.inputs file hfile

theorem watchedProjectChanges_filter (hM : M.NamesFiles) (ws : Workspace M) :
    watchedProjectChanges ws (changes.filter (·.isWatched)) = watchedProjectChanges ws changes := by
  unfold watchedProjectChanges
  cases hproject : ws.project with
  | none => rfl
  | some project =>
    have hconfig := find?_filter_watched changes
      (p := fun change => change.path == project.root.child CONFIG_FILE) fun change h =>
        isWatched_of_child (beq_iff_eq.mp h) fun _ => isWatched_of_config
    have hlock := find?_filter_watched changes
      (p := fun change => change.path == project.root.child COMMITTED_LOCK_FILE) fun change h =>
        isWatched_of_child (beq_iff_eq.mp h) fun _ => isWatched_of_lock
    have hsource := find?_filter_watched changes
      (p := fun change => project.analyzesFile change.path || snapshotHasFile ws.latest change.path)
      fun change h => isWatched_of_source hM h
    have hstore : (project.storeFile.bind fun storePath =>
          (changes.filter (·.isWatched)).find? fun change => change.path == storePath) =
        project.storeFile.bind fun storePath =>
          changes.find? fun change => change.path == storePath := by
      apply Option.bind_congr
      intro storePath hfile
      refine find?_filter_watched changes fun change h => ?_
      rw [WatchedPathChange.isWatched, beq_iff_eq.mp h]
      exact isWatched_of_storeFile hM hfile
    simp only [hconfig, hlock, hstore, hsource]

section Unwatched

variable (tracker : DiagnosticsTracker) (hchange : change.isWatched = false)

include hchange

theorem trackedRootForConfigPath_unwatched : tracker.trackedRootForConfigPath change.path = none := by
  cases hroot : tracker.trackedRootForConfigPath change.path with
  | none => rfl
  | some root =>
    have hpath := @List.find?_some _ (fun root : Path => change.path == root.child CONFIG_FILE) _ _
      hroot
    have hwatched := isWatched_of_child (beq_iff_eq.mp hpath) fun _ => isWatched_of_config
    rw [hchange] at hwatched
    cases hwatched

theorem trackedRootAnalysisChange_unwatched (root : Path) :
    trackedRootAnalysisChange root change = false := by
  rw [← Bool.not_eq_true]
  intro htracked
  have hwatched := isWatched_of_tracked htracked
  rw [hchange] at hwatched
  cases hwatched

theorem fileName_unwatched {name : String}
    (h : ∀ path : Path, path.fileName = some name → MarrowLsp.isWatched path = true) :
    (change.path.fileName == some name) = false := by
  rw [beq_eq_false_iff_ne]
  intro hname
  have hwatched : change.isWatched = true := h change.path hname
  rw [hchange] at hwatched
  cases hwatched

theorem trackedDiagnosticChange_unwatched : trackedDiagnosticChange tracker change = none := by
  unfold trackedDiagnosticChange
  rw [trackedRootForConfigPath_unwatched tracker hchange]
  cases tracker.trackedRootForPath change.path with
  | none => rfl
  | some root => simp [trackedRootAnalysisChange_unwatched hchange root]

theorem untrackedProjectChange_unwatched (fs : Fs) :
    untrackedProjectChange fs tracker change = none := by
  unfold untrackedProjectChange
  rw [fileName_unwatched hchange fun _ => isWatched_of_config]
  split
  · rfl
  · cases nearestProjectRoot fs change.path with
    | none => rfl
    | some root => simp [trackedRootAnalysisChange_unwatched hchange root]

theorem preInvalidationBits_unwatched (fs : Fs) : preInvalidationBits fs change = .none := by
  unfold preInvalidationBits
  have hextension : (change.path.extension == some "mw") = false := by
    rw [beq_eq_false_iff_ne]
    intro hmw
    have hwatched : change.isWatched = true := isWatched_of_extension hmw
    rw [hchange] at hwatched
    cases hwatched
  simp [fileName_unwatched hchange fun _ => isWatched_of_config,
    fileName_unwatched hchange fun _ => isWatched_of_lock,
    fileName_unwatched hchange fun _ => isWatched_of_store, hextension]

end Unwatched

theorem watchedTrackedDiagnosticChanges_filter (tracker : DiagnosticsTracker) :
    watchedTrackedDiagnosticChanges tracker (changes.filter (·.isWatched)) =
      watchedTrackedDiagnosticChanges tracker changes :=
  filterMap_filter_watched changes fun _ hchange =>
    trackedDiagnosticChange_unwatched tracker hchange

theorem watchedUntrackedProjectChanges_filter (fs : Fs) (tracker : DiagnosticsTracker) :
    watchedUntrackedProjectChanges fs tracker (changes.filter (·.isWatched)) =
      watchedUntrackedProjectChanges fs tracker changes :=
  filterMap_filter_watched changes fun _ hchange =>
    untrackedProjectChange_unwatched tracker hchange fs

theorem busyWatchedPreInvalidationBits_filter (fs : Fs) :
    busyWatchedPreInvalidationBits fs (changes.filter (·.isWatched)) =
      busyWatchedPreInvalidationBits fs changes := by
  unfold busyWatchedPreInvalidationBits
  rw [List.foldl_filter]
  congr 1
  funext bits change
  split
  · rfl
  · next hchange =>
    rw [preInvalidationBits_unwatched (Bool.not_eq_true _ ▸ hchange) fs]
    simp [PendingInvalidation.or, PendingInvalidation.none]

end Batches

/-! ## Runs -/

/-- The events whose paths the client watches. -/
def heardEvents (M : Marrow) (events : List (Url × FileChangeType)) :
    List (Url × FileChangeType) :=
  events.filter fun event => (M.toFilePath event.1).any isWatched

theorem watchedPathChanges_heard (events : List (Url × FileChangeType)) :
    Server.watchedPathChanges M (heardEvents M events) =
      (Server.watchedPathChanges M events).filter (·.isWatched) := by
  unfold Server.watchedPathChanges heardEvents
  rw [List.filterMap_filter, List.filter_filterMap]
  congr 1
  funext event
  obtain ⟨uri, typ⟩ := event
  cases hpath : M.toFilePath uri with
  | none => simp [hpath]
  | some path =>
    cases hwatched : isWatched path with
    | false => simp [hpath, hwatched, WatchedPathChange.isWatched, Option.filter]
    | true => simp [hpath, hwatched, WatchedPathChange.isWatched, Option.filter]

/-- The action as the client's registration lets the server hear of it. -/
def Action.heard : Action M → Action M
  | .didChangeWatchedFiles fs busy events => .didChangeWatchedFiles fs busy (heardEvents M events)
  | action => action

/-- A batch of changes has a watched one among them. -/
def Action.HasWatched : Action M → Prop
  | .didChangeWatchedFiles _ _ events =>
    Server.watchedPathChanges M events = [] ∨ ∃ change ∈ Server.watchedPathChanges M events,
      change.isWatched = true
  | _ => True

/-- A handler at work on the changes heard of. -/
def Handling.heard : Handling → Handling
  | .watch changes versions preBits => .watch (changes.filter (·.isWatched)) versions preBits
  | .watchAgain changes versions preBits =>
    .watchAgain (changes.filter (·.isWatched)) versions preBits
  | handling => handling

namespace Server

/-- The server had it heard of the watched changes alone. -/
def heard (s : Server M) : Server M := { s with handling := s.handling.map Handling.heard }

variable (s : Server M)

@[simp] theorem heard_publishFree : s.heard.publishFree = s.publishFree := by
  simp [heard, publishFree]

@[simp] theorem heard_analysisLocked : s.heard.analysisLocked = s.analysisLocked := rfl

theorem heard_didOpen (url : Url) (text : Text) (version : Int) :
    (s.didOpen url text version).heard = s.heard.didOpen url text version := by
  simp only [heard, didOpen]
  cases M.toFilePath url with
  | none => rfl
  | some path => rfl

theorem heard_didChange (url : Url) (text : Text) (version : Int) :
    (s.didChange url text version).heard = s.heard.didChange url text version := by
  simp only [heard, didChange]
  cases M.toFilePath url with
  | none => rfl
  | some path => rfl

theorem heard_scheduleRecompute (file : Path) (rootEpoch : Option (Path × Nat))
    (scope : RecomputeScope) : (s.scheduleRecompute file rootEpoch scope).heard =
      s.heard.scheduleRecompute file rootEpoch scope := by
  cases rootEpoch with
  | none => rfl
  | some rootEpoch => rfl

theorem heard_sendClears (clears : List PublishedDiagnostics) :
    (s.sendClears clears).heard = s.heard.sendClears clears := by
  unfold sendClears
  split
  · rfl
  · rfl

theorem heard_carryOut (effects : WatchedRootEffects) :
    (s.carryOut effects).heard = s.heard.carryOut effects := by
  unfold carryOut scheduleAll
  rw [← heard_sendClears]
  generalize s.sendClears effects.immediateClears = cleared
  induction effects.schedules generalizing cleared with
  | nil => rfl
  | cons schedule schedules ih =>
    rw [List.foldl_cons, List.foldl_cons, ih, heard_scheduleRecompute]

theorem watchFree_filter (hM : M.NamesFiles) (versions : DocumentVersions)
    (changes : List WatchedPathChange) :
    s.watchFree versions (changes.filter (·.isWatched)) = s.watchFree versions changes := by
  have hevents : ∀ ws : Workspace M, freeEvents s.tracker ws (changes.filter (·.isWatched)) =
      freeEvents s.tracker ws changes := by
    intro ws
    rw [freeEvents, watchedProjectChanges_filter changes hM, watchedTrackedDiagnosticChanges_filter]
    rfl
  unfold watchFree freeEffects
  dsimp only
  by_cases hempty : (freeEvents s.tracker (applyPendingWorkspaceInvalidation s.pending s.workspace)
      changes).isEmpty = true
  · rw [if_pos hempty, if_pos ((congrArg List.isEmpty (hevents _)).trans hempty)]
  · rw [if_neg hempty, if_neg (by rwa [hevents]), hevents]

theorem heard_watchFree (versions : DocumentVersions) (changes : List WatchedPathChange) :
    (s.watchFree versions changes).heard = s.heard.watchFree versions changes := by
  unfold watchFree
  by_cases hempty : (freeEvents s.tracker (applyPendingWorkspaceInvalidation s.pending s.workspace)
      changes).isEmpty = true
  · dsimp only
    rw [if_pos hempty]
    exact (if_pos hempty).symm
  · dsimp only
    rw [if_neg hempty, heard_carryOut]
    exact (if_neg hempty).symm

theorem heard_finishWatch (fs : Fs) (versions : DocumentVersions)
    (changes : List WatchedPathChange) : (s.finishWatch fs versions changes).heard =
      s.heard.finishWatch fs versions (changes.filter (·.isWatched)) := by
  unfold finishWatch busyEffects busyWatchedProjectChanges
  rw [watchedTrackedDiagnosticChanges_filter, watchedUntrackedProjectChanges_filter]
  exact heard_carryOut _ _

theorem heard_finishEdit (busy : Bool) (path : Path) (scope : RecomputeScope) :
    (s.finishEdit busy path scope).heard = s.heard.finishEdit busy path scope := by
  have hknown : s.heard.knownRoot busy path = s.knownRoot busy path := rfl
  unfold finishEdit
  rw [hknown]
  cases s.knownRoot busy path with
  | none => rfl
  | some root => rfl

theorem heard_finishClose (busy : Bool) (url : Url) (path : Option Path) :
    (s.finishClose busy url path).heard = s.heard.finishClose busy url path := by
  have hknown : s.heard.knownRoot busy = s.knownRoot busy := rfl
  unfold finishClose
  rw [hknown]
  cases path with
  | none => rfl
  | some path =>
    dsimp only
    cases (some path).bind (s.knownRoot busy) with
    | none => rfl
    | some root => rfl

theorem heard_handle (fs : Fs) (busy : Bool) (handling : Handling) :
    (s.handle fs busy handling).heard = s.heard.handle fs busy handling.heard := by
  cases handling with
  | edit path scope => exact s.heard_finishEdit busy path scope
  | close url path => exact s.heard_finishClose busy url path
  | watch changes versions preBits => rfl
  | watchAgain changes versions preBits => exact s.heard_finishWatch fs versions changes

theorem heard_prepare (w : World M) (i : Nat) (x : Waiting) :
    (s.prepare w i x).heard = s.heard.prepare w i x := by
  unfold prepare
  dsimp only [heard]
  split
  · rfl
  · rfl

theorem heard_preflight (i : Nat) (task : Task) :
    (s.preflight i task).heard = s.heard.preflight i task := by
  have hcancelled : s.heard.cancelled task = s.cancelled task := rfl
  unfold preflight
  rw [hcancelled]
  cases s.cancelled task with
  | true => rfl
  | false => rfl

theorem heard_analyze (fs : Fs) (r : Running M) : (s.analyze fs r).heard = s.heard.analyze fs r := by
  unfold analyze
  cases r.run.analyze fs with
  | error e => rfl
  | ok a => rfl

theorem heard_commit (r : Running M) (a : Analysis M) :
    (s.commit r a).heard = s.heard.commit r a := by
  have hpending : s.heard.pending = s.pending := rfl
  unfold commit
  rw [hpending]
  cases s.pending.isPending with
  | true => rfl
  | false => rfl

theorem heard_publish (fs : Fs) (r : Running M) : (s.publish fs r).heard = s.heard.publish fs r := by
  have hpending : s.heard.pending = s.pending := rfl
  have hdocuments : s.heard.documents = s.documents := rfl
  have hworkspace : s.heard.workspace = s.workspace := rfl
  unfold publish
  rw [hpending, hdocuments, hworkspace]
  cases s.pending.isPending with
  | true => rfl
  | false =>
    cases s.documents.matchesGeneration r.documents with
    | false => rfl
    | true =>
      cases s.workspace.project with
      | none => rfl
      | some project =>
        cases s.workspace.latest with
        | none => rfl
        | some a => rfl

theorem heard_reconcile (r : Running M) (root : Path) (scope : ReconcileScope) (a : Analysis M)
    (diagnostics : DiagnosticsByUrl) :
    (s.reconcile r root scope a diagnostics).heard =
      s.heard.reconcile r root scope a diagnostics := by
  have hpending : s.heard.pending = s.pending := rfl
  have hreconcile : s.heard.tracker.reconcileSuccess root (s.heard.publishEpoch r.task root) scope
      diagnostics = s.tracker.reconcileSuccess root (s.publishEpoch r.task root) scope
        diagnostics := rfl
  unfold reconcile
  rw [hpending, hreconcile]
  cases s.pending.isPending with
  | true => rfl
  | false =>
    cases s.tracker.reconcileSuccess root (s.publishEpoch r.task root) scope diagnostics with
    | none => rfl
    | some result => rfl

variable {s} {s' : Server M}

/-- A step where a handler takes the changes of a batch up. -/
theorem step_heard_didChangeWatchedFiles (hM : M.NamesFiles) {fs : Fs} {busy : Bool}
    {events : List (Url × FileChangeType)}
    (hok : (Action.didChangeWatchedFiles fs busy events : Action M).HasWatched)
    (hstep : s.step (.didChangeWatchedFiles fs busy events) = some s') :
    s.heard.step (.didChangeWatchedFiles fs busy (heardEvents M events)) = some s'.heard := by
  have hempty : ((watchedPathChanges M events).filter (·.isWatched)).isEmpty =
      (watchedPathChanges M events).isEmpty := by
    obtain hnil | ⟨change, hmem, hwatched⟩ := hok
    · rw [hnil]
      rfl
    · have hkept := List.mem_filter.mpr ⟨hmem, hwatched⟩
      rw [List.isEmpty_eq_false_iff.mpr (List.ne_nil_of_mem hkept),
        List.isEmpty_eq_false_iff.mpr (List.ne_nil_of_mem hmem)]
  simp only [step, watchedPathChanges_heard, hempty, heard_publishFree, heard_analysisLocked]
    at hstep ⊢
  generalize watchedPathChanges M events = changes at hstep ⊢
  cases hnone : changes.isEmpty with
  | true =>
    rw [hnone, if_pos rfl, Option.some.injEq] at hstep
    rw [if_pos rfl, hstep]
  | false =>
    rw [hnone, if_neg (by simp)] at hstep
    rw [if_neg (by simp)]
    split at hstep
    · next hfree =>
      rw [if_pos hfree, ← Option.some.inj hstep]
      congr 1
      unfold didChangeWatchedFiles
      cases busy with
      | true =>
        simp only [if_true, busyWatchedPreInvalidationBits_filter]
        rfl
      | false =>
        simp only [Bool.false_eq_true, if_false]
        rw [heard_watchFree]
        exact s.heard.watchFree_filter hM _ changes
    · cases hstep

theorem heard_running : s.heard.running = s.running := rfl

/-- Every step commutes with hearing of the watched changes alone. -/
theorem step_heard (hM : M.NamesFiles) {action : Action M} (hok : action.HasWatched)
    (hstep : s.step action = some s') : s.heard.step action.heard = some s'.heard := by
  cases action with
  | didChangeWatchedFiles fs busy events => exact step_heard_didChangeWatchedFiles hM hok hstep
  | didOpen url text version =>
    simp only [step, Option.ite_none_right_eq_some, Option.some.injEq] at hstep
    obtain ⟨hfree, rfl⟩ := hstep
    simp only [Action.heard, step, heard_publishFree, hfree, if_true, heard_didOpen]
  | didChange url text version =>
    simp only [step, Option.ite_none_right_eq_some, Option.some.injEq] at hstep
    obtain ⟨hfree, rfl⟩ := hstep
    simp only [Action.heard, step, heard_publishFree, hfree, if_true, heard_didChange]
  | didClose url =>
    simp only [step, Option.ite_none_right_eq_some, Option.some.injEq] at hstep
    obtain ⟨hfree, rfl⟩ := hstep
    simp only [Action.heard, step, heard_publishFree, hfree, if_true]
    rfl
  | handle fs busy =>
    simp only [step, Option.ite_none_right_eq_some, Option.map_eq_some_iff] at hstep
    obtain ⟨hbusy, handling, hhandling, rfl⟩ := hstep
    have hheard : s.heard.handling = some handling.heard := by simp [heard, hhandling]
    simp only [Action.heard, step, heard_analysisLocked, hbusy, if_true, hheard, Option.map_some,
      heard_handle]
  | preflight i =>
    obtain ⟨task, htask, rfl⟩ := Option.map_eq_some_iff.mp hstep
    exact Option.map_eq_some_iff.mpr ⟨task, htask, (heard_preflight s i task).symm⟩
  | capture i =>
    obtain ⟨task, htask, rfl⟩ := Option.map_eq_some_iff.mp hstep
    exact Option.map_eq_some_iff.mpr ⟨task, htask, rfl⟩
  | prepare w i =>
    simp only [step, Option.ite_none_right_eq_some, Option.map_eq_some_iff] at hstep
    obtain ⟨hidle, x, hx, rfl⟩ := hstep
    have hwaiting : s.heard.waiting = s.waiting := rfl
    simp only [Action.heard, step, heard_running, hidle, if_true, hwaiting, hx, Option.map_some,
      heard_prepare]
  | analyze fs =>
    obtain ⟨r, hr, hstep⟩ := Option.bind_eq_some_iff.mp hstep
    refine Option.bind_eq_some_iff.mpr ⟨r, hr, ?_⟩
    split at hstep
    · rw [← Option.some.inj hstep, heard_analyze]
    · cases hstep
  | commit =>
    obtain ⟨r, hr, hstep⟩ := Option.bind_eq_some_iff.mp hstep
    refine Option.bind_eq_some_iff.mpr ⟨r, hr, ?_⟩
    split at hstep
    · rw [← Option.some.inj hstep, heard_commit]
    · cases hstep
  | publish fs =>
    obtain ⟨r, hr, hstep⟩ := Option.bind_eq_some_iff.mp hstep
    refine Option.bind_eq_some_iff.mpr ⟨r, hr, ?_⟩
    split at hstep
    · rw [Option.ite_none_right_eq_some] at hstep
      rw [heard_publishFree, if_pos hstep.1, ← Option.some.inj hstep.2, heard_publish]
    · cases hstep
  | reconcile =>
    obtain ⟨r, hr, hstep⟩ := Option.bind_eq_some_iff.mp hstep
    refine Option.bind_eq_some_iff.mpr ⟨r, hr, ?_⟩
    split at hstep
    · rw [← Option.some.inj hstep, heard_reconcile]
    · cases hstep
  | bindingIndex =>
    simp only [step, Option.ite_none_left_eq_some, Option.some.injEq] at hstep
    obtain ⟨hlocked, rfl⟩ := hstep
    simp only [Action.heard, step, heard_analysisLocked, hlocked, Bool.false_eq_true, if_false]
    rfl
  | chooseReadSource file =>
    simp only [step, Option.ite_none_left_eq_some, Option.some.injEq] at hstep
    obtain ⟨hlocked, rfl⟩ := hstep
    simp only [Action.heard, step, heard_analysisLocked, hlocked, Bool.false_eq_true, if_false]
    rfl

/-! ## Batches without a watched change -/

section Unwatched

variable {changes : List WatchedPathChange} (hchanges : changes.filter (·.isWatched) = [])

include hchanges

theorem watchFree_unwatched (hM : M.NamesFiles) (versions : DocumentVersions) :
    s.watchFree versions changes =
      { s with
        pending := .none
        workspace := applyPendingWorkspaceInvalidation s.pending s.workspace } := by
  rw [← s.watchFree_filter hM, hchanges]
  unfold watchFree
  dsimp only
  rw [if_pos]
  unfold freeEvents watchedProjectChanges
  cases (applyPendingWorkspaceInvalidation s.pending s.workspace).project with
  | none => rfl
  | some project => simp [watchedTrackedDiagnosticChanges]

theorem finishWatch_unwatched (fs : Fs) (versions : DocumentVersions) :
    s.finishWatch fs versions changes = { s with handling := none } := by
  have hevents : busyWatchedProjectChanges fs s.tracker changes = [] := by
    rw [busyWatchedProjectChanges, ← watchedTrackedDiagnosticChanges_filter,
      ← watchedUntrackedProjectChanges_filter, hchanges]
    rfl
  have hpending : s.pending.or .none = s.pending := by
    simp [PendingInvalidation.or, PendingInvalidation.none]
  unfold finishWatch busyEffects
  rw [hevents]
  change ({ s with handling := none, pending := s.pending.or .none } : Server M) = _
  rw [hpending]

theorem didChangeWatchedFiles_unwatched (fs : Fs) :
    s.didChangeWatchedFiles fs true changes =
      { s with
        handling := some
          (.watch changes (openDocumentVersions (s.documents.analysisSnapshot M)) .none) } := by
  have hbits : busyWatchedPreInvalidationBits fs changes = .none := by
    rw [← busyWatchedPreInvalidationBits_filter, hchanges]
    rfl
  simp [didChangeWatchedFiles, hbits, PendingInvalidation.or, PendingInvalidation.none]

/-- A busy batch holds the publish lock for its steps, and changes nothing. -/
theorem run_unwatched {t : Server M} {fs fs₁ fs₂ : Fs} {busy₁ busy₂ : Bool}
    {events : List (Url × FileChangeType)} (hevents : watchedPathChanges M events = changes)
    (hne : changes ≠ [])
    (h : run step s [.didChangeWatchedFiles fs true events, .handle fs₁ busy₁, .handle fs₂ busy₂] =
      some t) : t = s := by
  simp only [run, Option.bind_eq_some_iff, Option.some.injEq] at h
  obtain ⟨taken, htaken, again, hagain, done, hdone, rfl⟩ := h
  simp only [step, hevents, List.isEmpty_iff, hne, if_false, Option.ite_none_right_eq_some,
    Option.some.injEq, Bool.and_eq_true] at htaken
  obtain ⟨⟨hfree, -⟩, rfl⟩ := htaken
  have hhandling : s.handling = none := by
    simp only [publishFree, Bool.and_eq_true, Option.isNone_iff_eq_none] at hfree
    exact hfree.1
  rw [s.didChangeWatchedFiles_unwatched hchanges] at hagain
  simp only [step, Option.ite_none_right_eq_some, Option.map_some, Option.some.injEq, handle]
    at hagain
  obtain ⟨-, rfl⟩ := hagain
  simp only [step, Option.ite_none_right_eq_some, Option.map_some, Option.some.injEq, handle]
    at hdone
  obtain ⟨-, rfl⟩ := hdone
  rw [finishWatch_unwatched hchanges]
  simp [PendingInvalidation.or, PendingInvalidation.none, ← hhandling]

end Unwatched

/-- The client's registration hides nothing from the server. A run whose batches each have
a watched change is, state by state, the run that hears of the watched changes alone; a
batch without one applies what is pending if it finds the workspace free, and otherwise
leaves everything as it was. -/
theorem hears_what_matters (hM : M.NamesFiles) :
    (∀ actions (s : Server M), (∀ action ∈ actions, action.HasWatched) →
      run step new actions = some s → run step new (actions.map Action.heard) = some s.heard) ∧
    ∀ (s t : Server M) fs events, ¬ (∃ change ∈ watchedPathChanges M events,
        change.isWatched = true) → watchedPathChanges M events ≠ [] →
      (s.step (.didChangeWatchedFiles fs false events) = some t →
        t = { s with
          pending := .none
          workspace := applyPendingWorkspaceInvalidation s.pending s.workspace }) ∧
      ∀ fs₁ fs₂ busy₁ busy₂, run step s [.didChangeWatchedFiles fs true events,
        .handle fs₁ busy₁, .handle fs₂ busy₂] = some t → t = s := by
  refine ⟨?_, ?_⟩
  · intro actions s hok hrun
    exact run_map (fun _ _ _ hok hstep => step_heard hM hok hstep) hok hrun
  · intro s t fs events hnone hne
    have hchanges : (watchedPathChanges M events).filter (·.isWatched) = [] := by
      rw [List.filter_eq_nil_iff]
      exact fun change hchange hwatched => hnone ⟨change, hchange, hwatched⟩
    refine ⟨fun hstep => ?_, fun fs₁ fs₂ busy₁ busy₂ hrun => s.run_unwatched hchanges rfl hne hrun⟩
    simp only [step, List.isEmpty_iff, hne, if_false, Option.ite_none_right_eq_some,
      Option.some.injEq] at hstep
    rw [← hstep.2, ← s.watchFree_unwatched hchanges hM]
    rfl

end Server

/-! ## A note beside a module -/

namespace Sample

theorem namesFiles : Marrow.sample.NamesFiles where
  nativeStorePath root config path h := by
    have h' : (if 'n' ∈ config.text then some (storeFile root) else none) = some path :=
      Except.ok.inj h
    rw [Option.ite_none_right_eq_some, Option.some.injEq] at h'
    rw [← h'.2]
    rfl
  testModuleFile root config path h := by
    have hpath := of_decide_eq_true (Bool.and_eq_true_iff.mp h).2
    simp only [testFiles, List.map_cons, List.map_nil, List.mem_singleton] at hpath
    rw [hpath]
    rfl
  analyzed inputs file hfile := by
    obtain ⟨⟨name, text⟩, hmem, hanalyzed⟩ := List.mem_filterMap.mp hfile
    have hname := (List.of_mem_zip hmem).1
    have hpath : file.path = inputs.root.join name := by
      cases text with
      | missing => cases hanalyzed
      | unreadable => cases hanalyzed
      | text source =>
        cases hanalyzed
        rfl
    simp only [sourceFiles, testFiles, List.cons_append, List.nil_append, List.mem_cons,
      List.not_mem_nil, or_false] at hname
    rw [hpath]
    obtain rfl | rfl | rfl := hname
    · rfl
    · rfl
    · rfl

/-- A change of a module and one of a file that the client does not watch. -/
def noteEvents : List (Url × FileChangeType) :=
  [(⟨"file:///A/src/app.mw"⟩, .CHANGED), (⟨"file:///A/notes.txt"⟩, .CHANGED)]

/-- A batch of these comes while the project is being analyzed, and another when all is done. -/
def notedTwice : List (Action Marrow.sample) :=
  [.didOpen (urlOf (app "A")) ['x'] 1, .handle twins.fs false, .preflight 0, .capture 0,
    .prepare twins 0, .didChangeWatchedFiles twins.fs true noteEvents, .handle twins.fs true,
    .handle twins.fs true, .analyze twins.fs, .commit,
    .didChangeWatchedFiles twins.fs false noteEvents]

end Sample

namespace Server

open Sample in
/-- The run of what the client tells of them is that run. -/
theorem hears_what_matters_note : ∃ s : Server Marrow.sample,
    run step new notedTwice = some s ∧ s.sleeping ≠ [] ∧
      run step new (notedTwice.map Action.heard) = some s.heard := by
  have hwatched : ∃ change ∈ watchedPathChanges Marrow.sample noteEvents,
      change.isWatched = true :=
    ⟨⟨⟨"file:///A/src/app.mw"⟩, app "A", .CHANGED⟩, by decide, by decide⟩
  have hok : ∀ action ∈ notedTwice, action.HasWatched := by
    intro action haction
    simp only [notedTwice, List.mem_cons, List.not_mem_nil, or_false] at haction
    rcases haction with rfl | rfl | rfl | rfl | rfl | rfl | rfl | rfl | rfl | rfl | rfl
    all_goals first | trivial | exact .inr hwatched
  have hrun : (run step (new : Server Marrow.sample) notedTwice).any (fun s =>
      !s.sleeping.isEmpty) = true := by
    decide
  obtain ⟨s, hs, hsleeping⟩ := (Option.any_eq_true _ _).mp hrun
  exact ⟨s, hs, by simpa using hsleeping, (hears_what_matters namesFiles).1 _ _ hok hs⟩

end Server

end MarrowLsp
