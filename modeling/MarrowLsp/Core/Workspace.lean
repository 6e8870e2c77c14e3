-- SUMMARY: The workspace: project resolution, the prepare/analyze/commit recompute, the retained analyses and their binding indexes (workspace.rs).
import MarrowLsp.Core.Documents
import MarrowLsp.Core.CatalogBinding

/-!
# Workspace

One `Workspace` holds one resolved project and one latest analysis. A recompute
is split in three: `prepareRecompute` under the lock, `PreparedRecompute.analyze`
off it, `commitRecompute` under it again, so other operations may run between
any two of them.
-/
namespace MarrowLsp

variable {M : Marrow}

/-- The name of a project's configuration file; its directory is the root. -/
def CONFIG_FILE : String := "marrow.json"
def COMMITTED_LOCK_FILE : String := "marrow.lock"
def NATIVE_STORE_FILE_NAME : String := "marrow.redb"

/-- A resolved project: its root directory and parsed configuration. -/
structure Project (M : Marrow) where
  root : Path
  config : M.Config

inductive WorkspaceError (M : Marrow) where
  | noProject
  | config (error : M.ConfigError)
  | analysisContext (error : M.IoError)
  | discover (error : M.DiscoverError)

/-- `Display` of a workspace error. -/
def WorkspaceError.message : WorkspaceError M → String
  | .noProject => "no marrow.json found for the file"
  | .config error => M.configMessage error
  | .analysisContext error => "analysis context: " ++ M.ioMessage error
  | .discover error => M.discoverMessage error

/-- Why a recompute was triggered. -/
inductive RecomputeScope where
  | interactive
  | full
  deriving DecidableEq, Repr

/-- The open buffers overlaid onto disk, by path. -/
abbrev ProjectSources := AList fun _ : Path => Text

namespace Project

def sourceModuleFile (project : Project M) (path : Path) : Bool :=
  decide (path.extension = some "mw") &&
    (M.sourceRoots project.config).any fun sourceRoot =>
      path.startsWith (project.root.join sourceRoot)

/-- Whether `path` can contribute a file to the project's analysis. -/
def analyzesFile (project : Project M) (path : Path) : Bool :=
  project.sourceModuleFile path || M.testModuleFile project.root project.config path

/-- The native store file, or `none` for a memory-backed or misconfigured store. -/
def storeFile (project : Project M) : Option Path :=
  match M.nativeStorePath project.root project.config with
  | .ok path => path
  | .error _ => none

end Project

/-! ## Resolving a project -/

/-- The nearest directory above `file` that holds a `marrow.json`. -/
def projectRootOf (fs : Fs) (file : Path) : Option Path :=
  file.ancestors.find? fun directory => fs.isFile (directory.child CONFIG_FILE)

/-- Find the nearest `marrow.json` above `file` and parse it. -/
def resolveProject (fs : Fs) (file : Path) : Except (WorkspaceError M) (Project M) :=
  match projectRootOf fs file with
  | none => .error .noProject
  | some root =>
    match fs.readToString (root.child CONFIG_FILE) with
    | .error message => .error (.config (M.configUnreadable message))
    | .ok text =>
      match M.parseConfig text with
      | .error e => .error (.config e)
      | .ok config => .ok ⟨root, config⟩

theorem startsWith_of_projectRootOf {fs : Fs} {file root : Path}
    (h : projectRootOf fs file = some root) : file.startsWith root = true :=
  Path.startsWith_of_mem_ancestors (List.mem_of_find?_eq_some h)

theorem projectRootOf_of_resolveProject {fs : Fs} {file : Path} {project : Project M}
    (h : resolveProject fs file = .ok project) : projectRootOf fs file = some project.root := by
  unfold resolveProject at h
  cases hroot : projectRootOf fs file with
  | none => simp [hroot] at h
  | some root =>
    simp only [hroot] at h
    split at h
    · cases h
    · split at h
      · cases h
      · cases h
        rfl

/-- Every open buffer whose file lives under `root`. -/
def overlaySnapshot (root : Path) (documents : DocumentAnalysisSnapshot) : ProjectSources :=
  documents.openDocuments.foldl
    (fun sources document =>
      if document.path.startsWith root then sources.insert document.path document.text
      else sources) ∅

def anyOpenTestModule (project : Project M) (documents : DocumentAnalysisSnapshot) : Bool :=
  documents.openDocuments.any fun document =>
    M.testModuleFile project.root project.config document.path

/-! ## Analysis -/

/-- Owned inputs for one project analysis, severed from the workspace. -/
structure PreparedRecompute (M : Marrow) where
  root : Path
  config : M.Config
  sources : ProjectSources
  accepted : Option M.Catalog
  lock : Option M.Lock
  documentsGeneration : Nat
  invalidationEpoch : Nat
  sourceOnly : Bool

/-- One completed run of the checker: the prepared run and the texts it read. The
code keeps the snapshot alone, which is a function of these; keeping the run as
well makes what a snapshot was analyzed from a fact of the state. The operations
below read `snapshot` only. -/
structure Analysis (M : Marrow) where
  prepared : PreparedRecompute M
  texts : Path → SourceText

/-- The modules and test modules of a project. -/
def discovered (fs : Fs) (root : Path) (config : M.Config) : Option (List Path) :=
  match M.discoverModules fs root config, M.discoverTestModules fs root config with
  | .ok modules, .ok tests => some (modules ++ tests)
  | _, _ => none

/-- The text the analyzer sees at a path: the overlay's, else the disk's for a
file it discovers. -/
def sourceTexts (fs : Fs) (discovered : List Path) (sources : ProjectSources) :
    Path → SourceText := fun path =>
  match sources.lookup path with
  | some text => .text text
  | none =>
    if path ∈ discovered then
      match fs.readToString path with
      | .ok text => .text text
      | .error _ => .unreadable
    else .missing

namespace PreparedRecompute

/-- The config the checker runs with: a source-only run drops the test roots. -/
def analyzedConfig (p : PreparedRecompute M) : M.Config :=
  if p.sourceOnly then M.clearTests p.config else p.config

/-- Run the project checker over the modules it discovers, read under the overlay. -/
def analyze (p : PreparedRecompute M) (fs : Fs) : Except M.DiscoverError (Analysis M) :=
  match M.discoverModules fs p.root p.analyzedConfig,
      M.discoverTestModules fs p.root p.analyzedConfig with
  | .ok modules, .ok tests =>
    .ok ⟨p, sourceTexts fs (modules ++ tests) p.sources⟩
  | .error e, _ => .error e
  | .ok _, .error e => .error e

end PreparedRecompute

namespace Analysis

/-- Everything the checker was given for this analysis. -/
def inputs (a : Analysis M) : M.Inputs :=
  ⟨a.prepared.root, a.prepared.analyzedConfig, a.texts, a.prepared.accepted, a.prepared.lock⟩

/-- What the checker returned. -/
def snapshot (a : Analysis M) : M.Snapshot := M.check a.inputs

/-- `snapshot_is_good`: every module kept, and at least one of them. -/
def isGood (a : Analysis M) : Bool :=
  !M.modulesIsEmpty a.snapshot.program && !a.snapshot.files.any (·.hasErrors)

/-- `snapshot_contains_file`. -/
def containsFile (a : Analysis M) (file : Path) : Bool :=
  a.snapshot.files.any fun analyzed => decide (analyzed.path = file)

end Analysis

theorem PreparedRecompute.prepared_of_analyze {p : PreparedRecompute M} {fs : Fs} {a : Analysis M}
    (h : p.analyze fs = .ok a) : a.prepared = p := by
  unfold PreparedRecompute.analyze at h
  split at h
  · cases h
    rfl
  · cases h
  · cases h

theorem PreparedRecompute.analyze_of_discovered {p : PreparedRecompute M} {fs : Fs}
    {paths : List Path} (h : discovered fs p.root p.analyzedConfig = some paths) :
    p.analyze fs = .ok ⟨p, sourceTexts fs paths p.sources⟩ := by
  unfold discovered at h
  unfold PreparedRecompute.analyze
  cases hm : M.discoverModules fs p.root p.analyzedConfig with
  | error e => simp [hm] at h
  | ok modules =>
    cases ht : M.discoverTestModules fs p.root p.analyzedConfig with
    | error e => simp [hm, ht] at h
    | ok tests =>
      simp only [hm, ht, Option.some.injEq] at h
      simp only [h]

theorem PreparedRecompute.analyze_error_iff (p : PreparedRecompute M) (fs : Fs) :
    (∃ e, p.analyze fs = .error e) ↔ discovered fs p.root p.analyzedConfig = none := by
  unfold PreparedRecompute.analyze discovered
  cases M.discoverModules fs p.root p.analyzedConfig <;>
    cases M.discoverTestModules fs p.root p.analyzedConfig <;> simp

/-! ## The workspace -/

/-- The identity a cached binding index is kept under. -/
structure BindingIndexKey (M : Marrow) where
  root : Path
  generation : M.Generation
  deriving DecidableEq

def BindingIndexKey.new (project : Project M) (a : Analysis M) : BindingIndexKey M :=
  ⟨project.root, a.snapshot.generation⟩

/-- A retained parse-clean analysis and its binding index. -/
structure LastGoodAnalysis (M : Marrow) where
  analysis : Analysis M
  index : M.Index

inductive ReadSource where
  | latest
  | lastGood
  deriving DecidableEq, Repr

/-- The project resolved for the buffers in play and its latest analysis.
`lastProgram` is the analysis whose program the source keeps. -/
structure Workspace (M : Marrow) where
  project : Option (Project M)
  latest : Option (Analysis M)
  lastProgram : Option (Analysis M)
  lastGood : Option (LastGoodAnalysis M)
  bindingIndex : Option M.Index
  bindingIndexKey : Option (BindingIndexKey M)
  latestDocumentsGeneration : Option Nat
  catalogBinding : CatalogBindingCache M
  invalidationEpoch : Nat

namespace Workspace

def new : Workspace M where
  project := none
  latest := none
  lastProgram := none
  lastGood := none
  bindingIndex := none
  bindingIndexKey := none
  latestDocumentsGeneration := none
  catalogBinding := CatalogBindingCache.new
  invalidationEpoch := 0

/-- The latest non-empty program, falling back to the previous non-empty one. -/
def program (ws : Workspace M) : Option (Analysis M) :=
  match ws.latest with
  | some a => if !M.modulesIsEmpty a.snapshot.program then some a else ws.lastProgram
  | none => ws.lastProgram

/-- `binding_index`: the latest snapshot's index, built on first access. Nothing
is built without a project. -/
def withBindingIndex (ws : Workspace M) : Workspace M :=
  match ws.bindingIndex, ws.latest, ws.project with
  | none, some a, some project =>
    { ws with
      bindingIndexKey := some (.new project a)
      bindingIndex := some (M.buildBindingIndex a.snapshot) }
  | _, _, _ => ws

/-- Whether the latest snapshot still matches a captured editor-visible source world. -/
def latestMatchesSnapshot (ws : Workspace M) (documents : DocumentAnalysisSnapshot) : Bool :=
  ws.latest.isSome && decide (ws.latestDocumentsGeneration = some documents.generation)

def freshLatestFromSnapshot (ws : Workspace M) (documents : DocumentAnalysisSnapshot) :
    Option (Analysis M) :=
  if ws.latestMatchesSnapshot documents then ws.latest else none

def freshProgramFromSnapshot (ws : Workspace M) (documents : DocumentAnalysisSnapshot) :
    Option (Analysis M) :=
  (ws.freshLatestFromSnapshot documents).filter fun a => !M.modulesIsEmpty a.snapshot.program

/-- The latest snapshot's program, even when empty, when the snapshot is fresh. -/
def freshProgramOrEmptyFromSnapshot (ws : Workspace M) (documents : DocumentAnalysisSnapshot) :
    Option (Analysis M) :=
  ws.freshLatestFromSnapshot documents

/-- Whether the cached project already owns `file`. -/
def covers (ws : Workspace M) (file : Path) : Bool :=
  ws.project.any fun project => file.startsWith project.root

/-- The project and catalog cache a recompute of `file` runs with: the cached
ones while `file` lives under the cached root, else a fresh resolution. -/
def resolveFor (ws : Workspace M) (fs : Fs) (file : Path) :
    Except (WorkspaceError M) (Project M × CatalogBindingCache M) :=
  match ws.project with
  | some project =>
    if file.startsWith project.root then .ok (project, ws.catalogBinding)
    else (resolveProject fs file).map fun resolved => (resolved, CatalogBindingCache.new)
  | none => (resolveProject fs file).map fun resolved => (resolved, CatalogBindingCache.new)

/-- What `prepare_recompute` returns, leaves behind, and opens on the way. -/
structure Prepare (M : Marrow) where
  result : Except (WorkspaceError M) (PreparedRecompute M)
  workspace : Workspace M
  opens : List Path

/-- `Workspace::prepare_recompute`. The project and the catalog cache are
replaced before the bind, which may still fail. -/
def prepareRecompute (ws : Workspace M) (w : World M) (file : Path)
    (documents : DocumentAnalysisSnapshot) (scope : RecomputeScope) : Prepare M :=
  match ws.resolveFor w.fs file with
  | .error e => ⟨.error e, ws, []⟩
  | .ok (project, cache) =>
    let sourceOnly :=
      decide (scope = .interactive) && !anyOpenTestModule project documents
    let sources := overlaySnapshot project.root documents
    let bind := cache.bind w project.root project.config
    let ws := { ws with project := some project, catalogBinding := bind.cache }
    match bind.result with
    | .error e => ⟨.error (.analysisContext e), ws, bind.opens⟩
    | .ok binding =>
      ⟨.ok
        { root := project.root
          config := project.config
          sources
          accepted := binding.accepted
          lock := binding.lock
          documentsGeneration := documents.generation
          invalidationEpoch := ws.invalidationEpoch
          sourceOnly },
        ws, bind.opens⟩

/-- Keep an outgoing good analysis, with the index held for it or one built now. -/
def retain (ws : Workspace M) (previous : Analysis M) : Workspace M :=
  { ws with
    latest := none
    bindingIndex := none
    lastGood := some ⟨previous, ws.bindingIndex.getD (M.buildBindingIndex previous.snapshot)⟩ }

/-- Whether a commit would be installed: no invalidation since its run was
prepared, a project, and no newer generation installed. -/
def admits (ws : Workspace M) (documentsGeneration capturedEpoch : Nat) : Bool :=
  decide (ws.invalidationEpoch = capturedEpoch) && ws.project.isSome &&
    !ws.latestDocumentsGeneration.any (documentsGeneration < ·)

/-- What becomes of the outgoing analysis when `a` replaces it. -/
def replaceLatest (ws : Workspace M) (a : Analysis M) : Workspace M :=
  if a.isGood then { ws with lastGood := none }
  else
    match ws.latest with
    | some previous => if previous.isGood then ws.retain previous else { ws with latest := none }
    | none => ws

/-- Store an admitted snapshot as the latest. The cached index survives only
under an equal key. -/
def install (ws : Workspace M) (project : Project M) (documentsGeneration : Nat)
    (a : Analysis M) : Workspace M :=
  let key := BindingIndexKey.new project a
  let ws := if !M.modulesIsEmpty a.snapshot.program then { ws with lastProgram := some a } else ws
  let ws := ws.replaceLatest a
  let keepBindingIndex := decide (ws.bindingIndexKey = some key)
  { ws with
    latest := some a
    bindingIndex := if keepBindingIndex then ws.bindingIndex else none
    bindingIndexKey := if keepBindingIndex then ws.bindingIndexKey else none
    latestDocumentsGeneration := some documentsGeneration }

/-- `Workspace::commit_recompute`: whether the snapshot was installed, and the
workspace after. -/
def commitRecompute (ws : Workspace M) (documentsGeneration capturedEpoch : Nat)
    (a : Analysis M) : Bool × Workspace M :=
  if ws.invalidationEpoch ≠ capturedEpoch then (false, ws)
  else
    match ws.project with
    | none => (false, ws)
    | some project =>
      if ws.latestDocumentsGeneration.any (documentsGeneration < ·) then (false, ws)
      else (true, ws.install project documentsGeneration a)

/-- Pick the analysis a hover or navigation read answers from, building the
index of the latest when it is chosen. -/
def chooseReadSource (ws : Workspace M) (file : Path) : Option ReadSource × Workspace M :=
  if ws.latest.any fun a => a.isGood && a.containsFile file then
    (some .latest, ws.withBindingIndex)
  else if ws.lastGood.any fun good => good.analysis.containsFile file then (some .lastGood, ws)
  else (none, ws)

/-- `read_facts`: the snapshot and index of a chosen source, `none` where the
source would panic. -/
def readFacts (ws : Workspace M) : ReadSource → Option (Analysis M × M.Index)
  | .latest =>
    match ws.latest, ws.bindingIndex with
    | some a, some index => some (a, index)
    | _, _ => none
  | .lastGood => ws.lastGood.map fun good => (good.analysis, good.index)

def clearLatest (ws : Workspace M) : Workspace M :=
  { ws with
    latest := none
    lastProgram := none
    bindingIndex := none
    bindingIndexKey := none
    latestDocumentsGeneration := none }

/-- Move a currently good latest analysis into the last-good slot. -/
def demoteLatestToLastGood (ws : Workspace M) : Workspace M :=
  match ws.latest with
  | some a => if a.isGood then ws.retain a else ws
  | none => ws

def invalidateAnalysis (ws : Workspace M) : Workspace M :=
  ({ ws with invalidationEpoch := ws.invalidationEpoch + 1 }).demoteLatestToLastGood.clearLatest

def invalidateProject (ws : Workspace M) : Workspace M :=
  ({ ws with
      invalidationEpoch := ws.invalidationEpoch + 1
      project := none
      lastGood := none }).clearLatest

/-- What `recompute_from_snapshot` returns, leaves behind, and opens on the way.
The result is whatever is installed afterwards, `none` where the source would
panic. -/
structure Recompute (M : Marrow) where
  result : Except (WorkspaceError M) (Option (Analysis M))
  workspace : Workspace M
  opens : List Path

/-- `recompute_from_snapshot`: prepare, analyze and commit in one call. -/
def recomputeFromSnapshot (ws : Workspace M) (w : World M) (file : Path)
    (documents : DocumentAnalysisSnapshot) : Recompute M :=
  let prepare := ws.prepareRecompute w file documents .full
  match prepare.result with
  | .error e => ⟨.error e, prepare.workspace, prepare.opens⟩
  | .ok prepared =>
    match prepared.analyze w.fs with
    | .error e => ⟨.error (.discover e), prepare.workspace, prepare.opens⟩
    | .ok a =>
      let ws := (prepare.workspace.commitRecompute prepared.documentsGeneration
        prepared.invalidationEpoch a).2
      ⟨.ok ws.latest, ws, prepare.opens⟩

/-! ## What the operations do -/

/-- A recompute of a file the cached project owns runs with that project. -/
theorem resolveFor_of_covers {ws : Workspace M} (fs : Fs) {file : Path}
    (h : ws.covers file = true) :
    ∃ project, ws.project = some project ∧ file.startsWith project.root = true ∧
      ws.resolveFor fs file = .ok (project, ws.catalogBinding) := by
  unfold covers at h
  cases hp : ws.project with
  | none => simp [hp] at h
  | some project =>
    have hfile : file.startsWith project.root = true := by simpa [hp] using h
    exact ⟨project, rfl, hfile, by simp [resolveFor, hp, hfile]⟩

/-- Any other file is resolved from scratch, with an empty catalog cache. -/
theorem resolveFor_of_not_covers {ws : Workspace M} (fs : Fs) {file : Path}
    (h : ws.covers file = false) :
    ws.resolveFor fs file =
      (resolveProject fs file).map fun resolved => (resolved, CatalogBindingCache.new) := by
  unfold covers at h
  cases hp : ws.project with
  | none => simp [resolveFor, hp]
  | some project =>
    have hfile : file.startsWith project.root = false := by simpa [hp] using h
    simp [resolveFor, hp, hfile]

/-- The file of a recompute lies under the root it runs with. -/
theorem startsWith_of_resolveFor {ws : Workspace M} {fs : Fs} {file : Path} {project : Project M}
    {cache : CatalogBindingCache M} (h : ws.resolveFor fs file = .ok (project, cache)) :
    file.startsWith project.root = true := by
  cases hcov : ws.covers file with
  | true =>
    obtain ⟨p, -, hfile, hres⟩ := resolveFor_of_covers fs hcov
    rw [hres] at h
    cases h
    exact hfile
  | false =>
    rw [resolveFor_of_not_covers fs hcov] at h
    cases hr : resolveProject (M := M) fs file with
    | error e => simp [hr, Except.map] at h
    | ok p =>
      simp only [hr, Except.map, Except.ok.injEq, Prod.mk.injEq] at h
      obtain ⟨rfl, -⟩ := h
      exact startsWith_of_projectRootOf (projectRootOf_of_resolveProject hr)

/-- What a prepare can do: fail to resolve and change nothing, or take the
project it resolved, whether or not the bind then succeeds. -/
theorem prepareRecompute_cases (ws : Workspace M) (w : World M) (file : Path)
    (documents : DocumentAnalysisSnapshot) (scope : RecomputeScope) :
    (∃ e, ws.resolveFor w.fs file = .error e ∧
      ws.prepareRecompute w file documents scope = ⟨.error e, ws, []⟩) ∨
    ∃ project cache, ws.resolveFor w.fs file = .ok (project, cache) ∧
      (ws.prepareRecompute w file documents scope).workspace =
        { ws with
          project := some project
          catalogBinding := (cache.bind w project.root project.config).cache } ∧
      (ws.prepareRecompute w file documents scope).opens =
        (cache.bind w project.root project.config).opens ∧
      (ws.prepareRecompute w file documents scope).result =
        match (cache.bind w project.root project.config).result with
        | .error e => .error (.analysisContext e)
        | .ok binding => .ok
          { root := project.root
            config := project.config
            sources := overlaySnapshot project.root documents
            accepted := binding.accepted
            lock := binding.lock
            documentsGeneration := documents.generation
            invalidationEpoch := ws.invalidationEpoch
            sourceOnly :=
              decide (scope = .interactive) && !anyOpenTestModule project documents } := by
  unfold prepareRecompute
  cases hres : ws.resolveFor w.fs file with
  | error e => exact .inl ⟨e, rfl, rfl⟩
  | ok resolved =>
    obtain ⟨project, cache⟩ := resolved
    refine .inr ⟨project, cache, rfl, ?_, ?_, ?_⟩ <;>
      cases hbind : (cache.bind w project.root project.config).result <;> simp [hbind]

/-- A successful prepare carries the project it left in the workspace. -/
theorem project_of_prepareRecompute {ws : Workspace M} {w : World M} {file : Path}
    {documents : DocumentAnalysisSnapshot} {scope : RecomputeScope} {p : PreparedRecompute M}
    (h : (ws.prepareRecompute w file documents scope).result = .ok p) :
    ∃ project cache binding, ws.resolveFor w.fs file = .ok (project, cache) ∧
      (cache.bind w project.root project.config).result = .ok binding ∧
      (ws.prepareRecompute w file documents scope).workspace.project = some project ∧
      p =
        { root := project.root
          config := project.config
          sources := overlaySnapshot project.root documents
          accepted := binding.accepted
          lock := binding.lock
          documentsGeneration := documents.generation
          invalidationEpoch := ws.invalidationEpoch
          sourceOnly :=
            decide (scope = .interactive) && !anyOpenTestModule project documents } := by
  rcases ws.prepareRecompute_cases w file documents scope with
    ⟨e, -, heq⟩ | ⟨project, cache, hres, hws, -, hresult⟩
  · rw [heq] at h
    cases h
  · rw [hresult] at h
    cases hbind : (cache.bind w project.root project.config).result with
    | error e => simp [hbind] at h
    | ok binding =>
      simp only [hbind, Except.ok.injEq] at h
      exact ⟨project, cache, binding, hres, hbind, by rw [hws], h.symm⟩

/-- A prepare changes the project and the catalog cache only. -/
theorem prepareRecompute_frame (ws : Workspace M) (w : World M) (file : Path)
    (documents : DocumentAnalysisSnapshot) (scope : RecomputeScope) :
    ∃ project catalogBinding, (ws.prepareRecompute w file documents scope).workspace =
      { ws with project, catalogBinding } := by
  rcases ws.prepareRecompute_cases w file documents scope with
    ⟨e, -, heq⟩ | ⟨project, cache, -, hws, -, -⟩
  · exact ⟨ws.project, ws.catalogBinding, by rw [heq]⟩
  · exact ⟨some project, _, hws⟩

/-- The ways a commit replaces the outgoing analysis: it empties the last-good
slot, moves the outgoing analysis there, or only drops it. -/
theorem replaceLatest_cases (ws : Workspace M) (a : Analysis M) :
    ws.replaceLatest a = { ws with lastGood := none } ∨
    (∃ previous, ws.latest = some previous ∧ ws.replaceLatest a = ws.retain previous) ∨
    ws.replaceLatest a = { ws with latest := none } := by
  unfold replaceLatest
  split
  · exact .inl rfl
  · cases hlatest : ws.latest with
    | none => exact .inr (.inr (by simp [← hlatest]))
    | some previous =>
      by_cases hgood : previous.isGood = true
      · exact .inr (.inl ⟨previous, rfl, by simp [hgood]⟩)
      · exact .inr (.inr (by simp [hgood]))

/-- An install, field by field: what is left of the outgoing analysis, the new
one, and the index if its key is unchanged. -/
theorem install_cases (ws : Workspace M) (project : Project M) (generation : Nat)
    (a : Analysis M) :
    ∃ lastProgram bindingIndex lastGood,
      ws.install project generation a =
        { ws with
          latest := some a
          lastProgram
          lastGood
          bindingIndex := if ws.bindingIndexKey = some (.new project a) then bindingIndex else none
          bindingIndexKey :=
            if ws.bindingIndexKey = some (.new project a) then ws.bindingIndexKey else none
          latestDocumentsGeneration := some generation } ∧
      (bindingIndex = none ∨ bindingIndex = ws.bindingIndex) ∧
      (lastGood = none ∨ lastGood = ws.lastGood ∨ ∃ previous, ws.latest = some previous ∧
        lastGood =
          some ⟨previous, ws.bindingIndex.getD (M.buildBindingIndex previous.snapshot)⟩) := by
  obtain ⟨lastProgram, hlast⟩ : ∃ lastProgram,
      (if !M.modulesIsEmpty a.snapshot.program then { ws with lastProgram := some a } else ws) =
        { ws with lastProgram } := by
    split
    · exact ⟨_, rfl⟩
    · exact ⟨_, rfl⟩
  simp only [install, hlast, decide_eq_true_eq]
  rcases replaceLatest_cases { ws with lastProgram } a with heq | ⟨previous, hlatest, heq⟩ | heq
  · exact ⟨lastProgram, ws.bindingIndex, none, by rw [heq], .inr rfl, .inl rfl⟩
  · exact ⟨lastProgram, none, _, by rw [heq]; rfl, .inl rfl, .inr (.inr ⟨previous, hlatest, rfl⟩)⟩
  · exact ⟨lastProgram, ws.bindingIndex, ws.lastGood, by rw [heq], .inr rfl, .inr (.inl rfl)⟩

section Install

variable (ws : Workspace M) (project : Project M) (generation : Nat) (a : Analysis M)

@[simp] theorem install_latest : (ws.install project generation a).latest = some a := rfl

@[simp] theorem install_latestDocumentsGeneration :
    (ws.install project generation a).latestDocumentsGeneration = some generation := rfl

@[simp] theorem install_project : (ws.install project generation a).project = ws.project := by
  obtain ⟨_, _, _, h, -, -⟩ := ws.install_cases project generation a
  rw [h]

@[simp] theorem install_invalidationEpoch :
    (ws.install project generation a).invalidationEpoch = ws.invalidationEpoch := by
  obtain ⟨_, _, _, h, -, -⟩ := ws.install_cases project generation a
  rw [h]

end Install

/-- What a commit can do: nothing, or install the snapshot it was given. -/
theorem commitRecompute_cases (ws : Workspace M) (generation epoch : Nat) (a : Analysis M) :
    (ws.admits generation epoch = false ∧
      ws.commitRecompute generation epoch a = (false, ws)) ∨
    ∃ project, ws.admits generation epoch = true ∧ ws.project = some project ∧
      ws.commitRecompute generation epoch a = (true, ws.install project generation a) := by
  unfold admits commitRecompute
  by_cases hepoch : ws.invalidationEpoch = epoch
  · cases hp : ws.project with
    | none => exact .inl (by simp [hepoch])
    | some project =>
      cases hgen : ws.latestDocumentsGeneration.any (generation < ·) with
      | true => exact .inl (by simp [hepoch])
      | false => exact .inr ⟨project, by simp [hepoch]⟩
  · exact .inl (by simp [hepoch])

theorem admits_iff {ws : Workspace M} {generation epoch : Nat} :
    ws.admits generation epoch = true ↔
      ws.invalidationEpoch = epoch ∧ (∃ project, ws.project = some project) ∧
        ∀ installed, ws.latestDocumentsGeneration = some installed → installed ≤ generation := by
  unfold admits
  cases ws.project <;> cases ws.latestDocumentsGeneration <;> simp

@[simp] theorem invalidateProject_latest (ws : Workspace M) :
    ws.invalidateProject.latest = none := rfl

@[simp] theorem invalidateAnalysis_latest (ws : Workspace M) :
    ws.invalidateAnalysis.latest = none := rfl

@[simp] theorem invalidateProject_invalidationEpoch (ws : Workspace M) :
    ws.invalidateProject.invalidationEpoch = ws.invalidationEpoch + 1 := rfl

@[simp] theorem invalidateAnalysis_invalidationEpoch (ws : Workspace M) :
    ws.invalidateAnalysis.invalidationEpoch = ws.invalidationEpoch + 1 := by
  unfold invalidateAnalysis clearLatest demoteLatestToLastGood retain
  split
  · split <;> rfl
  · rfl

@[simp] theorem invalidateAnalysis_project (ws : Workspace M) :
    ws.invalidateAnalysis.project = ws.project := by
  unfold invalidateAnalysis clearLatest demoteLatestToLastGood retain
  split
  · split <;> rfl
  · rfl

/-- Building the index touches the index and its key only. -/
theorem withBindingIndex_cases (ws : Workspace M) :
    ws.withBindingIndex = ws ∨
    ∃ a project, ws.bindingIndex = none ∧ ws.latest = some a ∧ ws.project = some project ∧
      ws.withBindingIndex =
        { ws with
          bindingIndexKey := some (.new project a)
          bindingIndex := some (M.buildBindingIndex a.snapshot) } := by
  unfold withBindingIndex
  split
  · next a project hi hl hp => exact .inr ⟨a, project, hi, hl, hp, rfl⟩
  · exact .inl rfl

/-- What a read can be answered from: the latest, whose index it then builds,
the last-good analysis, or nothing. -/
theorem chooseReadSource_cases (ws : Workspace M) (file : Path) :
    (∃ a, ws.latest = some a ∧ a.isGood = true ∧ a.containsFile file = true ∧
      ws.chooseReadSource file = (some .latest, ws.withBindingIndex)) ∨
    (∃ good, ws.lastGood = some good ∧ good.analysis.containsFile file = true ∧
      ws.chooseReadSource file = (some .lastGood, ws)) ∨
    ws.chooseReadSource file = (none, ws) := by
  unfold chooseReadSource
  split
  · next h =>
    obtain ⟨a, ha, h⟩ := (Option.any_eq_true _ _).mp h
    rw [Bool.and_eq_true] at h
    exact .inl ⟨a, ha, h.1, h.2, rfl⟩
  · split
    · next h =>
      obtain ⟨good, hgood, h⟩ := (Option.any_eq_true _ _).mp h
      exact .inr (.inl ⟨good, hgood, h, rfl⟩)
    · exact .inr (.inr rfl)

theorem chooseReadSource_workspace (ws : Workspace M) (file : Path) :
    (ws.chooseReadSource file).2 = ws ∨ (ws.chooseReadSource file).2 = ws.withBindingIndex := by
  rcases ws.chooseReadSource_cases file with ⟨_, _, _, _, h⟩ | ⟨_, _, _, h⟩ | h
  · exact .inr (by rw [h])
  · exact .inl (by rw [h])
  · exact .inl (by rw [h])

end Workspace

end MarrowLsp
