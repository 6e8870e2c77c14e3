-- SUMMARY: When a fresh hit of the cached project answers with what a cold load would analyze.
import Mathlib.Data.List.Dedup
import MarrowLsp.Mcp.Calls

/-!
# Cache freshness

A load that finds the cached project fresh answers with the installed snapshot.
The fingerprints it compares cover the discovered sources and the committed lock,
and stand for the analyzer's inputs only while nothing else has changed.
-/
namespace MarrowLsp

open Transition

variable {M : Marrow}

namespace Call

/-- `with_loaded_project` on the cached project. -/
def load (allowedRoot : Option Path) (c : CachedProject M) (call : Call M) :
    Option (CachedProject M) :=
  some (c.withLoadedProject allowedRoot call.world call.file call.source).cache

end Call

/-- `read_committed_lock` is a function of the bytes of the lock file: where there is no file
there is no lock, and bytes that cannot be read give none either. -/
structure Marrow.ReadsLockFile (M : Marrow) : Prop where
  absent : ∀ fs root, fs.pathExists (root.child COMMITTED_LOCK_FILE) = false →
    fs.readBytes (root.child COMMITTED_LOCK_FILE) = none → M.readCommittedLock fs root = .ok none
  unreadable : ∀ fs root lock, fs.readBytes (root.child COMMITTED_LOCK_FILE) = none →
    M.readCommittedLock fs root = .ok lock → lock = none
  bytes : ∀ fs fs' root bytes, fs.readBytes (root.child COMMITTED_LOCK_FILE) = some bytes →
    fs'.readBytes (root.child COMMITTED_LOCK_FILE) = some bytes →
    M.readCommittedLock fs root = M.readCommittedLock fs' root

/-- The text a fingerprint records for a path. -/
def recordedText (recorded : List (Path × Text)) (path : Path) : SourceText :=
  match recorded.find? fun entry => decide (entry.1 = path) with
  | some entry => .text entry.2
  | none => .missing

/-- The overlay is of a discovered file, and every other discovered file can be read. -/
def legible (fs : Fs) (project : Project M) (overlay : Option (Path × Text)) : Bool :=
  (discovered fs project.root project.config).any fun paths =>
    (overlay.all fun o => decide (o.1 ∈ paths)) &&
      paths.all fun path => (overlay.any fun o => decide (o.1 = path)) || (fs.readToString path).isOk

theorem find?_map_pair (f : Path → Text) (paths : List Path) (path : Path) :
    (paths.map fun p => (p, f p)).find? (fun entry => decide (entry.1 = path)) =
      if path ∈ paths then some (path, f path) else none := by
  induction paths with
  | nil => rfl
  | cons p rest ih =>
    rw [List.map_cons, List.find?_cons]
    by_cases hp : p = path
    · simp [hp]
    · simp [hp, ih, Ne.symm hp]

namespace CachedProject

/-- A fresh hit answers with the analysis of what a cold load would analyze. -/
def FreshIsCold (c : CachedProject M) (call : Call M) : Prop :=
  c.isFreshFor call.world.fs call.file call.overlay = true →
    ∃ a cold, c.workspace.latest = some a ∧ (Workspace.new : Workspace M).answer call = some cold ∧
      a.inputs = cold.inputs

/-- The recorded fingerprints are those of the texts the installed snapshot was analyzed
from, under the cached project, and of the lock file its lock was read from. -/
def Recorded (c : CachedProject M) : Prop :=
  ∀ recorded, c.sourceFingerprint = some recorded → ∃ project a fs,
    c.workspace.project = some project ∧ c.workspace.latest = some a ∧
      a.prepared.root = project.root ∧ a.prepared.config = project.config ∧
      a.prepared.sourceOnly = false ∧ a.texts = recordedText recorded ∧
      c.catalogFingerprint = MarrowLsp.catalogFingerprint fs project ∧
      lockForAdoption fs project.root a.prepared.accepted = .ok a.prepared.lock

/-- The condition on a fresh hit: the file has a URL if it is overlaid, the cached project
is what the file resolves to, its sources are legible, and the store has the accepted
catalog of the installed snapshot; without one, a lock file that is there can be read. -/
structure HitFaithful (c : CachedProject M) (call : Call M) (project : Project M) : Prop where
  url : call.documents.isSome
  resolved : resolveProject call.world.fs call.file = .ok project
  readable : legible call.world.fs project call.overlay = true
  accepted : ∀ a, c.workspace.latest = some a →
    storeCatalog call.world project.root project.config = .ok a.prepared.accepted
  lockFile : ∀ a, c.workspace.latest = some a → a.prepared.accepted = none →
    call.world.fs.pathExists (project.root.child COMMITTED_LOCK_FILE) = true →
      (call.world.fs.readBytes (project.root.child COMMITTED_LOCK_FILE)).isSome

/-- The condition on a recompute with a project: one that succeeds is not
superseded by the installed generation and its sources are legible; one that
fails keeps the cached project, or nothing is recorded yet. -/
def RecomputeFaithful (c : CachedProject M) (call : Call M) (project : Project M)
    (cache : CatalogBindingCache M) : Prop :=
  if (cache.bind call.world project.root project.config).result.isOk &&
      (discovered call.world.fs project.root project.config).isSome then
    legible call.world.fs project call.overlay = true ∧
      ∀ g, c.workspace.latestDocumentsGeneration = some g → g ≤ call.generation
  else c.workspace.covers call.file = true ∨ c.sourceFingerprint = none

/-- The condition on a load. -/
def LoadFaithful (c : CachedProject M) (call : Call M) : Prop :=
  if c.isFreshFor call.world.fs call.file call.overlay then
    ∀ project, c.workspace.project = some project → c.HitFaithful call project
  else
    ∀ project cache, c.workspace.resolveFor call.world.fs call.file = .ok (project, cache) →
      c.RecomputeFaithful call project cache

/-! ## What a fingerprint records -/

/-- A call's overlay, looked up in the call's overlays. -/
theorem lookup_overlays (call : Call M) (path : Path) :
    call.overlays.lookup path = call.overlay.bind fun o => if o.1 = path then some o.2 else none := by
  obtain ⟨w, file, source⟩ := call
  cases source with
  | none => simp [Call.overlays, Call.overlay]
  | some source =>
    show ((∅ : ProjectSources).insert file source).lookup path =
      if file = path then some source else none
    by_cases hfile : file = path
    · subst hfile
      rw [AList.lookup_insert, if_pos rfl]
    · rw [AList.lookup_insert_ne (Ne.symm hfile), AList.lookup_empty, if_neg hfile]

/-- The texts the analyzer reads under the call's overlay are those a fingerprint
of legible sources records. -/
theorem sourceTexts_eq_recordedText {call : Call M} {project : Project M} {paths : List Path}
    (hpaths : discovered call.world.fs project.root project.config = some paths)
    (hlegible : legible call.world.fs project call.overlay = true) :
    ∃ recorded,
      MarrowLsp.sourceFingerprint call.world.fs project call.overlay = some recorded ∧
        sourceTexts call.world.fs paths call.overlays = recordedText recorded := by
  simp only [MarrowLsp.sourceFingerprint, hpaths, Option.map_some, Option.some.injEq,
    exists_eq_left']
  simp only [MarrowLsp.legible, hpaths, Option.any_some, Bool.and_eq_true, List.all_eq_true] at hlegible
  obtain ⟨hoverlay, hread⟩ := hlegible
  funext path
  unfold recordedText sourceTexts
  rw [find?_map_pair, lookup_overlays]
  simp only [List.mem_dedup, List.mem_insertionSort Path.le]
  by_cases hmem : path ∈ paths
  · have hpath := hread path hmem
    cases ho : call.overlay with
    | none =>
      simp only [ho, Option.any_none, Bool.false_or] at hpath
      cases hr : call.world.fs.readToString path with
      | error e => simp [hr, Except.isOk, Except.toBool] at hpath
      | ok text => simp [hmem, fingerprintText, hr]
    | some o =>
      by_cases hsame : o.1 = path
      · simp [hsame, hmem, fingerprintText]
      · simp only [ho, Option.any_some, hsame, decide_false, Bool.false_or] at hpath
        cases hr : call.world.fs.readToString path with
        | error e => simp [hr, Except.isOk, Except.toBool] at hpath
        | ok text => simp [hsame, hmem, fingerprintText, hr]
  · have hother :
        (call.overlay.bind fun o => if o.1 = path then some o.2 else none) = none := by
      cases ho : call.overlay with
      | none => rfl
      | some o =>
        simp only [ho, Option.all_some, decide_eq_true_eq] at hoverlay
        have hne : o.1 ≠ path := fun h => hmem (h ▸ hoverlay)
        simp [hne]
    simp [hother, hmem]

/-! ## One load -/

theorem fingerprint_of_recordedText {call : Call M} {project : Project M}
    (hlegible : legible call.world.fs project call.overlay = true) :
    ∃ paths recorded, discovered call.world.fs project.root project.config = some paths ∧
      MarrowLsp.sourceFingerprint call.world.fs project call.overlay = some recorded ∧
        sourceTexts call.world.fs paths call.overlays = recordedText recorded := by
  cases hpaths : discovered call.world.fs project.root project.config with
  | none => simp [MarrowLsp.legible, hpaths] at hlegible
  | some paths =>
    obtain ⟨recorded, hrecorded, htexts⟩ := sourceTexts_eq_recordedText hpaths hlegible
    exact ⟨paths, recorded, rfl, hrecorded, htexts⟩

/-- A recompute of a call with documents, a resolved project, a catalog that
binds and sources that can be discovered. -/
theorem recompute_of_bind {ws : Workspace M} {call : Call M} (hurl : M.UrlNamesFile)
    {documents : DocumentAnalysisSnapshot} (hdocuments : call.documents = some documents)
    {project : Project M} {cache : CatalogBindingCache M} {binding : CatalogBinding M}
    {paths : List Path}
    (hresolved : ws.resolveFor call.world.fs call.file = .ok (project, cache))
    (hbinding : (cache.bind call.world project.root project.config).result = .ok binding)
    (hpaths : discovered call.world.fs project.root project.config = some paths) :
    ∃ p, (ws.prepareRecompute call.world call.file documents .full).result = .ok p ∧
      p.analyze call.world.fs = .ok ⟨p, sourceTexts call.world.fs paths call.overlays⟩ ∧
      p.root = project.root ∧ p.config = project.config ∧ p.sourceOnly = false ∧
      p.accepted = binding.accepted ∧ p.lock = binding.lock ∧
      ∃ r, (ws.recomputeFromSnapshot call.world call.file documents).result = .ok r := by
  rcases ws.prepareRecompute_cases call.world call.file documents .full with
    ⟨e, herr, -⟩ | ⟨project', cache', hok, -, -, hresult⟩
  · rw [hresolved] at herr
    cases herr
  · rw [hresolved] at hok
    cases hok
    rw [hbinding] at hresult
    have hsources : overlaySnapshot project.root documents = call.overlays :=
      Call.overlaySnapshot_documents hurl hdocuments (Workspace.startsWith_of_resolveFor hresolved)
    rw [hsources] at hresult
    have hana := PreparedRecompute.analyze_of_discovered
      (p :=
        { root := project.root, config := project.config, sources := call.overlays
          accepted := binding.accepted, lock := binding.lock
          documentsGeneration := documents.generation
          invalidationEpoch := ws.invalidationEpoch, sourceOnly := false }) hpaths
    refine ⟨_, hresult, hana, rfl, rfl, rfl, rfl, rfl, ?_⟩
    simp only [Workspace.recomputeFromSnapshot, hresult]
    rw [show (decide (RecomputeScope.full = .interactive) &&
      !anyOpenTestModule project documents) = false from rfl, hana]
    exact ⟨_, rfl⟩

/-- What a cold load answers when the project resolves, binds and can be discovered. -/
theorem answer_new {call : Call M} (hurl : M.UrlNamesFile) (hdocuments : call.documents.isSome)
    {project : Project M} {binding : CatalogBinding M} {paths : List Path}
    (hresolved : resolveProject call.world.fs call.file = .ok project)
    (hbinding : (CatalogBindingCache.new.bind call.world project.root project.config).result =
      .ok binding)
    (hpaths : discovered call.world.fs project.root project.config = some paths) :
    ∃ cold, (Workspace.new : Workspace M).answer call = some cold ∧
      cold.inputs = ⟨project.root, project.config,
        sourceTexts call.world.fs paths call.overlays, binding.accepted, binding.lock⟩ := by
  obtain ⟨documents, hdoc⟩ := Option.isSome_iff_exists.mp hdocuments
  have hfor : (Workspace.new : Workspace M).resolveFor call.world.fs call.file =
      .ok (project, CatalogBindingCache.new) := by
    rw [Workspace.resolveFor_of_not_covers call.world.fs rfl, hresolved]
    rfl
  obtain ⟨p, hprep, hana, hroot, hconfig, hfull, haccepted, hlock, r, hr⟩ :=
    recompute_of_bind hurl hdoc hfor hbinding hpaths
  obtain ⟨p', a, hprep', hana', ⟨-, hra, -⟩ | ⟨⟨g, hg, -⟩, -, -⟩⟩ :=
    Workspace.recomputeFromSnapshot_ok hr
  · rw [hprep] at hprep'
    cases hprep'
    rw [hana] at hana'
    cases hana'
    refine ⟨⟨p, sourceTexts call.world.fs paths call.overlays⟩, ?_, ?_⟩
    · simp only [Workspace.answer, hdoc, Option.bind_some, hr]
      exact hra
    · simp [Analysis.inputs, PreparedRecompute.analyzedConfig, hfull, hroot, hconfig, haccepted,
        hlock]
  · cases hg

/-- Where the lock file has the recorded bytes, the lock is the recorded one. -/
theorem lockForAdoption_of_fingerprint (hreads : M.ReadsLockFile) {fs fs' : Fs}
    {project : Project M} {accepted : Option M.Catalog} {lock : Option M.Lock}
    (hrecorded : lockForAdoption fs project.root accepted = .ok lock)
    (hsame : MarrowLsp.catalogFingerprint fs' project = MarrowLsp.catalogFingerprint fs project)
    (hreadable : accepted = none → fs'.pathExists (project.root.child COMMITTED_LOCK_FILE) = true →
      (fs'.readBytes (project.root.child COMMITTED_LOCK_FILE)).isSome) :
    lockForAdoption fs' project.root accepted = .ok lock := by
  cases accepted with
  | some catalog => exact hrecorded
  | none =>
    unfold MarrowLsp.catalogFingerprint at hsame
    change M.readCommittedLock fs project.root = .ok lock at hrecorded
    change M.readCommittedLock fs' project.root = .ok lock
    cases hbytes : fs.readBytes (project.root.child COMMITTED_LOCK_FILE) with
    | some bytes =>
      rw [hbytes] at hsame
      rw [hreads.bytes fs' fs project.root bytes hsame hbytes]
      exact hrecorded
    | none =>
      rw [hbytes] at hsame
      -- No lock was recorded, and what cannot be read now is not there.
      cases hreads.unreadable fs project.root lock hbytes hrecorded
      refine hreads.absent fs' project.root ?_ hsame
      rw [Bool.eq_false_iff]
      intro hexists
      have hsome := hreadable rfl hexists
      rw [hsame] at hsome
      cases hsome

/-- A fresh hit that meets its condition answers as a cold load would. -/
theorem freshIsCold_of_hitFaithful {c : CachedProject M} {call : Call M} (hurl : M.UrlNamesFile)
    (hreads : M.ReadsLockFile) (h : c.Recorded)
    (hhit : ∀ project, c.workspace.project = some project → c.HitFaithful call project) :
    c.FreshIsCold call := by
  intro hfresh
  unfold isFreshFor at hfresh
  cases hproject : c.workspace.project with
  | none => simp [hproject] at hfresh
  | some project =>
    have hfaithful := hhit project hproject
    obtain ⟨paths, recorded, hpaths, hrecorded, htexts⟩ :=
      fingerprint_of_recordedText hfaithful.readable
    simp only [hproject, Bool.and_eq_true, beq_iff_eq] at hfresh
    obtain ⟨-, hsource, hcatalog⟩ := hfresh
    rw [hrecorded] at hsource
    obtain ⟨project', a, fs, hproject', hlatest, hroot, hconfig, hfull, hsame, hlockFile, hlock⟩ :=
      h recorded hsource.symm
    rw [hproject] at hproject'
    cases hproject'
    have hadopted := lockForAdoption_of_fingerprint hreads hlock (hcatalog.trans hlockFile)
      (hfaithful.lockFile a hlatest)
    obtain ⟨cold, hcold, hinputs⟩ := answer_new hurl hfaithful.url hfaithful.resolved
      (CatalogBindingCache.bind_new_of_storeCatalog (hfaithful.accepted a hlatest) hadopted) hpaths
    refine ⟨a, cold, hlatest, hcold, ?_⟩
    rw [hinputs, htexts, ← hsame]
    simp [Analysis.inputs, PreparedRecompute.analyzedConfig, hfull, hroot, hconfig]

/-- A recompute that fails under its condition leaves what is recorded true. -/
theorem Recorded.of_error {c : CachedProject M} {call : Call M} (hurl : M.UrlNamesFile)
    (h : c.Recorded) {documents : DocumentAnalysisSnapshot}
    (hdocuments : call.documents = some documents)
    (hfaithful : ∀ project cache,
      c.workspace.resolveFor call.world.fs call.file = .ok (project, cache) →
        c.RecomputeFaithful call project cache)
    {e : WorkspaceError M}
    (herr : (c.workspace.recomputeFromSnapshot call.world call.file documents).result = .error e) :
    Recorded { c with
      workspace :=
        (c.workspace.recomputeFromSnapshot call.world call.file documents).workspace } := by
  intro recorded hrecorded
  obtain ⟨project, a, fs, hproject, hlatest, hrest⟩ := h recorded hrecorded
  rw [Workspace.recomputeFromSnapshot_error herr]
  rcases c.workspace.prepareRecompute_cases call.world call.file documents .full with
    ⟨e', -, heq⟩ | ⟨resolved, cache, hres, hws, -, -⟩
  · rw [heq]
    exact ⟨project, a, fs, hproject, hlatest, hrest⟩
  · have hcond := hfaithful resolved cache hres
    unfold RecomputeFaithful at hcond
    split at hcond
    · next hsucceeds =>
      rw [Bool.and_eq_true] at hsucceeds
      obtain ⟨hbind, hdisc⟩ := hsucceeds
      obtain ⟨paths, hpaths⟩ := Option.isSome_iff_exists.mp hdisc
      cases hb : (cache.bind call.world resolved.root resolved.config).result with
      | error e => simp [hb, Except.isOk, Except.toBool] at hbind
      | ok binding =>
        obtain ⟨p, -, -, -, -, -, -, -, r, hr⟩ :=
          recompute_of_bind hurl hdocuments hres hb hpaths
        rw [hr] at herr
        cases herr
    · -- The bind or the walk fails: the project stays the recorded one, or nothing is recorded.
      rcases hcond with hcov | hnone
      · obtain ⟨cached, hcached, -, hres'⟩ :=
          Workspace.resolveFor_of_covers call.world.fs hcov
        rw [hres'] at hres
        cases hres
        rw [hws]
        rw [hcached] at hproject
        cases hproject
        exact ⟨_, a, fs, rfl, hlatest, hrest⟩
      · rw [hnone] at hrecorded
        cases hrecorded

/-- A recompute that succeeds under its condition records what it analyzed. -/
theorem Recorded.of_ok {c : CachedProject M} {call : Call M} (hurl : M.UrlNamesFile)
    {documents : DocumentAnalysisSnapshot} (hdocuments : call.documents = some documents)
    (hfaithful : ∀ project cache,
      c.workspace.resolveFor call.world.fs call.file = .ok (project, cache) →
        c.RecomputeFaithful call project cache)
    {r : Option (Analysis M)}
    (hok : (c.workspace.recomputeFromSnapshot call.world call.file documents).result = .ok r) :
    (c.refingerprint call.world.fs
      (c.workspace.recomputeFromSnapshot call.world call.file documents).workspace
      call.overlay).Recorded := by
  obtain ⟨p, a, hprep, hana, hcommit⟩ := Workspace.recomputeFromSnapshot_ok hok
  obtain ⟨project, cache, binding, hres, hbind, hproject, hp⟩ :=
    Workspace.project_of_prepareRecompute hprep
  have hanalyzed : p.analyzedConfig = project.config := by rw [hp]; rfl
  have hcond := hfaithful project cache hres
  cases hpaths : discovered call.world.fs project.root project.config with
  | none =>
    -- An analysis that succeeds has walked the sources.
    have herr := (p.analyze_error_iff call.world.fs).mpr (by rw [hanalyzed, hp]; exact hpaths)
    obtain ⟨e, he⟩ := herr
    rw [hana] at he
    cases he
  | some paths =>
    obtain ⟨p', hprep', hana', hroot, hconfig, hfull, haccepted, hlock, -⟩ :=
      recompute_of_bind hurl hdocuments hres hbind hpaths
    rw [hprep] at hprep'
    cases hprep'
    rw [hana] at hana'
    cases hana'
    simp only [RecomputeFaithful, hbind, hpaths, Except.isOk, Except.toBool, Option.isSome_some,
      Bool.and_self, if_true] at hcond
    obtain ⟨hlegible, hgen⟩ := hcond
    rw [← Call.generation_documents hdocuments] at hgen
    -- The commit installs, since no newer generation is there to refuse it.
    rcases hcommit with ⟨-, -, project', hproject', hws⟩ | ⟨⟨g, hg, hlt⟩, -, -⟩
    · rw [hproject] at hproject'
      cases hproject'
      intro recorded hrecorded
      have hinstalled : (c.workspace.recomputeFromSnapshot call.world call.file
          documents).workspace.project = some project := by
        rw [hws, Workspace.install_project, hproject]
      simp only [refingerprint, hinstalled] at hrecorded ⊢
      obtain ⟨recorded', hrecorded', htexts⟩ := sourceTexts_eq_recordedText hpaths hlegible
      rw [hrecorded'] at hrecorded
      cases hrecorded
      refine ⟨project, _, call.world.fs, rfl, by rw [hws]; rfl, hroot, hconfig, hfull, htexts, rfl, ?_⟩
      rw [haccepted, hlock]
      exact CatalogBindingCache.lockForAdoption_of_bind hbind
    · have := hgen g hg
      omega

theorem Recorded.load {c : CachedProject M} {call : Call M} (hurl : M.UrlNamesFile)
    (h : c.Recorded) (hload : c.LoadFaithful call) :
    (c.load call.world call.file call.source).cache.Recorded := by
  unfold LoadFaithful at hload
  rcases c.load_cases call with ⟨-, heq⟩ | ⟨-, -, heq⟩ | ⟨documents, hfresh, hdocuments, heq⟩
  · rw [heq]
    exact h
  · rw [heq]
    exact h
  · rw [hfresh] at hload
    rw [heq]
    cases hresult : (c.workspace.recomputeFromSnapshot call.world call.file documents).result with
    | error e =>
      simp only [hresult]
      exact h.of_error hurl hdocuments hload hresult
    | ok r =>
      simp only [hresult]
      exact of_ok hurl hdocuments hload hresult

/-! ## Runs -/

theorem Recorded.withLoadedProject {c : CachedProject M} {call : Call M} (hurl : M.UrlNamesFile)
    (h : c.Recorded) (hload : c.LoadFaithful call) (allowedRoot : Option Path) :
    (c.withLoadedProject allowedRoot call.world call.file call.source).cache.Recorded := by
  unfold CachedProject.withLoadedProject
  split
  · exact h.load hurl hload
  · exact h

theorem recorded_new : (new : CachedProject M).Recorded := by
  intro recorded hrecorded
  cases hrecorded

/-- In every sequence of loads that meet the condition, every fresh hit answers
as a cold load would. -/
theorem freshIsCold_of_loadFaithful (hurl : M.UrlNamesFile) (hreads : M.ReadsLockFile)
    (allowedRoot : Option Path)
    {calls : List (Call M)}
    (h : AllSteps (Call.load allowedRoot) (fun c call _ => c.LoadFaithful call) new calls) :
    AllSteps (Call.load allowedRoot) (fun c call _ => c.FreshIsCold call) new calls := by
  refine h.imp (I := Recorded) ?_ ?_ recorded_new
  · intro c call c' hrecorded hstep hload
    cases hstep
    exact hrecorded.withLoadedProject hurl hload allowedRoot
  · intro c call c' hrecorded _ hload hfresh
    simp only [LoadFaithful, hfresh, if_true] at hload
    exact freshIsCold_of_hitFaithful hurl hreads hrecorded hload hfresh

end CachedProject

/-! ## An overlay of a file that is not on disk -/

namespace Sample

/-- A second file of the project, edited before it is ever saved. -/
def unsaved : Call Marrow.sample :=
  ⟨twins, ((projectDir "A").child "src").child "lib.mw", some ['y']⟩

theorem readsLockFile : Marrow.sample.ReadsLockFile where
  absent fs root _ hnone := congrArg Except.ok hnone
  unreadable fs root lock hnone hread := by
    cases hread
    exact hnone
  bytes fs fs' root bytes hsome hsome' := congrArg Except.ok (hsome.trans hsome'.symm)

end Sample

namespace CachedProject

open Sample in
theorem freshIsCold_onDisk_onDisk :
    AllSteps (Call.load none) (fun c call _ => c.FreshIsCold call)
      (new : CachedProject Marrow.sample) [onDisk, onDisk] := by
  apply freshIsCold_of_loadFaithful urlNamesFile readsLockFile
  intro c hc
  cases hc
  refine ⟨?_, ?_⟩
  · intro project cache hres
    cases hres
    unfold RecomputeFaithful
    rw [if_pos (by decide)]
    exact ⟨by decide, fun g hg => by cases hg⟩
  · intro c' hc'
    refine ⟨?_, trivial⟩
    intro project hproject
    cases hproject
    refine ⟨by decide, rfl, by decide, ?_, ?_⟩
    · intro a ha
      cases ha
      rfl
    · intro a ha _ hexists
      cases hexists

open Sample in
theorem not_freshIsCold_onDisk_unsaved :
    ¬ AllSteps (Call.load none) (fun c call _ => c.FreshIsCold call)
      (new : CachedProject Marrow.sample) [onDisk, unsaved] := by
  intro h
  have hrun : (Call.load none new onDisk).any (fun c =>
      c.isFreshFor twins.fs unsaved.file unsaved.overlay &&
        c.workspace.latest.all fun a => a.texts unsaved.file != .text ['y']) = true := by
    decide
  obtain ⟨c, hc, hrun⟩ := (Option.any_eq_true _ _).mp hrun
  rw [Bool.and_eq_true] at hrun
  obtain ⟨c', hc'⟩ : ∃ c', Call.load none c unsaved = some c' := ⟨_, rfl⟩
  obtain ⟨a, cold, hlatest, hcold, hinputs⟩ := ((h c hc).2 c' hc').1 hrun.1
  have hread : cold.texts unsaved.file = .text ['y'] := by
    cases hcold
    decide
  have hinstalled : a.texts unsaved.file ≠ .text ['y'] := by
    have hall := hrun.2
    rw [hlatest] at hall
    exact bne_iff_ne.mp hall
  have htexts : a.texts = cold.texts := congrArg AnalyzerInputs.texts hinputs
  exact hinstalled (by rw [htexts, hread])

end CachedProject
end MarrowLsp
