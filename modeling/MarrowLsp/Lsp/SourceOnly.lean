-- SUMMARY: Recomputes that skip the test modules: only an edit schedules one, and its publish says nothing about a tracked file it did not analyze.
import MarrowLsp.Lsp.Debounce
import MarrowLsp.Lsp.Freshness

/-!
# Source-only recomputes

A recompute scheduled by an edit leaves the test modules out while none of them is
open. Nothing schedules a full one after it: what was published about a closed test
module stands until some other event asks for a recompute that covers it.
-/
namespace MarrowLsp

open Transition

variable {M : Marrow}

/-! ## The URLs of a publish -/

/-- A problem of the analysis is in the file at this URL. -/
def Analysis.Reports (a : Analysis M) (url : Url) : Prop :=
  ∃ diagnostic ∈ a.snapshot.diagnostics, M.fromFilePath diagnostic.file = some url

/-- A file of the analysis is at this URL. -/
def Analysis.Analyzes (a : Analysis M) (url : Url) : Prop :=
  ∃ file ∈ a.snapshot.files, M.fromFilePath file.path = some url

/-- The captured buffers at this URL. -/
def DocumentAnalysisSnapshot.Has (documents : DocumentAnalysisSnapshot) (url : Url) : Prop :=
  ∃ document ∈ documents.openDocuments, document.url = url

namespace Server

theorem mem_diagnosticsByUrl {fs : Fs} {documents : DocumentAnalysisSnapshot}
    {project : Project M} {a : Analysis M} {url : Url} :
    url ∈ diagnosticsByUrl fs documents project a ↔
      a.Reports url ∨ url ∈ openAnalysisDocumentUrls documents project :=
  mem_snapshotToDiagnostics

theorem has_of_mem_openAnalysisDocumentUrls {documents : DocumentAnalysisSnapshot}
    {project : Project M} {url : Url} (h : url ∈ openAnalysisDocumentUrls documents project) :
    documents.Has url := by
  unfold openAnalysisDocumentUrls sortedUrls at h
  rw [List.mem_insertionSort, List.mem_map] at h
  obtain ⟨document, hmem, hurl⟩ := h
  exact ⟨document, List.mem_of_mem_filter hmem, hurl⟩

/-- A publish has a message for this URL. -/
def Says (sent : List PublishedDiagnostics) (url : Url) : Prop :=
  ∃ message ∈ sent, message.url = url

theorem says_messages {documents : DocumentAnalysisSnapshot} {diagnostics : DiagnosticsByUrl}
    {url : Url} : Says (messages documents diagnostics) url ↔ url ∈ diagnostics := by
  unfold Says messages
  rw [AList.mem_keys, AList.keys, List.keys, List.mem_map]
  constructor
  · rintro ⟨message, hmem, rfl⟩
    obtain ⟨entry, hentry, rfl⟩ := List.mem_map.mp hmem
    exact ⟨entry, hentry, rfl⟩
  · rintro ⟨entry, hentry, rfl⟩
    exact ⟨_, List.mem_map_of_mem hentry, rfl⟩

end Server

/-! ## Which recomputes a step spawns -/

namespace Server

/-- A handler schedules a recompute of its file, and nothing of another scope. -/
theorem handle_sleeping (s : Server M) (fs : Fs) (busy : Bool) (handling : Handling) :
    ∃ tasks, (s.handle fs busy handling).sleeping = s.sleeping ++ tasks ∧
      (∀ task ∈ tasks, task.scope = handling.scope ∧
        ∀ path, handling.file = some path → task.file = path) ∧
      (handling.file.isSome = true → tasks ≠ []) := by
  cases handling with
  | edit path scope =>
    simp only [handle, finishEdit]
    cases s.knownRoot busy path with
    | none => exact ⟨_, rfl, by simp [Handling.scope, Handling.file], by simp⟩
    | some root => exact ⟨_, rfl, by simp [Handling.scope, Handling.file], by simp⟩
  | close url path =>
    simp only [handle, finishClose]
    cases path with
    | none => exact ⟨[], by simp [sendClears], by simp, by simp [Handling.file]⟩
    | some path =>
      rw [Option.bind_some]
      cases s.knownRoot busy path with
      | none => exact ⟨_, rfl, by simp [Handling.scope, Handling.file], by simp⟩
      | some root => exact ⟨_, rfl, by simp [Handling.scope, Handling.file], by simp⟩
  | watch changes versions preBits =>
    exact ⟨[], (List.append_nil _).symm, by simp, by simp [Handling.file]⟩
  | watchAgain changes versions preBits =>
    obtain ⟨tasks, hsleeping, hscopes, -⟩ := sleeping_carryOut
      { s with
        tracker := (busyEffects fs s.tracker versions changes).2
        handling := none
        pending := s.pending.or (busyEffects fs s.tracker versions changes).1.bits }
      (busyEffects fs s.tracker versions changes).1
    refine ⟨tasks, hsleeping, fun task hmem => ⟨hscopes task hmem, ?_⟩, by simp [Handling.file]⟩
    intro path hpath
    cases hpath

/-- A batch that finds the analysis free schedules full recomputes only. -/
theorem watchFree_sleeping (s : Server M) (versions : DocumentVersions)
    (changes : List WatchedPathChange) :
    ∃ tasks, (s.watchFree versions changes).sleeping = s.sleeping ++ tasks ∧
      ∀ task ∈ tasks, task.scope = .full := by
  unfold watchFree
  dsimp only
  split
  · exact ⟨[], (List.append_nil _).symm, fun task hmem => by cases hmem⟩
  · obtain ⟨tasks, hsleeping, hscopes, -⟩ := sleeping_carryOut _ _
    exact ⟨tasks, hsleeping, hscopes⟩

/-- Only the handler of an edit schedules a recompute that may skip the test modules. -/
theorem interactive_of_newTasks {s t : Server M} {action : Action M}
    (hstep : s.step action = some t) {task : Task} (h : task ∈ s.newTasks action)
    (hscope : task.scope = .interactive) : s.handling = some (.edit task.file .interactive) := by
  have hfull : ∀ {tasks : List Task}, t.sleeping = s.sleeping ++ tasks →
      (∀ task ∈ tasks, task.scope = .full) → s.handling = some (.edit task.file .interactive) := by
    intro tasks hsleeping hscopes
    rw [newTasks_eq hstep hsleeping] at h
    rw [hscopes task h] at hscope
    cases hscope
  have hnone : t.sleeping = s.sleeping → s.handling = some (.edit task.file .interactive) :=
    fun hsame => @hfull [] (by rw [hsame, List.append_nil]) fun task hmem => by cases hmem
  cases haction : action.isRun with
  | true =>
    obtain ⟨_, _, _, _, _, _, heq, -, -⟩ := run_frame hstep haction
    exact hnone (by rw [heq])
  | false =>
    cases stepTo_of_step hstep with
    | didOpen | didChange | didClose | unwatched | capture | bindingIndex | chooseReadSource =>
      exact hnone rfl
    | @didChangeWatchedFiles fs busy events =>
      cases busy with
      | true => exact hnone rfl
      | false =>
        obtain ⟨tasks, hsleeping, hscopes⟩ := s.watchFree_sleeping
          (openDocumentVersions (s.documents.analysisSnapshot M)) (watchedPathChanges M events)
        exact hfull hsleeping hscopes
    | @handle fs busy handling hhandling =>
      obtain ⟨tasks, hsleeping, htasks, -⟩ := s.handle_sleeping fs busy handling
      rw [newTasks_eq hstep hsleeping] at h
      obtain ⟨hsame, hfile⟩ := htasks task h
      rw [hscope] at hsame
      rw [hhandling]
      cases handling with
      | edit path scope =>
        rw [hfile path rfl]
        cases hsame
        rfl
      | close | watch | watchAgain => cases hsame
    | @preflight i first =>
      obtain ⟨awake, hframe⟩ := s.preflight_frame i first
      have hnil : s.newTasks (.preflight i) = [] := by
        refine newTasks_eq_nil hstep ?_
        rw [hframe]
        exact List.length_eraseIdx_le _ _
      rw [hnil] at h
      cases h
    | prepare | analyze | commit | publish | reconcile => cases haction

/-- A handler that is to schedule a recompute that may skip the test modules has just
been asked for by an edit, or was at work before. -/
theorem handling_step {s t : Server M} {action : Action M} (hstep : s.step action = some t)
    {path : Path} (h : t.handling = some (.edit path .interactive)) :
    s.handling = some (.edit path .interactive) ∨
      ∃ url text version, action = .didChange url text version ∧ M.toFilePath url = some path := by
  cases haction : action.isRun with
  | true =>
    obtain ⟨_, _, _, _, _, _, heq, -, -⟩ := run_frame hstep haction
    rw [heq] at h
    exact .inl h
  | false =>
    cases stepTo_of_step hstep with
    | @didOpen url text version hfree =>
      simp only [didOpen] at h
      obtain ⟨path', -, hedit⟩ := Option.map_eq_some_iff.mp h
      cases hedit
    | @didChange url text version hfree =>
      simp only [didChange] at h
      obtain ⟨path', hpath, hedit⟩ := Option.map_eq_some_iff.mp h
      cases hedit
      exact .inr ⟨url, text, version, rfl, hpath⟩
    | didClose => cases h
    | unwatched | capture | bindingIndex | chooseReadSource => exact .inl h
    | @didChangeWatchedFiles fs busy events _ hfree _ =>
      cases busy with
      | true => cases h
      | false =>
        obtain ⟨_, _, _, _, _, heq, -, -⟩ := s.watchFree_frame
          (openDocumentVersions (s.documents.analysisSnapshot M)) (watchedPathChanges M events)
        unfold didChangeWatchedFiles at h
        rw [if_neg (by simp), heq] at h
        exact .inl h
    | @handle fs busy handling hhandling =>
      cases handling with
      | edit path' scope =>
        obtain ⟨_, _, _, heq⟩ := s.finishEdit_frame busy path' scope
        rw [handle, heq] at h
        cases h
      | close url path' =>
        obtain ⟨_, _, _, _, heq, -⟩ := s.finishClose_frame busy url path'
        rw [handle, heq] at h
        cases h
      | watch changes versions preBits => cases h
      | watchAgain changes versions preBits =>
        obtain ⟨_, _, _, _, _, heq, -, -⟩ := s.finishWatch_frame fs versions changes
        rw [handle, heq] at h
        cases h
    | preflight =>
      obtain ⟨_, heq⟩ := s.preflight_frame _ _
      rw [heq] at h
      exact .inl h
    | prepare | analyze | commit | publish | reconcile => cases haction

/-! ## Runs that skip the test modules -/

/-- An edit of the file at `path` led to `s`. -/
def Edited (s : Server M) (path : Path) : Prop :=
  ∃ s₀ url text version s₁, Reachable step new s₀ ∧ M.toFilePath url = some path ∧
    s₀.step (.didChange url text version) = some s₁ ∧ Reachable step s₁ s

theorem Edited.step {s t : Server M} {action : Action M} {path : Path} (h : s.Edited path)
    (hstep : s.step action = some t) : t.Edited path := by
  obtain ⟨s₀, url, text, version, s₁, hs₀, hpath, hedit, hreach⟩ := h
  exact ⟨s₀, url, text, version, s₁, hs₀, hpath, hedit, hreach.snoc trivial hstep⟩

/-- The run may leave the test modules out: an edit of a file of its project has asked
for it, and no buffer it captured is a test module of that project. -/
structure MaySkip (s : Server M) (run : PreparedRecompute M)
    (documents : DocumentAnalysisSnapshot) : Prop where
  isFrom : run.IsFrom documents
  noTests : anyOpenTestModule ⟨run.root, run.config⟩ documents = false
  edited : ∃ path, s.Edited path ∧ path.startsWith run.root = true

theorem MaySkip.step {s t : Server M} {action : Action M} {run : PreparedRecompute M}
    {documents : DocumentAnalysisSnapshot} (h : s.MaySkip run documents)
    (hstep : s.step action = some t) : t.MaySkip run documents := by
  obtain ⟨path, hedited, hroot⟩ := h.edited
  exact ⟨h.isFrom, h.noTests, path, hedited.step hstep, hroot⟩

/-- Every recompute that may skip the test modules, and every run that does, goes back to
an edit; a run that does is of a recompute that may. -/
structure Scoped (s : Server M) : Prop where
  handling : ∀ path, s.handling = some (.edit path .interactive) → s.Edited path
  tasks : ∀ task ∈ s.tasks, task.scope = .interactive → s.Edited task.file
  running : ∀ r, s.running = some r → r.run.sourceOnly = true →
    r.task.scope = .interactive ∧ s.MaySkip r.run r.documents
  latest : ∀ a, s.workspace.latest = some a → a.prepared.sourceOnly = true →
    ∃ documents, s.MaySkip a.prepared documents
  published : ∀ root a documents sent, .recompute root a documents sent ∈ s.published →
    a.prepared.sourceOnly = true → s.MaySkip a.prepared documents

theorem scoped_new : (new : Server M).Scoped where
  handling := by
    intro path h
    cases h
  tasks := by
    intro task h
    cases h
  running := by
    intro r h
    cases h
  latest := by
    intro a h
    cases h
  published := by
    intro root a documents sent h
    cases h

/-- A run prepared for a file of an edited project. -/
theorem maySkip_of_prepare {s : Server M} {ws : Workspace M} {w : World M} {file : Path}
    {documents : DocumentAnalysisSnapshot} {scope : RecomputeScope} {run : PreparedRecompute M}
    (h : (ws.prepareRecompute w file documents scope).result = .ok run)
    (hedited : scope = .interactive → s.Edited file) (hsource : run.sourceOnly = true) :
    scope = .interactive ∧ s.MaySkip run documents := by
  have hfrom := PreparedRecompute.isFrom_of_prepare h
  obtain ⟨project, cache, binding, hresolve, -, -, rfl⟩ := Workspace.project_of_prepareRecompute h
  simp only [Bool.and_eq_true, decide_eq_true_eq, Bool.not_eq_true'] at hsource
  obtain ⟨hscope, hclosed⟩ := hsource
  exact ⟨hscope, hfrom, hclosed, file, hedited hscope,
    Workspace.startsWith_of_resolveFor hresolve⟩

theorem scoped_step {s t : Server M} {action : Action M} (hreach : Reachable step new s)
    (h : s.Scoped) (hstep : s.step action = some t) : t.Scoped where
  handling := by
    intro path hpath
    rcases handling_step hstep hpath with hold | ⟨url, text, version, rfl, hurl⟩
    · exact (h.handling path hold).step hstep
    · exact ⟨s, url, text, version, t, hreach, hurl, hstep, .refl⟩
  tasks := by
    intro task hmem hscope
    rcases mem_tasks_of_step hstep hmem with hold | hnew
    · exact (h.tasks task hold hscope).step hstep
    · exact (h.handling _ (interactive_of_newTasks hstep hnew hscope)).step hstep
  running := by
    intro r hr hsource
    cases runStep_of_step hstep hr with
    | @goes r' hr' htask hdocuments hrun _ =>
      rw [hrun] at hsource
      rw [htask, hrun, hdocuments]
      obtain ⟨hscope, hskip⟩ := h.running r' hr' hsource
      exact ⟨hscope, hskip.step hstep⟩
    | @prepared w i x _ _ hx hsame hdocuments _ hrun =>
      rw [hsame, hdocuments]
      have htask : x.task ∈ s.tasks :=
        mem_tasks.mpr (.inr (.inr (.inl ⟨x, List.mem_of_getElem? hx, rfl⟩)))
      obtain ⟨hscope, hskip⟩ := maySkip_of_prepare hrun (h.tasks _ htask) hsource
      exact ⟨hscope, hskip.step hstep⟩
  latest := by
    -- The latest analysis stays, goes, or is that of the run that commits.
    intro a ha hsource
    cases workspaceStep_of_step hstep with
    | invalidated _ hlatest =>
      rw [hlatest] at ha
      cases ha
    | kept _ _ hlatest _ =>
      rw [hlatest] at ha
      obtain ⟨documents, hskip⟩ := h.latest a ha hsource
      exact ⟨documents, hskip.step hstep⟩
    | @installed r a' _ _ hr hstage _ hlatest _ _ =>
      rw [hlatest] at ha
      cases ha
      have hrun : a.prepared = r.run := by
        have hprepared := (coherent_of_reachable hreach r hr).stage
        rwa [hstage] at hprepared
      rw [hrun] at hsource ⊢
      exact ⟨r.documents, (h.running r hr hsource).2.step hstep⟩
  published := by
    intro root a documents sent hmem hsource
    cases publishStep_of_step hstep with
    | clears hclears =>
      rcases hclears with heq | ⟨messages, heq⟩ <;> rw [heq] at hmem
      · exact (h.published root a documents sent hmem hsource).step hstep
      · rcases List.mem_cons.mp hmem with hnew | hold
        · cases hnew
        · exact (h.published root a documents sent hold hsource).step hstep
    | @recompute r root' scope a' diagnostics published tracker hr hstage _ _ ht =>
      rw [ht] at hmem
      rcases List.mem_cons.mp hmem with hnew | hold
      · cases hnew
        have hpublishing := (coherent_of_reachable hreach r hr).stage
        rw [hstage] at hpublishing
        obtain ⟨ha, -, -⟩ := hpublishing
        rw [ha] at hsource ⊢
        exact (h.running r hr hsource).2.step hstep
      · exact (h.published root a documents sent hold hsource).step hstep

theorem scoped_of_reachable {s : Server M} (h : Reachable step new s) : s.Scoped := by
  induction h with
  | refl => exact scoped_new
  | tail hreach hlast ih =>
    obtain ⟨action, -, hstep⟩ := hlast
    exact scoped_step hreach ih hstep

/-! ## What a publish covers -/

theorem covers_reconcileScope {run : PreparedRecompute M} {a : Analysis M} {url : Url} :
    (reconcileScope run a).covers url = true ↔ (run.sourceOnly = true → a.Analyzes url) := by
  unfold reconcileScope
  cases run.sourceOnly with
  | false => simp [ReconcileScope.covers]
  | true => simp [ReconcileScope.covers, ReconcileScope.ofSnapshot, Analysis.Analyzes]

/-- What a publish of `a` under `root` says and leaves tracked: it covers every tracked
URL, but for those a source-only run did not analyze, and of these it leaves each tracked
and says nothing, unless the analysis reports a problem there or the buffer is open. -/
structure PublishCovers (s t : Server M) (root : Path) (a : Analysis M)
    (documents : DocumentAnalysisSnapshot) (sent : List PublishedDiagnostics) : Prop where
  reported : ∀ url, a.Reports url → Says sent url
  covered : ∀ url, s.tracker.TracksUrl root url →
    (a.prepared.sourceOnly = true → a.Analyzes url) → Says sent url
  carried : ∀ url, s.tracker.TracksUrl root url → a.prepared.sourceOnly = true →
    ¬ a.Analyzes url → t.tracker.TracksUrl root url ∧
      (Says sent url → a.Reports url ∨ documents.Has url)

theorem publishCovers_of_published {s t : Server M} {action : Action M}
    (hreach : Reachable step new s) (hstep : s.step action = some t) {root : Path}
    {a : Analysis M} {documents : DocumentAnalysisSnapshot} {sent : List PublishedDiagnostics}
    (hsent : t.published = .recompute root a documents sent :: s.published) :
    s.PublishCovers t root a documents sent := by
  cases publishStep_of_step hstep with
  | clears h =>
    rcases h with heq | ⟨messages, heq⟩ <;> rw [heq] at hsent
    · exact absurd hsent.symm (List.cons_ne_self _ _)
    · cases hsent
  | @recompute r root' scope a' diagnostics published tracker hr hstage _ hreconcile ht =>
    rw [ht] at hsent
    cases hsent
    have hpublishing := (coherent_of_reachable hreach r hr).stage
    rw [hstage] at hpublishing
    obtain ⟨hrun, -, -⟩ := hpublishing
    obtain ⟨rfl, fs, rfl⟩ := computed_of_reachable hreach r root _ a diagnostics hr hstage
    obtain ⟨rfl, htracked⟩ := DiagnosticsTracker.reconcileSuccess_spec hreconcile
    -- The scope of the reconcile covers all, or the analyzed URLs of a skipping run.
    have hcovers : ∀ url, (reconcileScope r.run a).covers url = true ↔
        (a.prepared.sourceOnly = true → a.Analyzes url) := by
      intro url
      rw [hrun]
      exact covers_reconcileScope
    have hmessage : ∀ url, Says (messages r.documents (s.tracker.withCleared root
        (reconcileScope r.run a) (diagnosticsByUrl fs r.documents r.run.project a))) url ↔
        (s.tracker.TracksUrl root url ∧ (reconcileScope r.run a).covers url = true) ∨
          a.Reports url ∨ url ∈ openAnalysisDocumentUrls r.documents r.run.project := by
      intro url
      rw [says_messages, DiagnosticsTracker.mem_withCleared, mem_diagnosticsByUrl]
    refine ⟨?_, ?_, ?_⟩
    · intro url hreports
      exact (hmessage url).mpr (.inr (.inl hreports))
    · intro url htracks hanalyzes
      exact (hmessage url).mpr (.inl ⟨htracks, (hcovers url).mpr hanalyzes⟩)
    · intro url htracks hsource hnot
      have hout : (reconcileScope r.run a).covers url = false := by
        rw [Bool.eq_false_iff]
        intro hcov
        exact hnot ((hcovers url).mp hcov hsource)
      refine ⟨?_, ?_⟩
      · rw [ht]
        exact (htracked url).mpr (.inr ⟨htracks, hout⟩)
      · intro hsaid
        rcases (hmessage url).mp hsaid with ⟨-, hcov⟩ | hreports | hopen
        · rw [hout] at hcov
          cases hcov
        · exact .inl hreports
        · exact .inr (has_of_mem_openAnalysisDocumentUrls hopen)

/-- An analysis was checked with the test modules unless its run skipped them. -/
theorem config_or_skipped (a : Analysis M) :
    a.inputs.config = a.prepared.config ∨ a.prepared.sourceOnly = true := by
  cases hsource : a.prepared.sourceOnly with
  | false => exact .inl (by simp [Analysis.inputs, PreparedRecompute.analyzedConfig, hsource])
  | true => exact .inr rfl

/-- In every reachable state the latest analysis and each published one were checked with
the test modules, or left by a recompute that an edit asked for while no test module was
open, and the run of a full recompute skips none. Of what a step schedules only the recompute of an edit may skip them: an open, a
close and a watched change ask for a full one. A publish covers every tracked URL but for
those a skipping run did not analyze, and these it leaves as they were. -/
theorem whole_or_edited {s : Server M} (hreach : Reachable step new s) :
    (∀ a, s.workspace.latest = some a →
      a.inputs.config = a.prepared.config ∨ ∃ documents, s.MaySkip a.prepared documents) ∧
    (∀ root a documents sent, .recompute root a documents sent ∈ s.published →
      a.inputs.config = a.prepared.config ∨ s.MaySkip a.prepared documents) ∧
    (∀ r, s.running = some r → r.task.scope = .full → r.run.sourceOnly = false) ∧
    ∀ action t, s.step action = some t →
      (∀ task ∈ s.newTasks action, task.scope = .interactive →
        s.handling = some (.edit task.file .interactive) ∧ s.Edited task.file) ∧
      (∀ fs busy handling path, action = .handle fs busy → s.handling = some handling →
        handling.file = some path →
          ∃ task ∈ s.newTasks action, task.file = path ∧ task.scope = handling.scope) ∧
      (∀ root a documents sent, t.published = .recompute root a documents sent :: s.published →
        s.PublishCovers t root a documents sent) := by
  have hscoped := scoped_of_reachable hreach
  refine ⟨?_, ?_, ?_, ?_⟩
  · intro a ha
    exact (config_or_skipped a).imp_right (hscoped.latest a ha)
  · intro root a documents sent hmem
    exact (config_or_skipped a).imp_right (hscoped.published root a documents sent hmem)
  · intro r hr hfull
    rw [Bool.eq_false_iff]
    intro hsource
    rw [(hscoped.running r hr hsource).1] at hfull
    cases hfull
  · intro action t hstep
    refine ⟨?_, ?_, ?_⟩
    · intro task hmem hscope
      have hhandling := interactive_of_newTasks hstep hmem hscope
      exact ⟨hhandling, hscoped.handling _ hhandling⟩
    · rintro fs busy handling path rfl hhandling hfile
      obtain ⟨tasks, hsleeping, htasks, hsome⟩ := s.handle_sleeping fs busy handling
      cases stepTo_of_step hstep with
      | handle hsame =>
        rw [hhandling] at hsame
        cases hsame
        rw [newTasks_eq hstep hsleeping]
        obtain ⟨task, hmem⟩ := List.exists_mem_of_ne_nil _ (hsome (by rw [hfile]; rfl))
        obtain ⟨hscope, hpath⟩ := htasks task hmem
        exact ⟨task, hmem, hpath path hfile, hscope⟩
    · intro root a documents sent hsent
      exact publishCovers_of_published hreach hstep hsent

end Server

/-! ## A keystroke and nothing after it -/

namespace Sample

def testModule (name : String) : Path := ((projectDir name).child "tests").child "t.mw"

/-- A project with a test module. -/
def tested : World Marrow.sample := world (projectFiles [("A", ['x'])] ++ [(testModule "A", ['x'])])

/-- The main file is opened and analyzed, edited and analyzed again. -/
def typedInto : List (Action Marrow.sample) :=
  [.didOpen (urlOf (app "A")) ['x'] 1, .handle tested.fs false] ++ recomputed tested ++
    [.didChange (urlOf (app "A")) ['y'] 2, .handle tested.fs false] ++ recomputed tested

end Sample

namespace Server

open Sample in
/-- After the edit the latest analysis was checked without the test modules. -/
theorem whole_or_edited_typedInto : ∃ (s : Server Marrow.sample) (a : Analysis Marrow.sample),
    Reachable step new s ∧ s.workspace.latest = some a ∧ a.prepared.config.tests = true ∧
      a.inputs.config.tests = false ∧ ∃ documents, s.MaySkip a.prepared documents := by
  have hrun : (run step new typedInto).any (fun s => s.workspace.latest.any fun a =>
      a.prepared.config.tests && !a.inputs.config.tests) = true := by
    decide
  obtain ⟨s, hs, hgood⟩ := (Option.any_eq_true _ _).mp hrun
  obtain ⟨a, ha, htests⟩ := (Option.any_eq_true _ _).mp hgood
  rw [Bool.and_eq_true, Bool.not_eq_true'] at htests
  refine ⟨s, a, reachable_of_run hs, ha, htests.1, htests.2, ?_⟩
  rcases (whole_or_edited (reachable_of_run hs)).1 a ha with hsame | hskip
  · have htests' := htests.1
    rw [← hsame, htests.2] at htests'
    cases htests'
  · exact hskip

open Sample in
/-- Nothing is scheduled any more, and the latest analysis lacks the test module. -/
theorem not_whole_typedInto : ∃ (s : Server Marrow.sample) (a : Analysis Marrow.sample),
    run step new typedInto = some s ∧ s.quiet = true ∧ s.workspace.latest = some a ∧
      (∃ paths, discovered tested.fs a.prepared.root a.prepared.config = some paths ∧
        testModule "A" ∈ paths) ∧ a.containsFile (testModule "A") = false := by
  have hrun : (run step new typedInto).any (fun s => s.quiet && s.workspace.latest.any fun a =>
      (discovered tested.fs a.prepared.root a.prepared.config).any (fun paths =>
        decide (testModule "A" ∈ paths)) && !a.containsFile (testModule "A")) = true := by
    decide
  obtain ⟨s, hs, hgood⟩ := (Option.any_eq_true _ _).mp hrun
  rw [Bool.and_eq_true] at hgood
  obtain ⟨a, ha, hmissing⟩ := (Option.any_eq_true _ _).mp hgood.2
  rw [Bool.and_eq_true, Bool.not_eq_true'] at hmissing
  obtain ⟨paths, hpaths, hmem⟩ := (Option.any_eq_true _ _).mp hmissing.1
  exact ⟨s, a, hs, hgood.1, ha, ⟨paths, hpaths, of_decide_eq_true hmem⟩, hmissing.2⟩

end Server

end MarrowLsp
