-- SUMMARY: What each step of the server needs and what it can change: inversion of the step function, frames, and the outcomes of a recompute's steps.
import MarrowLsp.Lsp.Backend

/-!
# Steps

Every invariant of the server is proved from these lemmas alone. A step either belongs
to the recompute that holds the run lock, with one lemma for its outcomes, or leaves
that recompute alone, with one lemma for what it changes.
-/
namespace MarrowLsp

open Transition

variable {M : Marrow}

namespace Server

/-! ## What a step needs and leads to -/

/-- The steps of the server, each with what it finds. -/
inductive StepTo (s : Server M) : Action M → Server M → Prop where
  | didOpen {url text version} (hfree : s.publishFree = true) :
      s.StepTo (.didOpen url text version) (s.didOpen url text version)
  | didChange {url text version} (hfree : s.publishFree = true) :
      s.StepTo (.didChange url text version) (s.didChange url text version)
  | didClose {url} (hfree : s.publishFree = true) : s.StepTo (.didClose url) (s.didClose url)
  | unwatched {fs busy events} (hchanges : watchedPathChanges M events = []) :
      s.StepTo (.didChangeWatchedFiles fs busy events) s
  | didChangeWatchedFiles {fs busy events} (hchanges : watchedPathChanges M events ≠ [])
      (hfree : s.publishFree = true) (hbusy : busy = true ∨ s.analysisLocked = false) :
      s.StepTo (.didChangeWatchedFiles fs busy events)
        (s.didChangeWatchedFiles fs busy (watchedPathChanges M events))
  | handle {fs busy handling} (hhandling : s.handling = some handling)
      (hbusy : busy = true ∨ s.analysisLocked = false) :
      s.StepTo (.handle fs busy) (s.handle fs busy handling)
  | preflight {i task} (htask : s.sleeping[i]? = some task) :
      s.StepTo (.preflight i) (s.preflight i task)
  | capture {i task} (htask : s.awake[i]? = some task) : s.StepTo (.capture i) (s.capture i task)
  | prepare {w i x} (hrunning : s.running = none) (hx : s.waiting[i]? = some x) :
      s.StepTo (.prepare w i) (s.prepare w i x)
  | analyze {fs r} (hr : s.running = some r) (hstage : r.stage = .prepared) :
      s.StepTo (.analyze fs) (s.analyze fs r)
  | commit {r a} (hr : s.running = some r) (hstage : r.stage = .analyzed a) :
      s.StepTo .commit (s.commit r a)
  | publish {fs r} (hr : s.running = some r) (hstage : r.stage = .committed)
      (hfree : s.publishFree = true) : s.StepTo (.publish fs) (s.publish fs r)
  | reconcile {r root scope a diagnostics} (hr : s.running = some r)
      (hstage : r.stage = .publishing root scope a diagnostics) :
      s.StepTo .reconcile (s.reconcile r root scope a diagnostics)
  | bindingIndex (hlock : s.analysisLocked = false) :
      s.StepTo .bindingIndex { s with workspace := s.workspace.withBindingIndex }
  | chooseReadSource {file} (hlock : s.analysisLocked = false) :
      s.StepTo (.chooseReadSource file)
        { s with workspace := (s.workspace.chooseReadSource file).2 }

theorem stepTo_of_step {s t : Server M} {action : Action M} (h : s.step action = some t) :
    s.StepTo action t := by
  cases action with
  | didOpen url text version =>
    simp only [step, Option.ite_none_right_eq_some, Option.some.injEq] at h
    obtain ⟨hfree, rfl⟩ := h
    exact .didOpen hfree
  | didChange url text version =>
    simp only [step, Option.ite_none_right_eq_some, Option.some.injEq] at h
    obtain ⟨hfree, rfl⟩ := h
    exact .didChange hfree
  | didClose url =>
    simp only [step, Option.ite_none_right_eq_some, Option.some.injEq] at h
    obtain ⟨hfree, rfl⟩ := h
    exact .didClose hfree
  | didChangeWatchedFiles fs busy events =>
    simp only [step] at h
    split at h
    · next hchanges =>
      cases h
      exact .unwatched (List.isEmpty_iff.mp hchanges)
    · next hchanges =>
      simp only [Option.ite_none_right_eq_some, Option.some.injEq, Bool.and_eq_true,
        Bool.or_eq_true, Bool.not_eq_true'] at h
      obtain ⟨⟨hfree, hbusy⟩, rfl⟩ := h
      exact .didChangeWatchedFiles (fun hnil => hchanges (List.isEmpty_iff.mpr hnil)) hfree hbusy
  | handle fs busy =>
    simp only [step, Option.ite_none_right_eq_some, Option.map_eq_some_iff, Bool.or_eq_true,
      Bool.not_eq_true'] at h
    obtain ⟨hbusy, handling, hhandling, rfl⟩ := h
    exact .handle hhandling hbusy
  | preflight i =>
    simp only [step, Option.map_eq_some_iff] at h
    obtain ⟨task, htask, rfl⟩ := h
    exact .preflight htask
  | capture i =>
    simp only [step, Option.map_eq_some_iff] at h
    obtain ⟨task, htask, rfl⟩ := h
    exact .capture htask
  | prepare w i =>
    simp only [step, Option.ite_none_right_eq_some, Option.map_eq_some_iff,
      Option.isNone_iff_eq_none] at h
    obtain ⟨hrunning, x, hx, rfl⟩ := h
    exact .prepare hrunning hx
  | analyze fs =>
    simp only [step, Option.bind_eq_some_iff] at h
    obtain ⟨r, hr, h⟩ := h
    split at h
    · next hstage =>
      cases h
      exact .analyze hr hstage
    · cases h
  | commit =>
    simp only [step, Option.bind_eq_some_iff] at h
    obtain ⟨r, hr, h⟩ := h
    split at h
    · next a hstage =>
      cases h
      exact .commit hr hstage
    · cases h
  | publish fs =>
    simp only [step, Option.bind_eq_some_iff] at h
    obtain ⟨r, hr, h⟩ := h
    split at h
    · next hstage =>
      simp only [Option.ite_none_right_eq_some, Option.some.injEq] at h
      obtain ⟨hfree, rfl⟩ := h
      exact .publish hr hstage hfree
    · cases h
  | reconcile =>
    simp only [step, Option.bind_eq_some_iff] at h
    obtain ⟨r, hr, h⟩ := h
    split at h
    · next root scope a diagnostics hstage =>
      cases h
      exact .reconcile hr hstage
    · cases h
  | bindingIndex =>
    simp only [step, Option.ite_none_left_eq_some, Option.some.injEq, Bool.not_eq_true] at h
    obtain ⟨hlock, rfl⟩ := h
    exact .bindingIndex hlock
  | chooseReadSource file =>
    simp only [step, Option.ite_none_left_eq_some, Option.some.injEq, Bool.not_eq_true] at h
    obtain ⟨hlock, rfl⟩ := h
    exact .chooseReadSource hlock

/-! ## Frames -/

theorem handling_of_publishFree {s : Server M} (h : s.publishFree = true) :
    s.handling = none := by
  unfold publishFree at h
  rw [Bool.and_eq_true, Option.isNone_iff_eq_none] at h
  exact h.1

theorem scheduleRecompute_frame (s : Server M) (file : Path) (rootEpoch : Option (Path × Nat))
    (scope : RecomputeScope) :
    ∃ editSeq sleeping, s.scheduleRecompute file rootEpoch scope =
      { s with editSeq, sleeping } := by
  cases rootEpoch with
  | none => exact ⟨_, _, rfl⟩
  | some rootEpoch => exact ⟨_, _, rfl⟩

theorem scheduleAll_frame (s : Server M) (schedules : List ScheduledRecompute) :
    ∃ editSeq sleeping, s.scheduleAll schedules = { s with editSeq, sleeping } := by
  induction schedules generalizing s with
  | nil => exact ⟨_, _, rfl⟩
  | cons schedule schedules ih =>
    obtain ⟨_, _, hone⟩ := s.scheduleRecompute_frame schedule.path schedule.rootEpoch .full
    obtain ⟨editSeq, sleeping, hrest⟩ :=
      ih (s.scheduleRecompute schedule.path schedule.rootEpoch .full)
    refine ⟨editSeq, sleeping, ?_⟩
    rw [scheduleAll, List.foldl_cons, ← scheduleAll, hrest, hone]

/-- What was sent grows by clears at most. -/
def OnlyClears (before after : List (Publish M)) : Prop :=
  after = before ∨ ∃ messages, after = .clear messages :: before

theorem sendClears_frame (s : Server M) (clears : List PublishedDiagnostics) :
    ∃ published, s.sendClears clears = { s with published } ∧
      OnlyClears s.published published := by
  unfold sendClears
  split
  · exact ⟨_, rfl, .inl rfl⟩
  · exact ⟨_, rfl, .inr ⟨_, rfl⟩⟩

theorem carryOut_frame (s : Server M) (effects : WatchedRootEffects) :
    ∃ editSeq sleeping published, s.carryOut effects = { s with editSeq, sleeping, published } ∧
      OnlyClears s.published published := by
  obtain ⟨published, hsend, hclears⟩ := s.sendClears_frame effects.immediateClears
  obtain ⟨editSeq, sleeping, hall⟩ :=
    (s.sendClears effects.immediateClears).scheduleAll_frame effects.schedules
  refine ⟨editSeq, sleeping, published, ?_, hclears⟩
  rw [carryOut, hall, hsend]

theorem finishEdit_frame (s : Server M) (busy : Bool) (path : Path) (scope : RecomputeScope) :
    ∃ tracker editSeq sleeping, s.finishEdit busy path scope =
      { s with handling := none, tracker, editSeq, sleeping } := by
  unfold finishEdit
  cases s.knownRoot busy path with
  | none => exact ⟨_, _, _, rfl⟩
  | some root => exact ⟨_, _, _, rfl⟩

theorem finishClose_frame (s : Server M) (busy : Bool) (url : Url) (path : Option Path) :
    ∃ tracker editSeq sleeping published, s.finishClose busy url path =
        { s with handling := none, tracker, editSeq, sleeping, published } ∧
      OnlyClears s.published published := by
  unfold finishClose
  cases path with
  | none => exact ⟨_, _, _, _, rfl, .inr ⟨_, rfl⟩⟩
  | some path =>
    rw [Option.bind_some]
    cases s.knownRoot busy path with
    | none => exact ⟨_, _, _, _, rfl, .inr ⟨_, rfl⟩⟩
    | some root => exact ⟨_, _, _, _, rfl, .inr ⟨_, rfl⟩⟩

theorem finishWatch_frame (s : Server M) (fs : Fs) (versions : DocumentVersions)
    (changes : List WatchedPathChange) :
    ∃ tracker editSeq sleeping published pending, s.finishWatch fs versions changes =
        { s with handling := none, tracker, editSeq, sleeping, published, pending } ∧
      pending = s.pending.or (busyEffects fs s.tracker versions changes).1.bits ∧
      OnlyClears s.published published := by
  obtain ⟨_, _, _, h, hclears⟩ := carryOut_frame
    { s with
      tracker := (busyEffects fs s.tracker versions changes).2
      handling := none
      pending := s.pending.or (busyEffects fs s.tracker versions changes).1.bits }
    (busyEffects fs s.tracker versions changes).1
  exact ⟨_, _, _, _, _, h, rfl, hclears⟩

/-- A handler's next step captures and computes nothing, and takes no pending bit away. -/
theorem handle_frame (s : Server M) (fs : Fs) (busy : Bool) (handling : Handling) :
    ∃ pending tracker editSeq sleeping handling' published, s.handle fs busy handling =
        { s with pending, tracker, editSeq, sleeping, handling := handling', published } ∧
      (s.pending.isPending = true → pending.isPending = true) ∧
      OnlyClears s.published published := by
  cases handling with
  | edit path scope =>
    obtain ⟨_, _, _, h⟩ := s.finishEdit_frame busy path scope
    exact ⟨_, _, _, _, _, _, h, id, .inl rfl⟩
  | close url path =>
    obtain ⟨_, _, _, _, h, hclears⟩ := s.finishClose_frame busy url path
    exact ⟨_, _, _, _, _, _, h, id, hclears⟩
  | watch changes versions preBits =>
    refine ⟨_, _, _, _, _, _, rfl, fun hpending => ?_, .inl rfl⟩
    simp [hpending]
  | watchAgain changes versions preBits =>
    obtain ⟨_, _, _, _, _, h, hbits, hclears⟩ := s.finishWatch_frame fs versions changes
    refine ⟨_, _, _, _, _, _, h, fun hpending => ?_, hclears⟩
    simp [hbits, hpending]

end Server

/-! ## Invalidations -/

/-- The workspace after some invalidations, or the same. -/
def Workspace.Invalidated (ws ws' : Workspace M) : Prop :=
  ws' = ws ∨ ws.invalidationEpoch < ws'.invalidationEpoch ∧ ws'.latest = none

namespace Workspace

theorem Invalidated.trans {ws ws' ws'' : Workspace M} (h : ws.Invalidated ws')
    (h' : ws'.Invalidated ws'') : ws.Invalidated ws'' := by
  rcases h' with rfl | ⟨hlt', hlatest⟩
  · exact h
  · refine .inr ⟨?_, hlatest⟩
    rcases h with rfl | ⟨hlt, -⟩
    · exact hlt'
    · exact hlt.trans hlt'

theorem invalidated_invalidateProject (ws : Workspace M) :
    ws.Invalidated ws.invalidateProject :=
  .inr ⟨by simp, rfl⟩

theorem invalidated_invalidateAnalysis (ws : Workspace M) :
    ws.Invalidated ws.invalidateAnalysis :=
  .inr ⟨by simp, invalidateAnalysis_latest ws⟩

end Workspace

theorem invalidated_applyPending (bits : PendingInvalidation) (ws : Workspace M) :
    ws.Invalidated (applyPendingWorkspaceInvalidation bits ws) := by
  unfold applyPendingWorkspaceInvalidation
  split
  · exact ws.invalidated_invalidateProject
  · split
    · exact ws.invalidated_invalidateAnalysis
    · exact .inl rfl

/-- Applying raised bits invalidates. -/
theorem epoch_lt_applyPending {bits : PendingInvalidation} (h : bits.isPending = true)
    (ws : Workspace M) :
    ws.invalidationEpoch < (applyPendingWorkspaceInvalidation bits ws).invalidationEpoch ∧
      (applyPendingWorkspaceInvalidation bits ws).latest = none := by
  unfold applyPendingWorkspaceInvalidation
  split
  · exact ⟨by simp, rfl⟩
  · next hproject =>
    have hanalysis : bits.analysis = true := by
      rw [Bool.not_eq_true] at hproject
      simpa [PendingInvalidation.isPending, hproject] using h
    rw [if_pos hanalysis]
    exact ⟨by simp, Workspace.invalidateAnalysis_latest ws⟩

@[simp] theorem applyPending_none (ws : Workspace M) :
    applyPendingWorkspaceInvalidation .none ws = ws := rfl

namespace Server

theorem watchFree_frame (s : Server M) (versions : DocumentVersions)
    (changes : List WatchedPathChange) :
    ∃ workspace tracker editSeq sleeping published, s.watchFree versions changes =
        { s with pending := .none, workspace, tracker, editSeq, sleeping, published } ∧
      (applyPendingWorkspaceInvalidation s.pending s.workspace).Invalidated workspace ∧
      OnlyClears s.published published := by
  unfold watchFree
  generalize applyPendingWorkspaceInvalidation s.pending s.workspace = ws
  dsimp only
  split
  · exact ⟨ws, s.tracker, s.editSeq, s.sleeping, s.published, rfl, .inl rfl, .inl rfl⟩
  · generalize freeEffects s.tracker ws versions changes = result
    obtain ⟨_, _, _, h, hclears⟩ := carryOut_frame
      { s with pending := .none, workspace := invalidateFor result.1 ws, tracker := result.2 }
      result.1
    refine ⟨_, _, _, _, _, h, ?_, hclears⟩
    dsimp only
    unfold invalidateFor
    split
    · exact ws.invalidated_invalidateProject
    · split
      · exact ws.invalidated_invalidateAnalysis
      · exact .inl rfl

/-- A watched batch captures and computes nothing; found busy it takes no pending bit
away, found free it drains them. -/
theorem didChangeWatchedFiles_frame (s : Server M) (fs : Fs) (busy : Bool)
    (changes : List WatchedPathChange) :
    ∃ workspace pending tracker editSeq sleeping handling published,
      s.didChangeWatchedFiles fs busy changes =
        { s with workspace, pending, tracker, editSeq, sleeping, handling, published } ∧
      (workspace = s.workspace ∧ (s.pending.isPending = true → pending.isPending = true) ∨
        busy = false ∧
          (applyPendingWorkspaceInvalidation s.pending s.workspace).Invalidated workspace) ∧
      OnlyClears s.published published := by
  cases busy with
  | true =>
    refine ⟨_, _, _, _, _, _, _, rfl, .inl ⟨rfl, fun hpending => ?_⟩, .inl rfl⟩
    simp [hpending]
  | false =>
    obtain ⟨workspace, _, _, _, _, h, hinvalidated, hclears⟩ :=
      s.watchFree_frame (openDocumentVersions (s.documents.analysisSnapshot M)) changes
    exact ⟨_, _, _, _, _, _, _, h, .inr ⟨rfl, hinvalidated⟩, hclears⟩

end Server

/-- The steps of the recompute that holds the run lock. -/
def Action.isRun : Action M → Bool
  | .prepare .. | .analyze .. | .commit | .publish .. | .reconcile => true
  | _ => false

namespace Server

/-- What a step that is not the running recompute's can do to it and the workspace. -/
structure Outside (s t : Server M) : Prop where
  running : t.running = s.running
  workspace : t.workspace = s.workspace ∨ s.analysisLocked = false ∧
    (s.publishFree = true ∧ s.workspace.Invalidated t.workspace ∨
      t.workspace = s.workspace.withBindingIndex)

theorem outside_handle (s : Server M) (fs : Fs) (busy : Bool) (handling : Handling) :
    s.Outside (s.handle fs busy handling) := by
  obtain ⟨_, _, _, _, _, _, h, -, -⟩ := s.handle_frame fs busy handling
  rw [h]
  exact ⟨rfl, .inl rfl⟩

theorem outside_didChangeWatchedFiles (s : Server M) (fs : Fs) {busy : Bool}
    (changes : List WatchedPathChange) (hfree : s.publishFree = true)
    (hbusy : busy = true ∨ s.analysisLocked = false) :
    s.Outside (s.didChangeWatchedFiles fs busy changes) := by
  obtain ⟨_, _, _, _, _, _, _, h, hws, -⟩ := s.didChangeWatchedFiles_frame fs busy changes
  rw [h]
  rcases hws with ⟨hsame, -⟩ | ⟨hnot, hinvalidated⟩
  · exact ⟨rfl, .inl hsame⟩
  · have hlock : s.analysisLocked = false := by simpa [hnot] using hbusy
    exact ⟨rfl,
      .inr ⟨hlock, .inl ⟨hfree, (invalidated_applyPending _ _).trans hinvalidated⟩⟩⟩

theorem preflight_frame (s : Server M) (i : Nat) (task : Task) :
    ∃ awake, s.preflight i task = { s with sleeping := s.sleeping.eraseIdx i, awake } := by
  unfold preflight
  dsimp only
  split
  · exact ⟨_, rfl⟩
  · exact ⟨_, rfl⟩

theorem outside_of_step {s t : Server M} {action : Action M} (h : s.step action = some t)
    (haction : action.isRun = false) : s.Outside t := by
  cases stepTo_of_step h with
  | didOpen | didChange | didClose | unwatched | capture => exact ⟨rfl, .inl rfl⟩
  | didChangeWatchedFiles _ hfree hbusy => exact s.outside_didChangeWatchedFiles _ _ hfree hbusy
  | handle => exact s.outside_handle _ _ _
  | preflight =>
    obtain ⟨_, heq⟩ := s.preflight_frame _ _
    rw [heq]
    exact ⟨rfl, .inl rfl⟩
  | bindingIndex hlock => exact ⟨rfl, .inr ⟨hlock, .inr rfl⟩⟩
  | chooseReadSource hlock =>
    rcases s.workspace.chooseReadSource_workspace _ with heq | heq
    · exact ⟨rfl, .inl heq⟩
    · exact ⟨rfl, .inr ⟨hlock, .inr heq⟩⟩
  | prepare | analyze | commit | publish | reconcile => cases haction

end Server

/-! ## The outcomes of a recompute's steps -/

namespace Server

/-- A prepare takes a waiting task, drains the pending bits and starts its run, or ends
with the task. -/
theorem prepare_cases (s : Server M) (w : World M) (i : Nat) (x : Waiting) :
    ∃ workspace running, s.prepare w i x =
        { s with pending := .none, workspace, waiting := s.waiting.eraseIdx i, running } ∧
      workspace = ((applyPendingWorkspaceInvalidation s.pending s.workspace).prepareRecompute w
        x.task.file x.documents x.task.scope).workspace ∧
      (running = s.running ∨ ∃ run,
        ((applyPendingWorkspaceInvalidation s.pending s.workspace).prepareRecompute w
          x.task.file x.documents x.task.scope).result = .ok run ∧
        running = some ⟨x.task, x.documents, run, .prepared⟩) := by
  unfold prepare
  cases hresult : ((applyPendingWorkspaceInvalidation s.pending s.workspace).prepareRecompute w
      x.task.file x.documents x.task.scope).result with
  | error e => exact ⟨_, s.running, by simp [hresult], rfl, .inl rfl⟩
  | ok run => exact ⟨_, _, by simp [hresult], rfl, .inr ⟨run, rfl, rfl⟩⟩

theorem analyze_cases (s : Server M) (fs : Fs) (r : Running M) :
    (∃ e, r.run.analyze fs = .error e ∧ s.analyze fs r = { s with running := none }) ∨
    ∃ a, r.run.analyze fs = .ok a ∧
      s.analyze fs r = { s with running := some { r with stage := .analyzed a } } := by
  unfold analyze
  cases h : r.run.analyze fs with
  | error e => exact .inl ⟨e, rfl, rfl⟩
  | ok a => exact .inr ⟨a, rfl, rfl⟩

/-- A commit abandons an invalidated run, drops a refused one, or installs the
analysis and keeps the lock. -/
theorem commit_cases (s : Server M) (r : Running M) (a : Analysis M) :
    (s.pending.isPending = true ∧ s.commit r a = s.abandon) ∨
    s.pending.isPending = false ∧
      ((s.workspace.admits r.run.documentsGeneration r.run.invalidationEpoch = false ∧
        s.commit r a = { s with running := none }) ∨
      ∃ project, s.workspace.admits r.run.documentsGeneration r.run.invalidationEpoch = true ∧
        s.workspace.project = some project ∧
        s.commit r a =
          { s with
            workspace := s.workspace.install project r.run.documentsGeneration a
            running := some { r with stage := .committed } }) := by
  unfold commit
  cases hpending : s.pending.isPending with
  | true => exact .inl ⟨rfl, rfl⟩
  | false =>
    refine .inr ⟨rfl, ?_⟩
    rcases s.workspace.commitRecompute_cases r.run.documentsGeneration r.run.invalidationEpoch a
      with ⟨hadmits, heq⟩ | ⟨project, hadmits, hproject, heq⟩
    · exact .inl ⟨hadmits, by simp [heq]⟩
    · exact .inr ⟨project, hadmits, hproject, by simp [heq]⟩

/-- A publish abandons an invalidated run, drops one whose buffers have moved, or goes
on with the latest analysis of the resolved project. -/
theorem publish_cases (s : Server M) (fs : Fs) (r : Running M) :
    (s.pending.isPending = true ∧ s.publish fs r = s.abandon) ∨
    s.pending.isPending = false ∧
      ((s.documents.matchesGeneration r.documents = false ∧
        s.publish fs r = { s with running := none }) ∨
      s.documents.matchesGeneration r.documents = true ∧
        (((s.workspace.project = none ∨ s.workspace.latest = none) ∧
          s.publish fs r = { s with running := none }) ∨
        ∃ project a, s.workspace.project = some project ∧ s.workspace.latest = some a ∧
          s.publish fs r =
            { s with
              running := some
                { r with
                  stage := .publishing project.root (reconcileScope r.run a) a
                    (diagnosticsByUrl fs r.documents project a) } })) := by
  unfold publish
  cases hpending : s.pending.isPending with
  | true => exact .inl ⟨rfl, rfl⟩
  | false =>
    refine .inr ⟨rfl, ?_⟩
    cases hmatch : s.documents.matchesGeneration r.documents with
    | false => exact .inl ⟨rfl, rfl⟩
    | true =>
      refine .inr ⟨rfl, ?_⟩
      cases hproject : s.workspace.project with
      | none => exact .inl ⟨.inl rfl, rfl⟩
      | some project =>
        cases hlatest : s.workspace.latest with
        | none => exact .inl ⟨.inr rfl, rfl⟩
        | some a => exact .inr ⟨project, a, rfl, rfl, rfl⟩

/-- A reconcile ends the run: abandoned, stale, or published. -/
theorem reconcile_cases (s : Server M) (r : Running M) (root : Path) (scope : ReconcileScope)
    (a : Analysis M) (diagnostics : DiagnosticsByUrl) :
    (s.pending.isPending = true ∧ s.reconcile r root scope a diagnostics = s.abandon) ∨
    s.pending.isPending = false ∧
      ((s.tracker.epoch root ≠ s.publishEpoch r.task root ∧
        s.reconcile r root scope a diagnostics = { s with running := none }) ∨
      ∃ published tracker, s.tracker.reconcileSuccess root (s.publishEpoch r.task root) scope
          diagnostics = some (published, tracker) ∧
        s.reconcile r root scope a diagnostics =
          { s with
            tracker
            running := none
            published := .recompute root a r.documents (messages r.documents published) ::
              s.published }) := by
  unfold reconcile
  cases hpending : s.pending.isPending with
  | true => exact .inl ⟨rfl, rfl⟩
  | false =>
    refine .inr ⟨rfl, ?_⟩
    cases hreconcile : s.tracker.reconcileSuccess root (s.publishEpoch r.task root) scope
        diagnostics with
    | none =>
      exact .inl ⟨DiagnosticsTracker.reconcileSuccess_eq_none_iff.mp hreconcile, rfl⟩
    | some result => exact .inr ⟨result.1, result.2, rfl, rfl⟩

theorem running_reconcile (s : Server M) (r : Running M) (root : Path) (scope : ReconcileScope)
    (a : Analysis M) (diagnostics : DiagnosticsByUrl) :
    (s.reconcile r root scope a diagnostics).running = none := by
  rcases s.reconcile_cases r root scope a diagnostics with
    ⟨-, heq⟩ | ⟨-, ⟨-, heq⟩ | ⟨_, _, -, heq⟩⟩
  · rw [heq]
    rfl
  · rw [heq]
  · rw [heq]

/-- The steps of a recompute leave the buffers, the handler at work and the tasks that
have captured nothing alone, move no epoch, and only a prepare takes a waiting task. -/
theorem run_frame {s t : Server M} {action : Action M} (hstep : s.step action = some t)
    (haction : action.isRun = true) :
    ∃ workspace pending tracker waiting running published,
      t = { s with workspace, pending, tracker, waiting, running, published } ∧
        (∀ root, tracker.epoch root = s.tracker.epoch root) ∧
        (waiting = s.waiting ∨ ∃ w i, action = .prepare w i ∧ waiting = s.waiting.eraseIdx i) := by
  cases stepTo_of_step hstep with
  | @prepare w i x _ _ =>
    obtain ⟨_, _, heq, -, -⟩ := s.prepare_cases w i x
    exact ⟨_, _, _, _, _, _, heq, fun _ => rfl, .inr ⟨w, i, rfl, rfl⟩⟩
  | @analyze fs r _ _ =>
    rcases s.analyze_cases fs r with ⟨e, -, heq⟩ | ⟨a, -, heq⟩
    · exact ⟨_, _, _, _, _, _, heq, fun _ => rfl, .inl rfl⟩
    · exact ⟨_, _, _, _, _, _, heq, fun _ => rfl, .inl rfl⟩
  | @commit r a _ _ =>
    rcases s.commit_cases r a with ⟨-, heq⟩ | ⟨-, ⟨-, heq⟩ | ⟨_, -, -, heq⟩⟩
    · exact ⟨_, _, _, _, _, _, heq, fun _ => rfl, .inl rfl⟩
    · exact ⟨_, _, _, _, _, _, heq, fun _ => rfl, .inl rfl⟩
    · exact ⟨_, _, _, _, _, _, heq, fun _ => rfl, .inl rfl⟩
  | @publish fs r _ _ _ =>
    rcases s.publish_cases fs r with
      ⟨-, heq⟩ | ⟨-, ⟨-, heq⟩ | ⟨-, ⟨-, heq⟩ | ⟨_, _, -, -, heq⟩⟩⟩
    · exact ⟨_, _, _, _, _, _, heq, fun _ => rfl, .inl rfl⟩
    · exact ⟨_, _, _, _, _, _, heq, fun _ => rfl, .inl rfl⟩
    · exact ⟨_, _, _, _, _, _, heq, fun _ => rfl, .inl rfl⟩
    · exact ⟨_, _, _, _, _, _, heq, fun _ => rfl, .inl rfl⟩
  | @reconcile r root scope a diagnostics _ _ =>
    rcases s.reconcile_cases r root scope a diagnostics with
      ⟨-, heq⟩ | ⟨-, ⟨-, heq⟩ | ⟨_, _, hreconcile, heq⟩⟩
    · exact ⟨_, _, _, _, _, _, heq, fun _ => rfl, .inl rfl⟩
    · exact ⟨_, _, _, _, _, _, heq, fun _ => rfl, .inl rfl⟩
    · exact ⟨_, _, _, _, _, _, heq,
        (DiagnosticsTracker.epoch_of_reconcileSuccess hreconcile).2, .inl rfl⟩
  | _ => cases haction

/-! ## The workspace and the run after a step -/

/-- What a step does to the epoch and the latest analysis: it applies an invalidation,
or keeps both and any pending bit, or installs the analysis of a run that nothing has
invalidated. -/
inductive WorkspaceStep (s t : Server M) : Prop where
  | invalidated (hlt : s.workspace.invalidationEpoch < t.workspace.invalidationEpoch)
      (hlatest : t.workspace.latest = none)
  | kept (hepoch : t.workspace.invalidationEpoch = s.workspace.invalidationEpoch)
      (hpending : s.pending.isPending = true → t.pending.isPending = true)
      (hlatest : t.workspace.latest = s.workspace.latest)
      (hgeneration :
        t.workspace.latestDocumentsGeneration = s.workspace.latestDocumentsGeneration)
  | installed {r : Running M} {a : Analysis M}
      (hepoch : t.workspace.invalidationEpoch = s.workspace.invalidationEpoch)
      (hpending : s.pending.isPending = false) (hr : s.running = some r)
      (hstage : r.stage = .analyzed a)
      (hrun : r.run.invalidationEpoch = s.workspace.invalidationEpoch)
      (hlatest : t.workspace.latest = some a)
      (hgeneration : t.workspace.latestDocumentsGeneration = some r.run.documentsGeneration)
      (ht : t.running = some { r with stage := .committed })

/-- Draining the bits applies an invalidation or finds nothing to apply. -/
theorem WorkspaceStep.of_drained {s t : Server M}
    (h : (applyPendingWorkspaceInvalidation s.pending s.workspace).Invalidated t.workspace) :
    s.WorkspaceStep t := by
  cases hpending : s.pending.isPending with
  | true =>
    obtain ⟨hlt, hlatest⟩ := epoch_lt_applyPending hpending s.workspace
    rcases h with heq | ⟨hlt', hlatest'⟩
    · rw [← heq] at hlt hlatest
      exact .invalidated hlt hlatest
    · exact .invalidated (hlt.trans hlt') hlatest'
  | false =>
    rw [PendingInvalidation.eq_none_of_isPending hpending, applyPending_none] at h
    rcases h with heq | ⟨hlt, hlatest⟩
    · refine .kept (by rw [heq]) (fun htrue => ?_) (by rw [heq]) (by rw [heq])
      rw [hpending] at htrue
      cases htrue
    · exact .invalidated hlt hlatest

theorem WorkspaceStep.of_same {s t : Server M} (hws : t.workspace = s.workspace)
    (hpending : s.pending.isPending = true → t.pending.isPending = true) : s.WorkspaceStep t :=
  .kept (by rw [hws]) hpending (by rw [hws]) (by rw [hws])

theorem workspaceStep_of_step {s t : Server M} {action : Action M}
    (hstep : s.step action = some t) : s.WorkspaceStep t := by
  cases stepTo_of_step hstep with
  | didOpen | didChange | didClose | unwatched | capture => exact .of_same rfl id
  | didChangeWatchedFiles =>
    obtain ⟨_, _, _, _, _, _, _, heq, hws, -⟩ := s.didChangeWatchedFiles_frame _ _ _
    rw [heq]
    rcases hws with ⟨hsame, hpending⟩ | ⟨-, hinvalidated⟩
    · exact .of_same hsame hpending
    · exact .of_drained hinvalidated
  | handle =>
    obtain ⟨_, _, _, _, _, _, heq, hpending, -⟩ := s.handle_frame _ _ _
    rw [heq]
    exact .of_same rfl hpending
  | preflight =>
    obtain ⟨_, heq⟩ := s.preflight_frame _ _
    rw [heq]
    exact .of_same rfl id
  | @prepare w i x hrunning _ =>
    obtain ⟨workspace, running, heq, hws, -⟩ := s.prepare_cases w i x
    obtain ⟨_, _, hframe⟩ := (applyPendingWorkspaceInvalidation s.pending s.workspace
      ).prepareRecompute_frame w x.task.file x.documents x.task.scope
    -- A prepare drains the bits first, and keeps what the drain leaves.
    have hdrained : s.WorkspaceStep { s with
        pending := .none
        workspace := applyPendingWorkspaceInvalidation s.pending s.workspace } :=
      .of_drained (.inl rfl)
    rw [heq, hws, hframe]
    cases hdrained with
    | invalidated hlt hlatest => exact .invalidated hlt hlatest
    | kept hepoch hpending hlatest hgeneration => exact .kept hepoch hpending hlatest hgeneration
    | installed _ _ hr =>
      rw [hrunning] at hr
      cases hr
  | @analyze fs r _ _ =>
    rcases s.analyze_cases fs r with ⟨e, -, heq⟩ | ⟨a, -, heq⟩ <;> rw [heq]
    · exact .of_same rfl id
    · exact .of_same rfl id
  | @commit r a hr hstage =>
    rcases s.commit_cases r a with ⟨-, heq⟩ | ⟨hpending, ⟨-, heq⟩ | ⟨project, hadmits, -, heq⟩⟩ <;>
      rw [heq]
    · exact .of_drained (.inl rfl)
    · exact .of_same rfl id
    · obtain ⟨hepoch, -, -⟩ := Workspace.admits_iff.mp hadmits
      exact .installed (by simp) hpending hr hstage hepoch.symm rfl rfl rfl
  | @publish fs r _ _ _ =>
    rcases s.publish_cases fs r with
      ⟨-, heq⟩ | ⟨-, ⟨-, heq⟩ | ⟨-, ⟨-, heq⟩ | ⟨_, _, -, -, heq⟩⟩⟩ <;> rw [heq]
    · exact .of_drained (.inl rfl)
    · exact .of_same rfl id
    · exact .of_same rfl id
    · exact .of_same rfl id
  | @reconcile r root scope a diagnostics _ _ =>
    rcases s.reconcile_cases r root scope a diagnostics with
      ⟨-, heq⟩ | ⟨-, ⟨-, heq⟩ | ⟨_, _, -, heq⟩⟩ <;> rw [heq]
    · exact .of_drained (.inl rfl)
    · exact .of_same rfl id
    · exact .of_same rfl id
  | bindingIndex _ =>
    rcases s.workspace.withBindingIndex_cases with heq | ⟨_, _, -, -, -, heq⟩ <;> rw [heq]
    · exact .of_same rfl id
    · exact .kept rfl id rfl rfl
  | @chooseReadSource file _ =>
    rcases s.workspace.chooseReadSource_workspace file with heq | heq <;> rw [heq]
    · exact .of_same rfl id
    · rcases s.workspace.withBindingIndex_cases with heq | ⟨_, _, -, -, -, heq⟩ <;> rw [heq]
      · exact .of_same rfl id
      · exact .kept rfl id rfl rfl

/-- What becomes of the run that holds the lock: it goes on under its task and buffers,
with its stage, a stage before publishing or the diagnostics it is to publish, or it is
the run of a waiting task. -/
inductive RunStep (s : Server M) (action : Action M) (r : Running M) : Prop where
  | goes {r' : Running M} (hr : s.running = some r') (htask : r.task = r'.task)
      (hdocuments : r.documents = r'.documents) (hrun : r.run = r'.run)
      (hstage : r.stage = r'.stage ∨ (∃ a, r.stage = .analyzed a) ∨ r.stage = .committed ∨
        ∃ fs project a, r'.stage = .committed ∧ s.workspace.project = some project ∧
          s.workspace.latest = some a ∧
          r.stage = .publishing project.root (reconcileScope r.run a) a
            (diagnosticsByUrl fs r.documents project a))
  | prepared {w : World M} {i : Nat} {x : Waiting} (haction : action = .prepare w i)
      (hrunning : s.running = none) (hx : s.waiting[i]? = some x) (htask : r.task = x.task)
      (hdocuments : r.documents = x.documents) (hstage : r.stage = .prepared)
      (hrun : ((applyPendingWorkspaceInvalidation s.pending s.workspace).prepareRecompute w
        x.task.file x.documents x.task.scope).result = .ok r.run)

theorem runStep_of_step {s t : Server M} {action : Action M} (hstep : s.step action = some t)
    {r : Running M} (hr : t.running = some r) : s.RunStep action r := by
  cases haction : action.isRun with
  | false =>
    rw [(outside_of_step hstep haction).running] at hr
    exact .goes hr rfl rfl rfl (.inl rfl)
  | true =>
    cases stepTo_of_step hstep with
    | @prepare w i x hrunning hx =>
      obtain ⟨_, _, heq, -, hrun⟩ := s.prepare_cases w i x
      rw [heq] at hr
      rcases hrun with rfl | ⟨run, hresult, rfl⟩
      · exact .goes hr rfl rfl rfl (.inl rfl)
      · cases hr
        exact .prepared rfl hrunning hx rfl rfl rfl hresult
    | @analyze fs r' hr' _ =>
      rcases s.analyze_cases fs r' with ⟨e, -, heq⟩ | ⟨a, -, heq⟩ <;> rw [heq] at hr <;> cases hr
      exact .goes hr' rfl rfl rfl (.inr (.inl ⟨a, rfl⟩))
    | @commit r' a hr' _ =>
      rcases s.commit_cases r' a with ⟨-, heq⟩ | ⟨-, ⟨-, heq⟩ | ⟨_, -, -, heq⟩⟩ <;>
        rw [heq] at hr <;> cases hr
      exact .goes hr' rfl rfl rfl (.inr (.inr (.inl rfl)))
    | @publish fs r' hr' hcommitted _ =>
      rcases s.publish_cases fs r' with
        ⟨-, heq⟩ | ⟨-, ⟨-, heq⟩ | ⟨-, ⟨-, heq⟩ | ⟨project, a, hproject, hlatest, heq⟩⟩⟩ <;>
        rw [heq] at hr <;> cases hr
      exact .goes hr' rfl rfl rfl
        (.inr (.inr (.inr ⟨fs, project, a, hcommitted, hproject, hlatest, rfl⟩)))
    | reconcile =>
      rw [running_reconcile] at hr
      cases hr
    | _ => cases haction

/-- A run after a step was there before it or has just been prepared. -/
theorem run_of_step {s t : Server M} {action : Action M} (hstep : s.step action = some t)
    {r : Running M} (hr : t.running = some r) :
    (∃ r', s.running = some r' ∧ r'.run = r.run) ∨
      s.running = none ∧ ∃ w i, action = .prepare w i := by
  cases runStep_of_step hstep hr with
  | goes hr' _ _ hrun _ => exact .inl ⟨_, hr', hrun.symm⟩
  | prepared haction hrunning => exact .inr ⟨hrunning, _, _, haction⟩

end Server

end MarrowLsp
