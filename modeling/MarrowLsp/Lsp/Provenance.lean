-- SUMMARY: Where the server's analyses come from: the run that holds the lock, the buffers every recompute captured, and the run behind the latest analysis.
import MarrowLsp.Lsp.Steps

/-!
# Provenance

The invariants the results about the server share: the run with the lock agrees with
the workspace, the latest analysis was installed by a run of its own buffers, and
whatever carries the current document generation carries the current buffers.
-/
namespace MarrowLsp

open Transition

variable {M : Marrow}

/-! ## The run with the lock -/

/-- The project a run was prepared for. -/
def PreparedRecompute.project (p : PreparedRecompute M) : Project M := ⟨p.root, p.config⟩

/-- The run was prepared from these buffers. -/
structure PreparedRecompute.IsFrom (p : PreparedRecompute M)
    (documents : DocumentAnalysisSnapshot) : Prop where
  generation : p.documentsGeneration = documents.generation
  sources : p.sources = overlaySnapshot p.root documents

theorem PreparedRecompute.isFrom_of_prepare {ws : Workspace M} {w : World M} {file : Path}
    {documents : DocumentAnalysisSnapshot} {scope : RecomputeScope} {p : PreparedRecompute M}
    (h : (ws.prepareRecompute w file documents scope).result = .ok p) : p.IsFrom documents := by
  obtain ⟨project, cache, binding, -, -, -, rfl⟩ := Workspace.project_of_prepareRecompute h
  exact ⟨rfl, rfl⟩

/-- How the stage of a run agrees with the workspace it runs on. -/
def RunStage.Coherent (ws : Workspace M) (run : PreparedRecompute M) : RunStage M → Prop
  | .prepared => True
  | .analyzed a => a.prepared = run
  | .committed => ∃ a, ws.latest = some a ∧ a.prepared = run ∧
      ws.latestDocumentsGeneration = some run.documentsGeneration ∧
      ws.project = some run.project ∧ ws.invalidationEpoch = run.invalidationEpoch
  | .publishing root _ a _ => a.prepared = run ∧ root = run.root ∧
      ws.invalidationEpoch = run.invalidationEpoch

/-- The run agrees with the buffers it captured and with the workspace: until it is
invalidated the resolved project is its own. -/
structure Running.Coherent (ws : Workspace M) (r : Running M) : Prop where
  isFrom : r.run.IsFrom r.documents
  epoch : r.run.invalidationEpoch ≤ ws.invalidationEpoch
  project : ws.invalidationEpoch = r.run.invalidationEpoch → ws.project = some r.run.project
  stage : r.stage.Coherent ws r.run

/-- The lock a stage keeps invalidations out with. -/
def RunStage.holdsAnalysis : RunStage M → Bool
  | .committed => true
  | _ => false

def RunStage.holdsPublish : RunStage M → Bool
  | .publishing .. => true
  | _ => false

theorem Running.Coherent.invalidated {ws ws' : Workspace M} {r : Running M}
    (h : r.Coherent ws) (hinvalidated : ws.Invalidated ws')
    (hanalysis : r.stage.holdsAnalysis = false) (hpublish : r.stage.holdsPublish = false) :
    r.Coherent ws' := by
  rcases hinvalidated with rfl | ⟨hlt, -⟩
  · exact h
  · have hepoch := h.epoch
    refine ⟨h.isFrom, hepoch.trans hlt.le, fun heq => by omega, ?_⟩
    have hstage := h.stage
    revert hstage hanalysis hpublish
    cases r.stage with
    | prepared => exact fun _ _ _ => trivial
    | analyzed a => exact fun _ _ ha => ha
    | committed => exact fun hanalysis => by cases hanalysis
    | publishing => exact fun _ hpublish => by cases hpublish

theorem Running.Coherent.withBindingIndex {ws : Workspace M} {r : Running M}
    (h : r.Coherent ws) : r.Coherent ws.withBindingIndex := by
  rcases ws.withBindingIndex_cases with heq | ⟨a, project, -, -, -, heq⟩
  · rwa [heq]
  · rw [heq]
    refine ⟨h.isFrom, h.epoch, h.project, ?_⟩
    have hstage := h.stage
    revert hstage
    cases r.stage with
    | prepared => exact fun _ => trivial
    | analyzed | committed | publishing => exact id

namespace Server

def Coherent (s : Server M) : Prop := ∀ r, s.running = some r → r.Coherent s.workspace

theorem coherent_new : (new : Server M).Coherent := by
  intro r h
  cases h

theorem holdsAnalysis_of_unlocked {s : Server M} {r : Running M} (hr : s.running = some r)
    (h : s.analysisLocked = false) : r.stage.holdsAnalysis = false := by
  unfold analysisLocked at h
  rw [hr, Option.any_some] at h
  unfold RunStage.holdsAnalysis
  cases hstage : r.stage with
  | committed => simp [hstage] at h
  | prepared | analyzed | publishing => rfl

theorem holdsPublish_of_publishFree {s : Server M} {r : Running M} (hr : s.running = some r)
    (h : s.publishFree = true) : r.stage.holdsPublish = false := by
  unfold publishFree at h
  rw [hr, Option.any_some] at h
  unfold RunStage.holdsPublish
  cases hstage : r.stage with
  | publishing => simp [hstage] at h
  | prepared | analyzed | committed => rfl

theorem coherent_of_outside {s t : Server M} (h : s.Coherent) (hout : s.Outside t) :
    t.Coherent := by
  intro r hr
  rw [hout.running] at hr
  rcases hout.workspace with heq | ⟨hlock, ⟨hfree, hinvalidated⟩ | hindex⟩
  · rw [heq]
    exact h r hr
  · exact (h r hr).invalidated hinvalidated (holdsAnalysis_of_unlocked hr hlock)
      (holdsPublish_of_publishFree hr hfree)
  · rw [hindex]
    exact (h r hr).withBindingIndex

theorem coherent_of_running_none {s : Server M} (h : s.running = none) : s.Coherent := by
  intro r hr
  rw [h] at hr
  cases hr

theorem coherent_prepare {s : Server M} (w : World M) (i : Nat) (x : Waiting)
    (hrunning : s.running = none) : (s.prepare w i x).Coherent := by
  obtain ⟨workspace, running, heq, hws, hrun⟩ := s.prepare_cases w i x
  rw [heq]
  rcases hrun with rfl | ⟨run, hresult, rfl⟩
  · exact coherent_of_running_none hrunning
  · rintro r ⟨⟩
    obtain ⟨project, cache, binding, -, -, hproject, hp⟩ :=
      Workspace.project_of_prepareRecompute hresult
    obtain ⟨_, _, hframe⟩ := (applyPendingWorkspaceInvalidation s.pending s.workspace
      ).prepareRecompute_frame w x.task.file x.documents x.task.scope
    have hepoch : workspace.invalidationEpoch = run.invalidationEpoch := by
      rw [hws, hframe, hp]
    refine ⟨PreparedRecompute.isFrom_of_prepare hresult, hepoch.ge, fun _ => ?_, trivial⟩
    rw [hws, hproject, hp]
    rfl

theorem coherent_commit {s : Server M} (h : s.Coherent) {r : Running M} {a : Analysis M}
    (hr : s.running = some r) (hstage : r.stage = .analyzed a) : (s.commit r a).Coherent := by
  have hcoherent := h r hr
  have ha : a.prepared = r.run := by
    have := hcoherent.stage
    rwa [hstage] at this
  rcases s.commit_cases r a with ⟨-, heq⟩ | ⟨-, ⟨-, heq⟩ | ⟨project, hadmits, hproject, heq⟩⟩
  · rw [heq]
    exact coherent_of_running_none rfl
  · rw [heq]
    exact coherent_of_running_none rfl
  · rw [heq]
    obtain ⟨hepoch, -, -⟩ := Workspace.admits_iff.mp hadmits
    have hown := hcoherent.project hepoch
    rintro r' ⟨⟩
    exact ⟨hcoherent.isFrom, by simp [hepoch], fun _ => by simpa using hown, a, rfl, ha, rfl,
      by simpa using hown, by simpa using hepoch⟩

theorem coherent_publish {s : Server M} (h : s.Coherent) (fs : Fs) {r : Running M}
    (hr : s.running = some r) (hstage : r.stage = .committed) : (s.publish fs r).Coherent := by
  have hcoherent := h r hr
  have hinstalled := hcoherent.stage
  rw [hstage] at hinstalled
  obtain ⟨a, hlatest, ha, -, hproject, hepoch⟩ := hinstalled
  rcases s.publish_cases fs r with
    ⟨-, heq⟩ | ⟨-, ⟨-, heq⟩ | ⟨-, ⟨-, heq⟩ | ⟨project', a', hproject', hlatest', heq⟩⟩⟩
  · rw [heq]
    exact coherent_of_running_none rfl
  · rw [heq]
    exact coherent_of_running_none rfl
  · rw [heq]
    exact coherent_of_running_none rfl
  · rw [hproject] at hproject'
    rw [hlatest] at hlatest'
    cases hproject'
    cases hlatest'
    rw [heq]
    rintro r' ⟨⟩
    exact ⟨hcoherent.isFrom, hcoherent.epoch, hcoherent.project, ha, rfl, hepoch⟩

theorem coherent_analyze {s : Server M} (h : s.Coherent) (fs : Fs) {r : Running M}
    (hr : s.running = some r) : (s.analyze fs r).Coherent := by
  rcases s.analyze_cases fs r with ⟨e, -, heq⟩ | ⟨a, ha, heq⟩
  · rw [heq]
    exact coherent_of_running_none rfl
  · rw [heq]
    rintro r' ⟨⟩
    have hcoherent := h r hr
    exact ⟨hcoherent.isFrom, hcoherent.epoch, hcoherent.project,
      PreparedRecompute.prepared_of_analyze ha⟩

/-- Every step keeps the run in agreement with the workspace. -/
theorem coherent_step {s t : Server M} {action : Action M} (h : s.Coherent)
    (hstep : s.step action = some t) : t.Coherent := by
  cases haction : action.isRun with
  | false => exact coherent_of_outside h (outside_of_step hstep haction)
  | true =>
    cases stepTo_of_step hstep with
    | prepare hrunning _ => exact coherent_prepare _ _ _ hrunning
    | analyze hr _ => exact coherent_analyze h _ hr
    | commit hr hstage => exact coherent_commit h hr hstage
    | publish hr hstage _ => exact coherent_publish h _ hr hstage
    | reconcile => exact coherent_of_running_none (s.running_reconcile _ _ _ _ _)
    | _ => cases haction

theorem coherent_of_reachable {s : Server M} (h : Reachable step new s) : s.Coherent :=
  h.invariant coherent_new fun _ _ _ hs _ hstep => coherent_step hs hstep

end Server

/-! ## The captured buffers -/

/-- The latest analysis is one of buffers that meet `C`. -/
def Workspace.LatestFrom (C : DocumentAnalysisSnapshot → Prop) (ws : Workspace M) : Prop :=
  ∀ a, ws.latest = some a → ∃ documents, C documents ∧
    ws.latestDocumentsGeneration = some documents.generation ∧ a.prepared.IsFrom documents

theorem Workspace.latestFrom_of_none {C : DocumentAnalysisSnapshot → Prop} {ws : Workspace M}
    (h : ws.latest = none) : ws.LatestFrom C := by
  intro a ha
  rw [h] at ha
  cases ha

theorem Workspace.LatestFrom.congr {C : DocumentAnalysisSnapshot → Prop} {ws ws' : Workspace M}
    (h : ws.LatestFrom C) (hlatest : ws'.latest = ws.latest)
    (hgeneration : ws'.latestDocumentsGeneration = ws.latestDocumentsGeneration) :
    ws'.LatestFrom C := by
  intro a ha
  rw [hlatest] at ha
  rw [hgeneration]
  exact h a ha

theorem Workspace.LatestFrom.invalidated {C : DocumentAnalysisSnapshot → Prop}
    {ws ws' : Workspace M} (h : ws.LatestFrom C) (hinvalidated : ws.Invalidated ws') :
    ws'.LatestFrom C := by
  rcases hinvalidated with rfl | ⟨-, hnone⟩
  · exact h
  · exact latestFrom_of_none hnone

theorem Workspace.LatestFrom.withBindingIndex {C : DocumentAnalysisSnapshot → Prop}
    {ws : Workspace M} (h : ws.LatestFrom C) : ws.withBindingIndex.LatestFrom C := by
  rcases ws.withBindingIndex_cases with heq | ⟨a, project, -, -, -, heq⟩
  · rwa [heq]
  · rw [heq]
    exact h.congr rfl rfl

namespace Server

/-- Every buffer snapshot the server has captured and still uses meets `C`. -/
structure AllCaptured (C : DocumentAnalysisSnapshot → Prop) (s : Server M) : Prop where
  waiting : ∀ x ∈ s.waiting, C x.documents
  running : ∀ r, s.running = some r → C r.documents
  latest : s.workspace.LatestFrom C

theorem AllCaptured.mono {C C' : DocumentAnalysisSnapshot → Prop} {s : Server M}
    (h : s.AllCaptured C) (himp : ∀ documents, C documents → C' documents) :
    s.AllCaptured C' := by
  refine ⟨fun x hx => himp _ (h.waiting x hx), fun r hr => himp _ (h.running r hr), ?_⟩
  intro a ha
  obtain ⟨documents, hC, hrest⟩ := h.latest a ha
  exact ⟨documents, himp _ hC, hrest⟩

theorem allCaptured_new (C : DocumentAnalysisSnapshot → Prop) : (new : Server M).AllCaptured C :=
  ⟨by simp [new], by simp [new], Workspace.latestFrom_of_none rfl⟩

/-- What is awake after a step was awake or asleep before it. -/
theorem awake_step {s t : Server M} {action : Action M} (hstep : s.step action = some t)
    {task : Task} (h : task ∈ t.awake) : task ∈ s.awake ∨ task ∈ s.sleeping := by
  cases haction : action.isRun with
  | true =>
    obtain ⟨_, _, _, _, _, _, heq, -, -⟩ := run_frame hstep haction
    rw [heq] at h
    exact .inl h
  | false =>
    cases stepTo_of_step hstep with
    | didOpen | didChange | didClose | unwatched | bindingIndex | chooseReadSource => exact .inl h
    | didChangeWatchedFiles =>
      obtain ⟨_, _, _, _, _, _, _, heq, -, -⟩ := s.didChangeWatchedFiles_frame _ _ _
      rw [heq] at h
      exact .inl h
    | handle =>
      obtain ⟨_, _, _, _, _, _, heq, -, -⟩ := s.handle_frame _ _ _
      rw [heq] at h
      exact .inl h
    | @preflight i first hfirst =>
      unfold preflight at h
      dsimp only at h
      split at h
      · exact .inl h
      · rcases List.mem_append.mp h with hold | hnew
        · exact .inl hold
        · rw [List.mem_singleton.mp hnew]
          exact .inr (List.mem_of_getElem? hfirst)
    | capture => exact .inl (List.mem_of_mem_eraseIdx h)
    | prepare | analyze | commit | publish | reconcile => cases haction

/-- What waits after a step waited before it or has just captured the buffers. -/
theorem waiting_step {s t : Server M} {action : Action M} (hstep : s.step action = some t) :
    ∀ x ∈ t.waiting, x ∈ s.waiting ∨
      x.task ∈ s.awake ∧ x.documents = s.documents.analysisSnapshot M := by
  intro x hx
  cases haction : action.isRun with
  | true =>
    obtain ⟨_, _, _, _, _, _, heq, -, hwaiting⟩ := run_frame hstep haction
    rw [heq] at hx
    rcases hwaiting with rfl | ⟨w, i, -, rfl⟩
    · exact .inl hx
    · exact .inl (List.mem_of_mem_eraseIdx hx)
  | false =>
    cases stepTo_of_step hstep with
    | didOpen | didChange | didClose | unwatched | bindingIndex | chooseReadSource => exact .inl hx
    | didChangeWatchedFiles =>
      obtain ⟨_, _, _, _, _, _, _, heq, -, -⟩ := s.didChangeWatchedFiles_frame _ _ _
      rw [heq] at hx
      exact .inl hx
    | handle =>
      obtain ⟨_, _, _, _, _, _, heq, -, -⟩ := s.handle_frame _ _ _
      rw [heq] at hx
      exact .inl hx
    | preflight =>
      obtain ⟨_, heq⟩ := s.preflight_frame _ _
      rw [heq] at hx
      exact .inl hx
    | capture htask =>
      rcases List.mem_append.mp hx with hx | hx
      · exact .inl hx
      · rw [List.mem_singleton.mp hx]
        exact .inr ⟨List.mem_of_getElem? htask, rfl⟩
    | prepare | analyze | commit | publish | reconcile => cases haction

/-- The run after a step has the buffers of the run before it or of a waiting task. -/
theorem running_step {s t : Server M} {action : Action M} (hstep : s.step action = some t)
    {r : Running M} (hr : t.running = some r) :
    (∃ r', s.running = some r' ∧ r'.documents = r.documents) ∨
      ∃ x ∈ s.waiting, x.documents = r.documents := by
  cases runStep_of_step hstep hr with
  | goes hr' _ hdocuments _ _ => exact .inl ⟨_, hr', hdocuments.symm⟩
  | prepared _ _ hx _ hdocuments _ _ =>
    exact .inr ⟨_, List.mem_of_getElem? hx, hdocuments.symm⟩

/-- The latest analysis after a step was the latest before it, or belongs to the run
that has just committed it. -/
theorem latestFrom_step {C : DocumentAnalysisSnapshot → Prop} {s t : Server M}
    {action : Action M} (hcoherent : s.Coherent) (h : s.AllCaptured C)
    (hstep : s.step action = some t) : t.workspace.LatestFrom C := by
  cases haction : action.isRun with
  | false =>
    rcases (outside_of_step hstep haction).workspace with heq | ⟨-, ⟨-, hinvalidated⟩ | hindex⟩
    · rw [heq]
      exact h.latest
    · exact h.latest.invalidated hinvalidated
    · rw [hindex]
      exact h.latest.withBindingIndex
  | true =>
    have habandon : s.abandon.workspace.LatestFrom C :=
      h.latest.invalidated (invalidated_applyPending _ _)
    cases stepTo_of_step hstep with
    | @prepare w i x hrunning hx =>
      obtain ⟨workspace, _, heq, hws, -⟩ := s.prepare_cases w i x
      obtain ⟨_, _, hframe⟩ := (applyPendingWorkspaceInvalidation s.pending s.workspace
        ).prepareRecompute_frame w x.task.file x.documents x.task.scope
      rw [heq]
      refine habandon.congr ?_ ?_ <;> simp only [hws, hframe] <;> rfl
    | @analyze fs r hr _ =>
      rcases s.analyze_cases fs r with ⟨e, -, heq⟩ | ⟨a, -, heq⟩ <;> rw [heq] <;> exact h.latest
    | @commit r a hr hstage =>
      rcases s.commit_cases r a with ⟨-, heq⟩ | ⟨-, ⟨-, heq⟩ | ⟨_, -, -, heq⟩⟩
      · rw [heq]
        exact habandon
      · rw [heq]
        exact h.latest
      · -- The commit installs the analysis of the run, whose buffers are captured.
        rw [heq]
        intro a' ha'
        simp only [Workspace.install_latest, Option.some.injEq] at ha'
        subst ha'
        have hrun := hcoherent r hr
        have ha : a.prepared = r.run := by
          have := hrun.stage
          rwa [hstage] at this
        refine ⟨r.documents, h.running r hr, ?_, ?_⟩
        · simp only [Workspace.install_latestDocumentsGeneration, hrun.isFrom.generation]
        · rw [ha]
          exact hrun.isFrom
    | @publish fs r _ _ _ =>
      rcases s.publish_cases fs r with
        ⟨-, heq⟩ | ⟨-, ⟨-, heq⟩ | ⟨-, ⟨-, heq⟩ | ⟨_, _, -, -, heq⟩⟩⟩ <;> rw [heq]
      · exact habandon
      · exact h.latest
      · exact h.latest
      · exact h.latest
    | @reconcile r root scope a diagnostics _ _ =>
      rcases s.reconcile_cases r root scope a diagnostics with
        ⟨-, heq⟩ | ⟨-, ⟨-, heq⟩ | ⟨_, _, -, heq⟩⟩ <;> rw [heq]
      · exact habandon
      · exact h.latest
      · exact h.latest
    | _ => cases haction

/-- A step keeps what holds of every captured snapshot and of the current buffers. -/
theorem allCaptured_step {C : DocumentAnalysisSnapshot → Prop} {s t : Server M}
    {action : Action M} (hcoherent : s.Coherent) (h : s.AllCaptured C)
    (hcurrent : C (s.documents.analysisSnapshot M)) (hstep : s.step action = some t) :
    t.AllCaptured C := by
  refine ⟨fun x hx => ?_, fun r hr => ?_, latestFrom_step hcoherent h hstep⟩
  · rcases waiting_step hstep x hx with hold | ⟨-, hnew⟩
    · exact h.waiting x hold
    · rwa [hnew]
  · rcases running_step hstep hr with ⟨r', hr', heq⟩ | ⟨x, hx, heq⟩
    · rw [← heq]
      exact h.running r' hr'
    · rw [← heq]
      exact h.waiting x hx

/-! ## Generations -/

theorem documents_run {s t : Server M} {action : Action M} (hstep : s.step action = some t)
    (haction : action.isRun = true) : t.documents = s.documents := by
  obtain ⟨_, _, _, _, _, _, heq, -, -⟩ := run_frame hstep haction
  rw [heq]

/-- A step leaves the buffers alone or moves the generation. -/
theorem continues_step {s t : Server M} {action : Action M} (hstep : s.step action = some t) :
    Documents.Continues s.documents t.documents := by
  cases haction : action.isRun with
  | true =>
    rw [documents_run hstep haction]
    exact .refl _
  | false =>
    cases stepTo_of_step hstep with
    | didOpen => exact Documents.continues_apply _ (.openWithVersion _ _ _)
    | didChange => exact Documents.continues_apply _ (.changeWithVersion _ _ _)
    | didClose => exact Documents.continues_apply _ (.close _)
    | unwatched | capture | bindingIndex | chooseReadSource => exact .refl _
    | didChangeWatchedFiles =>
      obtain ⟨_, _, _, _, _, _, _, heq, -, -⟩ := s.didChangeWatchedFiles_frame _ _ _
      rw [heq]
      exact .refl _
    | handle =>
      obtain ⟨_, _, _, _, _, _, heq, -, -⟩ := s.handle_frame _ _ _
      rw [heq]
      exact .refl _
    | preflight =>
      obtain ⟨_, heq⟩ := s.preflight_frame _ _
      rw [heq]
      exact .refl _
    | prepare | analyze | commit | publish | reconcile => cases haction

theorem continues_of_reaches {ok : Server M → Action M → Prop} {s t : Server M}
    (h : Reaches step ok s t) : Documents.Continues s.documents t.documents :=
  h.relation (R := fun s t => Documents.Continues s.documents t.documents) (fun _ => .refl _)
    (fun _ _ _ => .trans) fun _ _ _ => continues_step

/-- What was captured no later than `d`, and exactly `d` when it has its generation. -/
def CapturedBy (M : Marrow) (d : Documents) (documents : DocumentAnalysisSnapshot) : Prop :=
  documents.generation ≤ d.generation ∧
    (documents.generation = d.generation → documents = d.analysisSnapshot M)

theorem CapturedBy.continues {d d' : Documents} {documents : DocumentAnalysisSnapshot}
    (h : CapturedBy M d documents) (hcontinues : Documents.Continues d d') :
    CapturedBy M d' documents := by
  refine ⟨h.1.trans hcontinues.1, fun heq => ?_⟩
  have hsame : d.generation = d'.generation := le_antisymm hcontinues.1 (heq ▸ h.1)
  rw [← hcontinues.2 hsame]
  exact h.2 (heq.trans hsame.symm)

theorem capturedBy_self (d : Documents) : CapturedBy M d (d.analysisSnapshot M) :=
  ⟨le_rfl, fun _ => rfl⟩

/-- In every reachable state, whatever carries the current generation carries the
current buffers. -/
theorem allCaptured_of_reachable {s : Server M} (h : Reachable step new s) :
    s.AllCaptured (CapturedBy M s.documents) := by
  refine h.invariant_of coherent_new (fun _ _ _ hs _ hstep => coherent_step hs hstep)
    (I := fun s => s.AllCaptured (CapturedBy M s.documents)) (allCaptured_new _) ?_
  intro s action t hcoherent hs _ hstep
  exact (allCaptured_step hcoherent hs (capturedBy_self _) hstep).mono
    fun documents hC => hC.continues (continues_step hstep)

end Server

end MarrowLsp
