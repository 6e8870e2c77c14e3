-- SUMMARY: No superseded analysis is observable as fresh: what is latest or published was prepared after the last invalidation, and a fresh latest was analyzed from the buffers of the request.
import MarrowLsp.Lsp.Provenance
import MarrowLsp.Core.Sample

/-!
# Freshness

An invalidation is raised as a pending bit and applied by whoever next holds the
analysis lock. A run counts as prepared since the last one when no step after its
prepare left a bit pending or moved the workspace's invalidation epoch.
-/
namespace MarrowLsp

open Transition

variable {M : Marrow}

namespace Server

/-- Whether a step leaves an invalidation pending or applies one. -/
def invalidates (s : Server M) (action : Action M) : Bool :=
  (s.step action).any fun t =>
    t.pending.isPending || t.workspace.invalidationEpoch != s.workspace.invalidationEpoch

/-- The run was prepared on the way to `s`, and no step since has invalidated. -/
def PreparedSince (s : Server M) (run : PreparedRecompute M) : Prop :=
  ∃ s₁ w i s₂ r, Reachable step new s₁ ∧ s₁.step (.prepare w i) = some s₂ ∧
    s₂.running = some r ∧ r.run = run ∧
    Reaches step (fun s action => s.invalidates action = false) s₂ s

theorem PreparedSince.snoc {s t : Server M} {run : PreparedRecompute M} {action : Action M}
    (h : s.PreparedSince run) (hstep : s.step action = some t)
    (hquiet : s.invalidates action = false) : t.PreparedSince run := by
  obtain ⟨s₁, w, i, s₂, r, hs₁, hprepare, hr, hrun, hreaches⟩ := h
  exact ⟨s₁, w, i, s₂, r, hs₁, hprepare, hr, hrun, hreaches.snoc hquiet hstep⟩

/-- While nothing is pending, a run that is not invalidated and the latest analysis
were prepared since the last invalidation. -/
structure Fresh (s : Server M) : Prop where
  running : ∀ r, s.running = some r → s.pending.isPending = false →
    r.run.invalidationEpoch = s.workspace.invalidationEpoch → s.PreparedSince r.run
  latest : ∀ a, s.workspace.latest = some a → s.pending.isPending = false →
    s.PreparedSince a.prepared

theorem fresh_new : (new : Server M).Fresh :=
  ⟨fun _ hr => (by cases hr), fun _ ha => (by cases ha)⟩

/-- A step that invalidates nothing keeps the epoch and finds nothing pending. -/
theorem quiet_of_kept {s t : Server M} {action : Action M} (hstep : s.step action = some t)
    (hepoch : t.workspace.invalidationEpoch = s.workspace.invalidationEpoch)
    (hpending : t.pending.isPending = false) : s.invalidates action = false := by
  unfold invalidates
  rw [hstep, Option.any_some, hpending, hepoch]
  simp

theorem fresh_step {s t : Server M} {action : Action M} (hreach : Reachable step new s)
    (h : s.Fresh) (hstep : s.step action = some t) : t.Fresh := by
  have hcoherent := coherent_of_reachable hreach
  have hws := workspaceStep_of_step hstep
  refine ⟨fun r hr hpending hepoch => ?_, fun a ha hpending => ?_⟩
  · rcases run_of_step hstep hr with ⟨r', hr', hrun⟩ | ⟨-, w, i, rfl⟩
    · have hle := (hcoherent r' hr').epoch
      rw [hrun] at hle
      -- The run is older than any invalidation the step applies.
      have hsame : t.workspace.invalidationEpoch = s.workspace.invalidationEpoch ∧
          s.pending.isPending = false := by
        cases hws with
        | invalidated hlt _ => omega
        | kept hsame hkept _ _ =>
          refine ⟨hsame, ?_⟩
          by_contra htrue
          rw [hkept (by simpa using htrue)] at hpending
          cases hpending
        | installed hsame hs _ _ _ _ _ _ => exact ⟨hsame, hs⟩
      rw [← hrun]
      exact (h.running r' hr' hsame.2 (by rw [hrun, hepoch, hsame.1])).snoc hstep
        (quiet_of_kept hstep hsame.1 hpending)
    · exact ⟨s, w, i, t, r, hreach, hstep, hr, rfl, .refl⟩
  · cases hws with
    | invalidated _ hlatest =>
      rw [hlatest] at ha
      cases ha
    | kept hepoch hkept hlatest _ =>
      rw [hlatest] at ha
      have hs : s.pending.isPending = false := by
        by_contra htrue
        rw [hkept (by simpa using htrue)] at hpending
        cases hpending
      exact (h.latest a ha hs).snoc hstep (quiet_of_kept hstep hepoch hpending)
    | @installed r a' hepoch hs hr hstage hrun hlatest _ _ =>
      rw [hlatest] at ha
      cases ha
      have hprepared := (hcoherent r hr).stage
      rw [hstage] at hprepared
      rw [show a.prepared = r.run from hprepared]
      exact (h.running r hr hs hrun).snoc hstep (quiet_of_kept hstep hepoch hpending)

theorem fresh_of_reachable {s : Server M} (h : Reachable step new s) : s.Fresh := by
  induction h with
  | refl => exact fresh_new
  | tail hreach hlast ih =>
    obtain ⟨action, -, hstep⟩ := hlast
    exact fresh_step hreach ih hstep

/-! ## What is published -/

/-- What a step sends: nothing, clears, or the diagnostics of a run past its checks. -/
inductive PublishStep (s t : Server M) : Prop where
  | clears (h : OnlyClears s.published t.published)
  | recompute {r : Running M} {root : Path} {scope : ReconcileScope} {a : Analysis M}
      {diagnostics published : DiagnosticsByUrl} {tracker : DiagnosticsTracker}
      (hr : s.running = some r) (hstage : r.stage = .publishing root scope a diagnostics)
      (hpending : s.pending.isPending = false)
      (hreconcile : s.tracker.reconcileSuccess root (s.publishEpoch r.task root) scope
        diagnostics = some (published, tracker))
      (ht : t =
        { s with
          tracker
          running := none
          published := .recompute root a r.documents (messages r.documents published) ::
            s.published })

theorem publishStep_of_step {s t : Server M} {action : Action M}
    (hstep : s.step action = some t) : s.PublishStep t := by
  cases stepTo_of_step hstep with
  | didOpen | didChange | didClose | unwatched | capture | bindingIndex | chooseReadSource =>
    exact .clears (.inl rfl)
  | didChangeWatchedFiles =>
    obtain ⟨_, _, _, _, _, _, _, heq, -, hclears⟩ := s.didChangeWatchedFiles_frame _ _ _
    rw [heq]
    exact .clears hclears
  | handle =>
    obtain ⟨_, _, _, _, _, _, heq, -, hclears⟩ := s.handle_frame _ _ _
    rw [heq]
    exact .clears hclears
  | preflight =>
    obtain ⟨_, heq⟩ := s.preflight_frame _ _
    rw [heq]
    exact .clears (.inl rfl)
  | @prepare w i x _ _ =>
    obtain ⟨_, _, heq, -, -⟩ := s.prepare_cases w i x
    rw [heq]
    exact .clears (.inl rfl)
  | @analyze fs r _ _ =>
    rcases s.analyze_cases fs r with ⟨e, -, heq⟩ | ⟨a, -, heq⟩ <;> rw [heq] <;>
      exact .clears (.inl rfl)
  | @commit r a _ _ =>
    rcases s.commit_cases r a with ⟨-, heq⟩ | ⟨-, ⟨-, heq⟩ | ⟨_, -, -, heq⟩⟩ <;> rw [heq] <;>
      exact .clears (.inl rfl)
  | @publish fs r _ _ _ =>
    rcases s.publish_cases fs r with
      ⟨-, heq⟩ | ⟨-, ⟨-, heq⟩ | ⟨-, ⟨-, heq⟩ | ⟨_, _, -, -, heq⟩⟩⟩ <;> rw [heq] <;>
      exact .clears (.inl rfl)
  | @reconcile r root scope a diagnostics hr hstage =>
    rcases s.reconcile_cases r root scope a diagnostics with
      ⟨-, heq⟩ | ⟨hpending, ⟨-, heq⟩ | ⟨published, tracker, hreconcile, heq⟩⟩
    · rw [heq]
      exact .clears (.inl rfl)
    · rw [heq]
      exact .clears (.inl rfl)
    · -- The one step that publishes for a run.
      exact .recompute hr hstage hpending hreconcile heq

/-- What is about to be published was computed by the run from its own analysis, in its own
scope. -/
def Computed (s : Server M) : Prop :=
  ∀ r root scope a diagnostics, s.running = some r →
    r.stage = .publishing root scope a diagnostics → scope = reconcileScope r.run a ∧
      ∃ fs, diagnostics = diagnosticsByUrl fs r.documents r.run.project a

theorem computed_of_reachable {s : Server M} (h : Reachable step new s) : s.Computed := by
  refine (h.invariant (I := fun s => s.Coherent ∧ s.Computed) ⟨coherent_new, ?_⟩ ?_).2
  · intro r root scope a diagnostics hr
    cases hr
  · rintro s action t ⟨hcoherent, ih⟩ - hstep
    refine ⟨coherent_step hcoherent hstep, fun r root scope a diagnostics hr hstage => ?_⟩
    cases runStep_of_step hstep hr with
    | @goes r' hr' _ hdocuments hrun hstages =>
      rw [hrun, hdocuments]
      rcases hstages with hsame | ⟨a', hanalyzed⟩ | hcommitted |
        ⟨fs, project, a', hcommitted, hproject, -, hnew⟩
      · exact ih r' root scope a diagnostics hr' (hsame.symm.trans hstage)
      · rw [hanalyzed] at hstage
        cases hstage
      · rw [hcommitted] at hstage
        cases hstage
      · -- The project of the commit is still resolved.
        have hinstalled := (hcoherent r' hr').stage
        rw [hcommitted] at hinstalled
        obtain ⟨_, -, -, -, hown, -⟩ := hinstalled
        rw [hproject] at hown
        cases hown
        rw [hnew, hrun, hdocuments] at hstage
        cases hstage
        exact ⟨rfl, fs, rfl⟩
    | prepared _ _ _ _ _ hprepared _ =>
      rw [hprepared] at hstage
      cases hstage

/-- What is sent are the lists of a map, one message for each URL. -/
structure Carries (documents : DocumentAnalysisSnapshot) (diagnostics : DiagnosticsByUrl)
    (sent : List PublishedDiagnostics) : Prop where
  eq_messages : sent = messages documents diagnostics
  lists : ∀ url list, (∃ message ∈ sent, message.url = url ∧ message.diagnostics = list) ↔
    diagnostics.lookup url = some list

theorem carries_messages (documents : DocumentAnalysisSnapshot) (diagnostics : DiagnosticsByUrl) :
    Carries documents diagnostics (messages documents diagnostics) where
  eq_messages := rfl
  lists := by
    intro url list
    rw [← Option.mem_def, AList.mem_lookup_iff]
    constructor
    · rintro ⟨message, hmem, rfl, rfl⟩
      obtain ⟨entry, hentry, rfl⟩ := List.mem_map.mp hmem
      exact hentry
    · intro hentry
      exact ⟨_, List.mem_map.mpr ⟨_, hentry, rfl⟩, rfl, rfl⟩

/-- What a publish of `a` sends: the diagnostics of `a`, mapped through the buffers it was
captured with and the files on disk, and a clear of every other tracked URL in its scope. -/
def Sends (tracker : DiagnosticsTracker) (documents : DocumentAnalysisSnapshot) (a : Analysis M)
    (sent : List PublishedDiagnostics) : Prop :=
  ∃ fs, Carries documents (tracker.withCleared a.prepared.root (reconcileScope a.prepared a)
    (diagnosticsByUrl fs documents a.prepared.project a)) sent

/-- What is published was prepared since the last invalidation, for the root and from the
buffers it is published under, and its diagnostics are those of its analysis. -/
theorem preparedSince_of_published {s t : Server M} {action : Action M}
    (hreach : Reachable step new s) (hstep : s.step action = some t) {root : Path}
    {a : Analysis M} {documents : DocumentAnalysisSnapshot} {sent : List PublishedDiagnostics}
    (hsent : t.published = .recompute root a documents sent :: s.published) :
    s.PreparedSince a.prepared ∧ root = a.prepared.root ∧ a.prepared.IsFrom documents ∧
      Sends s.tracker documents a sent := by
  cases publishStep_of_step hstep with
  | clears h =>
    rcases h with heq | ⟨messages, heq⟩ <;> rw [heq] at hsent
    · exact absurd hsent.symm (List.cons_ne_self _ _)
    · cases hsent
  | @recompute r root' scope a' diagnostics published tracker hr hstage hpending hreconcile ht =>
    rw [ht] at hsent
    cases hsent
    have hrun := coherent_of_reachable hreach r hr
    have hpublishing := hrun.stage
    rw [hstage] at hpublishing
    obtain ⟨ha, hroot, hepoch⟩ := hpublishing
    obtain ⟨rfl, fs, rfl⟩ := computed_of_reachable hreach r root scope a diagnostics hr hstage
    obtain ⟨rfl, -⟩ := DiagnosticsTracker.reconcileSuccess_spec hreconcile
    unfold Sends
    rw [ha, hroot]
    exact ⟨(fresh_of_reachable hreach).running r hr hpending hepoch.symm, rfl, hrun.isFrom, fs,
      carries_messages _ _⟩

/-- Everything that was sent for a run goes with its analysis. -/
theorem sends_of_reachable {s : Server M} (h : Reachable step new s) {root : Path}
    {a : Analysis M} {documents : DocumentAnalysisSnapshot} {sent : List PublishedDiagnostics}
    (hsent : .recompute root a documents sent ∈ s.published) :
    a.prepared.root = root ∧ a.prepared.IsFrom documents ∧
      ∃ tracker, Sends tracker documents a sent := by
  induction h with
  | refl => cases hsent
  | @tail s t hreach hlast ih =>
    obtain ⟨action, -, hstep⟩ := hlast
    cases publishStep_of_step hstep with
    | clears hclears =>
      rcases hclears with heq | ⟨messages, heq⟩ <;> rw [heq] at hsent
      · exact ih hsent
      · rcases List.mem_cons.mp hsent with hnew | hold
        · cases hnew
        · exact ih hold
    | recompute _ _ _ _ ht =>
      have hpublished := congrArg Server.published ht
      rw [hpublished] at hsent
      rcases List.mem_cons.mp hsent with hnew | hold
      · cases hnew
        obtain ⟨-, hroot, hfrom, hsends⟩ := preparedSince_of_published hreach hstep hpublished
        exact ⟨hroot.symm, hfrom, s.tracker, hsends⟩
      · exact ih hold

/-! ## Fresh answers -/

/-- A latest analysis that matches the buffers a request captured was analyzed from
exactly these buffers. -/
theorem isFrom_of_latestMatchesSnapshot {s₀ s : Server M} (h₀ : Reachable step new s₀)
    (h : Reachable step s₀ s)
    (hmatch : s.workspace.latestMatchesSnapshot (s₀.documents.analysisSnapshot M) = true) :
    ∃ a, s.workspace.latest = some a ∧ a.prepared.IsFrom (s₀.documents.analysisSnapshot M) := by
  -- Whatever is captured from here on with the request's generation has its buffers.
  have hcaptured : s.AllCaptured fun documents =>
      documents.generation = s₀.documents.generation →
        documents = s₀.documents.analysisSnapshot M := by
    refine (h.invariant (I := fun s => (s.Coherent ∧
      Documents.Continues s₀.documents s.documents) ∧ s.AllCaptured fun documents =>
        documents.generation = s₀.documents.generation →
          documents = s₀.documents.analysisSnapshot M) ?_ ?_).2
    · exact ⟨⟨coherent_of_reachable h₀, .refl _⟩,
        (allCaptured_of_reachable h₀).mono fun _ hC => hC.2⟩
    · rintro s action t ⟨⟨hcoherent, hcontinues⟩, hcaptured⟩ - hstep
      refine ⟨⟨coherent_step hcoherent hstep, hcontinues.trans (continues_step hstep)⟩,
        allCaptured_step hcoherent hcaptured (fun hgeneration => ?_) hstep⟩
      rw [hcontinues.2 hgeneration.symm]
  unfold Workspace.latestMatchesSnapshot at hmatch
  rw [Bool.and_eq_true, decide_eq_true_eq] at hmatch
  obtain ⟨a, ha⟩ := Option.isSome_iff_exists.mp hmatch.1
  obtain ⟨documents, hC, hgeneration, hfrom⟩ := hcaptured.latest a ha
  rw [hmatch.2] at hgeneration
  rw [hC (Option.some.inj hgeneration).symm] at hfrom
  exact ⟨a, ha, hfrom⟩

/-- From any reachable state on: the latest analysis that is read while nothing is
pending, and the analysis of every diagnostics set that is published, was prepared since
the last invalidation, and the set is that of its analysis; a latest analysis that matches
the captured buffers was analyzed from them; and the buffers are those captured as long as
the generation is. -/
theorem superseded_never_fresh {s₀ s : Server M} (h₀ : Reachable step new s₀)
    (h : Reachable step s₀ s) :
    (∀ a, s.pending.isPending = false → s.workspace.latest = some a →
      s.PreparedSince a.prepared) ∧
    (∀ action t root a documents sent, s.step action = some t →
      t.published = .recompute root a documents sent :: s.published →
      s.PreparedSince a.prepared ∧ root = a.prepared.root ∧ a.prepared.IsFrom documents ∧
        Sends s.tracker documents a sent) ∧
    (s.workspace.latestMatchesSnapshot (s₀.documents.analysisSnapshot M) = true →
      ∃ a, s.workspace.latest = some a ∧
        a.prepared.IsFrom (s₀.documents.analysisSnapshot M)) ∧
    (s₀.documents.generation = s.documents.generation → s₀.documents = s.documents) := by
  have hreach : Reachable step new s := h₀.trans h
  refine ⟨fun a hpending ha => (fresh_of_reachable hreach).latest a ha hpending, ?_,
    isFrom_of_latestMatchesSnapshot h₀ h, (continues_of_reaches h).2⟩
  intro action t root a documents sent hstep hsent
  exact preparedSince_of_published hreach hstep hsent

end Server

/-! ## One recompute -/

namespace Sample

/-- A buffer of a project's main file is opened while the analysis lock is free. -/
def opened (name : String) (text : Text) : List (Action Marrow.sample) :=
  [.didOpen (urlOf (app name)) text 1, .handle twins.fs false]

/-- The oldest task runs to its end. -/
def recomputed (w : World Marrow.sample) : List (Action Marrow.sample) :=
  [.preflight 0, .capture 0, .prepare w 0, .analyze w.fs, .commit, .publish w.fs, .reconcile]

end Sample

namespace Server

open Sample in
theorem superseded_never_fresh_recomputed : ∃ s : Server Marrow.sample, Reachable step new s ∧
    ∃ a, s.workspace.latest = some a ∧ s.PreparedSince a.prepared ∧
      a.prepared.IsFrom (s.documents.analysisSnapshot Marrow.sample) := by
  have hrun : (run step new (opened "A" ['x'] ++ recomputed twins)).any (fun s =>
      !s.pending.isPending &&
        s.workspace.latestMatchesSnapshot (s.documents.analysisSnapshot Marrow.sample)) = true := by
    decide
  obtain ⟨s, hs, hgood⟩ := (Option.any_eq_true _ _).mp hrun
  rw [Bool.and_eq_true, Bool.not_eq_true'] at hgood
  obtain ⟨hlatest, -, hmatch, -⟩ := superseded_never_fresh (reachable_of_run hs) .refl
  obtain ⟨a, ha, hfrom⟩ := hmatch hgood.2
  exact ⟨s, reachable_of_run hs, a, ha, hlatest a hgood.1 ha, hfrom⟩

end Server

end MarrowLsp
