-- SUMMARY: The analysis state of the language server, its saved-data reads, and when a session's latest analysis is that of its resolved project.
import MarrowLsp.Core.Session
import MarrowLsp.Core.SessionCache
import MarrowLsp.Core.Sample

/-!
# The analysis state

`AnalysisState` pairs the workspace with the saved-data cache. A saved-data read
hands the cache the resolved project and the program of the latest snapshot, so
it describes one project only while the workspace does.
-/
namespace MarrowLsp

open Transition

variable {M : Marrow}

structure AnalysisState (M : Marrow) where
  workspace : Workspace M
  dataCache : SavedDataSessionCache M

/-- The project and the analysis a saved-data read hands to the session cache,
or `none` when it answers that data is unavailable. -/
def dataFacts (ws : Workspace M) (liveData invalidationPending : Bool)
    (documents : DocumentAnalysisSnapshot) : Option (Project M × Analysis M) :=
  if !liveData || invalidationPending then none
  else
    match ws.freshProgramFromSnapshot documents, ws.project with
    | some a, some project => some (project, a)
    | _, _ => none

namespace AnalysisState

def savedDataRoots (st : AnalysisState M) (w : World M) (liveData invalidationPending : Bool)
    (documents : DocumentAnalysisSnapshot) : SavedRootsResult M × AnalysisState M :=
  match dataFacts st.workspace liveData invalidationPending documents with
  | none => (savedRoots none, st)
  | some (project, a) =>
    let (roots, dataCache) := st.dataCache.savedRoots w project a.snapshot.program
    (roots, { st with dataCache })

def dataReadSession (st : AnalysisState M) (w : World M) (liveData invalidationPending : Bool)
    (documents : DocumentAnalysisSnapshot) : Option M.ReadSession × AnalysisState M :=
  match dataFacts st.workspace liveData invalidationPending documents with
  | none => (none, st)
  | some (project, a) =>
    let (session, dataCache) := st.dataCache.readSession w project a.snapshot.program
    (session, { st with dataCache })

end AnalysisState

theorem dataFacts_eq_some {ws : Workspace M} {liveData invalidationPending : Bool}
    {documents : DocumentAnalysisSnapshot} {project : Project M} {a : Analysis M}
    (h : dataFacts ws liveData invalidationPending documents = some (project, a)) :
    ws.latest = some a ∧ ws.project = some project := by
  unfold dataFacts at h
  split at h
  · cases h
  · split at h
    · next hfresh hproject =>
      cases h
      refine ⟨?_, hproject⟩
      unfold Workspace.freshProgramFromSnapshot Workspace.freshLatestFromSnapshot at hfresh
      obtain ⟨hlatest, -⟩ := Option.filter_eq_some_iff.mp hfresh
      split at hlatest
      · exact hlatest
      · cases hlatest
    · cases h

/-- A workspace that owns its latest analysis hands the data cache one project. -/
theorem root_of_dataFacts {ws : Workspace M} (h : ws.Owned) {liveData invalidationPending : Bool}
    {documents : DocumentAnalysisSnapshot} {project : Project M} {a : Analysis M}
    (hfacts : dataFacts ws liveData invalidationPending documents = some (project, a)) :
    a.prepared.root = project.root := by
  obtain ⟨hlatest, hproject⟩ := dataFacts_eq_some hfacts
  obtain ⟨p, hp, hroot⟩ := h a hlatest
  rw [hproject] at hp
  cases hp
  exact hroot

/-! ## Runs of a session -/

namespace Session

/-- A recompute that fails leaves the project, the latest analysis and the
indexes as its prepare found them. -/
def FailureKeepsFacts (s : Session M) : Action M → Prop
  | .prepare w file documents scope =>
    (∃ e, (s.workspace.prepareRecompute w file documents scope).result = .error e) →
      s.workspace.SameFacts (s.workspace.prepareRecompute w file documents scope).workspace
  | .analyze fs i => ∀ r, s.inFlight[i]? = some r → (∃ e, r.run.analyze fs = .error e) →
      r.found.SameFacts r.left
  | _ => True

/-- One operation keeps the facts of the workspace those of one project. -/
structure OneProject (s : Session M) (action : Action M) (t : Session M) : Prop where
  owned : t.workspace.Owned
  handed : ∀ liveData invalidationPending documents project a,
    dataFacts t.workspace liveData invalidationPending documents = some (project, a) →
      a.prepared.root = project.root
  failure : s.FailureKeepsFacts action

/-- The condition on one operation. A prepare keeps the project, or replaces it
while there is no latest analysis and the catalog binds; a failing check belongs
to a prepare that kept the project; an admitted commit finds the project of its
own prepare. -/
def staysOnProject (s : Session M) : Action M → Bool
  | .prepare w file _ _ => s.workspace.covers file ||
      match resolveProject (M := M) w.fs file with
      | .error _ => true
      | .ok project => s.workspace.latest.isNone &&
          ((CatalogBindingCache.new (M := M)).bind w project.root project.config).result.isOk
  | .analyze fs i => (s.inFlight[i]?).all fun r => (discovered fs r.run.root r.run.analyzedConfig).isSome || r.found.covers r.file
  | .commit i => (s.analyzed[i]?).all fun a =>
      !s.workspace.admits a.prepared.documentsGeneration a.prepared.invalidationEpoch ||
        s.workspace.project.all fun project => a.prepared.root == project.root
  | _ => true

/-- A prepare that switches projects fails exactly when the new project's
catalog does not bind. -/
theorem prepareRecompute_ok_iff {ws : Workspace M} {w : World M} {file : Path}
    {project : Project M} (hcov : ws.covers file = false)
    (hres : resolveProject w.fs file = .ok project) (documents : DocumentAnalysisSnapshot)
    (scope : RecomputeScope) :
    (¬ ∃ e, (ws.prepareRecompute w file documents scope).result = .error e) ↔
      ((CatalogBindingCache.new (M := M)).bind w project.root project.config).result.isOk = true := by
  rcases ws.prepareRecompute_cases w file documents scope with
    ⟨e, herr, -⟩ | ⟨project', cache, hok, -, -, hresult⟩
  · rw [Workspace.resolveFor_of_not_covers w.fs hcov, hres] at herr
    cases herr
  · rw [Workspace.resolveFor_of_not_covers w.fs hcov, hres] at hok
    simp only [Except.map, Except.ok.injEq, Prod.mk.injEq] at hok
    obtain ⟨rfl, rfl⟩ := hok
    rw [hresult]
    cases (CatalogBindingCache.new.bind w project.root project.config).result with
    | error e => simp [Except.isOk, Except.toBool]
    | ok binding => simp [Except.isOk, Except.toBool]

theorem oneProject_prepare_iff {s : Session M} (h : s.workspace.Owned) (w : World M)
    (file : Path) (documents : DocumentAnalysisSnapshot) (scope : RecomputeScope) :
    ((s.workspace.prepareRecompute w file documents scope).workspace.Owned ∧
      s.FailureKeepsFacts (.prepare w file documents scope)) ↔
      s.staysOnProject (.prepare w file documents scope) = true := by
  have howned := Workspace.owned_prepareRecompute_iff h w file documents scope
  have hsame := s.workspace.sameFacts_prepareRecompute_iff w file documents scope
  simp only [FailureKeepsFacts, staysOnProject]
  rw [howned, hsame]
  cases hcov : s.workspace.covers file with
  | true => simp
  | false =>
    cases hres : resolveProject (M := M) w.fs file with
    | error e => simp
    | ok project =>
      have hok := prepareRecompute_ok_iff hcov hres documents scope
      simp only [Bool.false_eq_true, reduceCtorEq, exists_false, false_or, imp_false, hok,
        Bool.false_or, Bool.and_eq_true, Option.isNone_iff_eq_none]

/-- What was prepared and left the facts alone was prepared for a file of the
project it found. -/
theorem InFlight.sameFacts_iff (r : InFlight M) :
    r.found.SameFacts r.left ↔ r.found.covers r.file = true := by
  obtain ⟨w, documents, scope, hleft, hrun⟩ := r.prepared
  rw [← hleft, r.found.sameFacts_prepareRecompute_iff w r.file documents scope]
  constructor
  · rintro (hcov | ⟨e, he⟩)
    · exact hcov
    · by_contra hcov
      rw [Bool.not_eq_true] at hcov
      obtain ⟨project, cache, binding, hres, -, -, -⟩ :=
        Workspace.project_of_prepareRecompute hrun
      rw [Workspace.resolveFor_of_not_covers w.fs hcov, he] at hres
      cases hres
  · exact .inl

theorem failureKeepsFacts_analyze_iff (s : Session M) (fs : Fs) (i : Nat) :
    s.FailureKeepsFacts (.analyze fs i) ↔ s.staysOnProject (.analyze fs i) = true := by
  simp only [FailureKeepsFacts, staysOnProject]
  cases hr : s.inFlight[i]? with
  | none => simp
  | some r =>
    rw [Option.all_some, Bool.or_eq_true, ← InFlight.sameFacts_iff]
    constructor
    · intro h
      cases hdisc : discovered fs r.run.root r.run.analyzedConfig with
      | some paths => exact .inl rfl
      | none => exact .inr (h r rfl ((r.run.analyze_error_iff fs).mpr hdisc))
    · intro h r' hr' herr
      cases hr'
      have hdisc := (r.run.analyze_error_iff fs).mp herr
      rcases h with hok | hsame
      · rw [hdisc] at hok
        cases hok
      · exact hsame

theorem owned_commit_iff {s : Session M} (h : s.workspace.Owned) {i : Nat} {a : Analysis M}
    (ha : s.analyzed[i]? = some a) :
    (s.commit i a).workspace.Owned ↔ s.staysOnProject (.commit i) = true := by
  have howned := Workspace.owned_commitRecompute_iff h a.prepared.documentsGeneration
    a.prepared.invalidationEpoch a
  simp only [commit, staysOnProject, ha, Option.all_some]
  rw [howned]
  cases hadmits :
      s.workspace.admits a.prepared.documentsGeneration a.prepared.invalidationEpoch with
  | false => simp
  | true =>
    cases hp : s.workspace.project with
    | none => simp
    | some project => simp

/-- One operation on a workspace that owns its latest analysis keeps the facts
those of one project exactly when it meets the condition. -/
theorem oneProject_step_iff (s : Session M) (action : Action M) (t : Session M)
    (h : s.workspace.Owned) (hstep : s.step action = some t) :
    s.OneProject action t ↔ s.staysOnProject action = true := by
  -- The reads are those of one project wherever the state owns its analysis.
  have hreduce : s.OneProject action t ↔ t.workspace.Owned ∧ s.FailureKeepsFacts action :=
    ⟨fun hone => ⟨hone.owned, hone.failure⟩,
      fun ⟨howned, hfail⟩ => ⟨howned, fun _ _ _ _ _ => root_of_dataFacts howned, hfail⟩⟩
  rw [hreduce]
  cases action with
  | prepare w file documents scope =>
    simp only [step, Option.some.injEq] at hstep
    rw [← hstep, prepare_workspace]
    exact oneProject_prepare_iff h w file documents scope
  | analyze fs i =>
    simp only [step, Option.map_eq_some_iff] at hstep
    obtain ⟨r, -, ht⟩ := hstep
    rw [← ht, analyze_workspace, failureKeepsFacts_analyze_iff]
    simp [h]
  | commit i =>
    simp only [step, Option.map_eq_some_iff] at hstep
    obtain ⟨a, ha, ht⟩ := hstep
    rw [← ht, owned_commit_iff h ha]
    simp [FailureKeepsFacts]
  | bindingIndex =>
    simp only [step, Option.some.injEq] at hstep
    rw [← hstep]
    simp [FailureKeepsFacts, staysOnProject, Workspace.owned_withBindingIndex h]
  | chooseReadSource file =>
    simp only [step, Option.some.injEq] at hstep
    rw [← hstep]
    simp [FailureKeepsFacts, staysOnProject, Workspace.owned_chooseReadSource h file]
  | invalidateAnalysis =>
    simp only [step, Option.some.injEq] at hstep
    rw [← hstep]
    simp [FailureKeepsFacts, staysOnProject,
      Workspace.owned_of_latest_none s.workspace.invalidateAnalysis_latest]
  | invalidateProject =>
    simp only [step, Option.some.injEq] at hstep
    rw [← hstep]
    simp [FailureKeepsFacts, staysOnProject,
      Workspace.owned_of_latest_none s.workspace.invalidateProject_latest]

theorem owned_new : (Session.new : Session M).workspace.Owned :=
  Workspace.owned_of_latest_none rfl

/-- Every operation of a run keeps the facts those of one project exactly when
every operation meets the condition. -/
theorem oneProject_run_iff (actions : List (Action M)) :
    AllSteps step OneProject Session.new actions ↔
      AllSteps step (fun s action _ => s.staysOnProject action = true) Session.new actions :=
  allSteps_congr (I := fun s => s.workspace.Owned) (fun _ _ _ _ _ hone => hone.owned)
    oneProject_step_iff actions owned_new

end Session

/-! ## A switch of projects before the commit -/

namespace Sample

/-- `B` is prepared while the analysis of `A` is the latest. -/
def switchBefore : List (Session.Action Marrow.sample) :=
  let documents := Documents.new.analysisSnapshot Marrow.sample
  [.prepare twins (app "A") documents .full, .analyze twins.fs 0, .commit 0,
    .prepare twins (app "B") documents .full]

/-- The latest analysis is not that of the resolved project. -/
def disowned (ws : Workspace Marrow.sample) : Bool :=
  ws.latest.any fun a => ws.project.any fun project => a.prepared.root != project.root

end Sample

namespace Session

open Sample in
theorem not_oneProject_switchBefore :
    ¬ AllSteps step OneProject (Session.new : Session Marrow.sample) switchBefore := by
  intro h
  have hrun : (run step Session.new switchBefore).any (fun s => disowned s.workspace) = true := by
    decide
  obtain ⟨s, hs, hdisowned⟩ := (Option.any_eq_true _ _).mp hrun
  have howned : s.workspace.Owned :=
    h.final (I := fun s => s.workspace.Owned) (fun _ _ _ hone => hone.owned) owned_new hs
  obtain ⟨a, ha, hdisowned⟩ := (Option.any_eq_true _ _).mp hdisowned
  obtain ⟨project, hproject, hroot⟩ := (Option.any_eq_true _ _).mp hdisowned
  obtain ⟨p, hp, hsame⟩ := howned a ha
  rw [hproject] at hp
  cases hp
  exact absurd hsame (bne_iff_ne.mp hroot)

end Session
end MarrowLsp
