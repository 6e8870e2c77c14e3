-- SUMMARY: Sequences of project loads on one workspace, each with a document set of its own, and whose analysis each of them answers with.
import MarrowLsp.Mcp.Project
import MarrowLsp.Core.Sample

/-!
# Calls

The agent tools recompute on one workspace, but every call builds its own
`Documents`, whose generation restarts at zero. A commit compares it with the
generation of the installed snapshot, which came from another such value.
-/
namespace MarrowLsp

open Transition

variable {M : Marrow}

/-- One call: the world it finds, the file it asks about and the overlay of that file. -/
structure Call (M : Marrow) where
  world : World M
  file : Path
  source : Option Text

namespace Call

/-- The documents the call hands to the workspace. -/
def documents (c : Call M) : Option DocumentAnalysisSnapshot :=
  (callDocuments M c.file c.source).map fun documents => documents.analysisSnapshot M

/-- The overlay as the fingerprint takes it. -/
def overlay (c : Call M) : Option (Path × Text) := c.source.map fun source => (c.file, source)

/-- The overlays of the call: its own, by the file's path. -/
def overlays (c : Call M) : ProjectSources :=
  match c.source with
  | none => ∅
  | some source => (∅ : ProjectSources).insert c.file source

/-- The document generation of the call: how many buffers it opened. -/
def generation (c : Call M) : Nat := if c.source.isSome then 1 else 0

/-- `recompute_from_snapshot` on the call's documents. -/
def step (ws : Workspace M) (c : Call M) : Option (Workspace M) :=
  c.documents.map fun documents => (ws.recomputeFromSnapshot c.world c.file documents).workspace

theorem generation_documents {c : Call M} {documents : DocumentAnalysisSnapshot}
    (h : c.documents = some documents) : documents.generation = c.generation := by
  obtain ⟨w, file, source⟩ := c
  cases source with
  | none =>
    cases h
    rfl
  | some source =>
    simp only [Call.documents, callDocuments, Option.map_map, Option.map_eq_some_iff] at h
    obtain ⟨url, -, rfl⟩ := h
    rfl

/-- Below its root, a call's overlay is the one of the call. -/
theorem overlaySnapshot_documents {c : Call M} (hurl : M.UrlNamesFile)
    {documents : DocumentAnalysisSnapshot} (h : c.documents = some documents) {root : Path}
    (hfile : c.file.startsWith root = true) : overlaySnapshot root documents = c.overlays := by
  obtain ⟨w, file, source⟩ := c
  cases source with
  | none =>
    cases h
    rfl
  | some source =>
    simp only [Call.documents, callDocuments, Option.map_map, Option.map_eq_some_iff] at h
    obtain ⟨url, hfrom, rfl⟩ := h
    have hto : M.toFilePath url = some file := hurl file url hfrom
    have hopen : ((Documents.new.openWithVersion url source none).analysisSnapshot M).openDocuments =
        [⟨url, file, source, none⟩] := by
      simp [Documents.analysisSnapshot, Documents.openWithVersion, Documents.new, hto]
    simp only [overlaySnapshot, Function.comp_apply, hopen, List.foldl_cons, List.foldl_nil,
      overlays]
    rw [if_pos hfile]

theorem overlays_eq_empty_iff (c : Call M) : c.overlays = ∅ ↔ c.generation = 0 := by
  obtain ⟨w, file, source⟩ := c
  cases source with
  | none => simp [overlays, generation]
  | some source =>
    have hmem : file ∈ (∅ : ProjectSources).insert file source :=
      AList.mem_insert _ |>.mpr (.inl rfl)
    simp only [overlays, generation, Option.isSome_some, if_true, Nat.one_ne_zero, iff_false]
    intro hempty
    rw [hempty] at hmem
    exact AList.notMem_empty file hmem

theorem generation_le_one (c : Call M) : c.generation ≤ 1 := by
  unfold generation
  split
  · exact le_rfl
  · exact Nat.zero_le 1

end Call

namespace Workspace

/-- What was installed at a generation has an overlay exactly when the
generation is not zero. -/
def InstalledByCall (ws : Workspace M) : Prop :=
  ∀ g, ws.latestDocumentsGeneration = some g → g ≤ 1 ∧
    ∃ a, ws.latest = some a ∧ (a.prepared.sources = ∅ ↔ g = 0)

/-- A call that answers prepared a run, analyzed it, and installed it if no newer
generation stood in the way. -/
theorem recomputeFromSnapshot_ok {ws : Workspace M} {w : World M} {file : Path}
    {documents : DocumentAnalysisSnapshot} {r : Option (Analysis M)}
    (h : (ws.recomputeFromSnapshot w file documents).result = .ok r) :
    ∃ p a, (ws.prepareRecompute w file documents .full).result = .ok p ∧
      p.analyze w.fs = .ok a ∧
      (((∀ g, ws.latestDocumentsGeneration = some g → g ≤ documents.generation) ∧
        r = some a ∧ ∃ project, (ws.prepareRecompute w file documents .full).workspace.project =
          some project ∧ (ws.recomputeFromSnapshot w file documents).workspace =
            (ws.prepareRecompute w file documents .full).workspace.install project
              documents.generation a) ∨
       ((∃ g, ws.latestDocumentsGeneration = some g ∧ documents.generation < g) ∧
        r = ws.latest ∧ (ws.recomputeFromSnapshot w file documents).workspace =
          (ws.prepareRecompute w file documents .full).workspace)) := by
  obtain ⟨project, catalogBinding, hframe⟩ := ws.prepareRecompute_frame w file documents .full
  unfold recomputeFromSnapshot at h ⊢
  cases hprep : (ws.prepareRecompute w file documents .full).result with
  | error e => simp [hprep] at h
  | ok p =>
    obtain ⟨resolved, cache, binding, -, -, hproject, hp⟩ := project_of_prepareRecompute hprep
    simp only [hprep] at h ⊢
    cases hana : p.analyze w.fs with
    | error e => simp [hana] at h
    | ok a =>
      simp only [hana, Except.ok.injEq] at h ⊢
      have hgen : p.documentsGeneration = documents.generation := by rw [hp]
      have hepoch : p.invalidationEpoch = ws.invalidationEpoch := by rw [hp]
      refine ⟨p, a, rfl, hana, ?_⟩
      rcases (ws.prepareRecompute w file documents .full).workspace.commitRecompute_cases
        p.documentsGeneration p.invalidationEpoch a with
        ⟨hadmits, heq⟩ | ⟨project', hadmits, hproject', heq⟩
      · -- Refused: of the conditions to admit only the installed generation can fail.
        right
        rw [heq] at h ⊢
        rw [← Bool.not_eq_true, admits_iff, hgen, hepoch, hframe] at hadmits
        have hsome : ∃ p, project = some p := ⟨resolved, by rw [← hproject, hframe]⟩
        simp only [true_and, hsome] at hadmits
        push Not at hadmits
        refine ⟨?_, ?_, rfl⟩
        · obtain ⟨g, hg, hlt⟩ := hadmits
          exact ⟨g, hg, by omega⟩
        · rw [← h, hframe]
      · left
        rw [heq] at h ⊢
        rw [admits_iff, hgen] at hadmits
        refine ⟨?_, ?_, project', hproject', by rw [hgen]⟩
        · intro g hg
          apply hadmits.2.2
          rw [hframe]
          exact hg
        · rw [← h, install_latest]

/-- The analysis the call asked for: of the project its file resolves to, over
its own overlays, read and bound in its own world. -/
structure Answers (ws : Workspace M) (c : Call M) (documents : DocumentAnalysisSnapshot)
    (a : Analysis M) : Prop where
  project : resolveProject c.world.fs c.file = .ok ⟨a.prepared.root, a.prepared.config⟩
  overlays : a.prepared.sources = c.overlays
  prepared : (ws.prepareRecompute c.world c.file documents .full).result = .ok a.prepared
  texts : a.prepared.analyze c.world.fs = .ok a

/-- Whenever the call answers, it answers with the analysis it asked for. -/
def AnswersCall (ws : Workspace M) (c : Call M) : Prop :=
  ∀ documents r, c.documents = some documents →
    (ws.recomputeFromSnapshot c.world c.file documents).result = .ok r →
      ∃ a, r = some a ∧ ws.Answers c documents a

/-- The condition on a call: no newer generation is installed than the call's
own, and a cached project that covers the file is the one the file resolves to. -/
def Admissible (ws : Workspace M) (c : Call M) : Prop :=
  (∀ g, ws.latestDocumentsGeneration = some g → g ≤ c.generation) ∧
    ∀ project, ws.project = some project → c.file.startsWith project.root = true →
      resolveProject c.world.fs c.file = .ok project

/-- The run of a call carries what the file resolves to exactly when the cached
project, if it covers the file, is that. -/
theorem resolved_iff {ws : Workspace M} {c : Call M} {documents : DocumentAnalysisSnapshot}
    {p : PreparedRecompute M}
    (h : (ws.prepareRecompute c.world c.file documents .full).result = .ok p) :
    resolveProject c.world.fs c.file = .ok ⟨p.root, p.config⟩ ↔
      ∀ project, ws.project = some project → c.file.startsWith project.root = true →
        resolveProject c.world.fs c.file = .ok project := by
  obtain ⟨project, cache, binding, hres, -, -, hp⟩ := project_of_prepareRecompute h
  have hproject : (⟨p.root, p.config⟩ : Project M) = project := by rw [hp]
  rw [hproject]
  cases hcov : ws.covers c.file with
  | true =>
    obtain ⟨cached, hcached, hfile, hres'⟩ := resolveFor_of_covers c.world.fs hcov
    rw [hres'] at hres
    cases hres
    constructor
    · intro hok project' hproject' _
      rw [hcached] at hproject'
      cases hproject'
      exact hok
    · intro hall
      exact hall _ hcached hfile
  | false =>
    rw [resolveFor_of_not_covers c.world.fs hcov] at hres
    -- Nothing covers the file, so the prepare has resolved it itself.
    have hok : resolveProject c.world.fs c.file = .ok project := by
      cases hr : resolveProject (M := M) c.world.fs c.file with
      | error e => simp [hr, Except.map] at hres
      | ok resolved =>
        simp only [hr, Except.map, Except.ok.injEq, Prod.mk.injEq] at hres
        rw [hres.1]
    constructor
    · intro _ cached hcached hfile
      simp [covers, hcached, hfile] at hcov
    · intro _
      exact hok

/-- The run of a call carries the call's overlay. -/
theorem overlays_of_prepareRecompute {ws : Workspace M} {c : Call M} (hurl : M.UrlNamesFile)
    {documents : DocumentAnalysisSnapshot} (hdocuments : c.documents = some documents)
    {p : PreparedRecompute M}
    (h : (ws.prepareRecompute c.world c.file documents .full).result = .ok p) :
    p.sources = c.overlays := by
  obtain ⟨project, cache, binding, hres, -, -, hp⟩ := project_of_prepareRecompute h
  rw [hp]
  exact Call.overlaySnapshot_documents hurl hdocuments (startsWith_of_resolveFor hres)

theorem recomputeFromSnapshot_error {ws : Workspace M} {w : World M} {file : Path}
    {documents : DocumentAnalysisSnapshot} {e : WorkspaceError M}
    (h : (ws.recomputeFromSnapshot w file documents).result = .error e) :
    (ws.recomputeFromSnapshot w file documents).workspace =
      (ws.prepareRecompute w file documents .full).workspace := by
  unfold recomputeFromSnapshot at h ⊢
  cases hprep : (ws.prepareRecompute w file documents .full).result with
  | error e' => simp only [hprep]
  | ok p =>
    cases hana : p.analyze w.fs with
    | error e' => simp only [hprep, hana]
    | ok a => simp [hprep, hana] at h

theorem InstalledByCall.step {ws ws' : Workspace M} {c : Call M} (hurl : M.UrlNamesFile)
    (h : ws.InstalledByCall) (hstep : Call.step ws c = some ws') : ws'.InstalledByCall := by
  simp only [Call.step, Option.map_eq_some_iff] at hstep
  obtain ⟨documents, hdocuments, hws'⟩ := hstep
  have hprepared : (ws.prepareRecompute c.world c.file documents .full).workspace.InstalledByCall := by
    obtain ⟨project, catalogBinding, hframe⟩ :=
      ws.prepareRecompute_frame c.world c.file documents .full
    rw [hframe]
    exact h
  rw [← hws']
  cases hresult : (ws.recomputeFromSnapshot c.world c.file documents).result with
  | error e =>
    rw [recomputeFromSnapshot_error hresult]
    exact hprepared
  | ok r =>
    obtain ⟨p, a, hprep, hana, ⟨-, -, project, -, heq⟩ | ⟨-, -, heq⟩⟩ :=
      recomputeFromSnapshot_ok hresult
    · rw [heq]
      intro g hg
      simp only [install_latestDocumentsGeneration, Option.some.injEq] at hg
      have hgen : c.generation = g := by rw [← Call.generation_documents hdocuments, hg]
      refine ⟨hgen ▸ c.generation_le_one, a, install_latest .., ?_⟩
      rw [PreparedRecompute.prepared_of_analyze hana,
        overlays_of_prepareRecompute hurl hdocuments hprep, c.overlays_eq_empty_iff, hgen]
    · rw [heq]
      exact hprepared

/-- A call answers with what it asked for exactly when it is admissible. -/
theorem answersCall_iff {ws : Workspace M} {c : Call M} (hurl : M.UrlNamesFile)
    (h : ws.InstalledByCall) : ws.AnswersCall c ↔
      ((∃ documents r, c.documents = some documents ∧
        (ws.recomputeFromSnapshot c.world c.file documents).result = .ok r) → ws.Admissible c) := by
  constructor
  · rintro hanswers ⟨documents, r, hdocuments, hresult⟩
    obtain ⟨a, hr, hanswer⟩ := hanswers documents r hdocuments hresult
    obtain ⟨p, own, hprep, -, ⟨hgen, -, -⟩ | ⟨⟨g, hg, hlt⟩, hlatest, -⟩⟩ :=
      recomputeFromSnapshot_ok hresult
    · rw [Call.generation_documents hdocuments] at hgen
      exact ⟨hgen, (resolved_iff hanswer.prepared).mp hanswer.project⟩
    · -- the installed snapshot was answered: it has an overlay and the call has none
      rw [Call.generation_documents hdocuments] at hlt
      obtain ⟨hle, installed, hinstalled, hempty⟩ := h g hg
      have hsame : installed = a := by
        rw [hinstalled, hr] at hlatest
        exact (Option.some.inj hlatest).symm
      have hzero : c.generation = 0 := by omega
      have hsources : installed.prepared.sources = ∅ := by
        rw [hsame, hanswer.overlays, c.overlays_eq_empty_iff]
        exact hzero
      have := hempty.mp hsources
      omega
  · intro hadmissible documents r hdocuments hresult
    obtain ⟨hgen, hproject⟩ := hadmissible ⟨documents, r, hdocuments, hresult⟩
    obtain ⟨p, a, hprep, hana, ⟨-, hr, -⟩ | ⟨⟨g, hg, hlt⟩, -, -⟩⟩ :=
      recomputeFromSnapshot_ok hresult
    · have hp := PreparedRecompute.prepared_of_analyze hana
      refine ⟨a, hr, ?_, ?_, ?_, ?_⟩
      · rw [hp]
        exact (resolved_iff hprep).mpr hproject
      · rw [hp]
        exact overlays_of_prepareRecompute hurl hdocuments hprep
      · rw [hp]
        exact hprep
      · rw [hp]
        exact hana
    · rw [Call.generation_documents hdocuments] at hlt
      have := hgen g hg
      omega

theorem installedByCall_new : (new : Workspace M).InstalledByCall := by
  intro g hg
  cases hg

/-- In a sequence of calls every call answers with the analysis it asked for
exactly when every call that answers is admissible. -/
theorem answersCall_run_iff (hurl : M.UrlNamesFile) (calls : List (Call M)) :
    AllSteps Call.step (fun ws c _ => ws.AnswersCall c) Workspace.new calls ↔
      AllSteps Call.step (fun ws c _ => (∃ documents r, c.documents = some documents ∧
        (ws.recomputeFromSnapshot c.world c.file documents).result = .ok r) → ws.Admissible c)
        Workspace.new calls :=
  allSteps_congr (I := InstalledByCall) (fun _ _ _ h hstep _ => h.step hurl hstep)
    (fun _ _ _ h _ => answersCall_iff hurl h) calls installedByCall_new

/-- The analysis a call answers with. -/
def answer (ws : Workspace M) (c : Call M) : Option (Analysis M) :=
  c.documents.bind fun documents =>
    match (ws.recomputeFromSnapshot c.world c.file documents).result with
    | .ok r => r
    | .error _ => none

theorem overlays_of_answersCall {ws : Workspace M} {c : Call M} (h : ws.AnswersCall c)
    {a : Analysis M} (ha : ws.answer c = some a) : a.prepared.sources = c.overlays := by
  simp only [answer, Option.bind_eq_some_iff] at ha
  obtain ⟨documents, hdocuments, ha⟩ := ha
  cases hresult : (ws.recomputeFromSnapshot c.world c.file documents).result with
  | error e => simp [hresult] at ha
  | ok r =>
    simp only [hresult] at ha
    obtain ⟨a', hr, hanswer⟩ := h documents r hdocuments hresult
    rw [ha] at hr
    cases hr
    exact hanswer.overlays

end Workspace

/-! ## Loads -/

namespace CachedProject

/-- What a load can do: find the cache fresh, find no URL for an overlaid file,
or recompute. -/
theorem load_cases (c : CachedProject M) (call : Call M) :
    (c.isFreshFor call.world.fs call.file call.overlay = true ∧
      c.load call.world call.file call.source = ⟨.ok (), c, []⟩) ∨
    (c.isFreshFor call.world.fs call.file call.overlay = false ∧ call.documents = none ∧
      c.load call.world call.file call.source =
        ⟨.error (.load "the file path is not absolute"), c, []⟩) ∨
    ∃ documents, c.isFreshFor call.world.fs call.file call.overlay = false ∧
      call.documents = some documents ∧
      c.load call.world call.file call.source =
        let recompute := c.workspace.recomputeFromSnapshot call.world call.file documents
        match recompute.result with
        | .error e =>
          ⟨.error (.load e.message), { c with workspace := recompute.workspace }, recompute.opens⟩
        | .ok _ =>
          ⟨.ok (), c.refingerprint call.world.fs recompute.workspace call.overlay,
            recompute.opens⟩ := by
  unfold CachedProject.load
  have hoverlay : call.source.map (fun source => (call.file, source)) = call.overlay := rfl
  simp only [hoverlay]
  cases hfresh : c.isFreshFor call.world.fs call.file call.overlay with
  | true => exact .inl ⟨rfl, if_pos rfl⟩
  | false =>
    cases hdoc : callDocuments M call.file call.source with
    | none => exact .inr (.inl ⟨rfl, by simp [Call.documents, hdoc], rfl⟩)
    | some documents =>
      exact .inr (.inr ⟨documents.analysisSnapshot M, rfl, by simp [Call.documents, hdoc], rfl⟩)

end CachedProject

/-! ## An overlay, then none -/

namespace Sample

/-- A file checked with an unsaved edit. -/
def edited : Call Marrow.sample := ⟨twins, app "A", some ['y']⟩

/-- The same file checked as it is on disk. -/
def onDisk : Call Marrow.sample := ⟨twins, app "A", none⟩

end Sample

namespace Workspace

open Sample in
theorem answersCall_run_iff_onDisk_edited :
    AllSteps Call.step (fun ws c _ => ws.AnswersCall c) (new : Workspace Marrow.sample)
      [onDisk, edited] := by
  refine (answersCall_run_iff urlNamesFile _).mpr ?_
  intro ws hws
  refine ⟨fun _ => ⟨fun g hg => ?_, fun project hproject => ?_⟩, ?_⟩
  · cases hg
  · cases hproject
  · intro ws' _
    refine ⟨fun _ => ⟨fun g hg => ?_, fun project hproject _ => ?_⟩, trivial⟩
    · cases hws
      cases hg
      decide
    · cases hws
      cases hproject
      rfl

open Sample in
theorem not_answersCall_edited_onDisk :
    ¬ AllSteps Call.step (fun ws c _ => ws.AnswersCall c) (new : Workspace Marrow.sample)
      [edited, onDisk] := by
  intro h
  have hrun : (Call.step new edited).any (fun ws => (ws.answer onDisk).any fun a =>
      a.prepared.sources.lookup (app "A") != onDisk.overlays.lookup (app "A")) = true := by
    decide
  obtain ⟨ws, hws, hrun⟩ := (Option.any_eq_true _ _).mp hrun
  obtain ⟨a, ha, hsources⟩ := (Option.any_eq_true _ _).mp hrun
  obtain ⟨ws', hws'⟩ : ∃ ws', Call.step ws onDisk = some ws' := ⟨_, rfl⟩
  have hanswers := ((h ws hws).2 ws' hws').1
  rw [overlays_of_answersCall hanswers ha] at hsources
  exact absurd rfl (bne_iff_ne.mp hsources)

end Workspace
end MarrowLsp
