-- SUMMARY: The runs of editor events and recomputes on one file system: what an edit, the end of its handler and a prepare must find, and what a step then does.
import MarrowLsp.Lsp.Debounce
import MarrowLsp.Lsp.Freshness

/-!
# Runs of editor events

The document generation counts the changes of all buffers, while recomputes are
scheduled for one project each. What the recomputes of a project are at a state, what a
step must find so that none is left without a successor, and what a step that finds it
does to them.
-/
namespace MarrowLsp

open Transition

variable {M : Marrow}

/-! ## The buffers of a project -/

/-- The open documents whose project is the one at `root`. -/
def buffersOf (fs : Fs) (root : Path) (documents : DocumentAnalysisSnapshot) :
    List OpenDocumentForAnalysis :=
  documents.openDocuments.filter fun document =>
    decide (projectRootOf fs document.path = some root)

variable (M) in
/-- The project of the file a URL names. -/
def projectOfUrl (fs : Fs) (url : Url) : Option Path := (M.toFilePath url).bind (projectRootOf fs)

/-- The projects of the files to recompute. -/
def projects (fs : Fs) (tasks : List Task) : List Path :=
  tasks.filterMap fun task => projectRootOf fs task.file

theorem mem_projects {fs : Fs} {tasks : List Task} {root : Path} :
    root ∈ projects fs tasks ↔ ∃ task ∈ tasks, projectRootOf fs task.file = some root :=
  List.mem_filterMap

theorem projects_mono {fs : Fs} {tasks tasks' : List Task} (h : ∀ task ∈ tasks, task ∈ tasks')
    {root : Path} (hmem : root ∈ projects fs tasks) : root ∈ projects fs tasks' := by
  obtain ⟨task, htask, hroot⟩ := mem_projects.mp hmem
  exact mem_projects.mpr ⟨task, h task htask, hroot⟩

/-- A change of a buffer of one project leaves the buffers of the others alone. -/
theorem buffersOf_apply {fs : Fs} {root : Path} (d : Documents) (op : Documents.Op)
    (h : projectOfUrl M fs op.url ≠ some root) :
    buffersOf fs root ((d.apply op).analysisSnapshot M) =
      buffersOf fs root (d.analysisSnapshot M) := by
  refine Documents.filter_openDocuments_congr _ fun document hkind => ?_
  rw [decide_eq_true_eq] at hkind
  rw [Documents.mem_openDocuments_iff, Documents.mem_openDocuments_iff]
  refine and_congr_left fun hpath => ?_
  have hne : document.url ≠ op.url := by
    intro heq
    refine h ?_
    rw [← heq, projectOfUrl, hpath, Option.bind_some, hkind]
  rw [d.get_apply_of_ne op hne]

namespace Server

/-! ## Recomputes of a project -/

/-- A recompute past its debounce is live while no other was asked of the root it was
scheduled for. If that is not its project's, no check of the root is left. -/
def live (fs : Fs) (s : Server M) (task : Task) : Bool :=
  task.rootEpoch.all fun (root, epoch) =>
    !s.tracker.isStale root epoch || !decide (projectRootOf fs task.file = some root)

/-- The live recomputes that have yet to capture the buffers. -/
def uncaptured (fs : Fs) (s : Server M) : List Task :=
  s.sleeping.filter (fun task => !s.cancelled task) ++ s.awake.filter (s.live fs)

/-- The live recomputes that wait for the run lock with the current buffers. -/
def waitingCurrent (fs : Fs) (s : Server M) : List Task :=
  (s.waiting.filter fun x => s.documents.matchesGeneration x.documents && s.live fs x.task).map
    (·.task)

/-- The recompute with the run lock, if it is live and has the current buffers. -/
def runningCurrent (fs : Fs) (s : Server M) : List Task :=
  ((s.running.filter fun r => s.documents.matchesGeneration r.documents && s.live fs r.task).map
    (·.task)).toList

/-- The recomputes that have captured the buffers. -/
def captured (s : Server M) : List Task :=
  s.waiting.map (·.task) ++ (s.running.map (·.task)).toList

/-- Those whose buffers have moved since. -/
def outdated (s : Server M) : List Task :=
  (s.waiting.filter fun x => !s.documents.matchesGeneration x.documents).map (·.task) ++
    ((s.running.filter fun r => !s.documents.matchesGeneration r.documents).map (·.task)).toList

/-- A recompute of the project with the current buffers is to come: a handler is about to
schedule it, or it is scheduled, or it waits for the run lock. -/
def Awaits (fs : Fs) (s : Server M) (root : Path) : Prop :=
  (s.handling.bind (·.file)).bind (projectRootOf fs) = some root ∨
    root ∈ projects fs (s.uncaptured fs) ∨ root ∈ projects fs (s.waitingCurrent fs)

instance (fs : Fs) (s : Server M) (root : Path) : Decidable (Awaits fs s root) :=
  inferInstanceAs (Decidable (_ ∨ _ ∨ _))

/-- What was sent is about a file of the project at `root`. -/
def concerns (fs : Fs) (root : Path) : Publish M → Bool
  | .recompute r _ _ _ => decide (r = root)
  | .clear messages => messages.any fun message => decide (projectOfUrl M fs message.url = some root)

/-- The last thing sent about the project at `root` is the diagnostics of an analysis of
its current buffers. -/
def UpToDate (fs : Fs) (s : Server M) (root : Path) : Prop :=
  ∃ a documents sent tracker,
    s.published.find? (concerns fs root) = some (.recompute root a documents sent) ∧
      Sends tracker documents a sent ∧ a.prepared.root = root ∧ a.prepared.IsFrom documents ∧
      buffersOf fs root documents = buffersOf fs root (s.documents.analysisSnapshot M)

/-- The last thing sent about the project at `root` was sent for its current buffers. -/
def shown (fs : Fs) (s : Server M) (root : Path) : Bool :=
  match s.published.find? (concerns fs root) with
  | some (.recompute _ _ documents _) =>
    decide (buffersOf fs root documents = buffersOf fs root (s.documents.analysisSnapshot M))
  | _ => false

/-! ## The runs in question -/

/-- Editor events and recomputes on one file system, with prepares and analyses that
succeed. -/
def assumes (fs : Fs) (s : Server M) : Action M → Bool
  | .didChangeWatchedFiles .. => false
  | .prepare w i => (s.waiting[i]?).all fun x =>
      decide (projectRootOf w.fs x.task.file = projectRootOf fs x.task.file) &&
        ((projectRootOf fs x.task.file).isNone ||
          ((applyPendingWorkspaceInvalidation s.pending s.workspace).prepareRecompute w
            x.task.file x.documents x.task.scope).result.isOk)
  | .analyze fs' => s.running.all fun r => (r.run.analyze fs').isOk
  | _ => true

/-- A change that has an effect finds, for each captured recompute of another project, a
live one that has yet to capture. -/
def spares (fs : Fs) (s : Server M) (op : Documents.Op) : Bool :=
  !s.documents.moves op || (projects fs s.captured).all fun root =>
    decide (projectOfUrl M fs op.url = some root) || decide (root ∈ projects fs (s.uncaptured fs))

/-- A task past its debounce that another for the root `known` replaces. -/
def replaces (fs : Fs) (known : Option Path) (task : Task) : Bool :=
  known.isSome && decide (task.rootEpoch.map (·.1) = known) &&
    decide (projectRootOf fs task.file = known)

/-- The live recomputes that another for the root `known`, or for an unknown one, replaces:
the sleeping ones for this root, and those of its project that are past their debounce. -/
def replaced (fs : Fs) (s : Server M) (known : Option Path) : List Task :=
  s.sleeping.filter (fun task => decide (task.rootEpoch.map (·.1) = known) && !s.cancelled task) ++
    (s.awake.filter (s.live fs) ++ s.waitingCurrent fs ++ s.runningCurrent fs).filter
      (replaces fs known)

/-- The live recomputes to come that it does not. -/
def kept (fs : Fs) (s : Server M) (known : Option Path) : List Task :=
  s.sleeping.filter (fun task => !decide (task.rootEpoch.map (·.1) = known) && !s.cancelled task) ++
    (s.awake.filter (s.live fs) ++ s.waitingCurrent fs).filter fun task => !replaces fs known task

/-- The running recompute, if it is one it does not. -/
def keptRunning (fs : Fs) (s : Server M) (known : Option Path) : List Task :=
  (s.runningCurrent fs).filter fun task => !replaces fs known task

/-- The project has a captured recompute whose buffers have moved, or buffers that are not
those shown last and that no running recompute has captured as they are. -/
def needs (fs : Fs) (s : Server M) (known : Option Path) (root : Path) : Bool :=
  decide (root ∈ projects fs s.outdated) ||
    !(buffersOf fs root (s.documents.analysisSnapshot M)).isEmpty && !s.shown fs root &&
      !decide (root ∈ projects fs (s.keptRunning fs known))

/-- What the recompute of a handler replaces is of its own project, not needed or not
alone. -/
def schedules (fs : Fs) (s : Server M) (busy : Bool) (path : Path) : Bool :=
  let known := s.knownRoot busy path
  (projects fs (s.replaced fs known)).all fun root =>
    decide (projectRootOf fs path = some root) || !s.needs fs known root ||
      decide (root ∈ projects fs (s.kept fs known))

/-- A prepare resolves a file's own project, and is not that of the last recompute behind
an outdated one. -/
def prepares (fs : Fs) (s : Server M) (i : Nat) (x : Waiting) : Bool :=
  let rest := { s with waiting := s.waiting.eraseIdx i }
  (s.workspace.project.all fun project => !x.task.file.startsWith project.root ||
      decide (projectRootOf fs x.task.file = some project.root)) &&
    (projects fs rest.outdated).all fun root => decide (Awaits fs rest root)

/-- The condition on one step. -/
def keepsPublishes (fs : Fs) (s : Server M) : Action M → Bool
  | .didOpen url text version => s.spares fs (.openWithVersion url text (some version))
  | .didChange url text version => s.spares fs (.changeWithVersion url text (some version))
  | .didClose url => s.spares fs (.close url)
  | .handle _ busy => ((s.handling.bind (·.file)).all fun path => s.schedules fs busy path)
  | .prepare _ i => (s.waiting[i]?).all fun x => s.prepares fs i x
  | _ => true

end Server

/-! ## What a step of such a run does -/

variable (M) in
/-- A handler of an editor event: not one of a watched batch, and a close of the file its
URL names. -/
def Handling.Plain : Handling → Prop
  | .edit .. => True
  | .close url path => path = M.toFilePath url
  | .watch .. | .watchAgain .. => False

namespace Server

/-- Every run belongs to the project of its task's file, nothing is invalidated, and a run
that publishes has the current buffers. -/
structure Attributed (fs : Fs) (s : Server M) : Prop where
  pending : s.pending = .none
  plain : ∀ handling, s.handling = some handling → handling.Plain M
  running : ∀ r, s.running = some r → projectRootOf fs r.task.file = some r.run.root
  epoch : ∀ r, s.running = some r → r.run.invalidationEpoch = s.workspace.invalidationEpoch
  installed : ∀ n, s.workspace.latestDocumentsGeneration = some n → n ≤ s.documents.generation
  publishing : ∀ r root scope a diagnostics, s.running = some r →
    r.stage = .publishing root scope a diagnostics →
      s.handling = none ∧ s.documents.matchesGeneration r.documents = true

/-- What was sent grows by clears of files of one project, or of none. -/
def ClearsOnly (fs : Fs) (project : Option Path) (before after : List (Publish M)) : Prop :=
  after = before ∨ ∃ url, after = .clear [⟨url, [], none⟩] :: before ∧
    projectOfUrl M fs url = project

/-- The steps of such a run, with what each finds and leaves. -/
inductive KeptStep (fs : Fs) (s : Server M) : Server M → Prop where
  | event {op : Documents.Op} {handling : Option Handling} (hfree : s.publishFree = true)
      (hfile : (handling.bind (·.file)).bind (projectRootOf fs) = projectOfUrl M fs op.url)
      (hplain : ∀ h, handling = some h → h.Plain M)
      (hspared : s.documents.moves op = true → ∀ root ∈ projects fs s.captured,
        projectOfUrl M fs op.url = some root ∨ root ∈ projects fs (s.uncaptured fs)) :
      s.KeptStep fs { s with documents := s.documents.apply op, handling }
  | scheduled {known : Option Path} {path : Path} {task : Task} {tracker : DiagnosticsTracker}
      {editSeq : Nat} {published : List (Publish M)}
      (hhandled : s.handling.bind (·.file) = some path) (htask : task.file = path)
      (hfresh : cancelled { s with tracker, editSeq } task = false)
      (hepoch : ∀ root, known ≠ some root → tracker.epoch root = s.tracker.epoch root)
      (hseq : known.isSome = true → editSeq = s.editSeq)
      (hkept : ∀ root ∈ projects fs (s.replaced fs known), projectRootOf fs path = some root ∨
        s.needs fs known root = false ∨ root ∈ projects fs (s.kept fs known))
      (hpublished : ClearsOnly fs (projectRootOf fs path) s.published published) :
      s.KeptStep fs
        { s with
          handling := none
          tracker
          editSeq
          sleeping := s.sleeping ++ [task]
          published }
  | nothing {published : List (Publish M)} (hhandled : s.handling.bind (·.file) = none)
      (hpublished : ClearsOnly fs none s.published published) :
      s.KeptStep fs { s with handling := none, published }
  | preflight {i : Nat} {task : Task} (htask : s.sleeping[i]? = some task) :
      s.KeptStep fs (s.preflight i task)
  | capture {i : Nat} {task : Task} (htask : s.awake[i]? = some task) :
      s.KeptStep fs (s.capture i task)
  | dismissed {i : Nat} {x : Waiting} (hx : s.waiting[i]? = some x)
      (hnone : projectRootOf fs x.task.file = none) :
      s.KeptStep fs { s with waiting := s.waiting.eraseIdx i }
  | prepared {i : Nat} {x : Waiting} {workspace : Workspace M} {run : PreparedRecompute M}
      (hrunning : s.running = none) (hx : s.waiting[i]? = some x)
      (hroot : projectRootOf fs x.task.file = some run.root)
      (hepoch : run.invalidationEpoch = workspace.invalidationEpoch)
      (hgeneration :
        workspace.latestDocumentsGeneration = s.workspace.latestDocumentsGeneration)
      (hawaits : ∀ root ∈ projects fs (outdated { s with waiting := s.waiting.eraseIdx i }),
        Awaits fs { s with waiting := s.waiting.eraseIdx i } root) :
      s.KeptStep fs
        { s with
          workspace
          waiting := s.waiting.eraseIdx i
          running := some ⟨x.task, x.documents, run, .prepared⟩ }
  | goes {r : Running M} {workspace : Workspace M} {stage : RunStage M}
      (hr : s.running = some r)
      (hepoch : workspace.invalidationEpoch = s.workspace.invalidationEpoch)
      (hgeneration : ∀ n, workspace.latestDocumentsGeneration = some n →
        s.workspace.latestDocumentsGeneration = some n ∨ n = r.documents.generation)
      (hstage : stage.holdsPublish = true → s.handling = none ∧
        s.documents.matchesGeneration r.documents = true) :
      s.KeptStep fs { s with workspace, running := some { r with stage } }
  | refused {r : Running M} (hr : s.running = some r)
      (hmoved : s.documents.matchesGeneration r.documents = false) :
      s.KeptStep fs { s with running := none }
  | stale {r : Running M} (hr : s.running = some r) (hstale : s.live fs r.task = false) :
      s.KeptStep fs { s with running := none }
  | published {r : Running M} {a : Analysis M} {sent : List PublishedDiagnostics}
      {tracker : DiagnosticsTracker} (hr : s.running = some r)
      (hmatch : s.documents.matchesGeneration r.documents = true)
      (hepoch : ∀ root, tracker.epoch root = s.tracker.epoch root) :
      s.KeptStep fs
        { s with
          tracker
          running := none
          published := .recompute r.run.root a r.documents sent :: s.published }
  | indexed {workspace : Workspace M}
      (hepoch : workspace.invalidationEpoch = s.workspace.invalidationEpoch)
      (hgeneration :
        workspace.latestDocumentsGeneration = s.workspace.latestDocumentsGeneration) :
      s.KeptStep fs { s with workspace }

variable {fs : Fs}

theorem spared_of_spares {s : Server M} {op : Documents.Op} (h : s.spares fs op = true)
    (hmoves : s.documents.moves op = true) :
    ∀ root ∈ projects fs s.captured,
      projectOfUrl M fs op.url = some root ∨ root ∈ projects fs (s.uncaptured fs) := by
  intro root hroot
  unfold spares at h
  rw [hmoves, Bool.not_true, Bool.false_or, List.all_eq_true] at h
  simpa using h root hroot

theorem kept_of_schedules {s : Server M} {busy : Bool} {path : Path}
    (h : s.schedules fs busy path = true) :
    ∀ root ∈ projects fs (s.replaced fs (s.knownRoot busy path)),
      projectRootOf fs path = some root ∨ s.needs fs (s.knownRoot busy path) root = false ∨
        root ∈ projects fs (s.kept fs (s.knownRoot busy path)) := by
  intro root hroot
  unfold schedules at h
  simpa [or_assoc] using List.all_eq_true.mp h root hroot

theorem keptStep_finishEdit {s : Server M} {busy : Bool} {path : Path} {scope : RecomputeScope}
    (hhandling : s.handling = some (.edit path scope)) (h : s.schedules fs busy path = true) :
    s.KeptStep fs (s.finishEdit busy path scope) := by
  have hhandled : s.handling.bind (·.file) = some path := by rw [hhandling]; rfl
  have hkept := kept_of_schedules h
  unfold finishEdit
  cases hknown : s.knownRoot busy path with
  | some root =>
    rw [hknown] at hkept
    refine .scheduled hhandled rfl ?_ (fun r hr => ?_) (fun _ => rfl) hkept (.inl rfl)
    · simp [cancelled, DiagnosticsTracker.isStale]
    · rw [DiagnosticsTracker.epoch_bumpRootEpoch, if_neg fun heq => hr (congrArg some heq.symm)]
  | none =>
    rw [hknown] at hkept
    refine .scheduled hhandled rfl ?_ (fun _ _ => rfl) (fun hsome => by cases hsome) hkept
      (.inl rfl)
    simp [cancelled]

theorem keptStep_finishClose {s : Server M} {busy : Bool} {url : Url}
    (hhandling : s.handling = some (.close url (M.toFilePath url)))
    (h : ∀ path, M.toFilePath url = some path → s.schedules fs busy path = true) :
    s.KeptStep fs (s.finishClose busy url (M.toFilePath url)) := by
  have hhandled : s.handling.bind (·.file) = M.toFilePath url := by rw [hhandling]; rfl
  unfold finishClose
  cases hpath : M.toFilePath url with
  | none =>
    refine .nothing (by rw [hhandled, hpath]) (.inr ⟨url, rfl, ?_⟩)
    rw [projectOfUrl, hpath, Option.bind_none]
  | some path =>
    have hclear : projectOfUrl M fs url = projectRootOf fs path := by
      rw [projectOfUrl, hpath, Option.bind_some]
    have hkept := kept_of_schedules (h path hpath)
    rw [hpath] at hhandled
    rw [Option.bind_some]
    cases hknown : s.knownRoot busy path with
    | some root =>
      rw [hknown] at hkept
      refine .scheduled hhandled rfl ?_ (fun r hr => ?_) (fun _ => rfl) hkept
        (.inr ⟨url, rfl, hclear⟩)
      · simp [cancelled, DiagnosticsTracker.isStale, sendClears]
      · show ((s.tracker.clearUrl root url).2.bumpRootEpoch root).epoch r = s.tracker.epoch r
        rw [DiagnosticsTracker.epoch_bumpRootEpoch, if_neg fun heq => hr (congrArg some heq.symm),
          DiagnosticsTracker.epoch_clearUrl]
    | none =>
      rw [hknown] at hkept
      refine .scheduled hhandled rfl ?_ (fun _ _ => rfl) (fun hsome => by cases hsome) hkept
        (.inr ⟨url, rfl, hclear⟩)
      simp [cancelled]

/-- The resolved project of a prepare is that of its file: the cached one is by the
condition, one resolved now because the file system has not changed. -/
theorem resolved_of_prepares {s : Server M} {w : World M} {i : Nat} {x : Waiting}
    (hsame : projectRootOf w.fs x.task.file = projectRootOf fs x.task.file)
    (hprepares : s.prepares fs i x = true) {project : Project M} {cache : CatalogBindingCache M}
    (hresolve : s.workspace.resolveFor w.fs x.task.file = .ok (project, cache)) :
    projectRootOf fs x.task.file = some project.root := by
  cases hcov : s.workspace.covers x.task.file with
  | true =>
    obtain ⟨p, hp, hfile, heq⟩ := Workspace.resolveFor_of_covers w.fs hcov
    rw [heq] at hresolve
    cases hresolve
    simp only [prepares, hp, Option.all_some, hfile, Bool.not_true, Bool.false_or,
      Bool.and_eq_true, decide_eq_true_eq] at hprepares
    exact hprepares.1
  | false =>
    rw [Workspace.resolveFor_of_not_covers w.fs hcov] at hresolve
    cases hnew : resolveProject (M := M) w.fs x.task.file with
    | error e =>
      rw [hnew] at hresolve
      cases hresolve
    | ok p =>
      rw [hnew] at hresolve
      cases hresolve
      rw [← hsame]
      exact projectRootOf_of_resolveProject hnew

theorem keptStep_prepare {s : Server M} {w : World M} {i : Nat} {x : Waiting}
    (hpending : s.pending = .none) (hrunning : s.running = none) (hx : s.waiting[i]? = some x)
    (hassumes : s.assumes fs (.prepare w i) = true) (hprepares : s.prepares fs i x = true) :
    s.KeptStep fs (s.prepare w i x) := by
  simp only [assumes, hx, hpending, applyPending_none, Option.all_some, Bool.and_eq_true,
    decide_eq_true_eq, Bool.or_eq_true] at hassumes
  obtain ⟨hsame, hok⟩ := hassumes
  have hawaits := hprepares
  simp only [prepares, Bool.and_eq_true, List.all_eq_true, decide_eq_true_eq] at hawaits
  unfold prepare
  rw [hpending, applyPending_none]
  dsimp only
  rcases s.workspace.prepareRecompute_cases w x.task.file x.documents x.task.scope with
    ⟨e, hresolve, heq⟩ | ⟨project, cache, hresolve, hws, -, -⟩
  · -- Nothing fails but what has no project.
    have hnone : projectRootOf fs x.task.file = none := by
      rcases hok with hnone | hok
      · exact Option.isNone_iff_eq_none.mp hnone
      · rw [heq] at hok
        cases hok
    rw [heq]
    dsimp only
    rw [← hpending]
    exact .dismissed hx hnone
  · have hroot := resolved_of_prepares hsame hprepares hresolve
    rw [hroot] at hok
    rcases hok with hnone | hok
    · cases hnone
    · cases hrun : (s.workspace.prepareRecompute w x.task.file x.documents x.task.scope).result with
      | error e =>
        rw [hrun] at hok
        cases hok
      | ok run =>
        obtain ⟨project', cache', binding, hresolve', -, -, hp⟩ :=
          Workspace.project_of_prepareRecompute hrun
        rw [hresolve] at hresolve'
        cases hresolve'
        dsimp only
        rw [hws, ← hpending]
        refine .prepared hrunning hx ?_ ?_ rfl hawaits.2
        · rw [hroot, hp]
        · rw [hp]

/-- A run that goes on and leaves the workspace alone. -/
theorem keptStep_stage {s : Server M} {r : Running M} {stage : RunStage M}
    (hr : s.running = some r) (hstage : stage.holdsPublish = true → s.handling = none ∧
      s.documents.matchesGeneration r.documents = true) :
    s.KeptStep fs { s with running := some { r with stage } } := by
  have hsame : s.KeptStep fs
      { s with workspace := s.workspace, running := some { r with stage } } :=
    .goes hr rfl (fun n hn => .inl hn) hstage
  exact hsame

theorem keptStep_analyze {s : Server M} {fs' : Fs} {r : Running M} (hr : s.running = some r)
    (hassumes : s.assumes fs (.analyze fs') = true) : s.KeptStep fs (s.analyze fs' r) := by
  simp only [assumes, hr, Option.all_some] at hassumes
  rcases s.analyze_cases fs' r with ⟨e, herror, -⟩ | ⟨a, -, heq⟩
  · rw [herror] at hassumes
    cases hassumes
  · rw [heq]
    exact keptStep_stage hr fun hholds => by cases hholds

/-- Of the reasons to refuse a commit only a newer installed generation is left. -/
theorem moved_of_not_admits {s : Server M} {r : Running M} (hr : s.running = some r)
    (hcoherent : s.Coherent) (h : s.Attributed fs)
    (hadmits : s.workspace.admits r.run.documentsGeneration r.run.invalidationEpoch = false) :
    s.documents.matchesGeneration r.documents = false := by
  have hrun := hcoherent r hr
  have hepoch := h.epoch r hr
  have hnewer : ∃ n, s.workspace.latestDocumentsGeneration = some n ∧
      r.run.documentsGeneration < n := by
    by_contra hnone
    have hadmitted := Workspace.admits_iff.mpr ⟨hepoch.symm, ⟨_, hrun.project hepoch.symm⟩,
      fun installed hinstalled => Nat.le_of_not_lt fun hlt => hnone ⟨installed, hinstalled, hlt⟩⟩
    rw [hadmits] at hadmitted
    cases hadmitted
  obtain ⟨n, hn, hlt⟩ := hnewer
  have hle := h.installed n hn
  have hgeneration := hrun.isFrom.generation
  rw [Documents.matchesGeneration_eq_false_iff]
  omega

/-- In such a run a commit is dropped because the buffers have moved, or installs. -/
theorem commit_of_attributed {s : Server M} {r : Running M} {a : Analysis M}
    (hr : s.running = some r) (hcoherent : s.Coherent) (h : s.Attributed fs) :
    s.documents.matchesGeneration r.documents = false ∧
        s.commit r a = { s with running := none } ∨
      ∃ project, s.commit r a = { s with
        workspace := s.workspace.install project r.run.documentsGeneration a
        running := some { r with stage := .committed } } := by
  rcases s.commit_cases r a with ⟨hpending, -⟩ | ⟨-, ⟨hadmits, heq⟩ | ⟨project, -, -, heq⟩⟩
  · rw [h.pending] at hpending
    cases hpending
  · exact .inl ⟨moved_of_not_admits hr hcoherent h hadmits, heq⟩
  · exact .inr ⟨project, heq⟩

theorem keptStep_commit {s : Server M} {r : Running M} {a : Analysis M} (hr : s.running = some r)
    (hcoherent : s.Coherent) (h : s.Attributed fs) : s.KeptStep fs (s.commit r a) := by
  rcases commit_of_attributed hr hcoherent h with ⟨hmoved, heq⟩ | ⟨project, heq⟩
  · rw [heq]
    exact .refused hr hmoved
  · rw [heq]
    refine .goes hr (by simp) (fun n hn => .inr ?_) fun hholds => ?_
    · rw [Workspace.install_latestDocumentsGeneration, Option.some.injEq] at hn
      rw [← hn, (hcoherent r hr).isFrom.generation]
    · cases hholds

/-- A publish is dropped because the buffers have moved, or takes the publish lock. -/
theorem publish_of_attributed {s : Server M} (fs' : Fs) {r : Running M}
    (hr : s.running = some r) (hstage : r.stage = .committed) (hcoherent : s.Coherent) (h : s.Attributed fs) :
    s.documents.matchesGeneration r.documents = false ∧
        s.publish fs' r = { s with running := none } ∨
      s.documents.matchesGeneration r.documents = true ∧
        ∃ stage, s.publish fs' r = { s with running := some { r with stage } } := by
  have hcommitted := (hcoherent r hr).stage
  rw [hstage] at hcommitted
  obtain ⟨a, hlatest, -, -, hproject, -⟩ := hcommitted
  rcases s.publish_cases fs' r with
    ⟨hpending, -⟩ | ⟨-, ⟨hmoved, heq⟩ | ⟨hmatch, ⟨hnone, -⟩ | ⟨_, _, -, -, heq⟩⟩⟩
  · rw [h.pending] at hpending
    cases hpending
  · exact .inl ⟨hmoved, heq⟩
  · rw [hlatest, hproject] at hnone
    rcases hnone with hnone | hnone <;> cases hnone
  · exact .inr ⟨hmatch, _, heq⟩

theorem keptStep_publish {s : Server M} {fs' : Fs} {r : Running M} (hr : s.running = some r)
    (hstage : r.stage = .committed) (hfree : s.publishFree = true) (hcoherent : s.Coherent)
    (h : s.Attributed fs) : s.KeptStep fs (s.publish fs' r) := by
  rcases publish_of_attributed fs' hr hstage hcoherent h with
    ⟨hmoved, heq⟩ | ⟨hmatch, stage, heq⟩
  · rw [heq]
    exact .refused hr hmoved
  · rw [heq]
    exact keptStep_stage hr fun _ => ⟨handling_of_publishFree hfree, hmatch⟩

theorem keptStep_reconcile {s : Server M} {r : Running M} {root : Path} {scope : ReconcileScope}
    {a : Analysis M} {diagnostics : DiagnosticsByUrl} (hr : s.running = some r)
    (hstage : r.stage = .publishing root scope a diagnostics) (hcoherent : s.Coherent)
    (h : s.Attributed fs) : s.KeptStep fs (s.reconcile r root scope a diagnostics) := by
  have hpublishing := (hcoherent r hr).stage
  rw [hstage] at hpublishing
  obtain ⟨-, rfl, -⟩ := hpublishing
  obtain ⟨-, hmatch⟩ := h.publishing r _ scope a diagnostics hr hstage
  rcases s.reconcile_cases r r.run.root scope a diagnostics with
    ⟨hpending, -⟩ | ⟨-, ⟨hepoch, heq⟩ | ⟨published, tracker, hreconcile, heq⟩⟩
  · rw [h.pending] at hpending
    cases hpending
  · rw [heq]
    refine .stale hr ?_
    unfold publishEpoch at hepoch
    unfold live
    cases hroot : r.task.rootEpoch with
    | none =>
      rw [hroot] at hepoch
      exact absurd rfl hepoch
    | some rootEpoch =>
      obtain ⟨root, epoch⟩ := rootEpoch
      rw [hroot] at hepoch
      dsimp only at hepoch
      -- A task scheduled for another root is checked against the epoch of its own.
      split at hepoch
      · next hown =>
        subst hown
        simpa [DiagnosticsTracker.isStale, h.running r hr] using hepoch
      · exact absurd rfl hepoch
  · rw [heq]
    exact .published hr hmatch (DiagnosticsTracker.epoch_of_reconcileSuccess hreconcile).2

theorem keptStep_handle {s : Server M} {fs' : Fs} {busy : Bool} {handling : Handling}
    (hhandling : s.handling = some handling) (h : s.Attributed fs)
    (hkeeps : s.keepsPublishes fs (.handle fs' busy) = true) :
    s.KeptStep fs (s.handle fs' busy handling) := by
  simp only [keepsPublishes, hhandling, Option.bind_some] at hkeeps
  have hplain := h.plain handling hhandling
  cases handling with
  | edit path scope =>
    simp only [Handling.file, Option.all_some] at hkeeps
    exact keptStep_finishEdit hhandling hkeeps
  | close url path =>
    change path = M.toFilePath url at hplain
    subst hplain
    refine keptStep_finishClose hhandling fun path hpath => ?_
    simp only [Handling.file, hpath, Option.all_some] at hkeeps
    exact hkeeps
  | watch => cases hplain
  | watchAgain => cases hplain

theorem keptStep_withBindingIndex {s : Server M} :
    s.KeptStep fs { s with workspace := s.workspace.withBindingIndex } := by
  rcases s.workspace.withBindingIndex_cases with heq | ⟨_, _, -, -, -, heq⟩
  · rw [heq]
    exact .indexed rfl rfl
  · rw [heq]
    exact .indexed rfl rfl

theorem keptStep_event {s : Server M} (op : Documents.Op) {handling : Option Handling}
    (hfree : s.publishFree = true) (hfile : handling.bind (·.file) = M.toFilePath op.url)
    (hplain : ∀ h, handling = some h → h.Plain M) (hspares : s.spares fs op = true) :
    s.KeptStep fs { s with documents := s.documents.apply op, handling } := by
  refine .event hfree ?_ hplain (spared_of_spares hspares)
  rw [hfile, projectOfUrl]

/-- The handler of an edit, for the file the URL names if it names one. -/
theorem edit_of_url (url : Url) (scope : RecomputeScope) :
    ((M.toFilePath url).map fun path => Handling.edit path scope).bind (·.file) =
        M.toFilePath url ∧
      ∀ h, ((M.toFilePath url).map fun path => Handling.edit path scope) = some h → h.Plain M := by
  cases M.toFilePath url with
  | none => exact ⟨rfl, fun h hh => by cases hh⟩
  | some path =>
    refine ⟨rfl, fun h hh => ?_⟩
    cases hh
    trivial

theorem keptStep_of_step {s t : Server M} {action : Action M} (hcoherent : s.Coherent)
    (h : s.Attributed fs) (hassumes : s.assumes fs action = true)
    (hkeeps : s.keepsPublishes fs action = true) (hstep : s.step action = some t) :
    s.KeptStep fs t := by
  cases stepTo_of_step hstep with
  | @didOpen url text version hfree =>
    obtain ⟨hfile, hplain⟩ := edit_of_url (M := M) url .full
    exact keptStep_event (.openWithVersion url text (some version)) hfree hfile hplain hkeeps
  | @didChange url text version hfree =>
    obtain ⟨hfile, hplain⟩ := edit_of_url (M := M) url .interactive
    exact keptStep_event (.changeWithVersion url text (some version)) hfree hfile hplain hkeeps
  | @didClose url hfree =>
    refine keptStep_event (.close url) hfree rfl (fun h hh => ?_) hkeeps
    cases hh
    exact rfl
  | unwatched | didChangeWatchedFiles => cases hassumes
  | handle hhandling => exact keptStep_handle hhandling h hkeeps
  | preflight htask => exact .preflight htask
  | capture htask => exact .capture htask
  | @prepare w i x hrunning hx =>
    simp only [keepsPublishes, hx, Option.all_some] at hkeeps
    exact keptStep_prepare h.pending hrunning hx hassumes hkeeps
  | analyze hr _ => exact keptStep_analyze hr hassumes
  | commit hr _ => exact keptStep_commit hr hcoherent h
  | publish hr hstage hfree => exact keptStep_publish hr hstage hfree hcoherent h
  | reconcile hr hstage => exact keptStep_reconcile hr hstage hcoherent h
  | bindingIndex _ => exact keptStep_withBindingIndex
  | @chooseReadSource file _ =>
    rcases s.workspace.chooseReadSource_workspace file with heq | heq
    · rw [heq]
      exact .indexed rfl rfl
    · rw [heq]
      exact keptStep_withBindingIndex

/-! ## Tasks keep to the project of their file -/

theorem attributed_new : (new : Server M).Attributed fs where
  pending := rfl
  plain := by
    intro handling h
    cases h
  running := by
    intro r h
    cases h
  epoch := by
    intro r h
    cases h
  installed := by
    intro n h
    cases h
  publishing := by
    intro r root scope a diagnostics h
    cases h

theorem Attributed.step {s t : Server M} (h : s.Attributed fs)
    (hcaptured : s.AllCaptured (CapturedBy M s.documents)) (hkept : s.KeptStep fs t) :
    t.Attributed fs where
  pending := by
    cases hkept with
    | preflight =>
      obtain ⟨_, heq⟩ := s.preflight_frame _ _
      rw [heq]
      exact h.pending
    | _ => exact h.pending
  plain := by
    intro handling hhandling
    cases hkept with
    | event _ _ hplain _ => exact hplain handling hhandling
    | scheduled | nothing => cases hhandling
    | preflight =>
      obtain ⟨_, heq⟩ := s.preflight_frame _ _
      rw [heq] at hhandling
      exact h.plain handling hhandling
    | _ => exact h.plain handling hhandling
  running := by
    intro r hr
    cases hkept with
    | preflight =>
      obtain ⟨_, heq⟩ := s.preflight_frame _ _
      rw [heq] at hr
      exact h.running r hr
    | prepared _ _ hroot _ _ _ =>
      cases hr
      exact hroot
    | @goes r' _ _ hr' _ _ _ =>
      cases hr
      exact h.running r' hr'
    | refused | stale | published => cases hr
    | _ => exact h.running r hr
  epoch := by
    intro r hr
    cases hkept with
    | preflight =>
      obtain ⟨_, heq⟩ := s.preflight_frame _ _
      rw [heq] at hr ⊢
      exact h.epoch r hr
    | prepared _ _ _ hepoch _ _ =>
      cases hr
      exact hepoch
    | @goes r' _ _ hr' hepoch _ _ =>
      cases hr
      exact (h.epoch r' hr').trans hepoch.symm
    | refused | stale | published => cases hr
    | indexed hepoch _ => exact (h.epoch r hr).trans hepoch.symm
    | _ => exact h.epoch r hr
  installed := by
    -- Only a commit installs a generation, and its buffers were captured before.
    intro n hn
    cases hkept with
    | event => exact (h.installed n hn).trans (Documents.continues_apply _ _).1
    | preflight =>
      obtain ⟨_, heq⟩ := s.preflight_frame _ _
      rw [heq] at hn ⊢
      exact h.installed n hn
    | prepared _ _ _ _ hgeneration _ =>
      rw [hgeneration] at hn
      exact h.installed n hn
    | goes hr _ hgeneration _ =>
      rcases hgeneration n hn with hold | hnew
      · exact h.installed n hold
      · rw [hnew]
        exact (hcaptured.running _ hr).1
    | indexed _ hgeneration =>
      rw [hgeneration] at hn
      exact h.installed n hn
    | _ => exact h.installed n hn
  publishing := by
    intro r root scope a diagnostics hr hstage
    cases hkept with
    | event hfree _ _ _ =>
      -- An event waits for the publish lock, which the run would hold.
      have hheld : s.running = some r := hr
      have hholds := holdsPublish_of_publishFree hheld hfree
      rw [hstage] at hholds
      cases hholds
    | scheduled | nothing => exact ⟨rfl, (h.publishing r root scope a diagnostics hr hstage).2⟩
    | preflight =>
      obtain ⟨_, heq⟩ := s.preflight_frame _ _
      rw [heq] at hr ⊢
      exact h.publishing r root scope a diagnostics hr hstage
    | prepared =>
      cases hr
      cases hstage
    | goes _ _ _ hpublish =>
      cases hr
      dsimp only at hstage
      refine hpublish ?_
      rw [hstage]
      rfl
    | refused | stale | published => cases hr
    | _ => exact h.publishing r root scope a diagnostics hr hstage

end Server

end MarrowLsp
