-- SUMMARY: A workspace together with the recomputes in flight on it: any order of its operations, who owns the latest analysis, and which index belongs to which snapshot.
import MarrowLsp.Core.Workspace

/-!
# Sessions

A session is a workspace and the recomputes that were prepared on it and have
not committed yet. Its steps are the operations of the workspace in any order,
over files of any projects, each with the world it finds.
-/
namespace MarrowLsp

open Transition

variable {M : Marrow}

/-- A prepared recompute that has not been analyzed: the file it is for, the
workspace its prepare found and the one it left. -/
structure InFlight (M : Marrow) where
  file : Path
  found : Workspace M
  left : Workspace M
  run : PreparedRecompute M
  prepared : ∃ w documents scope,
    (found.prepareRecompute w file documents scope).workspace = left ∧
      (found.prepareRecompute w file documents scope).result = .ok run

structure Session (M : Marrow) where
  workspace : Workspace M
  inFlight : List (InFlight M)
  analyzed : List (Analysis M)

namespace Session

def new : Session M := ⟨Workspace.new, [], []⟩

/-- One operation on the workspace. `analyze` and `commit` name their recompute
by its place in the list of those waiting. -/
inductive Action (M : Marrow) where
  | prepare (w : World M) (file : Path) (documents : DocumentAnalysisSnapshot)
      (scope : RecomputeScope)
  | analyze (fs : Fs) (i : Nat)
  | commit (i : Nat)
  | bindingIndex
  | chooseReadSource (file : Path)
  | invalidateAnalysis
  | invalidateProject

/-- A prepare: the run joins those in flight when it succeeds. -/
def prepare (s : Session M) (w : World M) (file : Path) (documents : DocumentAnalysisSnapshot)
    (scope : RecomputeScope) : Session M :=
  let left := (s.workspace.prepareRecompute w file documents scope).workspace
  match hrun : (s.workspace.prepareRecompute w file documents scope).result with
  | .error _ => { s with workspace := left }
  | .ok run =>
    { s with
      workspace := left
      inFlight := s.inFlight ++
        [⟨file, s.workspace, left, run, w, documents, scope, rfl, hrun⟩] }

/-- The end of the off-lock check: a failed one is dropped. -/
def analyze (s : Session M) (fs : Fs) (i : Nat) (r : InFlight M) : Session M :=
  let s := { s with inFlight := s.inFlight.eraseIdx i }
  match r.run.analyze fs with
  | .error _ => s
  | .ok a => { s with analyzed := s.analyzed ++ [a] }

def commit (s : Session M) (i : Nat) (a : Analysis M) : Session M :=
  { s with
    workspace := (s.workspace.commitRecompute a.prepared.documentsGeneration
      a.prepared.invalidationEpoch a).2
    analyzed := s.analyzed.eraseIdx i }

def step (s : Session M) : Action M → Option (Session M)
  | .prepare w file documents scope => some (s.prepare w file documents scope)
  | .analyze fs i => (s.inFlight[i]?).map (s.analyze fs i)
  | .commit i => (s.analyzed[i]?).map (s.commit i)
  | .bindingIndex => some { s with workspace := s.workspace.withBindingIndex }
  | .chooseReadSource file => some { s with workspace := (s.workspace.chooseReadSource file).2 }
  | .invalidateAnalysis => some { s with workspace := s.workspace.invalidateAnalysis }
  | .invalidateProject => some { s with workspace := s.workspace.invalidateProject }

@[simp] theorem prepare_workspace (s : Session M) (w : World M) (file : Path)
    (documents : DocumentAnalysisSnapshot) (scope : RecomputeScope) :
    (s.prepare w file documents scope).workspace =
      (s.workspace.prepareRecompute w file documents scope).workspace := by
  unfold prepare
  split <;> rfl

@[simp] theorem analyze_workspace (s : Session M) (fs : Fs) (i : Nat) (r : InFlight M) :
    (s.analyze fs i r).workspace = s.workspace := by
  unfold analyze
  split <;> rfl

end Session

/-! ## What one operation does to the workspace -/

namespace Workspace

/-- The latest analysis belongs to the resolved project. -/
def Owned (ws : Workspace M) : Prop :=
  ∀ a, ws.latest = some a → ∃ project, ws.project = some project ∧
    a.prepared.root = project.root

/-- The project, the latest analysis and the indexes are the same. -/
def SameFacts (ws ws' : Workspace M) : Prop :=
  ws'.project = ws.project ∧ ws'.latest = ws.latest ∧ ws'.lastGood = ws.lastGood ∧
    ws'.bindingIndex = ws.bindingIndex ∧ ws'.bindingIndexKey = ws.bindingIndexKey

/-- A resolution replaces the project only by one with another root. -/
theorem resolveProject_root_ne {ws : Workspace M} {fs : Fs} {file : Path} {project p : Project M}
    (hcov : ws.covers file = false) (hres : resolveProject fs file = .ok project)
    (hp : ws.project = some p) : project.root ≠ p.root := by
  intro hroot
  have hfile := startsWith_of_projectRootOf (projectRootOf_of_resolveProject hres)
  have : file.startsWith p.root = false := by simpa [covers, hp] using hcov
  rw [hroot, this] at hfile
  cases hfile

/-- A prepare keeps every fact exactly when it keeps the project: when the
cached project owns the file or no project is found for it. -/
theorem sameFacts_prepareRecompute_iff (ws : Workspace M) (w : World M) (file : Path)
    (documents : DocumentAnalysisSnapshot) (scope : RecomputeScope) :
    ws.SameFacts (ws.prepareRecompute w file documents scope).workspace ↔
      ws.covers file = true ∨ ∃ e, resolveProject (M := M) w.fs file = .error e := by
  cases hcov : ws.covers file with
  | true =>
    obtain ⟨p, hp, -, hres⟩ := resolveFor_of_covers w.fs hcov
    rcases ws.prepareRecompute_cases w file documents scope with
      ⟨e, herr, -⟩ | ⟨project, cache, hres', hws, -, -⟩
    · rw [hres] at herr
      cases herr
    · rw [hres] at hres'
      cases hres'
      rw [hws]
      simp [SameFacts, hp]
  | false =>
    have hres := resolveFor_of_not_covers w.fs hcov
    rcases ws.prepareRecompute_cases w file documents scope with
      ⟨e, herr, heq⟩ | ⟨project, cache, hok, hws, -, -⟩
    · rw [heq]
      rw [hres] at herr
      cases hr : resolveProject (M := M) w.fs file with
      | error e' => simp [SameFacts]
      | ok p => simp [hr, Except.map] at herr
    · rw [hres] at hok
      cases hr : resolveProject (M := M) w.fs file with
      | error e' => simp [hr, Except.map] at hok
      | ok p =>
        simp only [hr, Except.map, Except.ok.injEq, Prod.mk.injEq] at hok
        obtain ⟨rfl, -⟩ := hok
        -- The project resolved covers the file and the cached one does not.
        have hproject : ws.project ≠ some p := fun hp =>
          resolveProject_root_ne hcov hr hp rfl
        rw [hws]
        simp [SameFacts, eq_comm, hproject]

/-- A prepare keeps ownership exactly when it keeps the project or finds no
latest analysis to disown. -/
theorem owned_prepareRecompute_iff {ws : Workspace M} (h : ws.Owned) (w : World M) (file : Path)
    (documents : DocumentAnalysisSnapshot) (scope : RecomputeScope) :
    (ws.prepareRecompute w file documents scope).workspace.Owned ↔
      ws.covers file = true ∨ (∃ e, resolveProject (M := M) w.fs file = .error e) ∨
        ws.latest = none := by
  obtain ⟨project, catalogBinding, hframe⟩ :=
    ws.prepareRecompute_frame w file documents scope
  constructor
  · intro howned
    -- A new project takes the place of one that a latest analysis belongs to.
    by_contra hnot
    simp only [not_or, Bool.not_eq_true, not_exists] at hnot
    obtain ⟨hcov, hres, hlatest⟩ := hnot
    obtain ⟨a, ha⟩ := Option.ne_none_iff_exists'.mp hlatest
    obtain ⟨p, hp, hroot⟩ := h a ha
    cases hr : resolveProject (M := M) w.fs file with
    | error e => exact hres e hr
    | ok resolved =>
      rcases ws.prepareRecompute_cases w file documents scope with
        ⟨e, herr, -⟩ | ⟨project', cache, hok, hws, -, -⟩
      · rw [resolveFor_of_not_covers w.fs hcov, hr] at herr
        cases herr
      · rw [resolveFor_of_not_covers w.fs hcov, hr] at hok
        simp only [Except.map, Except.ok.injEq, Prod.mk.injEq] at hok
        obtain ⟨rfl, -⟩ := hok
        rw [hws] at howned
        obtain ⟨p', hp', hroot'⟩ := howned a ha
        simp only [Option.some.injEq] at hp'
        subst hp'
        exact resolveProject_root_ne hcov hr hp (hroot' ▸ hroot)
  · rintro (hcov | ⟨e, he⟩ | hlatest)
    · have hsame := (ws.sameFacts_prepareRecompute_iff w file documents scope).mpr (.inl hcov)
      intro a ha
      rw [hsame.2.1] at ha
      rw [hsame.1]
      exact h a ha
    · have hsame := (ws.sameFacts_prepareRecompute_iff w file documents scope).mpr (.inr ⟨e, he⟩)
      intro a ha
      rw [hsame.2.1] at ha
      rw [hsame.1]
      exact h a ha
    · intro a ha
      rw [hframe] at ha
      rw [hlatest] at ha
      cases ha

/-- A commit keeps ownership exactly when what it installs was prepared for the
resolved project. -/
theorem owned_commitRecompute_iff {ws : Workspace M} (h : ws.Owned) (generation epoch : Nat)
    (a : Analysis M) :
    (ws.commitRecompute generation epoch a).2.Owned ↔
      (ws.admits generation epoch = true → ∀ project, ws.project = some project →
        a.prepared.root = project.root) := by
  rcases ws.commitRecompute_cases generation epoch a with
    ⟨hadmits, heq⟩ | ⟨project, hadmits, hp, heq⟩
  · rw [heq]
    simp [hadmits, h]
  · rw [heq]
    constructor
    · intro howned _ p' hp'
      obtain ⟨q, hq, hroot⟩ := howned a rfl
      rw [install_project, hp'] at hq
      cases hq
      exact hroot
    · intro hroot a' ha'
      simp only [install_latest, Option.some.injEq] at ha'
      subst ha'
      exact ⟨project, by rw [install_project, hp], hroot hadmits project hp⟩

theorem owned_of_latest_none {ws : Workspace M} (h : ws.latest = none) : ws.Owned := by
  intro a ha
  rw [h] at ha
  cases ha

theorem owned_withBindingIndex {ws : Workspace M} (h : ws.Owned) : ws.withBindingIndex.Owned := by
  rcases ws.withBindingIndex_cases with heq | ⟨a, project, -, -, -, heq⟩
  · rwa [heq]
  · rw [heq]
    exact h

theorem owned_chooseReadSource {ws : Workspace M} (h : ws.Owned) (file : Path) :
    (ws.chooseReadSource file).2.Owned := by
  rcases ws.chooseReadSource_workspace file with heq | heq <;> rw [heq]
  · exact h
  · exact owned_withBindingIndex h

end Workspace

end MarrowLsp
