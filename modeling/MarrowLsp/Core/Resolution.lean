-- SUMMARY: Sequences of prepares on one workspace, and which project each of them runs with.
import MarrowLsp.Core.Sample
import MarrowLsp.Core.Workspace
import MarrowLsp.Lib.Transition

/-!
# Project resolution

A prepare resolves the project of its file only when the file does not lie under
the root of the project it last ran with. A project nested in that one, or reached
from it by `..`, is then taken for it.
-/
namespace MarrowLsp

open Transition

variable {M : Marrow}

/-- One `prepare_recompute`: the world it finds and its arguments. -/
structure PrepareCall (M : Marrow) where
  world : World M
  file : Path
  documents : DocumentAnalysisSnapshot
  scope : RecomputeScope

namespace PrepareCall

/-- What the call returns and leaves on a workspace. -/
def prepare (c : PrepareCall M) (ws : Workspace M) : Workspace.Prepare M :=
  ws.prepareRecompute c.world c.file c.documents c.scope

def step (ws : Workspace M) (c : PrepareCall M) : Option (Workspace M) :=
  some (c.prepare ws).workspace

end PrepareCall

namespace Workspace

/-- A prepare that succeeds runs with the nearest project above its file, leaves that
one resolved, and agrees with a new workspace. -/
structure ResolvesNearest (ws : Workspace M) (c : PrepareCall M) (ws' : Workspace M) : Prop where
  run : ∀ p, (c.prepare ws).result = .ok p → projectRootOf c.world.fs c.file = some p.root
  workspace : ∀ p, (c.prepare ws).result = .ok p →
    ws'.project.map (·.root) = projectRootOf c.world.fs c.file
  fresh : ∀ p q, (c.prepare ws).result = .ok p → (c.prepare new).result = .ok q →
    q.root = p.root

/-- The cached project, if the file lies under its root and its catalog can be bound,
is the nearest one above the file. -/
def CachesNearest (ws : Workspace M) (c : PrepareCall M) : Prop :=
  ∀ project, ws.project = some project → c.file.startsWith project.root = true →
    (ws.catalogBinding.bind c.world project.root project.config).result.isOk = true →
      projectRootOf c.world.fs c.file = some project.root

theorem root_of_prepare_not_covers {ws : Workspace M} {c : PrepareCall M}
    (hcovers : ws.covers c.file = false) {p : PreparedRecompute M}
    (h : (c.prepare ws).result = .ok p) : projectRootOf c.world.fs c.file = some p.root := by
  obtain ⟨project, cache, binding, hresolve, -, -, hp⟩ := project_of_prepareRecompute h
  rw [resolveFor_of_not_covers c.world.fs hcovers] at hresolve
  cases hresolved : resolveProject (M := M) c.world.fs c.file with
  | error e => simp [hresolved, Except.map] at hresolve
  | ok resolved =>
    simp only [hresolved, Except.map, Except.ok.injEq, Prod.mk.injEq] at hresolve
    rw [hp, ← hresolve.1]
    exact projectRootOf_of_resolveProject hresolved

/-- A workspace without a project resolves the nearest one. -/
theorem root_of_prepare_new {c : PrepareCall M} {q : PreparedRecompute M}
    (h : (c.prepare new).result = .ok q) : projectRootOf c.world.fs c.file = some q.root :=
  root_of_prepare_not_covers rfl h

/-- A prepare of a covered file runs with the cached project, if it succeeds. -/
theorem prepare_covers {ws : Workspace M} {c : PrepareCall M} {project : Project M}
    (hproject : ws.project = some project) (hfile : c.file.startsWith project.root = true) :
    ((∃ p, (c.prepare ws).result = .ok p) ↔
        (ws.catalogBinding.bind c.world project.root project.config).result.isOk = true) ∧
      ∀ p, (c.prepare ws).result = .ok p → p.root = project.root := by
  have hresolve : ws.resolveFor c.world.fs c.file = .ok (project, ws.catalogBinding) := by
    simp [resolveFor, hproject, hfile]
  unfold PrepareCall.prepare
  obtain ⟨e, herror, -⟩ | ⟨resolved, cache, hok, -, -, hresult⟩ :=
    ws.prepareRecompute_cases c.world c.file c.documents c.scope
  · rw [hresolve] at herror
    cases herror
  · rw [hresolve] at hok
    cases hok
    rw [hresult]
    cases (ws.catalogBinding.bind c.world project.root project.config).result with
    | error e => exact ⟨by simp [Except.isOk, Except.toBool], fun p h => by cases h⟩
    | ok binding =>
      refine ⟨by simp [Except.isOk, Except.toBool], fun p h => ?_⟩
      cases h
      rfl

/-- A prepare resolves the nearest project exactly when the cached one it would reuse
is that. -/
theorem resolvesNearest_iff {ws ws' : Workspace M} {c : PrepareCall M}
    (hstep : PrepareCall.step ws c = some ws') :
    ws.ResolvesNearest c ws' ↔ ws.CachesNearest c := by
  have hws' : (c.prepare ws).workspace = ws' := Option.some.inj hstep
  constructor
  · intro h project hproject hfile hbind
    obtain ⟨hok, hroot⟩ := prepare_covers hproject hfile
    obtain ⟨p, hp⟩ := hok.mpr hbind
    rw [h.run p hp, hroot p hp]
  · intro h
    have hrun : ∀ p, (c.prepare ws).result = .ok p →
        projectRootOf c.world.fs c.file = some p.root := by
      intro p hp
      cases hcovers : ws.covers c.file with
      | false => exact root_of_prepare_not_covers hcovers hp
      | true =>
        obtain ⟨project, hproject, hfile, -⟩ := resolveFor_of_covers c.world.fs hcovers
        obtain ⟨hok, hroot⟩ := prepare_covers hproject hfile
        rw [hroot p hp]
        exact h project hproject hfile (hok.mp ⟨p, hp⟩)
    refine ⟨hrun, ?_, ?_⟩
    · intro p hp
      obtain ⟨project, _, _, -, -, hleft, heq⟩ := project_of_prepareRecompute hp
      rw [hrun p hp, ← hws', show (c.prepare ws).workspace.project = some project from hleft, heq]
      rfl
    · intro p q hp hq
      have hsame := (root_of_prepare_new hq).symm.trans (hrun p hp)
      exact Option.some.inj hsame

/-- In a sequence of prepares every one resolves the nearest project exactly when
every cached project that is reused is the nearest. -/
theorem resolvesNearest_run_iff (calls : List (PrepareCall M)) :
    AllSteps PrepareCall.step (fun ws c ws' => ws.ResolvesNearest c ws') new calls ↔
      AllSteps PrepareCall.step (fun ws c _ => ws.CachesNearest c) new calls := by
  refine allSteps_congr (I := fun _ => True) ?_ ?_ calls trivial
  · intro ws c ws' _ _ _
    trivial
  · intro ws c ws' _ hstep
    exact resolvesNearest_iff hstep

end Workspace

/-! ## A nested project -/

namespace Sample

/-- The project `A` with a project in its directory `sub`. -/
def nested : World Marrow.sample :=
  world [((projectDir "A").child CONFIG_FILE, ['m']), (app "A", ['x']),
    (((projectDir "A").child "sub").child CONFIG_FILE, ['m']),
    (((projectDir "A").child "sub").child "src" |>.child "app.mw", ['x'])]

def prepareOf (file : Path) : PrepareCall Marrow.sample :=
  ⟨nested, file, (Documents.new.analysisSnapshot Marrow.sample), .full⟩

end Sample

namespace Workspace

open Sample in
/-- A file of the nested project is taken for one of `A`, once `A` was analyzed. -/
theorem not_resolvesNearest_nested :
    ¬ AllSteps PrepareCall.step (fun ws c ws' => ws.ResolvesNearest c ws')
      (new : Workspace Marrow.sample)
      [prepareOf (app "A"), prepareOf (((projectDir "A").child "sub").child "src" |>.child "app.mw")] := by
  intro h
  obtain ⟨-, hnested⟩ := h _ rfl
  obtain ⟨hresolves, -⟩ := hnested _ rfl
  have hleft := hresolves.workspace _ rfl
  exact absurd hleft (by decide)

end Workspace

end MarrowLsp
