-- SUMMARY: Whose program a tool reads after a sequence of recomputes, and when the last-program fallback answers.
import MarrowLsp.Mcp.Calls

/-!
# Programs

`Workspace.program` answers with the last program that had modules when the newest
analysis has none, or is not there. Neither a change of the project nor an overlay
that is gone clears that program.
-/
namespace MarrowLsp

open Transition

variable {M : Marrow}

/-- The analysis was made of the project, over texts that the call finds on disk or
overlays itself. -/
structure Analysis.Fits (a : Analysis M) (project : Project M) (c : Call M) : Prop where
  root : a.prepared.root = project.root
  config : a.prepared.config = project.config
  texts : ∀ path text, a.texts path = .text text →
    c.overlays.lookup path = some text ∨ c.world.fs.readToString path = .ok text

namespace Workspace

/-- After a recompute that succeeds, the program a tool reads is one of the resolved
project, over what the call finds and overlays. -/
def ProgramFits (ws : Workspace M) (c : Call M) (ws' : Workspace M) : Prop :=
  ∀ documents r, c.documents = some documents →
    (ws.recomputeFromSnapshot c.world c.file documents).result = .ok r →
      ∀ a, ws'.program = some a → ∃ project, ws'.project = some project ∧ a.Fits project c

/-- What `program` falls back to once the call analyzed `own`: what it answered before,
if a newer generation is installed, the last program with modules if `own` has none. -/
def fallback (ws : Workspace M) (c : Call M) (own : Analysis M) : Option (Analysis M) :=
  if ws.latestDocumentsGeneration.any (c.generation < ·) then ws.program
  else if M.modulesIsEmpty own.snapshot.program then ws.lastProgram
  else none

/-- The program a recompute would fall back to is one of the project it resolves, over
what the call finds and overlays. -/
def FallbackFits (ws : Workspace M) (c : Call M) : Prop :=
  ∀ documents p own, c.documents = some documents →
    (ws.prepareRecompute c.world c.file documents .full).result = .ok p →
      p.analyze c.world.fs = .ok own →
        ∀ a, ws.fallback c own = some a → a.Fits ⟨p.root, p.config⟩ c

/-- Before any program with modules there is nothing to fall back to. -/
theorem fallbackFits_of_none {ws : Workspace M} {c : Call M} (hprogram : ws.program = none)
    (hlast : ws.lastProgram = none) : ws.FallbackFits c := by
  intro documents p own _ _ _ a ha
  have hnone : ws.fallback c own = none := by
    unfold fallback
    rw [hprogram, hlast]
    split
    · rfl
    · split
      · rfl
      · rfl
  rw [hnone] at ha
  cases ha

/-- An installed analysis is the program if it has modules, else the last program is. -/
theorem program_install (ws : Workspace M) (project : Project M) (generation : Nat)
    (a : Analysis M) :
    (ws.install project generation a).program =
      if M.modulesIsEmpty a.snapshot.program then ws.lastProgram else some a := by
  unfold program
  rw [install_latest]
  cases hempty : M.modulesIsEmpty a.snapshot.program with
  | false => simp [hempty]
  | true =>
    have hlast : ∀ ws : Workspace M, (ws.replaceLatest a).lastProgram = ws.lastProgram := by
      intro ws
      obtain heq | ⟨previous, -, heq⟩ | heq := ws.replaceLatest_cases a
      · rw [heq]
      · rw [heq]
        rfl
      · rw [heq]
    simp [install, hempty, hlast]

/-- The texts of a run's analysis are those of its overlay and of the disk. -/
theorem texts_of_analyze {p : PreparedRecompute M} {fs : Fs} {a : Analysis M}
    (h : p.analyze fs = .ok a) {path : Path} {text : Text} (htext : a.texts path = .text text) :
    p.sources.lookup path = some text ∨ fs.readToString path = .ok text := by
  unfold PreparedRecompute.analyze at h
  split at h
  · cases h
    unfold sourceTexts at htext
    dsimp only at htext
    split at htext
    · next found hfound =>
      cases htext
      exact .inl hfound
    · split at htext
      · split at htext
        · next read hread =>
          cases htext
          exact .inr hread
        · cases htext
      · cases htext
  · cases h
  · cases h

theorem fits_of_analyze {ws : Workspace M} {c : Call M} (hurl : M.UrlNamesFile)
    {documents : DocumentAnalysisSnapshot} (hdocuments : c.documents = some documents)
    {p : PreparedRecompute M} {own : Analysis M}
    (hprepare : (ws.prepareRecompute c.world c.file documents .full).result = .ok p)
    (hown : p.analyze c.world.fs = .ok own) : own.Fits ⟨p.root, p.config⟩ c := by
  have hprepared := PreparedRecompute.prepared_of_analyze hown
  refine ⟨by rw [hprepared], by rw [hprepared], ?_⟩
  intro path text htext
  have hsources := overlays_of_prepareRecompute hurl hdocuments hprepare
  rw [← hsources]
  exact texts_of_analyze hown htext

/-- A recompute that succeeds leaves its project, and its own analysis as the program
unless it falls back. -/
theorem program_recompute {ws : Workspace M} {c : Call M} {documents : DocumentAnalysisSnapshot}
    (hdocuments : c.documents = some documents) {p : PreparedRecompute M} {own : Analysis M}
    (hprepare : (ws.prepareRecompute c.world c.file documents .full).result = .ok p)
    (hown : p.analyze c.world.fs = .ok own) :
    (ws.recomputeFromSnapshot c.world c.file documents).workspace.project =
        some ⟨p.root, p.config⟩ ∧
      ((ws.recomputeFromSnapshot c.world c.file documents).workspace.program =
          ws.fallback c own ∨
        ws.fallback c own = none ∧
          (ws.recomputeFromSnapshot c.world c.file documents).workspace.program = some own) := by
  have hgeneration := Call.generation_documents hdocuments
  obtain ⟨project, cache, binding, -, -, hproject, hp⟩ := project_of_prepareRecompute hprepare
  obtain ⟨anyProject, catalogBinding, hframe⟩ :=
    ws.prepareRecompute_frame c.world c.file documents .full
  have hresult : (ws.recomputeFromSnapshot c.world c.file documents).result.isOk = true := by
    simp [recomputeFromSnapshot, hprepare, hown, Except.isOk, Except.toBool]
  obtain ⟨r, hr⟩ : ∃ r, (ws.recomputeFromSnapshot c.world c.file documents).result = .ok r := by
    cases h : (ws.recomputeFromSnapshot c.world c.file documents).result with
    | error e => simp [h, Except.isOk, Except.toBool] at hresult
    | ok r => exact ⟨r, rfl⟩
  have hresolved : (⟨p.root, p.config⟩ : Project M) = project := by rw [hp]
  obtain ⟨p', own', hprepare', hown', hcases⟩ := recomputeFromSnapshot_ok hr
  rw [hprepare] at hprepare'
  cases hprepare'
  rw [hown] at hown'
  cases hown'
  rw [hresolved]
  obtain ⟨hnewest, -, installed, hinstalled, heq⟩ | ⟨⟨g, hg, hlt⟩, -, heq⟩ := hcases
  · -- Installed: the retained program answers only if the analysis has no modules.
    have hnot : ws.latestDocumentsGeneration.any (c.generation < ·) = false := by
      rw [← hgeneration]
      cases hlatest : ws.latestDocumentsGeneration with
      | none => rfl
      | some g => simpa using hnewest g hlatest
    have hprogram : (ws.recomputeFromSnapshot c.world c.file documents).workspace.program =
        if M.modulesIsEmpty own.snapshot.program then ws.lastProgram else some own := by
      rw [heq, program_install, hframe]
    rw [hprogram, heq, install_project, hproject]
    refine ⟨rfl, ?_⟩
    unfold fallback
    rw [hnot]
    cases M.modulesIsEmpty own.snapshot.program with
    | true => exact .inl rfl
    | false => exact .inr ⟨rfl, rfl⟩
  · -- A newer generation is installed: nothing of this recompute is kept but its project.
    have hnewer : ws.latestDocumentsGeneration.any (c.generation < ·) = true := by
      rw [hg, ← hgeneration]
      simpa using hlt
    rw [heq, hproject]
    refine ⟨rfl, .inl ?_⟩
    unfold fallback
    rw [hnewer, hframe]
    rfl

/-- A recompute leaves a fitting program exactly when what it would fall back to fits. -/
theorem programFits_iff {ws ws' : Workspace M} {c : Call M} (hurl : M.UrlNamesFile)
    (hstep : Call.step ws c = some ws') : ws.ProgramFits c ws' ↔ ws.FallbackFits c := by
  obtain ⟨documents, hdocuments, hws'⟩ := Option.map_eq_some_iff.mp hstep
  constructor
  · intro h documents' p own hdocuments' hprepare hown a ha
    rw [hdocuments] at hdocuments'
    cases hdocuments'
    obtain ⟨hproject, hprogram | ⟨hnone, -⟩⟩ := program_recompute hdocuments hprepare hown
    · have hok : (ws.recomputeFromSnapshot c.world c.file documents).result = .ok
          (ws.recomputeFromSnapshot c.world c.file documents).workspace.latest := by
        simp [recomputeFromSnapshot, hprepare, hown]
      rw [hws'] at hproject hprogram hok
      obtain ⟨project, hleft, hfits⟩ := h documents _ hdocuments hok a (hprogram.trans ha)
      rw [hproject] at hleft
      cases hleft
      exact hfits
    · rw [hnone] at ha
      cases ha
  · intro h documents' r hdocuments' hok a ha
    rw [hdocuments] at hdocuments'
    cases hdocuments'
    obtain ⟨p, own, hprepare, hown, -⟩ := recomputeFromSnapshot_ok hok
    obtain ⟨hproject, hprogram⟩ := program_recompute hdocuments hprepare hown
    rw [hws'] at hproject hprogram
    refine ⟨_, hproject, ?_⟩
    -- The program left is what the recompute falls back to, or its own.
    obtain hfallback | ⟨-, hself⟩ := hprogram
    · exact h documents p own hdocuments hprepare hown a (hfallback.symm.trans ha)
    · rw [hself] at ha
      cases ha
      exact fits_of_analyze hurl hdocuments hprepare hown

/-- In a sequence of recomputes every program read fits exactly when every program
fallen back to does. -/
theorem programFits_run_iff (hurl : M.UrlNamesFile) (calls : List (Call M)) :
    AllSteps Call.step (fun ws c ws' => ws.ProgramFits c ws') new calls ↔
      AllSteps Call.step (fun ws c _ => ws.FallbackFits c) new calls := by
  refine allSteps_congr (I := fun _ => True) ?_ ?_ calls trivial
  · intro ws c ws' _ _ _
    trivial
  · intro ws c ws' _ hstep
    exact programFits_iff hurl hstep

end Workspace

/-! ## A project with modules, then one without -/

namespace Sample

/-- The project `A` with a source file, and `B` with a config alone. -/
def withoutModules : World Marrow.sample :=
  world (((projectDir "B").child CONFIG_FILE, ['m']) :: projectFiles [("A", ['x'])])

def routesOf (name : String) : Call Marrow.sample := ⟨withoutModules, app name, none⟩

end Sample

namespace Workspace

open Sample in
theorem programFits_run_iff_fresh :
    AllSteps Call.step (fun ws c ws' => ws.ProgramFits c ws') (new : Workspace Marrow.sample)
      [routesOf "B", routesOf "A"] := by
  refine (programFits_run_iff urlNamesFile _).mpr ?_
  intro ws hws
  refine ⟨fallbackFits_of_none rfl rfl, ?_⟩
  intro ws' _
  cases hws
  refine ⟨fallbackFits_of_none ?_ ?_, trivial⟩
  · exact Option.isNone_iff_eq_none.mp (by decide)
  · exact Option.isNone_iff_eq_none.mp (by decide)

open Sample in
/-- The routes of `B`, which has no modules, are read off the program of `A`. -/
theorem not_programFits_otherProject :
    ¬ AllSteps Call.step (fun ws c ws' => ws.ProgramFits c ws') (new : Workspace Marrow.sample)
      [routesOf "A", routesOf "B"] := by
  intro h
  obtain ⟨-, hsecond⟩ := h _ rfl
  obtain ⟨hfits, -⟩ := hsecond _ rfl
  have hother : ((Call.step new (routesOf "A")).bind fun ws => Call.step ws (routesOf "B")).any
      (fun ws => ws.program.any fun a =>
        ws.project.all fun project => decide (a.prepared.root ≠ project.root)) = true := by
    decide
  obtain ⟨ws, hws, hprogram⟩ := (Option.any_eq_true _ _).mp hother
  cases hws
  obtain ⟨a, ha, hroots⟩ := (Option.any_eq_true _ _).mp hprogram
  obtain ⟨project, hproject, hroot, -, -⟩ := hfits _ _ rfl rfl a ha
  rw [hproject, Option.all_some, decide_eq_true_eq] at hroots
  exact hroots hroot

end Workspace

end MarrowLsp
