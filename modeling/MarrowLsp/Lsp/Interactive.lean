-- SUMMARY: Completion and signature help: the program they answer from, and when every answer comes from the requested file's own project.
import MarrowLsp.Lsp.Freshness

/-!
# Interactive answers

Completion and signature help read the latest analysis whenever it has the document
generation of the request. The generation is that of all buffers together, so the
program may be another project's; it is not exactly when each publish finds only
buffers of its own project open.
-/
namespace MarrowLsp

open Transition

variable {M : Marrow}

/-- How an interactive request ends: with nothing, refused as superseded, or computed
from a program, which is `none` for the empty one. -/
inductive Interactive (M : Marrow) where
  | null
  | contentModified
  | computed (program : Option (Analysis M))

/-- The analysis an answer was computed from. -/
def Interactive.analysis : Interactive M → Option (Analysis M)
  | .computed program => program
  | .null | .contentModified => none

theorem Interactive.analysis_eq_some_iff {answer : Interactive M} {a : Analysis M} :
    answer.analysis = some a ↔ answer = .computed (some a) := by
  cases answer <;> simp [analysis]

namespace Server

/-- A request of an open file, unless the buffers have moved since it captured them. -/
def interactive (s : Server M) (captured : Documents) (url : Url) (answer : Interactive M) :
    Interactive M :=
  match M.toFilePath url, captured.get url with
  | some _, some _ =>
    if s.documents.matchesGeneration (captured.analysisSnapshot M) then answer
    else .contentModified
  | _, _ => .null

/-- `completion`, by the program it completes against. The pending bits are read before
the lock is tried. -/
def completion (s : Server M) (captured : Documents) (url : Url)
    (invalidationPending busy : Bool) : Interactive M :=
  s.interactive captured url <| .computed <|
    if invalidationPending || busy then none
    else s.workspace.freshProgramOrEmptyFromSnapshot (captured.analysisSnapshot M)

/-- `signature_help`, likewise. -/
def signatureHelp (s : Server M) (captured : Documents) (url : Url) (busy : Bool) :
    Interactive M :=
  s.interactive captured url <|
    if busy || s.pending.isPending then .null
    else
      match s.workspace.freshLatestFromSnapshot (captured.analysisSnapshot M) with
      | none => .null
      | some a => if M.modulesIsEmpty a.snapshot.program then .null else .computed (some a)

/-- An answer for `path` computed from the empty program or from its own project's at
the current generation. -/
def AnswersOwn (fs : Fs) (s : Server M) (path : Path) (answer : Interactive M) : Prop :=
  ∀ a, answer = .computed (some a) → M.modulesIsEmpty a.snapshot.program = true ∨
    projectRootOf fs path = some a.prepared.root ∧
      a.prepared.documentsGeneration = s.documents.generation

/-- Every completion and signature help in a state, for buffers captured on the way. -/
def OwnAnswers (fs : Fs) (s : Server M) : Prop :=
  ∀ s₀ url path invalidationPending busy, Reachable step s₀ s → M.toFilePath url = some path →
    (s.analysisLocked = true → busy = true) →
    AnswersOwn fs s path (s.completion s₀.documents url invalidationPending busy) ∧
      AnswersOwn fs s path (s.signatureHelp s₀.documents url busy)

/-- Whether the project a publish is for owns every open file, where the publish goes on
to release the analysis: nothing is pending and the buffers have not moved. -/
def publishesOwner (fs : Fs) (s : Server M) : Action M → Bool
  | .publish _ =>
    s.pending.isPending || s.running.all fun r =>
      !s.documents.matchesGeneration r.documents ||
        s.workspace.latest.any (fun a => M.modulesIsEmpty a.snapshot.program) ||
        r.documents.openDocuments.all fun document =>
          projectRootOf fs document.path == some r.run.root
  | _ => true

/-! ## The latest analysis of the current buffers -/

/-- A latest analysis of the current generation is that of every open file's project. -/
def LatestOwns (fs : Fs) (s : Server M) : Prop :=
  ∀ a, s.workspace.latest = some a →
    s.workspace.latestDocumentsGeneration = some s.documents.generation →
    M.modulesIsEmpty a.snapshot.program = true ∨
      ∀ document ∈ (s.documents.analysisSnapshot M).openDocuments,
        projectRootOf fs document.path = some a.prepared.root

theorem latestOwns_of_none {fs : Fs} {s : Server M} (h : s.workspace.latest = none) :
    s.LatestOwns fs := by
  intro a ha
  rw [h] at ha
  cases ha

/-- The latest analysis keeps its owner while it is kept: once the buffers move it no
longer has their generation. -/
theorem LatestOwns.kept {fs : Fs} {s t : Server M} (h : s.LatestOwns fs)
    (hcaptured : s.AllCaptured (CapturedBy M s.documents))
    (hcontinues : Documents.Continues s.documents t.documents)
    (hlatest : t.workspace.latest = s.workspace.latest)
    (hgeneration : t.workspace.latestDocumentsGeneration =
      s.workspace.latestDocumentsGeneration) : t.LatestOwns fs := by
  intro a ha hcurrent
  rw [hlatest] at ha
  rw [hgeneration] at hcurrent
  obtain ⟨documents, ⟨hle, -⟩, hinstalled, -⟩ := hcaptured.latest a ha
  rw [hcurrent, Option.some.injEq] at hinstalled
  have hsame : s.documents.generation = t.documents.generation :=
    le_antisymm hcontinues.1 (hinstalled ▸ hle)
  rw [← hcontinues.2 hsame] at hcurrent ⊢
  exact h a ha hcurrent

/-- A latest analysis that serves captured buffers is the own project's. -/
theorem LatestOwns.of_fresh {fs : Fs} {s₀ s : Server M} {url : Url} {path : Path}
    {buffer : Document} {a : Analysis M} (howns : s.LatestOwns fs) (h : Reachable step new s)
    (hreach : Reachable step s₀ s) (hpath : M.toFilePath url = some path)
    (hget : s₀.documents.get url = some buffer)
    (hmatch : s.documents.matchesGeneration (s₀.documents.analysisSnapshot M) = true)
    (hfresh : s.workspace.freshLatestFromSnapshot (s₀.documents.analysisSnapshot M) = some a) :
    M.modulesIsEmpty a.snapshot.program = true ∨ projectRootOf fs path = some a.prepared.root ∧
      a.prepared.documentsGeneration = s.documents.generation := by
  have hgeneration : s.documents.generation = s₀.documents.generation :=
    Documents.matchesGeneration_iff.mp hmatch
  have hdocuments := (continues_of_reaches hreach).2 hgeneration.symm
  unfold Workspace.freshLatestFromSnapshot Workspace.latestMatchesSnapshot at hfresh
  split at hfresh
  · next hmatches =>
    rw [Bool.and_eq_true, decide_eq_true_eq] at hmatches
    have hcurrent : s.workspace.latestDocumentsGeneration = some s.documents.generation := by
      rw [hmatches.2, hgeneration, Documents.analysisSnapshot_generation]
    rcases howns a hfresh hcurrent with hempty | hall
    · exact .inl hempty
    · refine .inr ⟨?_, ?_⟩
      · rw [hdocuments] at hget
        exact hall ⟨url, path, buffer.text, buffer.version⟩
          (Documents.mem_openDocuments_iff.mpr ⟨hget, hpath⟩)
      · obtain ⟨documents, -, hinstalled, hfrom⟩ := (allCaptured_of_reachable h).latest a hfresh
        rw [hcurrent, Option.some.injEq] at hinstalled
        rw [hfrom.generation, hinstalled]
  · cases hfresh

/-- In a reachable state the answers are the own project's exactly when a latest
analysis that can be locked is. -/
theorem ownAnswers_iff {s : Server M} (h : Reachable step new s) (fs : Fs) :
    s.OwnAnswers fs ↔ (s.analysisLocked = false → s.LatestOwns fs) := by
  constructor
  · intro hanswers hlock a ha hcurrent
    by_cases hempty : M.modulesIsEmpty a.snapshot.program = true
    · exact .inl hempty
    · refine .inr fun document hmem => ?_
      obtain ⟨hget, hpath⟩ := Documents.mem_openDocuments_iff.mp hmem
      have hcompletion : s.completion s.documents document.url false false =
          .computed (some a) := by
        simp [completion, interactive, hpath, hget, Documents.matchesGeneration,
          Workspace.freshProgramOrEmptyFromSnapshot, Workspace.freshLatestFromSnapshot,
          Workspace.latestMatchesSnapshot, ha, hcurrent]
      obtain ⟨hown, -⟩ := hanswers s document.url document.path false false .refl hpath
        (fun hlocked => by rw [hlock] at hlocked; cases hlocked)
      rcases hown a hcompletion with hmodules | ⟨hroot, -⟩
      · exact absurd hmodules hempty
      · exact hroot
  · intro howns s₀ url path invalidationPending busy hreach hpath hbusy
    -- An answer that is computed found the analysis unlocked.
    have hlatest (hfree : busy = false) : s.LatestOwns fs := by
      apply howns
      by_contra hlocked
      rw [hbusy (by simpa using hlocked)] at hfree
      cases hfree
    refine ⟨fun a hanswer => ?_, fun a hanswer => ?_⟩
    · unfold completion interactive at hanswer
      rw [hpath] at hanswer
      cases hget : s₀.documents.get url with
      | none => simp [hget] at hanswer
      | some buffer =>
        cases hmatch : s.documents.matchesGeneration (s₀.documents.analysisSnapshot M) with
        | false => simp [hget, hmatch] at hanswer
        | true =>
          simp only [hget, hmatch, if_true, Interactive.computed.injEq,
            Option.ite_none_left_eq_some, Bool.or_eq_true, not_or, Bool.not_eq_true] at hanswer
          exact (hlatest hanswer.1.2).of_fresh h hreach hpath hget hmatch hanswer.2
    · unfold signatureHelp interactive at hanswer
      rw [hpath] at hanswer
      cases hget : s₀.documents.get url with
      | none => simp [hget] at hanswer
      | some buffer =>
        cases hmatch : s.documents.matchesGeneration (s₀.documents.analysisSnapshot M) with
        | false => simp [hget, hmatch] at hanswer
        | true =>
          simp only [hget, hmatch, if_true] at hanswer
          split at hanswer
          · cases hanswer
          · next hfree =>
            rw [Bool.or_eq_true, not_or, Bool.not_eq_true] at hfree
            split at hanswer
            · cases hanswer
            · next a' hfresh =>
              split at hanswer
              · cases hanswer
              · cases hanswer
                exact (hlatest hfree.1).of_fresh h hreach hpath hget hmatch hfresh

/-! ## Runs -/

/-- A publish releases an analysis of every open file's project exactly when it meets
the condition. -/
theorem latestOwns_publish_iff {s : Server M} (hreach : Reachable step new s) (fs : Fs)
    (fsRead : Fs) {r : Running M} (hr : s.running = some r) (hstage : r.stage = .committed) :
    ((s.publish fsRead r).analysisLocked = false → (s.publish fsRead r).LatestOwns fs) ↔
      s.publishesOwner fs (.publish fsRead) = true := by
  have hrun := coherent_of_reachable hreach r hr
  have hinstalled := hrun.stage
  rw [hstage] at hinstalled
  obtain ⟨a, hlatest, ha, hgeneration, hproject, -⟩ := hinstalled
  rcases s.publish_cases fsRead r with
    ⟨hpending, heq⟩ | ⟨hpending, ⟨hmatch, heq⟩ | ⟨hmatch, ⟨hnone, heq⟩ |
      ⟨project', a', -, hlatest', heq⟩⟩⟩
  · have hcondition : s.publishesOwner fs (.publish fsRead) = true := by
      simp [publishesOwner, hpending]
    -- An abandoned run leaves no latest analysis.
    rw [heq]
    refine iff_of_true (fun _ => ?_) hcondition
    exact latestOwns_of_none (epoch_lt_applyPending hpending s.workspace).2
  · have hcondition : s.publishesOwner fs (.publish fsRead) = true := by
      simp [publishesOwner, hr, hmatch]
    rw [heq]
    -- The buffers have moved, so the latest analysis is not of the current ones.
    refine iff_of_true (fun _ a'' _ hcurrent => ?_) hcondition
    rw [hgeneration, hrun.isFrom.generation, Option.some.injEq] at hcurrent
    exact absurd hcurrent.symm (Documents.matchesGeneration_eq_false_iff.mp hmatch)
  · -- A committed run has a project and a latest analysis.
    rcases hnone with hnone | hnone
    · rw [hproject] at hnone
      cases hnone
    · rw [hlatest] at hnone
      cases hnone
  · rw [hlatest] at hlatest'
    cases hlatest'
    rw [heq]
    have hsame : s.documents.generation = r.documents.generation :=
      Documents.matchesGeneration_iff.mp hmatch
    have hdocuments : r.documents = s.documents.analysisSnapshot M :=
      ((allCaptured_of_reachable hreach).running r hr).2 hsame.symm
    have hcurrent : s.workspace.latestDocumentsGeneration = some s.documents.generation := by
      rw [hgeneration, hrun.isFrom.generation, hsame]
    have hcondition : s.publishesOwner fs (.publish fsRead) = true ↔
        M.modulesIsEmpty a.snapshot.program = true ∨
          ∀ document ∈ (s.documents.analysisSnapshot M).openDocuments,
            projectRootOf fs document.path = some a.prepared.root := by
      rw [ha, ← hdocuments]
      simp [publishesOwner, hpending, hr, hmatch, hlatest]
    rw [hcondition]
    constructor
    · intro howns
      exact howns (by simp [analysisLocked]) a hlatest hcurrent
    · intro hall _ a'' ha'' _
      dsimp only at ha''
      rw [hlatest] at ha''
      cases ha''
      exact hall

/-- One step keeps the answers those of the own project exactly when it meets the
condition. -/
theorem ownAnswers_step_iff {s t : Server M} {action : Action M} (fs : Fs)
    (hreach : Reachable step new s) (hs : s.analysisLocked = false → s.LatestOwns fs)
    (hstep : s.step action = some t) :
    t.OwnAnswers fs ↔ s.publishesOwner fs action = true := by
  rw [ownAnswers_iff (hreach.snoc trivial hstep) fs]
  cases hlock : s.analysisLocked with
  | true =>
    -- Only the publish itself gives the lock up.
    obtain ⟨r, hr, hcommitted⟩ := (Option.any_eq_true _ _).mp hlock
    have hstage : r.stage = .committed := by
      revert hcommitted
      cases r.stage with
      | committed => exact fun _ => rfl
      | prepared | analyzed | publishing => exact fun h => by cases h
    cases haction : action.isRun with
    | false =>
      have hlocked : t.analysisLocked = true := by
        rw [analysisLocked, (outside_of_step hstep haction).running]
        exact hlock
      rw [hlocked]
      cases action with
      | publish => cases haction
      | _ => simp [publishesOwner]
    | true =>
      cases stepTo_of_step hstep with
      | publish hr' hstage' _ => exact latestOwns_publish_iff hreach fs _ hr' hstage'
      | prepare hnone _ =>
        rw [hr] at hnone
        cases hnone
      | analyze hr' hstage' | commit hr' hstage' | reconcile hr' hstage' =>
        rw [hr] at hr'
        cases hr'
        rw [hstage] at hstage'
        cases hstage'
      | _ => cases haction
  | false =>
    have hnot : s.publishesOwner fs action = true := by
      cases stepTo_of_step hstep with
      | publish hr hstage _ =>
        have := holdsAnalysis_of_unlocked hr hlock
        rw [hstage] at this
        cases this
      | _ => rfl
    rw [hnot]
    refine iff_of_true (fun hunlocked => ?_) rfl
    cases workspaceStep_of_step hstep with
    | invalidated _ hlatest => exact latestOwns_of_none hlatest
    | kept _ _ hlatest hgeneration =>
      exact (hs hlock).kept (allCaptured_of_reachable hreach) (continues_step hstep) hlatest
        hgeneration
    | installed _ _ _ _ _ _ _ ht => simp [analysisLocked, ht] at hunlocked

/-- In every run, all completions and signature helps in all states come from the empty
program or the file's own project exactly when every publish that releases an analysis
finds only files of its project open. -/
theorem ownAnswers_run_iff (fs : Fs) (actions : List (Action M)) :
    AllSteps step (fun _ _ t => t.OwnAnswers fs) new actions ↔
      AllSteps step (fun s action _ => s.publishesOwner fs action = true) new actions := by
  refine allSteps_congr
    (I := fun s => Reachable step new s ∧ (s.analysisLocked = false → s.LatestOwns fs))
    (fun s action t hs hstep hanswers => ?_)
    (fun s action t hs hstep => ownAnswers_step_iff fs hs.1 hs.2 hstep) actions
    ⟨.refl, fun _ => latestOwns_of_none rfl⟩
  have hreach : Reachable step new t := hs.1.snoc trivial hstep
  exact ⟨hreach, (ownAnswers_iff hreach fs).mp hanswers⟩

end Server

/-! ## Two projects open -/

namespace Sample

/-- Both projects have a buffer open when the recompute of `B` is published. -/
def openedBoth : List (Action Marrow.sample) :=
  opened "A" ['x'] ++ opened "B" ['x'] ++ [.preflight 0] ++ recomputed twins

end Sample

namespace Server

open Sample in
theorem not_ownAnswers_openedBoth :
    ¬ AllSteps step (fun _ _ t => t.OwnAnswers twins.fs) (new : Server Marrow.sample)
      openedBoth := by
  intro h
  have hrun : (run step (new : Server Marrow.sample) openedBoth).any (fun s =>
      !s.analysisLocked &&
        (s.completion s.documents (urlOf (app "A")) false false).analysis.any fun a =>
          !a.snapshot.program.isEmpty &&
            projectRootOf twins.fs (app "A") != some a.prepared.root) = true := by
    decide
  obtain ⟨s, hs, hbad⟩ := (Option.any_eq_true _ _).mp hrun
  have hnew : (new : Server Marrow.sample).OwnAnswers twins.fs :=
    (ownAnswers_iff .refl twins.fs).mpr fun _ => latestOwns_of_none rfl
  have hanswers : s.OwnAnswers twins.fs := h.final (fun _ _ _ ht => ht) hnew hs
  rw [Bool.and_eq_true, Bool.not_eq_true'] at hbad
  obtain ⟨hlock, hbad⟩ := hbad
  obtain ⟨a, ha, hbad⟩ := (Option.any_eq_true _ _).mp hbad
  rw [Bool.and_eq_true, Bool.not_eq_true', bne_iff_ne] at hbad
  obtain ⟨hcompletion, -⟩ := hanswers s (urlOf (app "A")) (app "A") false false .refl
    (by decide) (fun hlocked => by rw [hlock] at hlocked; cases hlocked)
  rcases hcompletion a (Interactive.analysis_eq_some_iff.mp ha) with hempty | ⟨hroot, -⟩
  · exact absurd hempty (by rw [show Marrow.sample.modulesIsEmpty a.snapshot.program =
      a.snapshot.program.isEmpty from rfl, hbad.1]; simp)
  · exact hbad.2 hroot

end Server

end MarrowLsp
