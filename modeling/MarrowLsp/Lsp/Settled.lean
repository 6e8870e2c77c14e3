-- SUMMARY: What the server does by itself comes to an end, ends only where nothing is scheduled or in flight, and leaves every open project up to date.
import MarrowLsp.Lib.Settling
import MarrowLsp.Lsp.Publishing

/-!
# The server at rest

Between two notifications the server goes on by itself: a handler finishes, and each
task it spawned is checked, captures, waits for the run lock and runs. Handlers are
ranked above tasks, since they spawn some, and a task by how far it has come.
-/
namespace MarrowLsp

open Transition

variable {M : Marrow}

/-- A step the server takes by itself, on a world it finds. -/
def Action.isOwn : Action M → Bool
  | .handle .. | .preflight _ | .capture _ | .prepare .. | .analyze _ | .commit | .publish _
  | .reconcile => true
  | _ => false

/-- The same in a world that does not change. -/
def Action.OwnIn (w : World M) : Action M → Prop
  | .handle fs _ | .analyze fs | .publish fs => fs = w.fs
  | .prepare w' _ => w' = w
  | action => action.isOwn = true

namespace Server

/-! ## A rank -/

def handlingRank : Option Handling → Nat
  | none => 0
  | some (.watch ..) => 2
  | some _ => 1

def stageRank : RunStage M → Nat
  | .prepared => 4
  | .analyzed _ => 3
  | .committed => 2
  | .publishing .. => 1

/-- What is left to do for the tasks there are. -/
def work (s : Server M) : Nat :=
  7 * s.sleeping.length + 6 * s.awake.length + 5 * s.waiting.length +
    s.running.elim 0 fun r => stageRank r.stage

theorem handlingRank_handle (s : Server M) (fs : Fs) (busy : Bool) (handling : Handling) :
    handlingRank (s.handle fs busy handling).handling < handlingRank (some handling) := by
  cases handling with
  | edit path scope =>
    obtain ⟨_, _, _, heq⟩ := s.finishEdit_frame busy path scope
    rw [handle, heq]
    exact Nat.one_pos
  | close url path =>
    obtain ⟨_, _, _, _, heq, -⟩ := s.finishClose_frame busy url path
    rw [handle, heq]
    exact Nat.one_pos
  | watch changes versions preBits => exact Nat.lt_succ_self 1
  | watchAgain changes versions preBits =>
    obtain ⟨_, _, _, _, _, heq, -, -⟩ := s.finishWatch_frame fs versions changes
    rw [handle, heq]
    exact Nat.one_pos

theorem length_eraseIdx_lt {α : Type*} {l : List α} {i : Nat} {a : α} (h : l[i]? = some a) :
    (l.eraseIdx i).length + 1 = l.length := by
  obtain ⟨hi, -⟩ := List.getElem?_eq_some_iff.mp h
  rw [List.length_eraseIdx_of_lt hi]
  omega

/-- A recompute's own step brings it nearer its end. -/
theorem rank_run {s : Server M} {action : Action M} {t : Server M}
    (hstep : s.step action = some t) (haction : action.isRun = true) :
    t.handling = s.handling ∧ t.work < s.work := by
  cases stepTo_of_step hstep with
  | @prepare w i x hrunning hx =>
    obtain ⟨workspace, running, heq, -, hrun⟩ := s.prepare_cases w i x
    have hlength := length_eraseIdx_lt hx
    rw [heq]
    refine ⟨rfl, ?_⟩
    rcases hrun with rfl | ⟨run, -, rfl⟩
    · simp only [work, hrunning, Option.elim_none]
      omega
    · simp only [work, hrunning, Option.elim_none, Option.elim_some, stageRank]
      omega
  | @analyze fs r hr hstage =>
    rcases s.analyze_cases fs r with ⟨e, -, heq⟩ | ⟨a, -, heq⟩
    · rw [heq]
      exact ⟨rfl, by simp [work, hr, hstage, stageRank]⟩
    · rw [heq]
      exact ⟨rfl, by simp [work, hr, hstage, stageRank]⟩
  | @commit r a hr hstage =>
    rcases s.commit_cases r a with ⟨-, heq⟩ | ⟨-, ⟨-, heq⟩ | ⟨_, -, -, heq⟩⟩
    · rw [heq]
      exact ⟨rfl, by simp [work, abandon, hr, hstage, stageRank]⟩
    · rw [heq]
      exact ⟨rfl, by simp [work, hr, hstage, stageRank]⟩
    · rw [heq]
      exact ⟨rfl, by simp [work, hr, hstage, stageRank]⟩
  | @publish fs r hr hstage _ =>
    rcases s.publish_cases fs r with
      ⟨-, heq⟩ | ⟨-, ⟨-, heq⟩ | ⟨-, ⟨-, heq⟩ | ⟨_, _, -, -, heq⟩⟩⟩
    · rw [heq]
      exact ⟨rfl, by simp [work, abandon, hr, hstage, stageRank]⟩
    · rw [heq]
      exact ⟨rfl, by simp [work, hr, hstage, stageRank]⟩
    · rw [heq]
      exact ⟨rfl, by simp [work, hr, hstage, stageRank]⟩
    · rw [heq]
      exact ⟨rfl, by simp [work, hr, hstage, stageRank]⟩
  | @reconcile r root scope a diagnostics hr hstage =>
    rcases s.reconcile_cases r root scope a diagnostics with
      ⟨-, heq⟩ | ⟨-, ⟨-, heq⟩ | ⟨_, _, -, heq⟩⟩
    · rw [heq]
      exact ⟨rfl, by simp [work, abandon, hr, hstage, stageRank]⟩
    · rw [heq]
      exact ⟨rfl, by simp [work, hr, hstage, stageRank]⟩
    · rw [heq]
      exact ⟨rfl, by simp [work, hr, hstage, stageRank]⟩
  | _ => cases haction

/-- Every step of its own brings the server nearer rest: it takes a handler on, or it
leaves the handler alone and takes a task on. -/
theorem rank_step {s t : Server M} {action : Action M} (hown : action.isOwn = true)
    (hstep : s.step action = some t) :
    handlingRank t.handling < handlingRank s.handling ∨
      handlingRank t.handling = handlingRank s.handling ∧ t.work < s.work := by
  cases stepTo_of_step hstep with
  | @handle fs busy handling hhandling _ =>
    left
    rw [hhandling]
    exact s.handlingRank_handle fs busy handling
  | @preflight i task htask =>
    have hlength := length_eraseIdx_lt htask
    right
    unfold preflight
    dsimp only
    split
    · refine ⟨rfl, ?_⟩
      simp only [work]
      omega
    · refine ⟨rfl, ?_⟩
      simp only [work, List.length_append, List.length_singleton]
      omega
  | @capture i task htask =>
    have hlength := length_eraseIdx_lt htask
    refine .inr ⟨rfl, ?_⟩
    simp only [capture, work, List.length_append, List.length_singleton]
    omega
  | prepare | analyze | commit | publish | reconcile =>
    obtain ⟨hhandling, hwork⟩ := rank_run hstep rfl
    rw [hhandling]
    exact .inr ⟨rfl, hwork⟩
  | _ => cases hown

/-! ## Rest -/

theorem settles_own (s : Server M) : Settles step (fun _ action => action.isOwn = true) s :=
  settles_of_counts (I := fun _ => True) (fun s => handlingRank s.handling) work
    (fun _ _ _ _ _ _ => trivial) (fun _ _ _ _ hown hstep => rank_step hown hstep) trivial

/-- Whatever is scheduled or in flight can go on, if need be as the handler goes on that
cannot lock the analysis. -/
theorem quiet_of_stuck {s : Server M} (w : World M)
    (h : Stuck step (fun _ action => action.OwnIn w) s) : s.quiet = true := by
  have hhandling : s.handling = none := by
    have hnone := h (.handle w.fs true) rfl
    simpa [step] using hnone
  have hrunning : s.running = none := by
    cases hr : s.running with
    | none => rfl
    | some r =>
      cases hstage : r.stage with
      | prepared =>
        have hnone := h (.analyze w.fs) rfl
        simp [step, hr, hstage] at hnone
      | analyzed a =>
        have hnone := h .commit rfl
        simp [step, hr, hstage] at hnone
      | committed =>
        have hnone := h (.publish w.fs) rfl
        simp [step, hr, hstage, publishFree, hhandling] at hnone
      | publishing root scope a diagnostics =>
        have hnone := h .reconcile rfl
        simp [step, hr, hstage] at hnone
  have hwaiting : s.waiting = [] := by
    cases hlist : s.waiting with
    | nil => rfl
    | cons x xs =>
      have hnone := h (.prepare w 0) rfl
      simp [step, hrunning, hlist] at hnone
  have hawake : s.awake = [] := by
    cases hlist : s.awake with
    | nil => rfl
    | cons task tasks =>
      have hnone := h (.capture 0) rfl
      simp [step, hlist] at hnone
  have hsleeping : s.sleeping = [] := by
    cases hlist : s.sleeping with
    | nil => rfl
    | cons task tasks =>
      have hnone := h (.preflight 0) rfl
      simp [step, hlist] at hnone
  simp [quiet, hhandling, hrunning, hwaiting, hawake, hsleeping]

theorem stuck_of_quiet {s : Server M} (w : World M) (h : s.quiet = true) :
    Stuck step (fun _ action => action.OwnIn w) s := by
  simp only [quiet, Bool.and_eq_true, List.isEmpty_iff, Option.isNone_iff_eq_none] at h
  obtain ⟨⟨⟨⟨hsleeping, hawake⟩, hwaiting⟩, hrunning⟩, hhandling⟩ := h
  intro action hown
  cases action with
  | handle | preflight | capture | prepare | analyze | commit | publish | reconcile =>
    simp [step, hsleeping, hawake, hwaiting, hrunning, hhandling]
  | _ => cases hown

theorem documents_of_own {s t : Server M} {action : Action M} (hown : action.isOwn = true)
    (hstep : s.step action = some t) : t.documents = s.documents := by
  cases stepTo_of_step hstep with
  | handle =>
    obtain ⟨_, _, _, _, _, _, heq, -, -⟩ := s.handle_frame _ _ _
    rw [heq]
  | preflight =>
    obtain ⟨_, heq⟩ := s.preflight_frame _ _
    rw [heq]
  | capture => rfl
  | prepare | analyze | commit | publish | reconcile =>
    obtain ⟨_, _, _, _, _, _, heq, -, -⟩ := run_frame hstep rfl
    rw [heq]
  | _ => cases hown

/-- Left alone the server comes to rest: from any state no run of its own steps goes on for
ever, and one that cannot be continued in some world has nothing scheduled or in flight.
If the editor's events and the recomputes met the conditions under which no publish is
lost, it then has published, for the project of every document that was open, the
diagnostics of the buffers as they were. -/
theorem comes_to_rest {fs : Fs} (s : Server M) :
    Settles step (fun _ action => action.isOwn = true) s ∧
    (∀ w, Stuck step (fun _ action => action.OwnIn w) s → s.quiet = true) ∧
    (Reaches step (fun s action => (s.assumes fs action && s.keepsPublishes fs action) = true)
      new s →
    ∀ t w, Reaches step (fun s action => action.isOwn = true ∧
        (s.assumes fs action && s.keepsPublishes fs action) = true) s t →
      Stuck step (fun _ action => action.OwnIn w) t →
        t.documents = s.documents ∧
          ∀ document ∈ (s.documents.analysisSnapshot M).openDocuments, ∀ root,
            projectRootOf fs document.path = some root → UpToDate fs t root) := by
  refine ⟨s.settles_own, fun w => quiet_of_stuck w, fun h t w hown hstuck => ?_⟩
  have hdocuments : t.documents = s.documents :=
    hown.invariant (I := fun t => t.documents = s.documents) rfl
      fun _ _ _ hsame hok hstep => (documents_of_own hok.1 hstep).trans hsame
  have hreaches := h.trans (hown.mono fun _ _ hok => hok.2)
  obtain ⟨-, hkept⟩ := kept_of_reaches hreaches
  refine ⟨hdocuments, fun document hdocument root hroot => ?_⟩
  rw [← hdocuments] at hdocument
  exact upToDate_of_shown (Reaches.reachable hreaches)
    (hkept.shown_of_quiet (quiet_of_stuck w hstuck) hdocument hroot)

open Sample in
/-- The main file of `A` is opened and its recompute goes its way. -/
theorem comes_to_rest_opened : ∃ s t : Server Marrow.sample,
    s.quiet = false ∧
    Reaches step (fun s action => action.isOwn = true ∧
      (s.assumes twins.fs action && s.keepsPublishes twins.fs action) = true) s t ∧
    t.quiet = true ∧ UpToDate twins.fs t (projectDir "A") := by
  have hrun : (run (guarded (fun (s : Server Marrow.sample) action =>
      s.assumes twins.fs action && s.keepsPublishes twins.fs action) step) new
        ((opened "A" ['x']).take 1)).any fun s =>
      !s.quiet && (s.documents.analysisSnapshot Marrow.sample).openDocuments.any
          (fun document => decide (projectRootOf twins.fs document.path = some (projectDir "A"))) &&
        (run (guarded (fun (s : Server Marrow.sample) action => action.isOwn &&
          (s.assumes twins.fs action && s.keepsPublishes twins.fs action)) step) s
            ((opened "A" ['x']).drop 1 ++ recomputed twins)).any (·.quiet) := by
    decide
  obtain ⟨s, hs, hgood⟩ := (Option.any_eq_true _ _).mp hrun
  rw [Bool.and_eq_true, Bool.and_eq_true, Bool.not_eq_true'] at hgood
  obtain ⟨⟨hbusy, hopen⟩, hrest⟩ := hgood
  obtain ⟨document, hmem, hroot⟩ := List.any_eq_true.mp hopen
  obtain ⟨t, ht, hquiet⟩ := (Option.any_eq_true _ _).mp hrest
  have hown := (reaches_of_run ht).mono fun _ _ hok => Bool.and_eq_true _ _ |>.mp hok
  obtain ⟨-, -, hends⟩ := comes_to_rest s
  obtain ⟨-, hup⟩ := hends (reaches_of_run hs) t twins hown (stuck_of_quiet twins hquiet)
  exact ⟨s, t, hbusy, hown, hquiet, hup document hmem _ (of_decide_eq_true hroot)⟩

end Server

end MarrowLsp
