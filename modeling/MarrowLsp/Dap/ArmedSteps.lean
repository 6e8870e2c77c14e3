-- SUMMARY: Steps of the debug adapter that leave the requested breakpoints, the run thread's copy of the armed set and the swaps waiting for it as they are.
import MarrowLsp.Dap.AdapterSteps
import MarrowLsp.Dap.Arming
import MarrowLsp.Dap.RunSteps

/-!
# Steps that keep the armed set

Of the steps of the adapter only requests and the drain touch it.
-/
namespace MarrowLsp

namespace Dap

variable {H : DebugHost}

/-- From `a` to `b` neither the requests nor the run thread's copy and swaps change. -/
structure Keeps (a b : Adapter H) : Prop where
  analysis : b.session.analysis = a.session.analysis
  stopPoints : b.session.stopPoints = a.session.stopPoints
  breakpoints : b.session.breakpoints = a.session.breakpoints
  pending : b.session.pending.isSome = true → a.session.pending.isSome = true
  unstarted : b.run = none → a.run = none
  run : ∀ run', b.run = some run' → ∃ run, a.run = some run ∧
    run'.breakpoints = run.breakpoints ∧ run'.breakpointSwaps = run.breakpointSwaps

theorem Keeps.armed {a b : Adapter H} (h : Keeps a b) :
    b.session.armedBreakpoints = a.session.armedBreakpoints :=
  Session.armedBreakpoints_congr h.analysis h.stopPoints h.breakpoints

/-- The session is another, with the same requests; the thread is the same. -/
theorem Keeps.of_session {a : Adapter H} {t : Session H} {phase : Phase H}
    (hanalysis : t.analysis = a.session.analysis) (hstopPoints : t.stopPoints = a.session.stopPoints)
    (hbreakpoints : t.breakpoints = a.session.breakpoints)
    (hpending : t.pending.isSome = true → a.session.pending.isSome = true) :
    Keeps a ⟨t, phase, a.run⟩ :=
  ⟨hanalysis, hstopPoints, hbreakpoints, hpending, id, fun run hrun => ⟨run, hrun, rfl, rfl⟩⟩

theorem Keeps.of_tells {a : Adapter H} {t : Session H} {messages : List Message} {phase : Phase H}
    (h : Session.Tells a.session t messages) : Keeps a ⟨t, phase, a.run⟩ :=
  .of_session h.analysis h.stopPoints h.breakpoints (by rw [h.pending]; exact id)

theorem Keeps.trans {a b c : Adapter H} (h : Keeps a b) (h' : Keeps b c) : Keeps a c where
  analysis := h'.analysis.trans h.analysis
  stopPoints := h'.stopPoints.trans h.stopPoints
  breakpoints := h'.breakpoints.trans h.breakpoints
  pending := fun hpending => h.pending (h'.pending hpending)
  unstarted := fun hnone => h.unstarted (h'.unstarted hnone)
  run := by
    intro run'' hrun
    obtain ⟨run', hrun', hbreakpoints', hswaps'⟩ := h'.run run'' hrun
    obtain ⟨run, hrun, hbreakpoints, hswaps⟩ := h.run run' hrun'
    exact ⟨run, hrun, hbreakpoints'.trans hbreakpoints, hswaps'.trans hswaps⟩

/-- The thread is mapped by what touches neither its copy nor the swaps. -/
theorem Keeps.of_map (a : Adapter H) {phase : Phase H} {f : RunThread H → RunThread H}
    (hbreakpoints : ∀ run, (f run).breakpoints = run.breakpoints)
    (hswaps : ∀ run, (f run).breakpointSwaps = run.breakpointSwaps) :
    Keeps a ⟨a.session, phase, a.run.map f⟩ := by
  refine ⟨rfl, rfl, rfl, id, Option.map_eq_none_iff.mp, ?_⟩
  intro run' hmapped
  obtain ⟨run, hrun, rfl⟩ := Option.map_eq_some_iff.mp hmapped
  exact ⟨run, hrun, hbreakpoints run, hswaps run⟩

theorem keeps_terminateSession (a : Adapter H) : Keeps a a.terminateSession := by
  unfold Adapter.terminateSession
  split
  · exact (Keeps.of_session rfl rfl rfl id : Keeps a ⟨a.session.beginTerminate, a.phase, a.run⟩).trans
      (.of_map _ (fun _ => rfl) fun _ => rfl)
  · exact .of_session rfl rfl rfl id

theorem keeps_perform (a : Adapter H) (request : Json) {effect : Effect H}
    (harm : ∀ breakpoints, effect ≠ .arm breakpoints)
    (hstart : ∀ stopOnEntry breakpoints, effect ≠ .start stopOnEntry breakpoints) :
    Keeps a (a.perform request effect) := by
  cases effect with
  | none => exact .of_session rfl rfl rfl id
  | pause => exact .of_map a (fun _ => rfl) fun _ => rfl
  | arm breakpoints => exact absurd rfl (harm breakpoints)
  | start stopOnEntry breakpoints => exact absurd rfl (hstart stopOnEntry breakpoints)
  | query query =>
    unfold Adapter.perform
    dsimp only
    split
    · obtain ⟨_, htells⟩ := (a.session.replies_afterQuery request query none).tells
      exact .of_tells htells
    · exact .of_map a (fun _ => rfl) fun _ => rfl
  | terminate => exact keeps_terminateSession a

namespace Session

theorem keeps_finishRun (s : Session H) (result : RunEnd) :
    (s.finishRun result).analysis = s.analysis ∧ (s.finishRun result).stopPoints = s.stopPoints ∧
      (s.finishRun result).breakpoints = s.breakpoints ∧
      (s.finishRun result).pending = s.pending := by
  cases result with
  | panicked => exact ⟨rfl, rfl, rfl, rfl⟩
  | returned outcome =>
    unfold finishRun emitRunOutcome
    dsimp only
    repeat' split
    all_goals exact ⟨rfl, rfl, rfl, rfl⟩

theorem keeps_handleRunEvent (s : Session H) (event : RunEvent H) :
    (s.handleRunEvent event).analysis = s.analysis ∧
      (s.handleRunEvent event).stopPoints = s.stopPoints ∧
      (s.handleRunEvent event).breakpoints = s.breakpoints ∧
      (s.handleRunEvent event).pending = s.pending := by
  cases event with
  | stopped info =>
    unfold handleRunEvent
    dsimp only
    split <;> exact ⟨rfl, rfl, rfl, rfl⟩
  | output text => exact ⟨rfl, rfl, rfl, rfl⟩
  | answer result => exact ⟨rfl, rfl, rfl, rfl⟩

end Session

namespace RunThread

/-- Only the drain touches the copy and the swaps. -/
theorem keeps_of_step {connected : Bool} {run run' : RunThread H} {step : RunStep H}
    (hdrain : step ≠ .drain) (h : run.step connected step = some run') :
    run'.breakpoints = run.breakpoints ∧ run'.breakpointSwaps = run.breakpointSwaps := by
  cases stepped_of_step h with
  | drained => exact absurd rfl hdrain
  | passed hpc hreason =>
    cases eq_of_stopReason hreason
    exact ⟨rfl, rfl⟩
  | decided hpc hreason =>
    cases eq_of_stopReason hreason
    exact ⟨rfl, rfl⟩
  | _ => exact ⟨rfl, rfl⟩

end RunThread

/-- What the protocol thread does with the run, but for requests, leaves requests and swaps. -/
theorem keeps_of_stepped {a b : Adapter H} {label : AdapterStep H} (h : a.Stepped label b)
    (hrequest : ∀ request world, label ≠ .request request world)
    (hdrain : label ≠ .run .drain) : Keeps a b := by
  have hthread {t : Session H} {phase : Phase H} {run run' : RunThread H} (hrun : a.run = some run)
      (hanalysis : t.analysis = a.session.analysis)
      (hstopPoints : t.stopPoints = a.session.stopPoints)
      (hbreakpoints : t.breakpoints = a.session.breakpoints) (hpending : t.pending = a.session.pending)
      (hcopy : run'.breakpoints = run.breakpoints)
      (hswaps : run'.breakpointSwaps = run.breakpointSwaps) : Keeps a ⟨t, phase, some run'⟩ := by
    refine ⟨hanalysis, hstopPoints, hbreakpoints, by rw [hpending]; exact id, nofun, ?_⟩
    rintro _ ⟨⟩
    exact ⟨run, hrun, hcopy, hswaps⟩
  cases h with
  | handled => exact absurd rfl (hrequest _ _)
  | resumeDropped => exact .of_session rfl rfl rfl id
  | resumeSent hphase hdone hrunning hrun => exact hthread hrun rfl rfl rfl rfl rfl rfl
  | @resumeFailed running run mode result hphase hdone hrunning hrun hpending hresult =>
    obtain ⟨hanalysis, hstopPoints, hbreakpoints, hkept⟩ := Session.keeps_finishRun
      { a.session with running := some { running with pendingResume := none } } result
    exact .of_session hanalysis hstopPoints hbreakpoints (by rw [hkept]; exact id)
  | @tookEvent _ running run event events hlabel hrunning hrun hevents =>
    obtain ⟨hanalysis, hstopPoints, hbreakpoints, hkept⟩ := a.session.keeps_handleRunEvent event
    exact hthread hrun hanalysis hstopPoints hbreakpoints hkept rfl rfl
  | @joined _ running run result hlabel hrunning hrun hevents hresult =>
    obtain ⟨hanalysis, hstopPoints, hbreakpoints, hkept⟩ := a.session.keeps_finishRun result
    exact hthread hrun hanalysis hstopPoints hbreakpoints hkept rfl rfl
  | @answered request query run answer events hphase hrun hevents =>
    have hreply := a.session.replies_afterQuery request query (some answer)
    exact hthread hrun hreply.analysis hreply.stopPoints hreply.breakpoints hreply.pending rfl rfl
  | @unanswered request query run hphase hrun hevents =>
    have hreply := a.session.replies_afterQuery request query none
    exact hthread hrun hreply.analysis hreply.stopPoints hreply.breakpoints hreply.pending rfl rfl
  | detached hphase hrun => exact hthread hrun rfl rfl rfl rfl rfl rfl
  | dropped => exact keeps_terminateSession a
  | @ran step run run' hrun hran =>
    have hstep : step ≠ .drain := fun heq => hdrain (by rw [heq])
    obtain ⟨hcopy, hswaps⟩ := RunThread.keeps_of_step hstep hran
    exact hthread hrun rfl rfl rfl rfl hcopy hswaps

end Dap

end MarrowLsp
