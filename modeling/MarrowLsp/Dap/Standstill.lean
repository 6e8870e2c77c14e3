-- SUMMARY: What the debug adapter does by itself comes to an end in every interleaving, and only where it is the client's turn or the debugged program's.
import MarrowLsp.Dap.Rendezvous
import MarrowLsp.Lib.Settling

/-!
# Standstill

A step of the adapter's own is neither asked for by the client nor taken by the debugged
program: the protocol loop goes on, or the hook does between two statements. Every message
is counted at what it can still set off.
-/
namespace MarrowLsp

namespace Dap

open Transition

variable {H : DebugHost}

/-- A step of the hook, past the check that lets a statement in. -/
def RunStep.isHook : RunStep H → Bool
  | .drain | .report | .announce | .receive | .answer => true
  | _ => false

def AdapterStep.isOwn : AdapterStep H → Bool
  | .flushResume | .pumpRunEvent | .receiveAnswer | .drainRunEvent => true
  | .run step => step.isHook
  | _ => false

/-! ## What is left to do -/

/-- Before the breakpoints are evaluated it is not known how much they have to say. -/
def RunPc.unevaluated : RunPc H → Nat
  | .admitted _ => 1
  | _ => 0

def RunPc.toGo : RunPc H → Nat
  | .reporting _ outputs _ => 2 * outputs.length + 4
  | .stopping .. => 3
  | .answering .. => 3
  | .parked _ => 1
  | _ => 0

def RunThread.toGo (run : RunThread H) : Nat :=
  run.pc.toGo + 3 * run.control.length + run.events.length

def Running.toGo (running : Running) : Nat := if running.pendingResume.isSome then 5 else 1

def Phase.toGo : Phase H → Nat
  | .awaiting .. => 1
  | _ => 0

namespace Adapter

def unevaluated (a : Adapter H) : Nat := a.run.elim 0 (·.pc.unevaluated)

def toGo (a : Adapter H) : Nat :=
  a.run.elim 0 (·.toGo) + a.session.running.elim 0 (·.toGo) + a.phase.toGo

end Adapter

/-- A step of the hook brings it nearer the statement or the stop. -/
theorem RunThread.toGo_of_hook {connected : Bool} {run run' : RunThread H} {step : RunStep H}
    (hown : step.isHook = true) (hstep : run.step connected step = some run') :
    run'.pc.unevaluated < run.pc.unevaluated ∨
      run'.pc.unevaluated = run.pc.unevaluated ∧ run'.toGo < run.toGo := by
  cases stepped_of_step hstep with
  | drained hpc => exact .inl (by simp [hpc, RunPc.unevaluated])
  | sent hpc | announced hpc | answered hpc =>
    refine .inr ⟨by rw [hpc]; rfl, ?_⟩
    simp only [toGo, hpc, RunPc.toGo, List.length_append, List.length_cons, List.length_nil]
    omega
  | notSent hpc | notAnnounced hpc | notAnswered hpc =>
    refine .inr ⟨by rw [hpc]; rfl, ?_⟩
    simp only [toGo, hpc, RunPc.toGo]
    omega
  | passed hpc hreason | decided hpc hreason =>
    cases eq_of_stopReason hreason
    refine .inr ⟨by rw [hpc]; rfl, ?_⟩
    simp only [toGo, hpc, RunPc.toGo]
    omega
  | asked hpc hcontrol | resumed hpc hcontrol | terminated hpc hcontrol | hungUp hpc hcontrol =>
    refine .inr ⟨by rw [hpc]; rfl, ?_⟩
    simp only [toGo, hpc, hcontrol, RunPc.toGo, List.length_cons]
    omega
  | _ => cases hown

/-- An event of the run stages and drops no resume. -/
theorem Session.toGo_handleRunEvent {s : Session H} {running : Running} (event : RunEvent H)
    (hrunning : s.running = some running) :
    (s.handleRunEvent event).running.elim 0 (·.toGo) = running.toGo := by
  cases event with
  | stopped info =>
    rw [running_handleRunEvent_stopped info hrunning, Option.elim_some]
    split
    · rfl
    · rfl
  | output text =>
    show s.running.elim 0 _ = _
    rw [hrunning, Option.elim_some]
  | answer result =>
    show s.running.elim 0 _ = _
    rw [hrunning, Option.elim_some]

theorem Running.toGo_pos (running : Running) : 0 < running.toGo := by
  unfold toGo
  split
  · exact Nat.succ_pos _
  · exact Nat.succ_pos _

namespace Adapter

/-- Every step of its own brings the adapter nearer a standstill. -/
theorem toGo_of_own {a b : Adapter H} {label : AdapterStep H} {owed : Bool}
    (hlink : Link a.session.running a.phase a.run owed) (hown : label.isOwn = true)
    (hstep : a.step label = some b) :
    b.unevaluated < a.unevaluated ∨ b.unevaluated = a.unevaluated ∧ b.toGo < a.toGo := by
  cases stepped_of_step hstep with
  | resumeDropped hphase hdone hrunning hrun hterminating =>
    rw [hrunning, hphase] at hlink
    rw [hlink.not_terminating] at hterminating
    cases hterminating
  | resumeSent hphase hdone hrunning hrun hpending hterminating hresult =>
    refine .inr ⟨by simp [unevaluated, hrun, RunThread.send], ?_⟩
    simp [toGo, hrun, hrunning, hpending, RunThread.send, RunThread.toGo, Running.toGo]
    omega
  | resumeFailed hphase hdone hrunning hrun hpending hresult =>
    refine .inr ⟨rfl, ?_⟩
    simp [toGo, hrunning, hpending, Session.running_finishRun, Running.toGo]
  | @tookEvent _ running run event events hlabel hrunning hrun hevents =>
    refine .inr ⟨by simp [unevaluated, hrun], ?_⟩
    simp only [toGo, hrun, hrunning, Option.elim_some, Session.toGo_handleRunEvent event hrunning,
      RunThread.toGo, hevents, List.length_cons]
    omega
  | @joined _ running run result hlabel hrunning hrun hevents hresult =>
    have hpos := running.toGo_pos
    refine .inr ⟨by simp [unevaluated, hrun], ?_⟩
    simp only [toGo, hrun, hrunning, Option.elim_some, Session.running_finishRun, Option.elim_none,
      Phase.toGo]
    omega
  | @answered request query run answer events hphase hrun hevents =>
    have hreply := a.session.replies_afterQuery request query (some answer)
    refine .inr ⟨by simp [unevaluated, hrun], ?_⟩
    simp only [toGo, hrun, hphase, hreply.running, Option.elim_some, RunThread.toGo, hevents,
      List.length_cons, Phase.toGo]
    omega
  | @unanswered request query run hphase hrun hevents =>
    have hreply := a.session.replies_afterQuery request query none
    refine .inr ⟨by simp [unevaluated, hrun], ?_⟩
    simp only [toGo, hrun, hphase, hreply.running, Option.elim_some, RunThread.toGo,
      List.length_tail, Phase.toGo]
    omega
  | @ran step run run' hrun hran =>
    have hless := RunThread.toGo_of_hook hown hran
    simp only [unevaluated, toGo, hrun, Option.elim_some]
    omega
  | _ => cases hown

/-! ## Whose turn it is -/

/-- Where the adapter stands still. -/
inductive Standing (a : Adapter H) : Prop where
  /-- No run yet, or the session is done with one that executes, unwinds or has ended. -/
  | noRun (hrunning : a.session.running = none) (hphase : a.phase = .idle)
      (hdone : a.run.isSome = true → a.session.done = true)
      (hrun : ∀ run, a.run = some run → run.executes = true ∨ run.isOver = true)
  /-- The client was told of the stop at which the program is parked. -/
  | client {running : Running} {info : StopInfo} {run : RunThread H} {statement : Statement H}
      (hrunning : a.session.running = some running) (hstopped : running.stoppedAt = some info)
      (hresume : running.pendingResume = none) (hphase : a.phase = .idle)
      (hrun : a.run = some run) (hpc : run.pc = .parked statement)
      (hcontrol : run.control = []) (hevents : run.events = [])
  /-- The program executes or unwinds, all it said was told and no resume is on its way. -/
  | program {running : Running} {run : RunThread H}
      (hrunning : a.session.running = some running) (hstopped : running.stoppedAt = none)
      (hresume : running.pendingResume = none) (hrun : a.run = some run)
      (hpc : run.executes = true ∨ run.pc = .unwinding) (hevents : run.events = [])
      (hphase : a.phase = .idle ∧ running.terminating = false ∧ run.control = [] ∨
        a.phase = .draining ∧ running.terminating = true)

end Adapter

/-- A hook that cannot go on is not in the hook, or waits for a message. -/
theorem RunThread.standing {connected : Bool} {run : RunThread H}
    (h : ∀ step, RunStep.isHook step = true → run.step connected step = none) :
    run.executes = true ∨ run.isOver = true ∨
      connected = true ∧ run.control = [] ∧ ∃ statement, run.pc = .parked statement := by
  cases hpc : run.pc with
  | running => exact .inl (by rw [executes, hpc])
  | unwinding => exact .inr (.inl (by rw [isOver, hpc]))
  | ended result => exact .inr (.inl (by rw [isOver, hpc]))
  | admitted statement =>
    have hnone := h .drain rfl
    simp [step, hpc] at hnone
  | reporting statement outputs stop =>
    have hnone := h .report rfl
    cases outputs with
    | nil =>
      simp only [step, hpc] at hnone
      split at hnone <;> cases hnone
    | cons output outputs =>
      simp only [step, hpc] at hnone
      split at hnone <;> cases hnone
  | stopping statement info =>
    have hnone := h .announce rfl
    simp only [step, hpc] at hnone
    split at hnone <;> cases hnone
  | answering statement query =>
    have hnone := h .answer rfl
    simp only [step, hpc] at hnone
    split at hnone <;> cases hnone
  | parked statement =>
    have hnone := h .receive rfl
    cases hcontrol : run.control with
    | nil =>
      simp only [step, hpc, hcontrol, ite_eq_left_iff, reduceCtorEq, imp_false,
        Bool.not_eq_true, Bool.not_eq_false] at hnone
      exact .inr (.inr ⟨hnone, rfl, statement, rfl⟩)
    | cons control controls => cases control <;> simp [step, hpc, hcontrol] at hnone

/-- A parked run that is to end has a message to receive. -/
theorem RunThread.control_ne_nil_of_ending {run : RunThread H} {owed : Bool}
    (h : Ending run owed) {statement : Statement H} (hpc : run.pc = .parked statement) :
    run.control ≠ [] := by
  intro hnil
  cases h with
  | free hpark hcontrol => rw [hnil] at hcontrol; cases hcontrol
  | parked hparked hcontrol => rw [hnil] at hcontrol; cases hcontrol
  | resuming hparked hcontrol => rw [hnil] at hcontrol; cases hcontrol
  | ended hover =>
    have hpark := inPark_of_isOver hover
    rw [inPark_of_parked hpc] at hpark
    cases hpark

namespace Adapter

/-- With nothing to take, the run has not ended and all it said was told. -/
theorem told_of_takeRunEvent {a : Adapter H} {running : Running} {run : RunThread H}
    (hrunning : a.session.running = some running) (hrun : a.run = some run)
    (h : a.takeRunEvent = none) : run.events = [] ∧ run.result = none := by
  simp only [takeRunEvent, hrunning, hrun] at h
  split at h
  · cases h
  · cases h
  · next hevents hresult => exact ⟨hevents, hresult⟩

theorem unwinding_of_isOver {run : RunThread H} (hover : run.isOver = true)
    (hresult : run.result = none) : run.pc = .unwinding := by
  unfold RunThread.isOver at hover
  unfold RunThread.result at hresult
  split at hover
  · assumption
  · next hpc =>
    rw [hpc] at hresult
    cases hresult
  · cases hover

theorem standing_of_stuck {a : Adapter H} {owed : Bool}
    (hlink : Link a.session.running a.phase a.run owed) (hlife : a.Life)
    (h : Stuck step (fun _ label => label.isOwn = true) a) : a.Standing := by
  have hhook : ∀ run, a.run = some run → ∀ step, RunStep.isHook step = true →
      run.step a.session.running.isSome step = none := by
    intro run hrun step hown
    have hnone := h (.run step) hown
    simpa [Adapter.step, hrun] using hnone
  have hflush (hphase : a.phase = .idle) (hdone : a.session.done = false) :
      a.flushResume = none := by
    simpa [Adapter.step, hphase, hdone] using h .flushResume rfl
  have hpump (hphase : a.phase = .idle) (hdone : a.session.done = false) :
      a.takeRunEvent = none := by
    simpa [Adapter.step, hphase, hdone] using h .pumpRunEvent rfl
  have hdrain (hphase : a.phase = .draining) : a.takeRunEvent = none := by
    simpa [Adapter.step, hphase] using h .drainRunEvent rfl
  have hdone := hlife.ongoing
  generalize hrunning : a.session.running = running at hlink hhook hdone
  generalize hphase : a.phase = phase at hlink
  generalize hrun : a.run = thread at hlink
  cases hlink with
  | absent hfresh =>
    refine .noRun hrunning hphase (hlife.ended hrunning) fun run hrun' => ?_
    rcases RunThread.standing (hhook run hrun') with hexec | hover | ⟨hconnected, -⟩
    · exact .inl hexec
    · exact .inr hover
    · cases hconnected
  | @free boundary run hpark hcontrol hevents =>
    obtain ⟨htold, hresult⟩ := told_of_takeRunEvent hrunning hrun (hpump hphase (hdone rfl))
    refine .program hrunning rfl rfl hrun ?_ htold (.inl ⟨hphase, rfl, hcontrol⟩)
    rcases RunThread.standing (hhook run hrun) with hexec | hover | ⟨-, -, statement, hpc⟩
    · exact .inl hexec
    · exact .inr (unwinding_of_isOver hover hresult)
    · rw [RunThread.inPark_of_parked hpc] at hpark
      cases hpark
  | announced hpc hcontrol hevents houtputs =>
    obtain ⟨htold, -⟩ := told_of_takeRunEvent hrunning hrun (hpump hphase (hdone rfl))
    simp [hevents] at htold
  | stopped hpc hcontrol hevents =>
    exact .client hrunning rfl rfl hphase hrun hpc hcontrol hevents
  | asked hpc hcontrol hevents =>
    have hnone := hhook _ hrun .receive rfl
    simp [RunThread.step, hpc, hcontrol] at hnone
  | answering hpc hcontrol hevents =>
    have hnone := hhook _ hrun .answer rfl
    simp [RunThread.step, hpc] at hnone
  | answered hpc hcontrol hevents =>
    have hnone := h .receiveAnswer rfl
    simp [Adapter.step, hphase, receiveAnswer, hrun, hevents] at hnone
  | @staged boundary run statement mode hpc hcontrol hevents =>
    have hresult : run.result = none := RunThread.result_of_inPark (RunThread.inPark_of_parked hpc)
    have hnone := hflush hphase (hdone rfl)
    simp [flushResume, hrunning, hrun, hresult] at hnone
  | sent hpc hcontrol hevents =>
    have hnone := hhook _ hrun .receive rfl
    simp [RunThread.step, hpc, hcontrol] at hnone
  | @ending boundary run _ hevents hending =>
    obtain ⟨htold, hresult⟩ := told_of_takeRunEvent hrunning hrun (hdrain hphase)
    refine .program hrunning rfl rfl hrun ?_ htold (.inr ⟨hphase, rfl⟩)
    rcases RunThread.standing (hhook run hrun) with hexec | hover | ⟨-, hcontrol, statement, hpc⟩
    · exact .inl hexec
    · exact .inr (unwinding_of_isOver hover hresult)
    · exact absurd hcontrol (RunThread.control_ne_nil_of_ending hending hpc)

theorem step_of_standing {run : RunThread H} (connected : Bool)
    (h : run.executes = true ∨ run.isOver = true) {step : RunStep H} (hown : step.isHook = true) :
    run.step connected step = none := by
  have hpc : run.pc = .running ∨ run.pc = .unwinding ∨ ∃ result, run.pc = .ended result := by
    unfold RunThread.executes RunThread.isOver at h
    cases hpc : run.pc <;> simp_all
  cases step with
  | drain | report | announce | receive | answer =>
    rcases hpc with hpc | hpc | ⟨result, hpc⟩ <;> simp [RunThread.step, hpc]
  | _ => cases hown

/-- Where it is someone else's turn the adapter does nothing. -/
theorem stuck_of_standing {a : Adapter H} (h : a.Standing) :
    Stuck step (fun _ label => label.isOwn = true) a := by
  intro label hown
  cases h with
  | noRun hrunning hphase hdone hrun =>
    cases label with
    | run step =>
      cases hthread : a.run with
      | none => simp [Adapter.step, hthread]
      | some run => simp [Adapter.step, hthread, step_of_standing _ (hrun run hthread) hown]
    | flushResume | pumpRunEvent | receiveAnswer | drainRunEvent =>
      simp [Adapter.step, hphase, flushResume, takeRunEvent, hrunning]
    | _ => cases hown
  | @client _ _ run _ hrunning hstopped hresume hphase hrun hpc hcontrol hevents =>
    cases label with
    | run step =>
      cases step with
      | drain | report | announce | receive | answer =>
        simp [Adapter.step, hrun, hrunning, RunThread.step, hpc, hcontrol]
      | _ => cases hown
    | flushResume | pumpRunEvent | receiveAnswer | drainRunEvent =>
      have hresult : run.result = none :=
        RunThread.result_of_inPark (RunThread.inPark_of_parked hpc)
      simp [Adapter.step, hphase, flushResume, takeRunEvent, hrunning, hrun, hresume, hevents,
        hresult]
    | _ => cases hown
  | @program _ run hrunning hstopped hresume hrun hpc hevents hphase =>
    cases label with
    | run step =>
      have hstanding : run.executes = true ∨ run.isOver = true :=
        hpc.imp_right fun hpc => by rw [RunThread.isOver, hpc]
      simp [Adapter.step, hrun, step_of_standing _ hstanding hown]
    | flushResume | pumpRunEvent | receiveAnswer | drainRunEvent =>
      have hresult : run.result = none := by
        unfold RunThread.executes at hpc
        unfold RunThread.result
        split
        · next hended => simp [hended] at hpc
        · rfl
      rcases hphase with ⟨hphase, -⟩ | ⟨hphase, -⟩ <;>
        simp [Adapter.step, hphase, flushResume, takeRunEvent, hrunning, hrun, hresume, hevents,
          hresult]
    | _ => cases hown

/-- In every interleaving of the client, the protocol loop and the run thread: what the
adapter does by itself comes to an end, and it ends exactly where there is no run to
follow, the client is to resume or inspect the stop it was told of, or the program is to
run on. -/
theorem standstill_of_reachable {a : Adapter H} (h : Reachable step init a) :
    Settles step (fun _ label => label.isOwn = true) a ∧
      (Stuck step (fun _ label => label.isOwn = true) a ↔ a.Standing) := by
  have hkept : ∀ (a : Adapter H) label b, (a.Life ∧ ∃ x, InTouch a x) →
      a.step label = some b → b.Life ∧ ∃ x, InTouch b x := by
    rintro a label b ⟨hlife, x, htouch⟩ hstep
    exact ⟨life_step hlife hstep, _, inTouch_step hlife htouch hstep⟩
  have hinv : a.Life ∧ ∃ x, InTouch a x :=
    h.invariant ⟨life_init, _, inTouch_init⟩ fun a label b hinv _ hstep =>
      hkept a label b hinv hstep
  constructor
  · refine settles_of_counts unevaluated toGo (fun a label b hinv _ hstep =>
      hkept a label b hinv hstep) ?_ hinv
    rintro a label b ⟨-, x, owed, hlink, -⟩ hown hstep
    exact toGo_of_own hlink hown hstep
  · obtain ⟨hlife, x, owed, hlink, -⟩ := hinv
    exact ⟨standing_of_stuck hlink hlife, stuck_of_standing⟩

end Adapter

/-- A run stopped on entry stands still with the client. -/
theorem Sample.standstill_stopped : ∃ a : Adapter Sample.host,
    run Adapter.step .init ([launch true, send "configurationDone" []] ++ stop fileA 1 ++
      [.pumpRunEvent]) = some a ∧
    Settles Adapter.step (fun _ label => label.isOwn = true) a ∧
    Stuck Adapter.step (fun _ label => label.isOwn = true) a := by
  have hrun : run Adapter.step .init ([launch true, send "configurationDone" []] ++
      stop fileA 1 ++ [.pumpRunEvent]) = some _ := rfl
  obtain ⟨hsettles, hturn⟩ := Adapter.standstill_of_reachable (reachable_of_run hrun)
  exact ⟨_, hrun, hsettles, hturn.mpr (.client rfl rfl rfl rfl rfl rfl rfl rfl)⟩

end Dap

end MarrowLsp
