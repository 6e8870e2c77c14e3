-- SUMMARY: How the protocol thread and the run thread of the debug adapter can stand to each other: what each step of either does to the channels between them.
import MarrowLsp.Dap.AdapterSteps
import MarrowLsp.Dap.RunSteps

/-!
# The link between the threads

`Link` lists how the session, the protocol thread and the run thread can stand to each
other. Every step of either thread leads from one of these to another.
-/
namespace MarrowLsp

namespace Dap

open Transition

variable {H : DebugHost}

namespace RunThread

/-! ## The run thread -/

/-- In `park`, or in the answer to a query there. -/
def inPark (run : RunThread H) : Bool :=
  match run.pc with
  | .parked _ => true
  | .answering .. => true
  | _ => false

/-- The program itself is executing. -/
def executes (run : RunThread H) : Bool :=
  match run.pc with
  | .running => true
  | _ => false

def isOver (run : RunThread H) : Bool :=
  match run.pc with
  | .unwinding => true
  | .ended _ => true
  | _ => false

/-- What a step of the run thread does to the channels. -/
inductive Moved (connected : Bool) (run : RunThread H) : RunStep H → RunThread H → Prop where
  | outside {step : RunStep H} {run' : RunThread H} (outputs : List String)
      (hstep : step = .announce → connected = false)
      (hpark : run.inPark = false) (hpark' : run'.inPark = false)
      (hover : run.isOver = true → run'.isOver = true)
      (hcontrol : run'.control = run.control)
      (hevents : run'.events = run.events ++ outputs.map .output) : Moved connected run step run'
  | announced {run' : RunThread H} (statement : Statement H) (info : StopInfo)
      (hconnected : connected = true) (hpark : run.inPark = false) (hover : run.isOver = false)
      (hpc' : run'.pc = .parked statement) (hcontrol : run'.control = run.control)
      (hevents : run'.events = run.events ++ [.stopped info]) : Moved connected run .announce run'
  | asked {run' : RunThread H} (statement : Statement H) (query : Query H)
      (hpc : run.pc = .parked statement) (hpc' : run'.pc = .answering statement query)
      (hcontrol : run.control = .query query :: run'.control)
      (hevents : run'.events = run.events) : Moved connected run .receive run'
  | resumed {run' : RunThread H} (statement : Statement H) (mode : Resume)
      (hpc : run.pc = .parked statement) (hpark' : run'.inPark = false)
      (hcontrol : run.control = .resume mode :: run'.control)
      (hevents : run'.events = run.events) : Moved connected run .receive run'
  | unwound {step : RunStep H} {run' : RunThread H} (hstep : step ≠ .announce)
      (hpark : run.inPark = true) (hpark' : run'.inPark = false) (hover' : run'.isOver = true)
      (hcause : run.control = .terminate :: run'.control ∨
        connected = false ∧ run'.control = run.control)
      (hevents : run'.events = run.events) : Moved connected run step run'
  | answered {run' : RunThread H} (statement : Statement H) (query : Query H)
      (hpc : run.pc = .answering statement query) (hpc' : run'.pc = .parked statement)
      (hcontrol : run'.control = run.control)
      (hevents : run'.events = run.events ++ [.answer (statement.frame.answer query)]) :
      Moved connected run .answer run'

/-- Outside `park` a step that writes nothing is like any other. -/
theorem moved_of_quiet {connected : Bool} {run run' : RunThread H} {label : RunStep H}
    (hlabel : label = .announce → connected = false) (hpark : run.inPark = false)
    (hpark' : run'.inPark = false) (hover : run.isOver = true → run'.isOver = true)
    (hcontrol : run'.control = run.control) (hevents : run'.events = run.events) :
    Moved connected run label run' :=
  .outside [] hlabel hpark hpark' hover hcontrol (hevents.trans (List.append_nil _).symm)

theorem moved_of_step {connected : Bool} {run run' : RunThread H} {label : RunStep H}
    (h : run.step connected label = some run') : Moved connected run label run' := by
  cases stepped_of_step h with
  | admitted hpc =>
    exact moved_of_quiet nofun (by simp [inPark, hpc]) rfl (by simp [isOver, hpc]) rfl rfl
  | refused hpc => exact moved_of_quiet nofun (by simp [inPark, hpc]) rfl (fun _ => rfl) rfl rfl
  | drained hpc =>
    exact moved_of_quiet nofun (by simp [inPark, hpc]) rfl (by simp [isOver, hpc]) rfl rfl
  | @sent statement output outputs stop hpc =>
    exact .outside [output] nofun (by simp [inPark, hpc]) rfl (by simp [isOver, hpc]) rfl rfl
  | notSent hpc => exact moved_of_quiet nofun (by simp [inPark, hpc]) rfl (fun _ => rfl) rfl rfl
  | passed hpc hreason =>
    cases eq_of_stopReason hreason
    exact moved_of_quiet nofun (by simp [inPark, hpc]) rfl (by simp [isOver, hpc]) rfl rfl
  | decided hpc hreason =>
    cases eq_of_stopReason hreason
    exact moved_of_quiet nofun (by simp [inPark, hpc]) rfl (by simp [isOver, hpc]) rfl rfl
  | announced hpc hconnected =>
    exact .announced _ _ hconnected (by simp [inPark, hpc]) (by simp [isOver, hpc]) rfl rfl rfl
  | notAnnounced hpc hconnected =>
    exact moved_of_quiet (fun _ => hconnected) (by simp [inPark, hpc]) rfl (fun _ => rfl) rfl rfl
  | asked hpc hcontrol => exact .asked _ _ hpc rfl hcontrol rfl
  | resumed hpc hcontrol => exact .resumed _ _ hpc rfl hcontrol rfl
  | terminated hpc hcontrol =>
    exact .unwound nofun (by simp [inPark, hpc]) rfl rfl (.inl hcontrol) rfl
  | hungUp hpc hcontrol hconnected =>
    exact .unwound nofun (by simp [inPark, hpc]) rfl rfl (.inr ⟨hconnected, rfl⟩) rfl
  | answered hpc hconnected => exact .answered _ _ hpc rfl rfl rfl
  | notAnswered hpc hconnected =>
    exact .unwound nofun (by simp [inPark, hpc]) rfl rfl (.inr ⟨hconnected, rfl⟩) rfl
  | finished hpc => exact moved_of_quiet nofun (by simp [inPark, hpc]) rfl (fun _ => rfl) rfl rfl
  | unwound hpc => exact moved_of_quiet nofun (by simp [inPark, hpc]) rfl (fun _ => rfl) rfl rfl
  | panicked hpc =>
    have hpark : run.inPark = false := by cases hpc with
      | inl hpc => simp [inPark, hpc]
      | inr hpc => simp [inPark, hpc]
    exact moved_of_quiet nofun hpark rfl (fun _ => rfl) rfl rfl

theorem inPark_of_parked {run : RunThread H} {statement : Statement H}
    (hpc : run.pc = .parked statement) : run.inPark = true := by
  rw [inPark, hpc]

theorem inPark_of_answering {run : RunThread H} {statement : Statement H} {query : Query H}
    (hpc : run.pc = .answering statement query) : run.inPark = true := by
  rw [inPark, hpc]

theorem inPark_of_isOver {run : RunThread H} (h : run.isOver = true) : run.inPark = false := by
  unfold isOver at h
  unfold inPark
  split at h <;> simp_all

section Moves

variable {run run' : RunThread H} {step : RunStep H} {statement : Statement H}

/-- Outside `park` the thread sends output, or announces a stop and parks. -/
theorem Moved.of_outside (h : Moved true run step run') (hpark : run.inPark = false) :
    (step ≠ .announce ∧ run'.inPark = false ∧ (run.isOver = true → run'.isOver = true) ∧
      run'.control = run.control ∧
      ∃ outputs : List String, run'.events = run.events ++ outputs.map .output) ∨
    (step = .announce ∧ run.isOver = false ∧ run'.control = run.control ∧
      ∃ statement info, run'.pc = .parked statement ∧
        run'.events = run.events ++ [.stopped info]) := by
  cases h with
  | outside outputs hstep hpark hpark' hover hcontrol hevents =>
    exact .inl ⟨(fun heq => nomatch hstep heq), hpark', hover, hcontrol, outputs, hevents⟩
  | announced statement info hconnected hpark hover hpc' hcontrol hevents =>
    exact .inr ⟨rfl, hover, hcontrol, statement, info, hpc', hevents⟩
  | asked statement query hpc => simp [inPark_of_parked hpc] at hpark
  | resumed statement mode hpc => simp [inPark_of_parked hpc] at hpark
  | unwound hstep hpark' => simp [hpark'] at hpark
  | answered statement query hpc => simp [inPark_of_answering hpc] at hpark

/-- Parked with no message the thread waits. -/
theorem Moved.not_waiting (h : Moved true run step run') (hpc : run.pc = .parked statement)
    (hcontrol : run.control = []) : False := by
  cases h with
  | outside outputs hstep hpark => simp [inPark_of_parked hpc] at hpark
  | announced statement info hconnected hpark => simp [inPark_of_parked hpc] at hpark
  | asked statement query hpc' hpc'' hcontrol' => simp [hcontrol] at hcontrol'
  | resumed statement mode hpc' hpark' hcontrol' => simp [hcontrol] at hcontrol'
  | unwound hstep hpark hpark' hover' hcause => simp [hcontrol] at hcause
  | answered statement query hpc' => simp [hpc] at hpc'

theorem Moved.of_query {query : Query H} {control : List (Control H)}
    (h : Moved true run step run') (hpc : run.pc = .parked statement)
    (hcontrol : run.control = .query query :: control) :
    step = .receive ∧ run'.pc = .answering statement query ∧ run'.control = control ∧
      run'.events = run.events := by
  cases h with
  | outside outputs hstep hpark => simp [inPark_of_parked hpc] at hpark
  | announced statement info hconnected hpark => simp [inPark_of_parked hpc] at hpark
  | asked statement' query' hpc' hpc'' hcontrol' hevents =>
    rw [hcontrol] at hcontrol'
    rw [hpc] at hpc'
    cases hpc'
    cases hcontrol'
    exact ⟨rfl, hpc'', rfl, hevents⟩
  | resumed statement mode hpc' hpark' hcontrol' => simp [hcontrol] at hcontrol'
  | unwound hstep hpark hpark' hover' hcause => simp [hcontrol] at hcause
  | answered statement query hpc' => simp [hpc] at hpc'

theorem Moved.of_resume {mode : Resume} {control : List (Control H)}
    (h : Moved true run step run') (hpc : run.pc = .parked statement)
    (hcontrol : run.control = .resume mode :: control) :
    step = .receive ∧ run'.inPark = false ∧ run'.control = control ∧
      run'.events = run.events := by
  cases h with
  | outside outputs hstep hpark => simp [inPark_of_parked hpc] at hpark
  | announced statement info hconnected hpark => simp [inPark_of_parked hpc] at hpark
  | asked statement' query' hpc' hpc'' hcontrol' => simp [hcontrol] at hcontrol'
  | resumed statement' mode' hpc' hpark' hcontrol' hevents =>
    rw [hcontrol] at hcontrol'
    cases hcontrol'
    exact ⟨rfl, hpark', rfl, hevents⟩
  | unwound hstep hpark hpark' hover' hcause => simp [hcontrol] at hcause
  | answered statement query hpc' => simp [hpc] at hpc'

theorem Moved.of_terminate {control : List (Control H)}
    (h : Moved true run step run') (hpc : run.pc = .parked statement)
    (hcontrol : run.control = .terminate :: control) :
    step ≠ .announce ∧ run'.isOver = true ∧ run'.events = run.events := by
  cases h with
  | outside outputs hstep hpark => simp [inPark_of_parked hpc] at hpark
  | announced statement info hconnected hpark => simp [inPark_of_parked hpc] at hpark
  | asked statement' query' hpc' hpc'' hcontrol' => simp [hcontrol] at hcontrol'
  | resumed statement' mode' hpc' hpark' hcontrol' => simp [hcontrol] at hcontrol'
  | unwound hstep hpark hpark' hover' hcause hevents => exact ⟨hstep, hover', hevents⟩
  | answered statement query hpc' => simp [hpc] at hpc'

theorem Moved.of_answering {query : Query H} (h : Moved true run step run')
    (hpc : run.pc = .answering statement query) (hcontrol : run.control = []) :
    step = .answer ∧ run'.pc = .parked statement ∧ run'.control = run.control ∧
      run'.events = run.events ++ [.answer (statement.frame.answer query)] := by
  cases h with
  | outside outputs hstep hpark => simp [inPark_of_answering hpc] at hpark
  | announced statement info hconnected hpark => simp [inPark_of_answering hpc] at hpark
  | asked statement' query' hpc' => simp [hpc] at hpc'
  | resumed statement' mode' hpc' => simp [hpc] at hpc'
  | unwound hstep hpark hpark' hover' hcause => simp [hcontrol] at hcause
  | answered statement' query' hpc' hpc'' hcontrol' hevents =>
    rw [hpc] at hpc'
    cases hpc'
    exact ⟨rfl, hpc'', hcontrol', hevents⟩

end Moves

end RunThread

/-! ## How the threads stand to each other -/

/-- How an ended run can stand: on its way to the terminate message, or over. -/
inductive Ending (run : RunThread H) : Bool → Prop where
  | free (hpark : run.inPark = false) (hcontrol : run.control = [.terminate]) : Ending run false
  | parked {statement : Statement H} (hpc : run.pc = .parked statement)
      (hcontrol : run.control = [.terminate]) : Ending run true
  | resuming {statement : Statement H} {mode : Resume} (hpc : run.pc = .parked statement)
      (hcontrol : run.control = [.resume mode, .terminate]) : Ending run false
  | ended {owed : Bool} (hover : run.isOver = true) : Ending run owed

/-- How the session, the protocol thread and the run thread stand to each other, and
whether a stop was announced for which no resume was sent. -/
inductive Link : Option Running → Phase H → Option (RunThread H) → Bool → Prop where
  | absent {run : Option (RunThread H)} {owed : Bool} (hfresh : run = none → owed = false) :
      Link none .idle run owed
  | free {boundary : Json} {run : RunThread H} (hpark : run.inPark = false)
      (hcontrol : run.control = [])
      (hevents : ∀ event ∈ run.events, ∃ text, event = .output text) :
      Link (some ⟨boundary, none, none, false⟩) .idle (some run) false
  | announced {boundary : Json} {run : RunThread H} {statement : Statement H} {info : StopInfo}
      {outputs : List (RunEvent H)} (hpc : run.pc = .parked statement) (hcontrol : run.control = [])
      (hevents : run.events = outputs ++ [.stopped info])
      (houtputs : ∀ event ∈ outputs, ∃ text, event = .output text) :
      Link (some ⟨boundary, none, none, false⟩) .idle (some run) true
  | stopped {boundary : Json} {run : RunThread H} {statement : Statement H} {info : StopInfo}
      (hpc : run.pc = .parked statement) (hcontrol : run.control = [])
      (hevents : run.events = []) :
      Link (some ⟨boundary, some info, none, false⟩) .idle (some run) true
  | asked {boundary : Json} {run : RunThread H} {statement : Statement H} {info : StopInfo}
      {request : Json} {query : Query H} (hpc : run.pc = .parked statement)
      (hcontrol : run.control = [.query query]) (hevents : run.events = []) :
      Link (some ⟨boundary, some info, none, false⟩) (.awaiting request query) (some run) true
  | answering {boundary : Json} {run : RunThread H} {statement : Statement H} {info : StopInfo}
      {request : Json} {query : Query H} (hpc : run.pc = .answering statement query)
      (hcontrol : run.control = []) (hevents : run.events = []) :
      Link (some ⟨boundary, some info, none, false⟩) (.awaiting request query) (some run) true
  | answered {boundary : Json} {run : RunThread H} {statement : Statement H} {info : StopInfo}
      {request : Json} {query : Query H} (hpc : run.pc = .parked statement)
      (hcontrol : run.control = [])
      (hevents : run.events = [.answer (statement.frame.answer query)]) :
      Link (some ⟨boundary, some info, none, false⟩) (.awaiting request query) (some run) true
  | staged {boundary : Json} {run : RunThread H} {statement : Statement H} {mode : Resume}
      (hpc : run.pc = .parked statement) (hcontrol : run.control = [])
      (hevents : run.events = []) :
      Link (some ⟨boundary, none, some mode, false⟩) .idle (some run) true
  | sent {boundary : Json} {run : RunThread H} {statement : Statement H} {mode : Resume}
      (hpc : run.pc = .parked statement) (hcontrol : run.control = [.resume mode])
      (hevents : run.events = []) :
      Link (some ⟨boundary, none, none, false⟩) .idle (some run) false
  | ending {boundary : Json} {run : RunThread H} {owed : Bool}
      (hevents : ∀ event ∈ run.events, ∀ answer, event ≠ .answer answer)
      (hending : Ending run owed) :
      Link (some ⟨boundary, none, none, true⟩) .draining (some run) owed

/-- How many stops the run thread announced, and how many resumes it was sent. -/
structure Exchange where
  stops : Nat
  resumes : Nat
  deriving DecidableEq, Repr

/-- A staged resume is sent to a run that is neither terminating nor gone. -/
def Adapter.sendsResume (a : Adapter H) : Bool :=
  (a.session.running.any fun running => running.pendingResume.isSome && !running.terminating) &&
    !(a.run.bind (·.result)).isSome

def Exchange.note (a : Adapter H) (label : AdapterStep H) (x : Exchange) : Exchange :=
  match label with
  | .run .announce =>
    if a.session.running.isSome then { x with stops := x.stops + 1 } else x
  | .flushResume => if a.sendsResume then { x with resumes := x.resumes + 1 } else x
  | _ => x

/-- The count that a link goes with. -/
def Exchange.owes (x : Exchange) (owed : Bool) : Prop := x.stops = x.resumes + owed.toNat

/-! ## Steps of the run thread -/

/-- The channels of another thread that is at the same place. -/
theorem Link.congr {running : Option Running} {phase : Phase H} {run run' : RunThread H}
    {owed : Bool} (h : Link running phase (some run) owed) (hpc : run'.pc = run.pc)
    (hcontrol : run'.control = run.control) (hevents : run'.events = run.events) :
    Link running phase (some run') owed := by
  have hpark : run'.inPark = run.inPark := by
    unfold RunThread.inPark
    rw [hpc]
  have hover : run'.isOver = run.isOver := by
    unfold RunThread.isOver
    rw [hpc]
  cases h with
  | absent hfresh => exact .absent nofun
  | free hp hc he => exact .free (hpark.trans hp) (hcontrol.trans hc) (hevents ▸ he)
  | announced hp hc he ho =>
    exact .announced (hpc.trans hp) (hcontrol.trans hc) (hevents.trans he) ho
  | stopped hp hc he => exact .stopped (hpc.trans hp) (hcontrol.trans hc) (hevents.trans he)
  | asked hp hc he => exact .asked (hpc.trans hp) (hcontrol.trans hc) (hevents.trans he)
  | answering hp hc he => exact .answering (hpc.trans hp) (hcontrol.trans hc) (hevents.trans he)
  | answered hp hc he => exact .answered (hpc.trans hp) (hcontrol.trans hc) (hevents.trans he)
  | staged hp hc he => exact .staged (hpc.trans hp) (hcontrol.trans hc) (hevents.trans he)
  | sent hp hc he => exact .sent (hpc.trans hp) (hcontrol.trans hc) (hevents.trans he)
  | ending he hending =>
    refine .ending (hevents ▸ he) ?_
    cases hending with
    | free hp hc => exact .free (hpark.trans hp) (hcontrol.trans hc)
    | parked hp hc => exact .parked (hpc.trans hp) (hcontrol.trans hc)
    | resuming hp hc => exact .resuming (hpc.trans hp) (hcontrol.trans hc)
    | ended ho => exact .ended (hover.trans ho)

theorem note_run {a : Adapter H} {step : RunStep H} (x : Exchange)
    (h : step = .announce → a.session.running.isSome = false) : x.note a (.run step) = x := by
  cases step with
  | announce => simp [Exchange.note, h rfl]
  | _ => rfl

theorem owes_announce {a : Adapter H} {x : Exchange} (hrunning : a.session.running.isSome = true)
    (hx : x.owes false) : (x.note a (.run .announce)).owes true := by
  simp only [Exchange.note, hrunning, if_true, Exchange.owes, Bool.toNat_true]
  simp only [Exchange.owes, Bool.toNat_false] at hx
  omega

/-- Events that are no answers, with more of them. -/
theorem no_answer_append {events more : List (RunEvent H)}
    (h : ∀ event ∈ events, ∀ answer, event ≠ .answer answer)
    (hmore : ∀ event ∈ more, ∀ answer, event ≠ .answer answer) :
    ∀ event ∈ events ++ more, ∀ answer, event ≠ .answer answer := by
  intro event hevent
  obtain hevent | hevent := List.mem_append.mp hevent
  · exact h event hevent
  · exact hmore event hevent

theorem no_answer_outputs (outputs : List String) :
    ∀ event ∈ outputs.map (@RunEvent.output H), ∀ answer, event ≠ .answer answer := by
  intro event hevent answer heq
  obtain ⟨text, -, htext⟩ := List.mem_map.mp hevent
  rw [← htext] at heq
  cases heq

theorem link_ran_ending {a : Adapter H} {run run' : RunThread H} {step : RunStep H} {owed : Bool}
    {x : Exchange} (h : Ending run owed) (hrunning : a.session.running.isSome = true)
    (hmoved : RunThread.Moved true run step run') (hx : x.owes owed)
    (hevents : ∀ event ∈ run.events, ∀ answer, event ≠ .answer answer) :
    ∃ owed', Ending run' owed' ∧ (x.note a (.run step)).owes owed' ∧
      ∀ event ∈ run'.events, ∀ answer, event ≠ .answer answer := by
  have hnote (hstep : step ≠ .announce) : x.note a (.run step) = x :=
    note_run x fun heq => absurd heq hstep
  cases h with
  | free hpark hcontrol =>
    obtain ⟨hstep, hpark', -, hcontrol', outputs, houtputs⟩ |
      ⟨rfl, -, hcontrol', statement, info, hpc', hstop⟩ := hmoved.of_outside hpark
    · refine ⟨false, .free hpark' (hcontrol'.trans hcontrol), (hnote hstep).symm ▸ hx, ?_⟩
      rw [houtputs]
      exact no_answer_append hevents (no_answer_outputs outputs)
    · refine ⟨true, .parked hpc' (hcontrol'.trans hcontrol), owes_announce hrunning hx, ?_⟩
      rw [hstop]
      exact no_answer_append hevents (by simp)
  | parked hpc hcontrol =>
    obtain ⟨hstep, hover', hsame⟩ := hmoved.of_terminate hpc hcontrol
    exact ⟨true, .ended hover', (hnote hstep).symm ▸ hx, hsame ▸ hevents⟩
  | resuming hpc hcontrol =>
    obtain ⟨rfl, hpark', hcontrol', hsame⟩ := hmoved.of_resume hpc hcontrol
    exact ⟨false, .free hpark' hcontrol', (hnote nofun).symm ▸ hx, hsame ▸ hevents⟩
  | ended hover =>
    obtain ⟨hstep, -, hover', -, outputs, houtputs⟩ | ⟨-, hnot, -⟩ :=
      hmoved.of_outside (RunThread.inPark_of_isOver hover)
    · refine ⟨owed, .ended (hover' hover), (hnote hstep).symm ▸ hx, ?_⟩
      rw [houtputs]
      exact no_answer_append hevents (no_answer_outputs outputs)
    · rw [hover] at hnot
      cases hnot

/-- A step of the run thread keeps the two threads in touch. -/
theorem link_ran {a : Adapter H} {run run' : RunThread H} {step : RunStep H} {owed : Bool}
    {x : Exchange} (h : Link a.session.running a.phase (some run) owed)
    (hmoved : run.Moved a.session.running.isSome step run') (hx : x.owes owed) :
    ∃ owed', Link a.session.running a.phase (some run') owed' ∧
      (x.note a (.run step)).owes owed' := by
  have hnote (hstep : step ≠ .announce) : x.note a (.run step) = x :=
    note_run x fun heq => absurd heq hstep
  generalize hrunning : a.session.running = running at h hmoved ⊢
  generalize hphase : a.phase = phase at h ⊢
  cases h with
  | absent hfresh =>
    refine ⟨owed, .absent nofun, ?_⟩
    rwa [note_run x fun _ => by rw [hrunning]; rfl]
  | free hpark hcontrol hevents =>
    obtain ⟨hstep, hpark', -, hcontrol', outputs, houtputs⟩ |
      ⟨rfl, -, hcontrol', statement, info, hpc', hstop⟩ := hmoved.of_outside hpark
    · refine ⟨false, .free hpark' (hcontrol'.trans hcontrol) ?_, (hnote hstep).symm ▸ hx⟩
      intro event hevent
      rw [houtputs, List.mem_append, List.mem_map] at hevent
      obtain hevent | ⟨text, -, rfl⟩ := hevent
      · exact hevents event hevent
      · exact ⟨text, rfl⟩
    · exact ⟨true, .announced hpc' (hcontrol'.trans hcontrol) hstop hevents,
        owes_announce (by rw [hrunning]; rfl) hx⟩
  | announced hpc hcontrol => exact (hmoved.not_waiting hpc hcontrol).elim
  | stopped hpc hcontrol => exact (hmoved.not_waiting hpc hcontrol).elim
  | asked hpc hcontrol hevents =>
    obtain ⟨rfl, hpc', hcontrol', hsame⟩ := hmoved.of_query hpc hcontrol
    exact ⟨true, .answering hpc' hcontrol' (hsame.trans hevents), (hnote nofun).symm ▸ hx⟩
  | answering hpc hcontrol hevents =>
    obtain ⟨rfl, hpc', hcontrol', hanswer⟩ := hmoved.of_answering hpc hcontrol
    rw [hevents, List.nil_append] at hanswer
    exact ⟨true, .answered hpc' (hcontrol'.trans hcontrol) hanswer, (hnote nofun).symm ▸ hx⟩
  | answered hpc hcontrol => exact (hmoved.not_waiting hpc hcontrol).elim
  | staged hpc hcontrol => exact (hmoved.not_waiting hpc hcontrol).elim
  | sent hpc hcontrol hevents =>
    obtain ⟨rfl, hpark', hcontrol', hsame⟩ := hmoved.of_resume hpc hcontrol
    refine ⟨false, .free hpark' hcontrol' ?_, (hnote nofun).symm ▸ hx⟩
    rw [hsame, hevents]
    exact nofun
  | ending hevents hending =>
    obtain ⟨owed', hending', howed', hevents'⟩ :=
      link_ran_ending hending (by rw [hrunning]; rfl) hmoved hx hevents
    exact ⟨owed', .ending hevents' hending', howed'⟩

/-! ## Steps of the protocol thread -/

/-- Raising the pause flag or sending breakpoints touches neither channel. -/
theorem Link.map {running : Option Running} {phase : Phase H} {run : Option (RunThread H)}
    {owed : Bool} (h : Link running phase run owed) {f : RunThread H → RunThread H}
    (hpc : ∀ run, (f run).pc = run.pc) (hcontrol : ∀ run, (f run).control = run.control)
    (hevents : ∀ run, (f run).events = run.events) : Link running phase (run.map f) owed := by
  cases run with
  | none => exact h
  | some run => exact h.congr (hpc run) (hcontrol run) (hevents run)

theorem Link.terminateSession {a : Adapter H} {owed : Bool}
    (h : Link a.session.running .idle a.run owed) :
    Link a.terminateSession.session.running a.terminateSession.phase a.terminateSession.run
      owed := by
  unfold Adapter.terminateSession Session.beginTerminate
  generalize hrunning : a.session.running = running at h
  generalize hrun : a.run = run at h
  cases h with
  | absent hfresh => simpa [hrunning, hrun] using Link.absent hfresh
  | free hpark hcontrol hevents =>
    refine .ending ?_ (.free hpark (by simp [RunThread.raiseTerminate, RunThread.send, hcontrol]))
    intro event hevent answer heq
    obtain ⟨text, rfl⟩ := hevents event hevent
    cases heq
  | announced hpc hcontrol hevents houtputs =>
    refine .ending ?_ (.parked hpc (by simp [RunThread.raiseTerminate, RunThread.send, hcontrol]))
    intro event hevent answer heq
    simp only [RunThread.raiseTerminate, RunThread.send, hevents, List.mem_append,
      List.mem_singleton] at hevent
    obtain hevent | rfl := hevent
    · obtain ⟨text, rfl⟩ := houtputs event hevent
      cases heq
    · cases heq
  | stopped hpc hcontrol hevents =>
    refine .ending ?_ (.parked hpc (by simp [RunThread.raiseTerminate, RunThread.send, hcontrol]))
    simp [RunThread.raiseTerminate, RunThread.send, hevents]
  | staged hpc hcontrol hevents =>
    refine .ending ?_ (.parked hpc (by simp [RunThread.raiseTerminate, RunThread.send, hcontrol]))
    simp [RunThread.raiseTerminate, RunThread.send, hevents]
  | @sent _ run _ mode hpc hcontrol hevents =>
    have hcontrol' : run.raiseTerminate.control = [.resume mode, .terminate] := by
      simp [RunThread.raiseTerminate, RunThread.send, hcontrol]
    refine .ending ?_ (.resuming hpc hcontrol')
    simp [RunThread.raiseTerminate, RunThread.send, hevents]

/-- A stop the client was told of: the thread is parked and both channels are empty. -/
theorem Link.of_stoppedAt {s : Session H} {run : Option (RunThread H)} {owed : Bool}
    (h : Link s.running .idle run owed) (hstopped : s.stoppedAt.isSome = true) :
    owed = true ∧ ∃ boundary info thread statement,
      s.running = some ⟨boundary, some info, none, false⟩ ∧ run = some thread ∧
      thread.pc = .parked statement ∧ thread.control = [] ∧ thread.events = [] := by
  unfold Session.stoppedAt at hstopped
  generalize s.running = running at h hstopped
  cases h with
  | @stopped boundary thread statement info hpc hcontrol hevents =>
    exact ⟨rfl, boundary, info, thread, statement, rfl, rfl, hpc, hcontrol, hevents⟩
  | absent hfresh => cases hstopped
  | free hpark hcontrol hevents => cases hstopped
  | announced hpc hcontrol hevents houtputs => cases hstopped
  | staged hpc hcontrol hevents => cases hstopped
  | sent hpc hcontrol hevents => cases hstopped

/-- A request is handled: the threads stand as before, or the run was started, asked,
resumed or ended. -/
theorem link_handled {a : Adapter H} {request : Json} {t : Session H} {effect : Effect H}
    {owed : Bool} (hlife : a.Life) (hdone : a.session.done = false) (hphase : a.phase = .idle)
    (h : Link a.session.running .idle a.run owed)
    (hhandled : a.session.Handled request (t, effect)) :
    Link (({ a with session := t }.perform request effect)).session.running
      (({ a with session := t }.perform request effect)).phase
      (({ a with session := t }.perform request effect)).run owed := by
  have hkept {u : Session H} (hrunning : u.running = a.session.running) :
      Link u.running a.phase a.run owed := by
    rw [hrunning, hphase]
    exact h
  have hterminate {u : Session H} (hrunning : u.running = a.session.running) :
      Link u.running .idle a.run owed := by
    rw [hrunning]
    exact h
  cases hhandled with
  | replied hreply =>
    exact hkept hreply.running
  | launchFailed hrunning hreply =>
    exact hkept hreply.running
  | launched pending launch hrunning hreply =>
    exact hkept hreply.running
  | breakpointsSet source requested hstopPoints hreply =>
    have hlink := hkept hreply.running
    split
    · exact hlink.map (fun _ => rfl) (fun _ => rfl) (fun _ => rfl)
    · exact hlink
  | started pending boundary hpending hreply =>
    have hnone := hlife.running_eq_none hpending
    have hrun := hlife.run_eq_none hnone hdone
    rw [hnone, hrun] at h
    have howed : owed = false := by
      cases h with
      | absent hfresh => exact hfresh rfl
    subst howed
    have hrunning : t.running = some ⟨boundary, none, none, false⟩ := hreply.running
    show Link t.running a.phase _ false
    rw [hrunning, hphase]
    exact .free rfl rfl nofun
  | notStarted pending hpending hreply =>
    exact hkept hreply.running
  | noThread pending hpending hreply =>
    exact Link.terminateSession (hterminate hreply.running)
  | asked query hstopped =>
    obtain ⟨rfl, boundary, info, thread, statement, hrunning, hrun, hpc, hcontrol, hevents⟩ :=
      h.of_stoppedAt hstopped
    have hresult : thread.result = none := by rw [RunThread.result, hpc]
    simp only [Adapter.perform, hrun, Option.bind_some, hresult, Option.isSome_none,
      Bool.false_eq_true, if_false, hrunning, Option.map_some]
    refine .asked hpc ?_ hevents
    simp [RunThread.send, hcontrol]
  | @resumed u mode events hstopped hevents hpause hreply =>
    obtain ⟨rfl, boundary, info, thread, statement, hrunning, hrun, hpc, hcontrol, hevents⟩ :=
      h.of_stoppedAt hstopped
    show Link (u.running.map _) a.phase a.run true
    rw [hreply.running, hrunning, hrun, hphase]
    exact .staged hpc hcontrol hevents
  | paused running hrunning hstopped hpause hreply =>
    exact (hkept hreply.running).map (fun _ => rfl) (fun _ => rfl) (fun _ => rfl)
  | ending hends hreply =>
    exact Link.terminateSession (hterminate hreply.running)

/-- An event received in the loop is an output or a stop. -/
theorem link_tookEvent {s : Session H} {phase : Phase H} {run : RunThread H} {event : RunEvent H}
    {events : List (RunEvent H)} {owed : Bool} (hphase : phase = .idle ∨ phase = .draining)
    (hrunning : s.running.isSome = true)
    (h : Link s.running phase (some run) owed) (hevents : run.events = event :: events) :
    (∀ answer, event ≠ .answer answer) ∧
      Link (s.handleRunEvent event).running phase (some { run with events := events }) owed := by
  generalize hr : s.running = running at h
  cases h with
  | absent hfresh =>
    rw [hr] at hrunning
    cases hrunning
  | free hpark hcontrol houtputs =>
    obtain ⟨text, rfl⟩ := houtputs event (by simp [hevents])
    refine ⟨nofun, ?_⟩
    show Link s.running _ _ _
    rw [hr]
    exact .free hpark hcontrol fun other hother => houtputs other (by simp [hevents, hother])
  | @announced _ _ _ info outputs hpc hcontrol hstop houtputs =>
    rw [hevents] at hstop
    cases outputs with
    | nil =>
      obtain ⟨rfl, rfl⟩ := List.cons.inj hstop
      refine ⟨nofun, ?_⟩
      rw [Session.running_handleRunEvent_stopped info hr]
      exact .stopped hpc hcontrol rfl
    | cons output outputs =>
      obtain ⟨rfl, rfl⟩ := List.cons.inj hstop
      obtain ⟨text, rfl⟩ := houtputs event List.mem_cons_self
      refine ⟨nofun, ?_⟩
      show Link s.running _ _ _
      rw [hr]
      exact .announced hpc hcontrol rfl fun other hother =>
        houtputs other (List.mem_cons_of_mem _ hother)
  | stopped hpc hcontrol hempty => simp [hempty] at hevents
  | asked => simp at hphase
  | answering => simp at hphase
  | answered => simp at hphase
  | staged hpc hcontrol hempty => simp [hempty] at hevents
  | sent hpc hcontrol hempty => simp [hempty] at hevents
  | ending hanswer hending =>
    have hnot := hanswer event (by simp [hevents])
    have hrest : ∀ other ∈ events, ∀ answer, other ≠ .answer answer :=
      fun other hother => hanswer other (by simp [hevents, hother])
    refine ⟨hnot, ?_⟩
    rw [Session.running_handleRunEvent_terminating hr rfl]
    refine .ending hrest ?_
    cases hending with
    | free hpark hcontrol => exact .free hpark hcontrol
    | parked hpc hcontrol => exact .parked hpc hcontrol
    | resuming hpc hcontrol => exact .resuming hpc hcontrol
    | ended hover => exact .ended hover

/-- While a request waits, the only event there is is the answer to its query. -/
theorem link_answered {s : Session H} {request : Json} {query : Query H} {run : RunThread H}
    {owed : Bool} (h : Link s.running (.awaiting request query) (some run) owed)
    {event : RunEvent H} {events : List (RunEvent H)} (hevents : run.events = event :: events) :
    ∃ statement, run.pc = .parked statement ∧
      event = .answer (statement.frame.answer query) ∧
      Link s.running .idle (some { run with events := events }) owed := by
  generalize s.running = running at h
  cases h with
  | asked hpc hcontrol hempty => simp [hempty] at hevents
  | answering hpc hcontrol hempty => simp [hempty] at hevents
  | @answered _ _ statement _ _ _ hpc hcontrol hanswer =>
    rw [hevents] at hanswer
    obtain ⟨rfl, rfl⟩ := List.cons.inj hanswer
    exact ⟨statement, hpc, rfl, .stopped hpc hcontrol rfl⟩

/-- The invariant of the rendezvous, with the count of stops and resumes. -/
def InTouch (a : Adapter H) (x : Exchange) : Prop :=
  ∃ owed, Link a.session.running a.phase a.run owed ∧ x.owes owed

theorem inTouch_init : InTouch (.init : Adapter H) ⟨0, 0⟩ :=
  ⟨false, .absent fun _ => rfl, rfl⟩

/-- A staged resume of a run that is not terminating: the thread is parked and waits. -/
theorem Link.of_pendingResume {running : Running} {run : RunThread H} {mode : Resume} {owed : Bool}
    (h : Link (some running) .idle (some run) owed) (hpending : running.pendingResume = some mode) :
    owed = true ∧ ∃ statement, run.pc = .parked statement ∧ run.control = [] ∧ run.events = [] ∧
      running = ⟨running.executionBoundary, none, some mode, false⟩ := by
  cases h with
  | @staged boundary _ statement mode' hpc hcontrol hevents =>
    cases hpending
    exact ⟨rfl, statement, hpc, hcontrol, hevents, rfl⟩
  | free => cases hpending
  | announced => cases hpending
  | stopped => cases hpending
  | sent => cases hpending

theorem Link.not_terminating {running : Running} {run : Option (RunThread H)} {owed : Bool}
    (h : Link (some running) .idle run owed) : running.terminating = false := by
  cases h <;> rfl

theorem RunThread.result_of_inPark {run : RunThread H} (h : run.inPark = true) :
    run.result = none := by
  unfold inPark at h
  unfold result
  split at h <;> simp_all

theorem Link.inPark_of_awaiting {running : Option Running} {request : Json} {query : Query H}
    {run : RunThread H} {owed : Bool} (h : Link running (.awaiting request query) (some run) owed) :
    run.inPark = true := by
  cases h with
  | asked hpc => exact RunThread.inPark_of_parked hpc
  | answering hpc => exact RunThread.inPark_of_answering hpc
  | answered hpc => exact RunThread.inPark_of_parked hpc

theorem inTouch_step {a b : Adapter H} {label : AdapterStep H} {x : Exchange} (hlife : a.Life)
    (h : InTouch a x) (hstep : a.step label = some b) : InTouch b (x.note a label) := by
  obtain ⟨owed, hlink, hx⟩ := h
  have hstepped := Adapter.stepped_of_step hstep
  cases hstepped with
  | handled hphase hdone hhandle hhandled =>
    rw [hphase] at hlink
    exact ⟨owed, link_handled hlife hdone hphase hlink hhandled, hx⟩
  | resumeDropped hphase hdone hrunning hrun hterminating =>
    rw [hrunning, hphase] at hlink
    rw [hlink.not_terminating] at hterminating
    cases hterminating
  | @resumeSent running run mode hphase hdone hrunning hrun hpending hterminating hresult =>
    rw [hrunning, hphase, hrun] at hlink
    obtain ⟨rfl, statement, hpc, hcontrol, hevents, hshape⟩ := hlink.of_pendingResume hpending
    have hsends : a.sendsResume = true := by
      simp [Adapter.sendsResume, hrunning, hpending, hterminating, hrun, hresult]
    refine ⟨false, ?_, ?_⟩
    · show Link (some { running with pendingResume := none }) a.phase _ false
      rw [hphase, hshape]
      exact .sent hpc (by rw [RunThread.send, hcontrol]; rfl) hevents
    · simp only [Exchange.note, hsends, if_true, Exchange.owes, Bool.toNat_false]
      simpa [Exchange.owes] using hx
  | resumeFailed hphase hdone hrunning hrun hpending hresult =>
    rw [hrunning, hphase, hrun] at hlink
    obtain ⟨-, statement, hpc, -⟩ := hlink.of_pendingResume hpending
    rw [RunThread.result_of_inPark (RunThread.inPark_of_parked hpc)] at hresult
    cases hresult
  | @tookEvent _ running run event events hlabel hrunning hrun hevents =>
    rw [hrun] at hlink
    obtain ⟨-, hlink'⟩ := link_tookEvent (hlabel.imp And.right And.right)
      (by rw [hrunning]; rfl) hlink hevents
    refine ⟨owed, hlink', ?_⟩
    obtain ⟨rfl, -⟩ | ⟨rfl, -⟩ := hlabel <;> exact hx
  | joined hlabel hrunning hrun hevents hresult =>
    refine ⟨owed, ?_, ?_⟩
    · show Link (a.session.finishRun _).running .idle (some _) owed
      rw [Session.running_finishRun]
      exact .absent nofun
    · obtain ⟨rfl, -⟩ | ⟨rfl, -⟩ := hlabel <;> exact hx
  | @answered request query run answer events hphase hrun hevents =>
    rw [hphase, hrun] at hlink
    have hreply := a.session.replies_afterQuery request query (some answer)
    obtain ⟨statement, -, -, hlink'⟩ := link_answered hlink hevents
    refine ⟨owed, ?_, hx⟩
    show Link (a.session.afterQuery request query (some answer)).running _ _ owed
    rw [hreply.running]
    exact hlink'
  | @unanswered request query run hphase hrun hevents =>
    rw [hphase, hrun] at hlink
    obtain ⟨-, hresult⟩ | ⟨event, hhead, hnot⟩ := hevents
    · rw [RunThread.result_of_inPark hlink.inPark_of_awaiting] at hresult
      cases hresult
    · obtain ⟨events, hevents⟩ := List.head?_eq_some_iff.mp hhead
      obtain ⟨statement, -, heq, -⟩ := link_answered hlink hevents
      exact absurd heq (hnot _)
  | detached hphase hrun hevents hresult => exact ⟨owed, .absent nofun, hx⟩
  | dropped hphase =>
    rw [hphase] at hlink
    exact ⟨owed, hlink.terminateSession, hx⟩
  | ran hrun hran =>
    rw [hrun] at hlink
    exact link_ran hlink (RunThread.moved_of_step hran) hx

end Dap

end MarrowLsp
