-- SUMMARY: The rendezvous of the protocol thread and the run thread of the debug adapter: stops, queries, resumes and the end of a run, for every interleaving.
import MarrowLsp.Dap.Link
import MarrowLsp.Dap.Output
import MarrowLsp.Dap.Sample

/-!
# The rendezvous
-/
namespace MarrowLsp

namespace Dap

open Transition

variable {H : DebugHost}

/-! ## Queries -/

/-- How many steps the answer to a query is away from being received. -/
def RunThread.toAnswer (run : RunThread H) : Nat :=
  match run.pc, run.events with
  | .parked _, [] => 2
  | .answering .., _ => 1
  | _, _ => 0

/-- The request is replied to with the answer of the frame that the thread is parked at. -/
def Adapter.Answers (a : Adapter H) (request : Json) (query : Query H) (b : Adapter H) : Prop :=
  ∃ run statement, a.run = some run ∧ run.pc = .parked statement ∧ b.phase = .idle ∧
    b.session = a.session.afterQuery request query (some (statement.frame.answer query))

/-- The wait for an answer goes on, and gets shorter. -/
def Adapter.Waits (a : Adapter H) (request : Json) (query : Query H) (b : Adapter H) : Prop :=
  b.phase = .awaiting request query ∧ b.session = a.session ∧
    ∃ run run', a.run = some run ∧ b.run = some run' ∧ run'.toAnswer < run.toAnswer

theorem waits_or_answers {a b : Adapter H} {request : Json} {query : Query H} {owed : Bool}
    {label : AdapterStep H} (h : Link a.session.running a.phase a.run owed)
    (hphase : a.phase = .awaiting request query) (hstep : a.step label = some b) :
    a.Waits request query b ∨ a.Answers request query b := by
  have hstepped := Adapter.stepped_of_step hstep
  rw [hphase] at h
  cases hstepped with
  | handled hidle => rw [hphase] at hidle; cases hidle
  | resumeDropped hidle => rw [hphase] at hidle; cases hidle
  | resumeSent hidle => rw [hphase] at hidle; cases hidle
  | resumeFailed hidle => rw [hphase] at hidle; cases hidle
  | tookEvent hlabel => simp [hphase] at hlabel
  | joined hlabel => simp [hphase] at hlabel
  | detached hdraining => rw [hphase] at hdraining; cases hdraining
  | dropped hidle => rw [hphase] at hidle; cases hidle
  | @answered request' query' run answer events hphase' hrun hevents =>
    rw [hphase] at hphase'
    cases hphase'
    rw [hrun] at h
    obtain ⟨statement, hpc, heq, -⟩ := link_answered h hevents
    cases heq
    exact .inr ⟨run, statement, hrun, hpc, rfl, rfl⟩
  | @unanswered request' query' run hphase' hrun hevents =>
    rw [hrun] at h
    obtain ⟨-, hresult⟩ | ⟨event, hhead, hnot⟩ := hevents
    · rw [RunThread.result_of_inPark h.inPark_of_awaiting] at hresult
      cases hresult
    · obtain ⟨events, hevents⟩ := List.head?_eq_some_iff.mp hhead
      obtain ⟨statement, -, heq, -⟩ := link_answered h hevents
      exact absurd heq (hnot _)
  | @ran step run run' hrun hran =>
    rw [hrun] at h
    have hmoved := RunThread.moved_of_step hran
    left
    refine ⟨hphase, rfl, run, run', hrun, rfl, ?_⟩
    generalize a.session.running = running at h hmoved
    cases h with
    | asked hpc hcontrol hevents =>
      obtain ⟨-, hpc', -⟩ := hmoved.of_query hpc hcontrol
      simp [RunThread.toAnswer, hpc, hpc', hevents]
    | answering hpc hcontrol hevents =>
      obtain ⟨-, hpc', -, hevents'⟩ := hmoved.of_answering hpc hcontrol
      simp [RunThread.toAnswer, hpc, hpc', hevents', hevents]
    | answered hpc hcontrol => exact (hmoved.not_waiting hpc hcontrol).elim

/-- The wait is never stuck. -/
theorem step_of_awaiting {a : Adapter H} {request : Json} {query : Query H} {owed : Bool}
    (h : Link a.session.running a.phase a.run owed) (hphase : a.phase = .awaiting request query) :
    ∃ label b, a.step label = some b := by
  rw [hphase] at h
  generalize hrunning : a.session.running = running at h
  generalize hrun : a.run = run at h
  cases h with
  | @asked _ run statement _ _ query hpc hcontrol hevents =>
    refine ⟨.run .receive,
      { a with run := some { run with control := [], pc := .answering statement query } }, ?_⟩
    simp only [Adapter.step, hrun, Option.bind_some, RunThread.step, hpc, hcontrol, Option.map_some]
  | @answering _ run statement _ _ query hpc hcontrol hevents =>
    refine ⟨.run .answer, { a with run := some { run with
      events := run.events ++ [.answer (statement.frame.answer query)]
      pc := .parked statement } }, ?_⟩
    simp only [Adapter.step, hrun, hrunning, Option.bind_some, RunThread.step, hpc,
      Option.isSome_some, if_true, Option.map_some]
  | @answered _ run statement _ _ query hpc hcontrol hevents =>
    refine ⟨.receiveAnswer,
      ⟨a.session.afterQuery request query (some (statement.frame.answer query)), .idle,
        some { run with events := [] }⟩, ?_⟩
    simp only [Adapter.step, hphase, Adapter.receiveAnswer, hrun, Option.bind_some, hevents]

/-! ## The end of a run -/

/-- The program does not execute, no resume is on its way, and none will be sent. -/
structure Halted (a : Adapter H) : Prop where
  executes : ∀ run, a.run = some run → run.executes = false
  control : ∀ run, a.run = some run → ∀ mode, .resume mode ∉ run.control
  sendsResume : a.sendsResume = false

/-- The run is parked before the terminate message, or over, and the session closes. -/
structure Doomed (a : Adapter H) : Prop where
  run : ∃ run, a.run = some run ∧
    (run.isOver = true ∨ ∃ statement, run.pc = .parked statement) ∧
    ∀ control ∈ run.control, control = .terminate
  closing : Closing a

theorem Doomed.halted {a : Adapter H} (h : Doomed a) : Halted a where
  executes := by
    obtain ⟨run, hrun, hplace, -⟩ := h.run
    intro run' hrun'
    rw [hrun] at hrun'
    cases hrun'
    unfold RunThread.executes
    obtain hover | ⟨statement, hpc⟩ := hplace
    · unfold RunThread.isOver at hover
      split at hover <;> simp_all
    · rw [hpc]
  control := by
    obtain ⟨run, hrun, -, hcontrol⟩ := h.run
    intro run' hrun' mode hmem
    rw [hrun] at hrun'
    cases hrun'
    cases hcontrol _ hmem
  sendsResume := by
    unfold Adapter.sendsResume
    obtain ⟨hnone, -⟩ | ⟨running, hrunning, hterminating, -⟩ := h.closing
    · simp [hnone]
    · simp [hrunning, hterminating]

theorem doomed_ran {connected : Bool} {run run' : RunThread H} {step : RunStep H}
    (h : run.step connected step = some run')
    (hplace : run.isOver = true ∨ ∃ statement, run.pc = .parked statement)
    (hcontrol : ∀ control ∈ run.control, control = .terminate) :
    (run'.isOver = true ∨ ∃ statement, run'.pc = .parked statement) ∧
      ∀ control ∈ run'.control, control = .terminate := by
  have hmoved := RunThread.moved_of_step h
  cases hmoved with
  | outside outputs hstep hpark hpark' hover hcontrol' hevents =>
    obtain hover' | ⟨statement, hpc⟩ := hplace
    · exact ⟨.inl (hover hover'), hcontrol' ▸ hcontrol⟩
    · rw [RunThread.inPark_of_parked hpc] at hpark
      cases hpark
  | announced statement info hconnected hpark hover hpc' hcontrol' hevents =>
    exact ⟨.inr ⟨statement, hpc'⟩, hcontrol' ▸ hcontrol⟩
  | asked statement query hpc hpc' hcontrol' hevents =>
    cases hcontrol (.query query) (by simp [hcontrol'])
  | resumed statement mode hpc hpark' hcontrol' hevents =>
    cases hcontrol (.resume mode) (by simp [hcontrol'])
  | unwound hstep hpark hpark' hover' hcause hevents =>
    refine ⟨.inl hover', ?_⟩
    obtain hterminate | ⟨-, hsame⟩ := hcause
    · exact fun control hmem => hcontrol control (by simp [hterminate, hmem])
    · exact hsame ▸ hcontrol
  | answered statement query hpc hpc' hcontrol' hevents =>
    obtain hover' | ⟨statement', hpc''⟩ := hplace
    · have hpark := RunThread.inPark_of_isOver hover'
      rw [RunThread.inPark_of_answering hpc] at hpark
      cases hpark
    · rw [hpc] at hpc''
      cases hpc''

theorem doomed_step {a b : Adapter H} {label : AdapterStep H} (h : Doomed a)
    (hstep : a.step label = some b) : Doomed b := by
  refine ⟨?_, (closing_step h.closing hstep).1⟩
  obtain ⟨run, hrun, hplace, hcontrol⟩ := h.run
  have hdone (hphase : a.phase = .idle) : a.session.done ≠ false := by
    obtain ⟨-, hdone, -⟩ | ⟨running, -, -, hdraining⟩ := h.closing
    · rw [hdone]
      nofun
    · rw [hphase] at hdraining
      cases hdraining
  have hstepped := Adapter.stepped_of_step hstep
  cases hstepped with
  | handled hphase hdone' => exact absurd hdone' (hdone hphase)
  | resumeDropped hphase hdone' => exact absurd hdone' (hdone hphase)
  | resumeSent hphase hdone' => exact absurd hdone' (hdone hphase)
  | resumeFailed hphase hdone' => exact absurd hdone' (hdone hphase)
  | tookEvent hlabel hrunning hrun' hevents =>
    rw [hrun] at hrun'
    cases hrun'
    exact ⟨_, rfl, hplace, hcontrol⟩
  | joined hlabel hrunning hrun' hevents hresult =>
    rw [hrun] at hrun'
    cases hrun'
    exact ⟨run, rfl, hplace, hcontrol⟩
  | answered hphase hrun' hevents =>
    rw [hrun] at hrun'
    cases hrun'
    exact ⟨_, rfl, hplace, hcontrol⟩
  | unanswered hphase hrun' hevents =>
    rw [hrun] at hrun'
    cases hrun'
    exact ⟨_, rfl, hplace, hcontrol⟩
  | detached hphase hrun' hevents hresult =>
    rw [hrun] at hrun'
    cases hrun'
    exact ⟨run, rfl, hplace, hcontrol⟩
  | dropped hphase =>
    unfold Adapter.terminateSession
    split
    · refine ⟨run.raiseTerminate, by rw [hrun]; rfl, hplace, ?_⟩
      intro control hmem
      obtain hmem | hmem := List.mem_append.mp hmem
      · exact hcontrol control hmem
      · exact List.mem_singleton.mp hmem
    · exact ⟨run, hrun, hplace, hcontrol⟩
  | ran hrun' hran =>
    rw [hrun] at hrun'
    cases hrun'
    obtain ⟨hplace', hcontrol'⟩ := doomed_ran hran hplace hcontrol
    exact ⟨_, rfl, hplace', hcontrol'⟩

theorem doomed_of_endsSession {a b : Adapter H} {request : Json} {world : LaunchWorld H}
    {running : Running} {mode : Resume} {owed : Bool}
    (h : Link a.session.running a.phase a.run owed) (hrunning : a.session.running = some running)
    (hpending : running.pendingResume = some mode) (hends : Session.endsSession request = true)
    (hstep : a.step (.request request world) = some b) : Doomed b := by
  have hstepped := Adapter.stepped_of_step hstep
  cases hstepped with
  | tookEvent hlabel => simp at hlabel
  | joined hlabel => simp at hlabel
  | @handled _ _ t effect hphase hdone hhandle hhandled =>
    rw [Session.handle_of_acceptsEnd (by simp [Session.acceptsEnd, hends, hrunning])] at hhandle
    obtain ⟨rfl, rfl⟩ := Prod.mk.inj hhandle
    rw [hrunning, hphase] at h
    generalize hrun : a.run = run at h
    cases h with
    | free => cases hpending
    | announced => cases hpending
    | stopped => cases hpending
    | sent => cases hpending
    | @staged boundary run statement mode' hpc hcontrol hevents =>
      have hresponded : (a.session.respond request emptyObject).running = a.session.running := rfl
      refine ⟨?_, closing_terminateSession _⟩
      simp only [Adapter.perform, Adapter.terminateSession, hresponded, hrunning, Option.isSome_some,
        if_true, Option.map_some]
      exact ⟨_, rfl, .inr ⟨statement, hpc⟩, by simp [RunThread.raiseTerminate, RunThread.send, hcontrol]⟩

/-! ## The rendezvous -/

/-- What holds of the two threads at every point of every interleaving. -/
structure Rendezvous (a : Adapter H) (x : Exchange) : Prop where
  /-- While the client is told of a stop the run thread is parked, and both channels are
  empty but for the query that the protocol thread waits on. -/
  stopped : a.session.stoppedAt.isSome = true → ∃ run, a.run = some run ∧ run.inPark = true ∧
    (∀ mode, .resume mode ∉ run.control) ∧
    (a.phase = .idle → run.events = [] ∧ run.control = [])
  asked : ∀ request world query b, (a.session.handle world request).2 = .query query →
    a.step (.request request world) = some b → b.phase = .awaiting request query
  answered : ∀ request query, a.phase = .awaiting request query →
    (∃ label b, a.step label = some b) ∧
    ∀ label b, a.step label = some b → a.Waits request query b ∨ a.Answers request query b
  resumes : x.resumes ≤ x.stops ∧ x.stops ≤ x.resumes + 1
  /-- The two callers of `handle_run_event` hand it no answer. -/
  handled : ∀ label run event events, label = .pumpRunEvent ∨ label = .drainRunEvent →
    (a.step label).isSome = true → a.run = some run → run.events = event :: events →
    ∀ answer, event ≠ .answer answer
  ended : ∀ running mode request world b c, a.session.running = some running →
    running.pendingResume = some mode → Session.endsSession request = true →
    a.step (.request request world) = some b → Reachable Adapter.step b c → Halted c

theorem inTouch_of_reachable {a : Adapter H} {x : Exchange}
    (h : Reachable (recorded Adapter.step Exchange.note) (.init, ⟨0, 0⟩) (a, x)) :
    InTouch a x := by
  have hboth : a.Life ∧ InTouch a x := by
    refine h.invariant (I := fun y => y.1.Life ∧ InTouch y.1 y.2)
      ⟨Adapter.life_init, inTouch_init⟩ ?_
    rintro ⟨a, x⟩ label ⟨b, y⟩ ⟨hlife, hlink⟩ - hstep
    obtain ⟨hstep, rfl⟩ := recorded_eq_some_iff.mp hstep
    exact ⟨Adapter.life_step hlife hstep, inTouch_step hlife hlink hstep⟩
  exact hboth.2

theorem parked_of_stoppedAt {a : Adapter H} {owed : Bool}
    (h : Link a.session.running a.phase a.run owed) (hstopped : a.session.stoppedAt.isSome = true) :
    ∃ run, a.run = some run ∧ run.inPark = true ∧ (∀ mode, .resume mode ∉ run.control) ∧
      (a.phase = .idle → run.events = [] ∧ run.control = []) := by
  unfold Session.stoppedAt at hstopped
  generalize a.session.running = running at h hstopped
  generalize a.phase = phase at h ⊢
  generalize a.run = run at h ⊢
  cases h with
  | stopped hpc hcontrol hevents =>
    exact ⟨_, rfl, RunThread.inPark_of_parked hpc, by simp [hcontrol],
      fun _ => ⟨hevents, hcontrol⟩⟩
  | asked hpc hcontrol => exact ⟨_, rfl, RunThread.inPark_of_parked hpc, by simp [hcontrol], nofun⟩
  | answering hpc hcontrol =>
    exact ⟨_, rfl, RunThread.inPark_of_answering hpc, by simp [hcontrol], nofun⟩
  | answered hpc hcontrol =>
    exact ⟨_, rfl, RunThread.inPark_of_parked hpc, by simp [hcontrol], nofun⟩
  | absent => cases hstopped
  | free => cases hstopped
  | announced => cases hstopped
  | staged => cases hstopped
  | sent => cases hstopped
  | ending => cases hstopped

/-- A handler that asks finds the run thread parked: the question is sent, and waited on. -/
theorem awaiting_of_query {a b : Adapter H} {owed : Bool} {request : Json} {world : LaunchWorld H}
    {query : Query H} (h : Link a.session.running a.phase a.run owed)
    (hquery : (a.session.handle world request).2 = .query query)
    (hstep : a.step (.request request world) = some b) : b.phase = .awaiting request query := by
  have hstepped := Adapter.stepped_of_step hstep
  cases hstepped with
  | tookEvent hlabel => simp at hlabel
  | joined hlabel => simp at hlabel
  | @handled _ _ t effect hphase hdone hhandle hhandled =>
    rw [hhandle] at hquery
    subst hquery
    generalize hp : (t, Effect.query query) = p at hhandled
    cases hhandled with
    | asked query' hstopped =>
      obtain ⟨rfl, heffect⟩ := Prod.mk.inj hp
      cases heffect
      rw [hphase] at h
      obtain ⟨-, -, -, thread, statement, -, hrun, hpc, -⟩ := h.of_stoppedAt hstopped
      have hresult : thread.result = none :=
        RunThread.result_of_inPark (RunThread.inPark_of_parked hpc)
      simp [Adapter.perform, hrun, hresult]
    | breakpointsSet =>
      obtain ⟨-, heffect⟩ := Prod.mk.inj hp
      split at heffect <;> cases heffect
    | _ => cases hp

theorem rendezvous_of_reachable {a : Adapter H} {x : Exchange}
    (h : Reachable (recorded Adapter.step Exchange.note) (.init, ⟨0, 0⟩) (a, x)) :
    Rendezvous a x := by
  obtain ⟨owed, hlink, hx⟩ := inTouch_of_reachable h
  constructor
  · exact parked_of_stoppedAt hlink
  · exact fun request world query b hquery hstep => awaiting_of_query hlink hquery hstep
  · intro request query hphase
    exact ⟨step_of_awaiting hlink hphase, fun label b hstep => waits_or_answers hlink hphase hstep⟩
  · unfold Exchange.owes at hx
    have hbound : owed.toNat ≤ 1 := Bool.toNat_le owed
    omega
  · intro label run event events hlabel hstep hrun hevents
    obtain ⟨b, hstep⟩ := Option.isSome_iff_exists.mp hstep
    have hstepped := Adapter.stepped_of_step hstep
    cases hstepped with
    | tookEvent hlabel' hrunning hrun' hevents' =>
      rw [hrun] at hrun' hlink
      cases hrun'
      exact (link_tookEvent (hlabel'.imp And.right And.right) (by rw [hrunning]; rfl) hlink
        hevents).1
    | joined hlabel' hrunning hrun' hevents' =>
      rw [hrun] at hrun'
      cases hrun'
      rw [hevents] at hevents'
      cases hevents'
    | _ => simp at hlabel
  · intro running mode request world b c hrunning hpending hends hstep hreach
    have hdoomed := doomed_of_endsSession hlink hrunning hpending hends hstep
    exact (hreach.invariant hdoomed fun _ _ _ h _ hstep => doomed_step h hstep).halted

/-- A run stopped on entry, asked for a value, and told to continue. -/
def Sample.stagedRun : List (AdapterStep Sample.host) :=
  [launch true, send "configurationDone" []] ++ stop fileA 1 ++
    [.pumpRunEvent, send "evaluate" [("expression", .string "x")], .run .receive, .run .answer,
      .receiveAnswer, send "continue" [threadId]]

theorem rendezvous_stagedRun : ∃ a x,
    run (recorded Adapter.step Exchange.note) (.init, ⟨0, 0⟩) Sample.stagedRun = some (a, x) ∧
      a.session.running.bind (·.pendingResume) = some .continue ∧ x = ⟨1, 0⟩ ∧ Rendezvous a x :=
  ⟨_, _, rfl, rfl, rfl, rendezvous_of_reachable
    (reachable_of_run (rfl : run _ _ Sample.stagedRun = some _))⟩

end Dap

end MarrowLsp
