-- SUMMARY: What one step of the debug adapter can do, and how the life of the run stands to the session in every reachable state.
import MarrowLsp.Dap.Adapter
import MarrowLsp.Dap.Handlers

/-!
# Steps of the adapter
-/
namespace MarrowLsp

namespace Dap

variable {H : DebugHost}

namespace Adapter

open Transition

/-- What a step can do. -/
inductive Stepped (a : Adapter H) : AdapterStep H → Adapter H → Prop where
  | handled {request : Json} {world : LaunchWorld H} {t : Session H} {effect : Effect H}
      (hphase : a.phase = .idle) (hdone : a.session.done = false)
      (hhandle : a.session.handle world request = (t, effect))
      (h : a.session.Handled request (t, effect)) :
      Stepped a (.request request world) ({ a with session := t }.perform request effect)
  | resumeDropped {running : Running} {run : RunThread H} (hphase : a.phase = .idle)
      (hdone : a.session.done = false)
      (hrunning : a.session.running = some running) (hrun : a.run = some run)
      (hterminating : running.terminating = true) :
      Stepped a .flushResume { a with
        session := { a.session with running := some { running with pendingResume := none } } }
  | resumeSent {running : Running} {run : RunThread H} {mode : Resume} (hphase : a.phase = .idle)
      (hdone : a.session.done = false)
      (hrunning : a.session.running = some running) (hrun : a.run = some run)
      (hpending : running.pendingResume = some mode) (hterminating : running.terminating = false)
      (hresult : run.result = none) :
      Stepped a .flushResume { a with
        session := { a.session with running := some { running with pendingResume := none } }
        run := some (run.send (.resume mode)) }
  | resumeFailed {running : Running} {run : RunThread H} {mode : Resume} {result : RunEnd}
      (hphase : a.phase = .idle) (hdone : a.session.done = false)
      (hrunning : a.session.running = some running) (hrun : a.run = some run)
      (hpending : running.pendingResume = some mode) (hresult : run.result = some result) :
      Stepped a .flushResume { a with
        session := { a.session with
          running := some { running with pendingResume := none } }.finishRun result }
  | tookEvent {label : AdapterStep H} {running : Running} {run : RunThread H}
      {event : RunEvent H} {events : List (RunEvent H)}
      (hlabel : label = .pumpRunEvent ∧ a.phase = .idle ∨
        label = .drainRunEvent ∧ a.phase = .draining)
      (hrunning : a.session.running = some running) (hrun : a.run = some run)
      (hevents : run.events = event :: events) :
      Stepped a label { a with
        session := a.session.handleRunEvent event
        run := some { run with events := events } }
  | joined {label : AdapterStep H} {running : Running} {run : RunThread H} {result : RunEnd}
      (hlabel : label = .pumpRunEvent ∧ a.phase = .idle ∨
        label = .drainRunEvent ∧ a.phase = .draining)
      (hrunning : a.session.running = some running) (hrun : a.run = some run)
      (hevents : run.events = []) (hresult : run.result = some result) :
      Stepped a label ⟨a.session.finishRun result, .idle, some run⟩
  | answered {request : Json} {query : Query H} {run : RunThread H} {answer : QueryResult H}
      {events : List (RunEvent H)} (hphase : a.phase = .awaiting request query)
      (hrun : a.run = some run) (hevents : run.events = .answer answer :: events) :
      Stepped a .receiveAnswer ⟨a.session.afterQuery request query (some answer), .idle,
        some { run with events := events }⟩
  | unanswered {request : Json} {query : Query H} {run : RunThread H}
      (hphase : a.phase = .awaiting request query) (hrun : a.run = some run)
      (hevents : (run.events = [] ∧ run.result.isSome = true) ∨
        ∃ event, run.events.head? = some event ∧ ∀ answer, event ≠ .answer answer) :
      Stepped a .receiveAnswer ⟨a.session.afterQuery request query none, .idle,
        some { run with events := run.events.tail }⟩
  | detached {run : RunThread H} (hphase : a.phase = .draining) (hrun : a.run = some run)
      (hevents : run.events = []) (hresult : run.result = none) :
      Stepped a .deadline ⟨a.session.detachRun, .idle, some run⟩
  | dropped (hphase : a.phase = .idle) : Stepped a .drop a.terminateSession
  | ran {step : RunStep H} {run run' : RunThread H} (hrun : a.run = some run)
      (hstep : run.step a.session.running.isSome step = some run') :
      Stepped a (.run step) { a with run := some run' }

theorem stepped_takeRunEvent {a b : Adapter H} {label : AdapterStep H}
    (hlabel : label = .pumpRunEvent ∧ a.phase = .idle ∨
      label = .drainRunEvent ∧ a.phase = .draining)
    (h : a.takeRunEvent = some b) : Stepped a label b := by
  unfold takeRunEvent at h
  split at h
  · next running run hrunning hrun =>
    split at h
    · next event events hevents =>
      cases h
      exact .tookEvent hlabel hrunning hrun hevents
    · next result hevents hresult =>
      cases h
      exact .joined hlabel hrunning hrun hevents hresult
    · cases h
  · cases h

theorem stepped_flushResume {a b : Adapter H} (hphase : a.phase = .idle)
    (hdone : a.session.done = false) (h : a.flushResume = some b) :
    Stepped a .flushResume b := by
  unfold flushResume at h
  split at h
  · next running run hrunning hrun =>
    split at h
    · next mode hpending =>
      dsimp only at h
      split at h
      · next hterminating =>
        cases h
        exact .resumeDropped hphase hdone hrunning hrun hterminating
      · next hterminating =>
        split at h
        · next result hresult =>
          cases h
          exact .resumeFailed hphase hdone hrunning hrun hpending hresult
        · next hresult =>
          cases h
          exact .resumeSent hphase hdone hrunning hrun hpending (by simpa using hterminating) hresult
    · cases h
  · cases h

theorem stepped_receiveAnswer {a b : Adapter H} {request : Json} {query : Query H}
    (hphase : a.phase = .awaiting request query)
    (h : a.receiveAnswer request query = some b) : Stepped a .receiveAnswer b := by
  unfold receiveAnswer at h
  obtain ⟨run, hrun, h⟩ := Option.bind_eq_some_iff.mp h
  split at h
  · next answer events hevents =>
    cases h
    exact .answered hphase hrun hevents
  · next event events hother hevents =>
    cases h
    have hunanswered := Stepped.unanswered hphase hrun
      (.inr ⟨event, by rw [hevents, List.head?_cons], fun answer heq => hother answer heq⟩)
    rwa [hevents, List.tail_cons] at hunanswered
  · next result hevents hresult =>
    cases h
    have hunanswered := Stepped.unanswered hphase hrun (.inl ⟨hevents, by rw [hresult]; rfl⟩)
    have htail : { run with events := run.events.tail } = run := by
      cases run
      simp_all
    rw [htail, ← hrun] at hunanswered
    exact hunanswered
  · cases h

theorem stepped_of_step {a b : Adapter H} {label : AdapterStep H} (h : a.step label = some b) :
    Stepped a label b := by
  unfold step at h
  split at h
  · obtain ⟨run, hrun, h⟩ := Option.bind_eq_some_iff.mp h
    obtain ⟨run', hstep, rfl⟩ := Option.map_eq_some_iff.mp h
    exact .ran hrun hstep
  · next hphase =>
    cases h
    exact .dropped hphase
  · next request world hphase =>
    split at h
    · cases h
    · next hdone =>
      cases h
      exact .handled hphase (by simpa using hdone) rfl (a.session.handled_handle world request)
  · next hphase =>
    split at h
    · cases h
    · next hdone => exact stepped_flushResume hphase (by simpa using hdone) h
  · next hphase =>
    split at h
    · cases h
    · exact stepped_takeRunEvent (.inl ⟨rfl, hphase⟩) h
  · next request query hphase => exact stepped_receiveAnswer hphase h
  · next hphase => exact stepped_takeRunEvent (.inr ⟨rfl, hphase⟩) h
  · next hphase =>
    obtain ⟨run, hrun, h⟩ := Option.bind_eq_some_iff.mp h
    split at h
    · next hempty =>
      cases h
      exact .detached hphase hrun hempty.1 (by simpa using hempty.2)
    · cases h
  · cases h

/-! ## The life of the run -/

/-- A run is prepared before it starts, and starts at most once: once it has, the session
either holds it or is done. -/
structure Life (a : Adapter H) : Prop where
  pending : a.session.running.isSome = true → a.session.pending = none
  held : a.session.running.isSome = true → a.run.isSome = true
  ended : a.session.running = none → a.run.isSome = true → a.session.done = true
  phase : a.session.running = none → a.phase = .idle
  ongoing : a.session.running.isSome = true → a.session.done = false

theorem life_init : Life (init : Adapter H) :=
  ⟨nofun, nofun, nofun, fun _ => rfl, nofun⟩

/-- The parts of the adapter that the life of the run is about are those of another. -/
theorem Life.congr {a b : Adapter H} (h : Life a)
    (hrunning : b.session.running.isSome = a.session.running.isSome)
    (hpending : b.session.pending = a.session.pending) (hdone : b.session.done = a.session.done)
    (hrun : b.run.isSome = a.run.isSome) (hphase : a.session.running = none → b.phase = .idle) :
    Life b := by
  have hnone : b.session.running = none ↔ a.session.running = none := by
    rw [← Option.not_isSome_iff_eq_none, ← Option.not_isSome_iff_eq_none, hrunning]
  constructor
  · intro hb
    rw [hpending]
    exact h.pending (hrunning ▸ hb)
  · intro hb
    rw [hrun]
    exact h.held (hrunning ▸ hb)
  · intro hb hr
    rw [hdone]
    exact h.ended (hnone.mp hb) (hrun ▸ hr)
  · exact fun hb => hphase (hnone.mp hb)
  · intro hb
    rw [hdone]
    exact h.ongoing (hrunning ▸ hb)

/-- With the run let go of, the session is done and the protocol thread idle. -/
theorem life_of_done {a : Adapter H} (hrunning : a.session.running = none)
    (hdone : a.session.done = true) (hphase : a.phase = .idle) : Life a where
  pending := by simp [hrunning]
  held := by simp [hrunning]
  ended := fun _ _ => hdone
  phase := fun _ => hphase
  ongoing := by simp [hrunning]

theorem Life.terminateSession {a : Adapter H} (h : Life a) : Life a.terminateSession := by
  unfold Adapter.terminateSession
  split
  · next hrunning =>
    refine h.congr ?_ rfl rfl ?_ ?_
    · simp [Session.beginTerminate]
    · simp
    · intro hnone
      rw [hnone] at hrunning
      cases hrunning
  · next hrunning => exact life_of_done (by simpa using hrunning) rfl rfl

end Adapter

namespace Session

theorem running_finishRun (s : Session H) (result : RunEnd) : (s.finishRun result).running = none := by
  cases result <;> rfl

theorem done_finishRun (s : Session H) (result : RunEnd) : (s.finishRun result).done = true := by
  cases result <;> rfl

theorem running_handleRunEvent_stopped {s : Session H} {running : Running} (info : StopInfo)
    (hrunning : s.running = some running) :
    (s.handleRunEvent (.stopped info)).running =
      some (if running.terminating then running else { running with stoppedAt := some info }) := by
  unfold handleRunEvent
  simp only [hrunning, Option.any_some]
  split
  · exact hrunning
  · rfl

theorem running_handleRunEvent_terminating {s : Session H} {running : Running} {event : RunEvent H}
    (hrunning : s.running = some running) (hterminating : running.terminating = true) :
    (s.handleRunEvent event).running = some running := by
  cases event with
  | stopped info => rw [running_handleRunEvent_stopped info hrunning, if_pos hterminating]
  | output text => exact hrunning
  | answer result => exact hrunning

/-- An event of the run leaves the session with or without a run, as it was. -/
theorem handleRunEvent_keeps (s : Session H) (event : RunEvent H) :
    (s.handleRunEvent event).running.isSome = s.running.isSome ∧
      (s.handleRunEvent event).pending = s.pending ∧
      (s.handleRunEvent event).done = s.done := by
  cases event with
  | stopped info =>
    unfold handleRunEvent
    dsimp only
    split
    · exact ⟨rfl, rfl, rfl⟩
    · exact ⟨by simp [Session.event, write], rfl, rfl⟩
  | output text => exact ⟨rfl, rfl, rfl⟩
  | answer result => exact ⟨rfl, rfl, rfl⟩

end Session

namespace Adapter

open Transition

/-- Before the run, all that matters is that there is none. -/
theorem life_of_fresh {a : Adapter H} (hrunning : a.session.running = none) (hrun : a.run = none)
    (hphase : a.phase = .idle) : Life a where
  pending := by simp [hrunning]
  held := by simp [hrunning]
  ended := by simp [hrun]
  phase := fun _ => hphase
  ongoing := by simp [hrunning]

theorem Life.run_eq_none {a : Adapter H} (h : Life a) (hrunning : a.session.running = none)
    (hdone : a.session.done = false) : a.run = none := by
  cases hrun : a.run with
  | none => rfl
  | some run =>
    have hended := h.ended hrunning (by rw [hrun]; rfl)
    rw [hdone] at hended
    cases hended

theorem Life.running_eq_none {a : Adapter H} (h : Life a) {pending : PendingLaunch}
    (hpending : a.session.pending = some pending) : a.session.running = none := by
  cases hrunning : a.session.running with
  | none => rfl
  | some running =>
    have hnone := h.pending (by rw [hrunning]; rfl)
    rw [hpending] at hnone
    cases hnone

/-- All that a handler leaves to do, a start apart, keeps the life of the run. -/
theorem Life.perform {a : Adapter H} (h : Life a) (hphase : a.phase = .idle) (request : Json)
    {effect : Effect H} (hquery : ∀ query, effect = .query query → a.session.running.isSome = true)
    (hstart : ∀ stopOnEntry breakpoints, effect ≠ .start stopOnEntry breakpoints) :
    Life (a.perform request effect) := by
  cases effect with
  | none => exact h
  | pause => exact h.congr rfl rfl rfl (by simp [Adapter.perform]) fun _ => hphase
  | arm breakpoints => exact h.congr rfl rfl rfl (by simp [Adapter.perform]) fun _ => hphase
  | start stopOnEntry breakpoints => exact absurd rfl (hstart stopOnEntry breakpoints)
  | query query =>
    unfold Adapter.perform
    dsimp only
    split
    · have hreply := a.session.replies_afterQuery request query none
      exact h.congr (by rw [hreply.running]) hreply.pending hreply.done rfl fun _ => hphase
    · refine h.congr rfl rfl rfl (by simp) fun hnone => ?_
      have hrunning := hquery query rfl
      rw [hnone] at hrunning
      cases hrunning
  | terminate => exact h.terminateSession

theorem running_isSome_of_stoppedAt {s : Session H} (h : s.stoppedAt.isSome = true) :
    s.running.isSome = true := by
  cases hrunning : s.running with
  | none => simp [Session.stoppedAt, hrunning] at h
  | some running => rfl

theorem life_handled {a : Adapter H} {request : Json} {t : Session H} {effect : Effect H}
    (h : Life a) (hphase : a.phase = .idle) (hdone : a.session.done = false)
    (hhandled : a.session.Handled request (t, effect)) :
    Life ({ a with session := t }.perform request effect) := by
  have hkept {u : Session H} (hrunning : u.running.isSome = a.session.running.isSome)
      (hpending : u.pending = a.session.pending) (hu : u.done = a.session.done) :
      Life { a with session := u } :=
    h.congr hrunning hpending hu rfl fun _ => hphase
  have hfresh {u : Session H} (hnone : a.session.running = none)
      (hrunning : u.running = a.session.running) : Life { a with session := u } :=
    life_of_fresh (hrunning.trans hnone) (h.run_eq_none hnone hdone) hphase
  cases hhandled with
  | replied hreply =>
    exact (hkept (by rw [hreply.running]) hreply.pending hreply.done).perform hphase request
      nofun nofun
  | launchFailed hrunning hreply =>
    exact (hfresh hrunning hreply.running).perform hphase request nofun nofun
  | launched pending launch hrunning hreply =>
    exact (hfresh hrunning hreply.running).perform hphase request nofun nofun
  | breakpointsSet source requested hstopPoints hreply =>
    refine (hkept (by rw [hreply.running]) hreply.pending hreply.done).perform hphase request ?_ ?_
    · intro query heq
      split at heq <;> cases heq
    · intro stopOnEntry breakpoints heq
      split at heq <;> cases heq
  | started pending boundary hpending hreply =>
    constructor
    · exact fun _ => hreply.pending
    · exact fun _ => rfl
    · intro hnone
      cases hreply.running.symm.trans hnone
    · exact fun _ => hphase
    · exact fun _ => hreply.done.trans hdone
  | notStarted pending hpending hreply =>
    exact (hfresh (h.running_eq_none hpending) hreply.running).perform hphase request nofun nofun
  | noThread pending hpending hreply =>
    exact (hfresh (h.running_eq_none hpending) hreply.running).perform hphase request nofun nofun
  | asked query hstopped =>
    exact (hkept rfl rfl rfl).perform hphase request
      (fun _ _ => running_isSome_of_stoppedAt hstopped) nofun
  | @resumed u mode events hstopped hevents hpause hreply =>
    have hlife : Life { a with session := u.resumeRun mode } :=
      hkept (by simp [Session.resumeRun, hreply.running]) hreply.pending hreply.done
    exact hlife.perform hphase request nofun nofun
  | paused running hrunning hstopped hpause hreply =>
    exact (hkept (by rw [hreply.running]) hreply.pending hreply.done).perform hphase request
      nofun nofun
  | ending hends hreply =>
    exact (hkept (by rw [hreply.running]) hreply.pending hreply.done).perform hphase request
      nofun nofun

theorem life_step {a b : Adapter H} {label : AdapterStep H} (h : Life a)
    (hstep : a.step label = some b) : Life b := by
  have hstepped := stepped_of_step hstep
  cases hstepped with
  | handled hphase hdone hhandle hhandled => exact life_handled h hphase hdone hhandled
  | resumeDropped hphase hdone hrunning hrun hterminating =>
    exact h.congr (by simp [hrunning]) rfl rfl rfl fun _ => hphase
  | resumeSent hphase hdone hrunning hrun hpending hterminating hresult =>
    exact h.congr (by simp [hrunning]) rfl rfl (by simp [hrun]) fun _ => hphase
  | resumeFailed hphase hdone hrunning hrun hpending hresult =>
    exact life_of_done (Session.running_finishRun _ _) (Session.done_finishRun _ _) hphase
  | @tookEvent _ running run event events hlabel hrunning hrun hevents =>
    obtain ⟨hr, hp, hd⟩ := a.session.handleRunEvent_keeps event
    refine h.congr hr hp hd (by simp [hrun]) fun hnone => ?_
    rw [hrunning] at hnone
    cases hnone
  | joined hlabel hrunning hrun hevents hresult =>
    exact life_of_done (Session.running_finishRun _ _) (Session.done_finishRun _ _) rfl
  | @answered request query run answer events hphase hrun hevents =>
    have hreply := a.session.replies_afterQuery request query (some answer)
    exact h.congr (by rw [hreply.running]) hreply.pending hreply.done (by simp [hrun]) fun _ => rfl
  | @unanswered request query run hphase hrun hevents =>
    have hreply := a.session.replies_afterQuery request query none
    exact h.congr (by rw [hreply.running]) hreply.pending hreply.done (by simp [hrun]) fun _ => rfl
  | detached hphase hrun hevents hresult => exact life_of_done rfl rfl rfl
  | dropped hphase => exact h.terminateSession
  | ran hrun hstep => exact h.congr rfl rfl rfl (by simp [hrun]) h.phase

theorem life {a : Adapter H} (h : Reachable step init a) : Life a :=
  h.invariant life_init fun _ _ _ h _ => life_step h

end Adapter

end Dap

end MarrowLsp
