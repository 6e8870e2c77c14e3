-- SUMMARY: Pauses of the debug adapter: which stops for a pause a client asked for, for every interleaving of pauses, stops in flight and resumes.
import MarrowLsp.Dap.Link
import MarrowLsp.Dap.Sample

/-!
# Pauses

A pause of a run that is not known to be stopped raises a flag, which the hook lowers when
it stops for it. A pause is owed a stop from its acknowledgement until the client is told
of a stop, of whatever kind.
-/
namespace MarrowLsp

namespace Dap

open Transition

variable {H : DebugHost}

def RunEvent.isStopped : RunEvent H → Bool
  | .stopped _ => true
  | _ => false

namespace RunThread

/-- At a statement or between statements, the decision to stop not taken. -/
def deciding (run : RunThread H) : Bool :=
  match run.pc with
  | .running => true
  | .admitted _ => true
  | .reporting .. => true
  | _ => false

/-- The decision to stop is taken, the stop not announced. -/
def decided (run : RunThread H) : Bool :=
  match run.pc with
  | .stopping .. => true
  | _ => false

/-- A stop that the client was not told of. -/
def stopInFlight (run : RunThread H) : Bool := run.decided || run.events.any RunEvent.isStopped

end RunThread

/-! ## The law -/

/-- The next run event is a stop. -/
def Adapter.tellsStop (a : Adapter H) : Bool :=
  a.run.any fun run => run.events.head?.any RunEvent.isStopped

/-- How many pauses were acknowledged since the client was last told of a stop. -/
def Adapter.notePause (a : Adapter H) (label : AdapterStep H) (owed : Nat) : Nat :=
  match label with
  | .request request _ => if a.session.acknowledgesPause request then owed + 1 else owed
  | .pumpRunEvent => if a.tellsStop then 0 else owed
  | _ => owed

/-- Where the run thread decides to stop for a pause, a pause is owed a stop. -/
def PauseOwed (y : Adapter H × Nat) (label : AdapterStep H) (z : Adapter H × Nat) : Prop :=
  label = .run .report → ∀ run statement info, z.1.run = some run →
    run.pc = .stopping statement info → info.reason = .pause → 0 < y.2

/-- The step acknowledges no pause while a stop is in flight. -/
def Adapter.pauseTimely (a : Adapter H) (label : AdapterStep H) : Bool :=
  match label with
  | .request request _ =>
    !(a.session.acknowledgesPause request && a.run.any (·.stopInFlight))
  | _ => true

/-! ## The run thread -/

namespace RunThread

theorem mode_of_decideStop {mode : Resume} {depth : Nat} (h : decideStop mode depth = some .pause) :
    mode = .pause := by
  cases mode with
  | pause => rfl
  | «continue» => cases h
  | into => cases h
  | «over» fromDepth =>
    simp only [decideStop] at h
    split at h <;> cases h
  | out fromDepth =>
    simp only [decideStop] at h
    split at h <;> cases h

/-- A stop for a pause comes of the flag, or of the mode that asks for it. -/
theorem mode_of_stopReason {run next : RunThread H} {statement : Statement H} {stop : Bool}
    {reason : StopReason} (h : run.stopReason statement stop = (some reason, next))
    (hpause : reason = .pause) : run.pause = true ∨ run.mode = .pause := by
  subst hpause
  unfold stopReason at h
  split at h
  · cases h
  · split at h
    · next hflag => exact .inl hflag
    · split at h
      · next reason hreason =>
        cases h
        exact .inr (mode_of_decideStop hreason)
      · split at h <;> cases h

/-- What a step of the thread does to what a pause goes through. -/
structure PauseMoved (run : RunThread H) (label : RunStep H) (run' : RunThread H) : Prop where
  flag : run'.pause = true → run.pause = true
  mode : run'.deciding = true →
    run.deciding = true ∧ run'.mode = run.mode ∨ .resume run'.mode ∈ run.control
  control : ∀ control ∈ run'.control, control ∈ run.control
  inFlight : run'.stopInFlight = true → run.stopInFlight = true ∨ run'.pause = false
  reason : label = .report → ∀ statement info, run'.pc = .stopping statement info →
    info.reason = .pause → run.pause = true ∨ run.deciding = true ∧ run.mode = .pause

/-- Most steps touch neither flag nor mode, and send no stop. -/
theorem pauseMoved_of_same {run run' : RunThread H} {label : RunStep H}
    (hflag : run'.pause = run.pause)
    (hmode : run'.deciding = true → run.deciding = true ∧ run'.mode = run.mode)
    (hcontrol : ∀ control ∈ run'.control, control ∈ run.control)
    (hdecided : run'.decided = false)
    (hevents : run'.events.any RunEvent.isStopped = run.events.any RunEvent.isStopped) :
    PauseMoved run label run' where
  flag := fun h => hflag ▸ h
  mode := fun h => .inl (hmode h)
  control := hcontrol
  inFlight := by
    intro h
    rw [stopInFlight, hdecided, Bool.false_or, hevents] at h
    exact .inl (by rw [stopInFlight, h, Bool.or_true])
  reason := by
    intro _ statement info hpc
    rw [decided, hpc] at hdecided
    cases hdecided

/-- A step out of the hook decides nothing more. -/
theorem pauseMoved_of_idle {run run' : RunThread H} {label : RunStep H}
    (hflag : run'.pause = run.pause) (hdeciding : run'.deciding = false)
    (hcontrol : ∀ control ∈ run'.control, control ∈ run.control)
    (hdecided : run'.decided = false)
    (hevents : run'.events.any RunEvent.isStopped = run.events.any RunEvent.isStopped) :
    PauseMoved run label run' := by
  refine pauseMoved_of_same hflag (fun h => ?_) hcontrol hdecided hevents
  rw [hdeciding] at h
  cases h

theorem stopInFlight_of_events {run : RunThread H}
    (h : run.events.any RunEvent.isStopped = true) : run.stopInFlight = true := by
  rw [stopInFlight, h, Bool.or_true]

/-- No reason to stop: the mode stands, and the flag is down. -/
theorem pauseMoved_passed {run next : RunThread H} {statement : Statement H} {stop : Bool}
    (hpc : run.pc = .reporting statement [] stop)
    (hreason : run.stopReason statement stop = (none, next)) :
    PauseMoved run .report { next with pc := .running } := by
  have hdeciding : run.deciding = true := by rw [deciding, hpc]
  cases eq_of_stopReason hreason
  constructor
  · simp
  · exact fun _ => .inl ⟨hdeciding, rfl⟩
  · exact fun control => id
  · intro hstop
    have hsent : run.events.any RunEvent.isStopped = true := by
      simpa [stopInFlight, decided] using hstop
    exact .inl (stopInFlight_of_events hsent)
  · simp

/-- The decision to stop lowers the flag. -/
theorem pauseMoved_decided {run next : RunThread H} {statement : Statement H} {stop : Bool}
    {reason : StopReason} (hpc : run.pc = .reporting statement [] stop)
    (hreason : run.stopReason statement stop = (some reason, next)) :
    PauseMoved run .report { next with pc := .stopping statement (stopInfo statement reason) } := by
  have hdeciding : run.deciding = true := by rw [deciding, hpc]
  have hpaused := mode_of_stopReason hreason
  cases eq_of_stopReason hreason
  constructor
  · simp
  · simp [deciding]
  · exact fun control => id
  · exact fun _ => .inr rfl
  · intro _ statement' info hpc' hpause
    cases hpc'
    cases hpause
    exact (hpaused rfl).imp_right fun hmode => ⟨hdeciding, hmode⟩

/-- A stop in flight stays so when it is sent, or is lost. -/
theorem pauseMoved_stopping {run run' : RunThread H} {statement : Statement H} {info : StopInfo}
    (hpc : run.pc = .stopping statement info) (hflag : run'.pause = run.pause)
    (hdeciding : run'.deciding = false) (hcontrol : run'.control = run.control) :
    PauseMoved run .announce run' where
  flag := fun h => hflag ▸ h
  mode := by simp [hdeciding]
  control := fun control hmem => hcontrol ▸ hmem
  inFlight := fun _ => .inl (by simp [stopInFlight, decided, hpc])
  reason := by simp

/-- The mode of a resume is the one that the message carries. -/
theorem pauseMoved_resumed {run : RunThread H} {mode : Resume} {control : List (Control H)}
    (hcontrol : run.control = .resume mode :: control) :
    PauseMoved run .receive { run with control := control, mode := mode, pc := .running } where
  flag := id
  mode := fun _ => .inr (by simp [hcontrol])
  control := fun _ hmem => hcontrol ▸ List.mem_cons_of_mem _ hmem
  inFlight := by
    intro hstop
    simp only [stopInFlight, decided, Bool.false_or] at hstop
    exact .inl (stopInFlight_of_events hstop)
  reason := by simp

theorem pauseMoved_of_step {connected : Bool} {run run' : RunThread H} {label : RunStep H}
    (h : run.step connected label = some run') : PauseMoved run label run' := by
  have hdeciding {pc : RunPc H} (hpc : run.pc = pc)
      (hpc' : ({ run with pc := pc } : RunThread H).deciding = true) : run.deciding = true := by
    rw [← hpc']
    simp only [deciding, hpc]
  have hsame {pc : RunPc H} (hpc' : ({ run with pc := pc } : RunThread H).deciding = false)
      (hdecided : ({ run with pc := pc } : RunThread H).decided = false) :
      PauseMoved run label { run with pc := pc } :=
    pauseMoved_of_idle rfl hpc' (fun _ => id) hdecided rfl
  cases stepped_of_step h with
  | admitted hpc =>
    exact pauseMoved_of_same rfl (fun _ => ⟨hdeciding hpc rfl, rfl⟩) (fun _ => id) rfl rfl
  | refused hpc => exact hsame rfl rfl
  | drained hpc =>
    exact pauseMoved_of_same rfl (fun _ => ⟨hdeciding hpc rfl, rfl⟩) (fun _ => id) rfl rfl
  | sent hpc =>
    exact pauseMoved_of_same rfl (fun _ => ⟨hdeciding hpc rfl, rfl⟩) (fun _ => id) rfl
      (by simp [RunEvent.isStopped])
  | notSent hpc => exact hsame rfl rfl
  | passed hpc hreason => exact pauseMoved_passed hpc hreason
  | decided hpc hreason => exact pauseMoved_decided hpc hreason
  | announced hpc => exact pauseMoved_stopping hpc rfl rfl rfl
  | notAnnounced hpc => exact pauseMoved_stopping hpc rfl rfl rfl
  | asked hpc hcontrol =>
    exact pauseMoved_of_idle rfl rfl (fun _ hmem => hcontrol ▸ List.mem_cons_of_mem _ hmem) rfl rfl
  | resumed hpc hcontrol => exact pauseMoved_resumed hcontrol
  | terminated hpc hcontrol =>
    exact pauseMoved_of_idle rfl rfl (fun _ hmem => hcontrol ▸ List.mem_cons_of_mem _ hmem) rfl rfl
  | hungUp hpc => exact hsame rfl rfl
  | answered hpc => exact pauseMoved_of_idle rfl rfl (fun _ => id) rfl (by simp [RunEvent.isStopped])
  | notAnswered hpc => exact hsame rfl rfl
  | finished hpc => exact hsame rfl rfl
  | unwound hpc => exact hsame rfl rfl
  | panicked hpc => exact hsame rfl rfl

end RunThread

/-! ## The invariant -/

/-- Wherever a pause is under way, one is owed a stop; and no flag is raised while a stop
is in flight. -/
structure PauseInv (a : Adapter H) (owed : Nat) : Prop where
  flag : ∀ run, a.run = some run → run.pause = true → 0 < owed
  mode : ∀ run, a.run = some run → run.deciding = true → run.mode = .pause → 0 < owed
  sent : ∀ run, a.run = some run → .resume .pause ∈ run.control → 0 < owed
  staged : ∀ running, a.session.running = some running → running.pendingResume = some .pause →
    0 < owed
  inFlight : ∀ run, a.run = some run → run.stopInFlight = true → run.pause = false

theorem pauseInv_init : PauseInv (.init : Adapter H) 0 := by
  constructor
  · rintro _ ⟨⟩
  · rintro _ ⟨⟩
  · rintro _ ⟨⟩
  · rintro _ ⟨⟩
  · rintro _ ⟨⟩

/-- A step that touches the run thread at most at the breakpoints, and the staged resume at
most to drop it. -/
theorem PauseInv.congr {a b : Adapter H} {owed : Nat} (h : PauseInv a owed)
    (hrunning : ∀ running, b.session.running = some running → ∃ running',
      a.session.running = some running' ∧
        (running.pendingResume = some .pause → running'.pendingResume = some .pause))
    (hrun : ∀ run, b.run = some run → ∃ run', a.run = some run' ∧ run.pc = run'.pc ∧
      run.mode = run'.mode ∧ run.pause = run'.pause ∧
      (.resume .pause ∈ run.control → .resume .pause ∈ run'.control) ∧
      (run.events.any RunEvent.isStopped = true → run'.events.any RunEvent.isStopped = true)) :
    PauseInv b owed := by
  constructor
  · intro run hb hpause
    obtain ⟨run', ha, -, -, hflag, -⟩ := hrun run hb
    exact h.flag run' ha (hflag.symm.trans hpause)
  · intro run hb hdeciding hmode
    obtain ⟨run', ha, hpc, hmode', -⟩ := hrun run hb
    refine h.mode run' ha ?_ (hmode'.symm.trans hmode)
    rw [RunThread.deciding, ← hpc]
    exact hdeciding
  · intro run hb hmem
    obtain ⟨run', ha, -, -, -, hcontrol, -⟩ := hrun run hb
    exact h.sent run' ha (hcontrol hmem)
  · intro running hb hpending
    obtain ⟨running', ha, hpending'⟩ := hrunning running hb
    exact h.staged running' ha (hpending' hpending)
  · intro run hb hstop
    obtain ⟨run', ha, hpc, -, hflag, -, hevents⟩ := hrun run hb
    rw [hflag]
    refine h.inFlight run' ha ?_
    rw [RunThread.stopInFlight, Bool.or_eq_true] at hstop ⊢
    obtain hdecided | hstop := hstop
    · left
      rw [RunThread.decided, ← hpc]
      exact hdecided
    · exact .inr (hevents hstop)

theorem PauseInv.mono {a : Adapter H} {owed owed' : Nat} (h : PauseInv a owed)
    (hle : owed ≤ owed') : PauseInv a owed' where
  flag := fun run hrun hpause => (h.flag run hrun hpause).trans_le hle
  mode := fun run hrun hdeciding hmode => (h.mode run hrun hdeciding hmode).trans_le hle
  sent := fun run hrun hmem => (h.sent run hrun hmem).trans_le hle
  staged := fun running hrunning hpending => (h.staged running hrunning hpending).trans_le hle
  inFlight := h.inFlight

theorem pauseInv_ran {a : Adapter H} {run run' : RunThread H} {step : RunStep H} {owed : Nat}
    (h : PauseInv a owed) (hrun : a.run = some run) (hmoved : run.PauseMoved step run') :
    PauseInv { a with run := some run' } owed := by
  constructor
  · rintro _ ⟨⟩ hpause
    exact h.flag run hrun (hmoved.flag hpause)
  · rintro _ ⟨⟩ hdeciding hmode
    obtain ⟨hdeciding', hmode'⟩ | hmem := hmoved.mode hdeciding
    · exact h.mode run hrun hdeciding' (hmode' ▸ hmode)
    · exact h.sent run hrun (hmode ▸ hmem)
  · rintro _ ⟨⟩ hmem
    exact h.sent run hrun (hmoved.control _ hmem)
  · exact h.staged
  · rintro _ ⟨⟩ hstop
    obtain hstop' | hlowered := hmoved.inFlight hstop
    · have hfalse := h.inFlight run hrun hstop'
      by_contra hpause
      rw [hmoved.flag (by simpa using hpause)] at hfalse
      cases hfalse
    · exact hlowered

/-- The step where the thread decides to stop for a pause. -/
theorem pauseOwed_ran {a : Adapter H} {run run' : RunThread H} {owed : Nat} (h : PauseInv a owed)
    (hrun : a.run = some run) (hmoved : run.PauseMoved .report run') {statement : Statement H}
    {info : StopInfo} (hpc : run'.pc = .stopping statement info) (hreason : info.reason = .pause) :
    0 < owed := by
  obtain hpause | ⟨hdeciding, hmode⟩ := hmoved.reason rfl statement info hpc hreason
  · exact h.flag run hrun hpause
  · exact h.mode run hrun hdeciding hmode

theorem PauseInv.terminateSession {a : Adapter H} {owed : Nat} (h : PauseInv a owed) :
    PauseInv a.terminateSession owed := by
  unfold Adapter.terminateSession
  split
  · refine h.congr ?_ ?_
    · intro running hb
      obtain ⟨running', ha, rfl⟩ := Option.map_eq_some_iff.mp hb
      exact ⟨running', ha, nofun⟩
    · intro run hb
      obtain ⟨run', ha, rfl⟩ := Option.map_eq_some_iff.mp hb
      exact ⟨run', ha, rfl, rfl, rfl, by simp [RunThread.raiseTerminate, RunThread.send], id⟩
  · exact h.congr (fun running hb => ⟨running, hb, id⟩)
      (fun run hb => ⟨run, hb, rfl, rfl, rfl, id, id⟩)

/-- A session with the same run. -/
theorem PauseInv.withSession {a : Adapter H} {owed : Nat} (h : PauseInv a owed) {t : Session H}
    (hrunning : t.running = a.session.running) : PauseInv { a with session := t } owed :=
  h.congr (fun running hb => ⟨running, hrunning ▸ hb, id⟩)
    (fun run hb => ⟨run, hb, rfl, rfl, rfl, id, id⟩)

theorem pauseInv_handled {a : Adapter H} {request : Json} {t : Session H} {effect : Effect H}
    {owed owed' : Nat} (h : PauseInv a owed) (hle : owed ≤ owed')
    (hacknowledged : a.session.acknowledgesPause request = true → 0 < owed')
    (htimely : a.session.acknowledgesPause request = true →
      ∀ run, a.run = some run → run.stopInFlight = false)
    (hhandled : a.session.Handled request (t, effect)) :
    PauseInv ({ a with session := t }.perform request effect) owed' := by
  replace h := h.mono hle
  cases hhandled with
  | replied hreply =>
    exact h.withSession hreply.running
  | launchFailed hrunning hreply =>
    exact h.withSession hreply.running
  | launched pending launch hrunning hreply =>
    exact h.withSession hreply.running
  | breakpointsSet source requested hstopPoints hreply =>
    split
    · refine (h.withSession hreply.running).congr (fun running hb => ⟨running, hb, id⟩) ?_
      intro run hb
      obtain ⟨run', ha, rfl⟩ := Option.map_eq_some_iff.mp hb
      exact ⟨run', ha, rfl, rfl, rfl, id, id⟩
    · exact h.withSession hreply.running
  | started pending boundary hpending hreply =>
    constructor
    · rintro _ ⟨⟩ ⟨⟩
    · rintro _ ⟨⟩ - ⟨⟩
    · rintro _ ⟨⟩ ⟨⟩
    · intro running hrunning hpending
      cases hreply.running.symm.trans hrunning
      cases hpending
    · rintro _ ⟨⟩ -
      rfl
  | notStarted pending hpending hreply =>
    exact h.withSession hreply.running
  | noThread pending hpending hreply =>
    exact (h.withSession hreply.running).terminateSession
  | asked query hstopped =>
    unfold Adapter.perform
    dsimp only
    split
    · have hreply := a.session.replies_afterQuery request query none
      exact h.withSession hreply.running
    · refine h.congr (fun running hb => ⟨running, hb, id⟩) ?_
      intro run hb
      obtain ⟨run', ha, rfl⟩ := Option.map_eq_some_iff.mp hb
      exact ⟨run', ha, rfl, rfl, rfl, by simp [RunThread.send], id⟩
  | @resumed u mode events hstopped hevents hpause hreply =>
    refine ⟨h.flag, h.mode, h.sent, ?_, h.inFlight⟩
    intro running hrunning hpending
    obtain ⟨running', -, rfl⟩ := Option.map_eq_some_iff.mp hrunning
    exact hacknowledged (hpause (Option.some.inj hpending))
  | paused running hrunning hstopped hpause hreply =>
    have hkept := h.withSession hreply.running
    constructor
    · exact fun _ _ _ => hacknowledged hpause
    · exact fun _ _ _ _ => hacknowledged hpause
    · exact fun _ _ _ => hacknowledged hpause
    · exact hkept.staged
    · -- The flag is raised, so no stop may be in flight.
      intro run hb hstop
      obtain ⟨run', ha, rfl⟩ := Option.map_eq_some_iff.mp hb
      have hclear := htimely hpause run' ha
      rw [show run'.raisePause.stopInFlight = run'.stopInFlight from rfl, hclear] at hstop
      cases hstop
  | ending hends hreply =>
    exact (h.withSession hreply.running).terminateSession

theorem pendingResume_handleRunEvent {s : Session H} {event : RunEvent H} {running : Running}
    (h : (s.handleRunEvent event).running = some running) :
    ∃ running', s.running = some running' ∧ running'.pendingResume = running.pendingResume := by
  cases event with
  | output text => exact ⟨running, h, rfl⟩
  | answer answer => exact ⟨running, h, rfl⟩
  | stopped info =>
    cases hr : s.running with
    | none => simp [Session.handleRunEvent, hr, Session.event, Session.write] at h
    | some running' =>
      rw [Session.running_handleRunEvent_stopped info hr] at h
      cases h
      refine ⟨running', rfl, ?_⟩
      split <;> rfl

/-- A stop that is received in the loop finds the thread parked with nothing on its way. -/
theorem Link.of_stopEvent {running : Running} {run : RunThread H} {info : StopInfo}
    {events : List (RunEvent H)} {owed : Bool} (h : Link (some running) .idle (some run) owed)
    (hevents : run.events = .stopped info :: events) :
    (∃ statement, run.pc = .parked statement) ∧ run.control = [] ∧
      running.pendingResume = none := by
  cases h with
  | announced hpc hcontrol => exact ⟨⟨_, hpc⟩, hcontrol, rfl⟩
  | free hpark hcontrol houtputs =>
    obtain ⟨text, heq⟩ := houtputs (.stopped info) (by simp [hevents])
    cases heq
  | stopped hpc hcontrol hempty => simp [hempty] at hevents
  | staged hpc hcontrol hempty => simp [hempty] at hevents
  | sent hpc hcontrol hempty => simp [hempty] at hevents

/-- An event received keeps all but the event; once the client is told of a stop, no pause
is under way. -/
theorem pauseInv_tookEvent {a : Adapter H} {label : AdapterStep H} {running : Running}
    {run : RunThread H} {event : RunEvent H} {events : List (RunEvent H)} {owed : Nat}
    {linked : Bool} (h : PauseInv a owed)
    (hlink : Link a.session.running a.phase a.run linked)
    (hlabel : label = .pumpRunEvent ∧ a.phase = .idle ∨
      label = .drainRunEvent ∧ a.phase = .draining)
    (hrunning : a.session.running = some running) (hrun : a.run = some run)
    (hevents : run.events = event :: events) :
    PauseInv { a with
      session := a.session.handleRunEvent event
      run := some { run with events := events } } (a.notePause label owed) := by
  have hkept : PauseInv { a with
      session := a.session.handleRunEvent event
      run := some { run with events := events } } owed := by
    refine h.congr ?_ ?_
    · intro running' hb
      obtain ⟨running'', ha, hpending⟩ := pendingResume_handleRunEvent hb
      exact ⟨running'', ha, fun h => hpending.trans h⟩
    · rintro _ ⟨⟩
      refine ⟨run, hrun, rfl, rfl, rfl, id, fun hstop => ?_⟩
      rw [hevents, List.any_cons, hstop, Bool.or_true]
  obtain ⟨rfl, hphase⟩ | ⟨rfl, -⟩ := hlabel
  · cases event with
    | stopped info =>
      rw [hrunning, hphase, hrun] at hlink
      obtain ⟨⟨statement, hpc⟩, hcontrol, hpending⟩ := hlink.of_stopEvent hevents
      have htells : a.tellsStop = true := by
        simp [Adapter.tellsStop, hrun, hevents, RunEvent.isStopped]
      have hflag : run.pause = false :=
        h.inFlight run hrun (by simp [RunThread.stopInFlight, hevents, RunEvent.isStopped])
      rw [Adapter.notePause, htells, if_pos rfl]
      constructor
      · rintro _ ⟨⟩ hpause
        rw [show run.pause = true from hpause] at hflag
        cases hflag
      · rintro _ ⟨⟩ hdeciding
        simp [RunThread.deciding, hpc] at hdeciding
      · rintro _ ⟨⟩ hmem
        simp [hcontrol] at hmem
      · intro running' hb hpause
        obtain ⟨running'', ha, hpending'⟩ := pendingResume_handleRunEvent hb
        rw [hrunning] at ha
        cases ha
        rw [hpending', hpause] at hpending
        cases hpending
      · rintro _ ⟨⟩ -
        exact hflag
    | output text =>
      have htells : a.tellsStop = false := by
        simp [Adapter.tellsStop, hrun, hevents, RunEvent.isStopped]
      rwa [Adapter.notePause, htells, if_neg Bool.false_ne_true]
    | answer answer =>
      have htells : a.tellsStop = false := by
        simp [Adapter.tellsStop, hrun, hevents, RunEvent.isStopped]
      rwa [Adapter.notePause, htells, if_neg Bool.false_ne_true]
  · exact hkept

theorem pauseInv_step {a b : Adapter H} {label : AdapterStep H} {owed : Nat} {linked : Bool}
    (h : PauseInv a owed) (hlink : Link a.session.running a.phase a.run linked)
    (htimely : a.pauseTimely label = true) (hstep : a.step label = some b) : PauseInv b (a.notePause label owed) := by
  have hstepped := Adapter.stepped_of_step hstep
  cases hstepped with
  | @handled request world t effect hphase hdone hhandle hhandled =>
    refine pauseInv_handled h ?_ ?_ ?_ hhandled
    · unfold Adapter.notePause
      dsimp only
      split <;> omega
    · intro hacknowledges
      simp only [Adapter.notePause, hacknowledges, if_true]
      omega
    · intro hacknowledges run hrun
      simpa [Adapter.pauseTimely, hacknowledges, hrun] using htimely
  | resumeDropped hphase hdone hrunning hrun hterminating =>
    refine ⟨h.flag, h.mode, h.sent, ?_, h.inFlight⟩
    rintro _ ⟨⟩ ⟨⟩
  | @resumeSent running run mode hphase hdone hrunning hrun hpending hterminating hresult =>
    refine ⟨?_, ?_, ?_, ?_, ?_⟩
    · rintro _ ⟨⟩ hpause
      exact h.flag run hrun hpause
    · rintro _ ⟨⟩ hdeciding hmode
      exact h.mode run hrun hdeciding hmode
    · rintro _ ⟨⟩ hmem
      obtain hmem | hmem := List.mem_append.mp hmem
      · exact h.sent run hrun hmem
      · cases List.mem_singleton.mp hmem
        exact h.staged running hrunning hpending
    · rintro _ ⟨⟩ ⟨⟩
    · rintro _ ⟨⟩ hstop
      exact h.inFlight run hrun hstop
  | resumeFailed hphase hdone hrunning hrun hpending hresult =>
    refine ⟨h.flag, h.mode, h.sent, ?_, h.inFlight⟩
    intro running hb
    cases (Session.running_finishRun _ _).symm.trans hb
  | tookEvent hlabel hrunning hrun hevents =>
    exact pauseInv_tookEvent h hlink hlabel hrunning hrun hevents
  | @joined _ running run result hlabel hrunning hrun hevents hresult =>
    have hkept : PauseInv ⟨a.session.finishRun result, .idle, some run⟩ owed := by
      refine h.congr ?_ (fun run' hb => ⟨run', hrun.trans hb, rfl, rfl, rfl, id, id⟩)
      intro running' hb
      cases (Session.running_finishRun _ _).symm.trans hb
    obtain ⟨rfl, -⟩ | ⟨rfl, -⟩ := hlabel
    · have htells : a.tellsStop = false := by simp [Adapter.tellsStop, hrun, hevents]
      rwa [Adapter.notePause, htells, if_neg Bool.false_ne_true]
    · exact hkept
  | @answered request query run answer events hphase hrun hevents =>
    have hreply := a.session.replies_afterQuery request query (some answer)
    refine h.congr (fun running hb => ⟨running, hreply.running.symm.trans hb, id⟩) ?_
    rintro _ ⟨⟩
    refine ⟨run, hrun, rfl, rfl, rfl, id, fun hstop => ?_⟩
    rw [hevents, List.any_cons, hstop, Bool.or_true]
  | @unanswered request query run hphase hrun hevents =>
    have hreply := a.session.replies_afterQuery request query none
    refine h.congr (fun running hb => ⟨running, hreply.running.symm.trans hb, id⟩) ?_
    rintro _ ⟨⟩
    refine ⟨run, hrun, rfl, rfl, rfl, id, fun hstop => ?_⟩
    obtain ⟨event, hmem, hstopped⟩ := List.any_eq_true.mp hstop
    exact List.any_eq_true.mpr ⟨event, List.mem_of_mem_tail hmem, hstopped⟩
  | @detached run hphase hrun hevents hresult =>
    refine h.congr ?_ (fun run' hb => ⟨run', hrun.trans hb, rfl, rfl, rfl, id, id⟩)
    rintro _ ⟨⟩
  | dropped hphase => exact h.terminateSession
  | ran hrun hran => exact pauseInv_ran h hrun (RunThread.pauseMoved_of_step hran)

/-! ## The law holds where every pause is timely -/

/-- Every stop for a pause is owed to a pause acknowledged since the last stop the client
was told of, in every run in which no pause is acknowledged while a stop is in flight. -/
theorem pauseOwed_of_pauseTimely (labels : List (AdapterStep H))
    (h : AllSteps (recorded Adapter.step Adapter.notePause)
      (fun y label _ => y.1.pauseTimely label = true) (.init, 0) labels) :
    AllSteps (recorded Adapter.step Adapter.notePause) PauseOwed (.init, 0) labels := by
  let I : Adapter H × Nat → Prop := fun y => y.1.Life ∧ (∃ x, InTouch y.1 x) ∧ PauseInv y.1 y.2
  have hI : I (.init, 0) := ⟨Adapter.life_init, ⟨_, inTouch_init⟩, pauseInv_init⟩
  refine AllSteps.imp (I := I) ?_ ?_ hI h
  · rintro ⟨a, owed⟩ label ⟨b, owed'⟩ ⟨hlife, ⟨x, hlink⟩, hinv⟩ hstep htimely
    obtain ⟨hstep, rfl⟩ := recorded_eq_some_iff.mp hstep
    refine ⟨Adapter.life_step hlife hstep, ⟨_, inTouch_step hlife hlink hstep⟩, ?_⟩
    obtain ⟨linked, hlink, -⟩ := hlink
    exact pauseInv_step hinv hlink htimely hstep
  · rintro ⟨a, owed⟩ label ⟨b, owed'⟩ ⟨-, -, hinv⟩ hstep - rfl run statement info hrun hpc hreason
    obtain ⟨hstep, -⟩ := recorded_eq_some_iff.mp hstep
    have hstepped := Adapter.stepped_of_step hstep
    cases hstepped with
    | tookEvent hlabel => simp at hlabel
    | joined hlabel => simp at hlabel
    | ran hrun' hran =>
      cases hrun
      exact pauseOwed_ran hinv hrun' (RunThread.pauseMoved_of_step hran) hpc hreason

/-- A running program is paused, told to continue, and paused again. -/
def Sample.pausedTwice : List (AdapterStep Sample.host) :=
  [launch false, send "configurationDone" [], send "pause" [threadId]] ++ stop fileA 1 ++
    [.pumpRunEvent, send "continue" [threadId], .flushResume, .run .receive,
      send "pause" [threadId]] ++ stop fileA 2

theorem pauseOwed_pausedTwice :
    AllSteps (recorded Adapter.step Adapter.notePause) PauseOwed (.init, 0) Sample.pausedTwice :=
  pauseOwed_of_pauseTimely Sample.pausedTwice
    (allSteps_of_run_guarded
      (rfl : run (guarded (fun y : Adapter Sample.host × Nat => y.1.pauseTimely) _) _
        Sample.pausedTwice = some _))

/-- A pause acknowledged while the stop at a breakpoint is in flight, up to the decision at
the statement after the client continued. -/
def Sample.latePause : List (AdapterStep Sample.host) :=
  [launch false, setBreakpoints "/a.mw" [(1, none)], send "configurationDone" []] ++
    stop fileA 1 ++ [send "pause" [threadId], .pumpRunEvent, send "continue" [threadId],
      .flushResume, .run .receive, .run (.statement (statement fileA 2 0)), .run .drain]

theorem not_pauseOwed_latePause :
    ¬ AllSteps (recorded Adapter.step Adapter.notePause) PauseOwed (.init, 0)
      (Sample.latePause ++ [.run .report]) := by
  intro h
  have hlast := h.last (rfl : run _ _ Sample.latePause = some _) rfl
  have howed := hlast rfl _ _ _ rfl rfl rfl
  exact absurd howed (Nat.lt_irrefl 0)

end Dap

end MarrowLsp
