-- SUMMARY: What one step of the run thread of the debug adapter can do.
import MarrowLsp.Dap.Debugger

/-!
# Steps of the run thread
-/
namespace MarrowLsp

namespace Dap

variable {H : DebugHost}

namespace RunThread

/-- Asking for the reason to stop marks the entry and lowers the pause flag. -/
theorem stopReason_snd (run : RunThread H) (statement : Statement H) (stop : Bool) :
    (run.stopReason statement stop).2 =
      { run with entered := run.stopOnEntry || run.entered, pause := false } := by
  obtain ⟨pc, mode, stopOnEntry, entered, breakpoints, swaps, control, events, terminate, pause⟩ :=
    run
  unfold RunThread.stopReason RunThread.isEntryStop
  cases stopOnEntry <;> cases entered <;> cases pause <;>
    cases decideStop mode statement.frame.depth <;> simp

theorem eq_of_stopReason {run next : RunThread H} {statement : Statement H} {stop : Bool}
    {reason : Option StopReason} (h : run.stopReason statement stop = (reason, next)) :
    next = { run with entered := run.stopOnEntry || run.entered, pause := false } := by
  rw [← run.stopReason_snd statement stop, h]

/-- What a step can do; without the session at the other end of its channels the thread unwinds
as soon as it sends, or waits for a message. -/
inductive Stepped (connected : Bool) (run : RunThread H) : RunStep H → RunThread H → Prop where
  | admitted {statement : Statement H} (hpc : run.pc = .running) (hterminate : run.terminate = false) :
      Stepped connected run (.statement statement) { run with pc := .admitted statement }
  | refused {statement : Statement H} (hpc : run.pc = .running) (hterminate : run.terminate = true) :
      Stepped connected run (.statement statement) { run with pc := .unwinding }
  | drained {statement : Statement H} {breakpoints : ArmedBreakpoints H} {action : BreakpointAction}
      (hpc : run.pc = .admitted statement)
      (hevaluate : run.drainBreakpointSwaps.breakpoints.evaluate statement.frame
        statement.span.line = (breakpoints, action)) :
      Stepped connected run .drain { run with
        breakpoints := breakpoints
        breakpointSwaps := []
        pc := .reporting statement action.outputs action.stop }
  | sent {statement : Statement H} {output : String} {outputs : List String} {stop : Bool}
      (hpc : run.pc = .reporting statement (output :: outputs) stop)
      (hconnected : connected = true) :
      Stepped connected run .report { run with
        events := run.events ++ [.output output]
        pc := .reporting statement outputs stop }
  | notSent {statement : Statement H} {output : String} {outputs : List String} {stop : Bool}
      (hpc : run.pc = .reporting statement (output :: outputs) stop)
      (hconnected : connected = false) :
      Stepped connected run .report { run with pc := .unwinding }
  | passed {statement : Statement H} {stop : Bool} {next : RunThread H}
      (hpc : run.pc = .reporting statement [] stop)
      (hreason : run.stopReason statement stop = (none, next)) :
      Stepped connected run .report { next with pc := .running }
  | decided {statement : Statement H} {stop : Bool} {reason : StopReason} {next : RunThread H}
      (hpc : run.pc = .reporting statement [] stop)
      (hreason : run.stopReason statement stop = (some reason, next)) :
      Stepped connected run .report { next with
        pc := .stopping statement (stopInfo statement reason) }
  | announced {statement : Statement H} {info : StopInfo}
      (hpc : run.pc = .stopping statement info) (hconnected : connected = true) :
      Stepped connected run .announce { run with
        events := run.events ++ [.stopped info]
        pc := .parked statement }
  | notAnnounced {statement : Statement H} {info : StopInfo}
      (hpc : run.pc = .stopping statement info) (hconnected : connected = false) :
      Stepped connected run .announce { run with pc := .unwinding }
  | asked {statement : Statement H} {query : Query H} {control : List (Control H)}
      (hpc : run.pc = .parked statement) (hcontrol : run.control = .query query :: control) :
      Stepped connected run .receive { run with
        control := control
        pc := .answering statement query }
  | resumed {statement : Statement H} {mode : Resume} {control : List (Control H)}
      (hpc : run.pc = .parked statement) (hcontrol : run.control = .resume mode :: control) :
      Stepped connected run .receive { run with control := control, mode := mode, pc := .running }
  | terminated {statement : Statement H} {control : List (Control H)}
      (hpc : run.pc = .parked statement) (hcontrol : run.control = .terminate :: control) :
      Stepped connected run .receive { run with control := control, pc := .unwinding }
  | hungUp {statement : Statement H} (hpc : run.pc = .parked statement)
      (hcontrol : run.control = []) (hconnected : connected = false) :
      Stepped connected run .receive { run with pc := .unwinding }
  | answered {statement : Statement H} {query : Query H}
      (hpc : run.pc = .answering statement query) (hconnected : connected = true) :
      Stepped connected run .answer { run with
        events := run.events ++ [.answer (statement.frame.answer query)]
        pc := .parked statement }
  | notAnswered {statement : Statement H} {query : Query H}
      (hpc : run.pc = .answering statement query) (hconnected : connected = false) :
      Stepped connected run .answer { run with pc := .unwinding }
  | finished {result : InvokeResult} {output log : String} (hpc : run.pc = .running) :
      Stepped connected run (.finish result output log)
        { run with pc := .ended (.returned (outcome result output log)) }
  | unwound {result : InvokeResult} {output log : String} (hpc : run.pc = .unwinding) :
      Stepped connected run (.finish result output log)
        { run with pc := .ended (.returned (outcome Dap.terminated output log)) }
  | panicked (hpc : run.pc = .running ∨ run.pc = .unwinding) :
      Stepped connected run .panic { run with pc := .ended .panicked }

variable {connected : Bool} {run run' : RunThread H}

theorem stepped_report (h : run.step connected .report = some run') :
    Stepped connected run .report run' := by
  simp only [step] at h
  split at h
  · next hpc =>
    split at h
    · next hconnected =>
      cases h
      exact .sent hpc hconnected
    · next hconnected =>
      cases h
      exact .notSent hpc (by simpa using hconnected)
  · next statement stop hpc =>
    generalize hreason : run.stopReason statement stop = decision at h
    obtain ⟨reason, next⟩ := decision
    cases reason with
    | none =>
      cases h
      exact .passed hpc hreason
    | some reason =>
      cases h
      exact .decided hpc hreason
  · cases h

theorem stepped_receive (h : run.step connected .receive = some run') :
    Stepped connected run .receive run' := by
  simp only [step] at h
  split at h
  · next hpc hcontrol =>
    cases h
    exact .asked hpc hcontrol
  · next hpc hcontrol =>
    cases h
    exact .resumed hpc hcontrol
  · next hpc hcontrol =>
    cases h
    exact .terminated hpc hcontrol
  · next hpc hcontrol =>
    split at h
    · cases h
    · next hconnected =>
      cases h
      exact .hungUp hpc hcontrol (by simpa using hconnected)
  · cases h

theorem stepped_of_step {label : RunStep H} (h : run.step connected label = some run') :
    Stepped connected run label run' := by
  cases label with
  | statement statement =>
    simp only [step] at h
    split at h
    · next hpc =>
      split at h
      · next hterminate =>
        cases h
        exact .refused hpc hterminate
      · next hterminate =>
        cases h
        exact .admitted hpc (by simpa using hterminate)
    · cases h
  | drain =>
    simp only [step] at h
    split at h
    · next hpc =>
      cases h
      exact .drained hpc rfl
    · cases h
  | report => exact stepped_report h
  | announce =>
    simp only [step] at h
    split at h
    · next hpc =>
      split at h
      · next hconnected =>
        cases h
        exact .announced hpc hconnected
      · next hconnected =>
        cases h
        exact .notAnnounced hpc (by simpa using hconnected)
    · cases h
  | receive => exact stepped_receive h
  | answer =>
    simp only [step] at h
    split at h
    · next hpc =>
      split at h
      · next hconnected =>
        cases h
        exact .answered hpc hconnected
      · next hconnected =>
        cases h
        exact .notAnswered hpc (by simpa using hconnected)
    · cases h
  | finish result output log =>
    simp only [step] at h
    split at h
    · next hpc =>
      cases h
      exact .finished hpc
    · next hpc =>
      cases h
      exact .unwound hpc
    · cases h
  | panic =>
    simp only [step] at h
    split at h
    · next hpc =>
      cases h
      exact .panicked (.inl hpc)
    · next hpc =>
      cases h
      exact .panicked (.inr hpc)
    · cases h

end RunThread

end Dap

end MarrowLsp
