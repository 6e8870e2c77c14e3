-- SUMMARY: The trace of a run and what it says of the stops: the statements, the pauses and edits that arrive before each, the resumes of the client, and how they are recorded (debugger.rs).
import MarrowLsp.Dap.Accounting
import MarrowLsp.Dap.Adapter
import MarrowLsp.Dap.RunSteps

/-!
# Traces

A trace is recorded beside the run: the statements the hook has been through with what
reached it at each, and what it sent. Latest visit first.
-/
namespace MarrowLsp

namespace Dap

open Transition

variable {H : DebugHost}

/-! ## Traces -/

/-- The hook at one statement: the breakpoint sets pushed since the statement before, whether a
pause was asked for since the decision there, the log output sent and the stop announced. -/
structure Visit (H : DebugHost) where
  statement : Statement H
  pushed : List (ArmedBreakpoints H)
  paused : Bool
  outputs : List String
  stop : Option StopInfo

/-- The visits over, the one under way, what waits for the next, and the resumes sent. -/
structure Trace (H : DebugHost) where
  visits : List (Visit H)
  current : Option (Visit H)
  pushed : List (ArmedBreakpoints H)
  paused : Bool
  modes : List Resume

/-! ## What the trace says -/

/-- The set that a visit finds in force, as it was pushed, and the statements it has counted,
from those that the visit before left. -/
def Visit.finds (visit : Visit H) (left : ArmedBreakpoints H × List (Statement H)) :
    ArmedBreakpoints H × List (Statement H) :=
  match visit.pushed.getLast? with
  | some pushed => (pushed, [])
  | none => left

/-- The set in force after some visits, and the statements it has counted. -/
def inForce (armed : ArmedBreakpoints H) :
    List (Visit H) → ArmedBreakpoints H × List (Statement H)
  | [] => (armed, [])
  | visit :: past =>
    ((visit.finds (inForce armed past)).1, visit.statement :: (visit.finds (inForce armed past)).2)

/-- What the breakpoints do at a visit. -/
def actionOf (armed : ArmedBreakpoints H) (visit : Visit H) (past : List (Visit H)) :
    BreakpointAction :=
  (visit.finds (inForce armed past)).1.actionAt visit.statement
    (visit.finds (inForce armed past)).2

/-- How often the run stopped. -/
def stops (visits : List (Visit H)) : Nat := visits.countP (·.stop.isSome)

/-- The mode in force after some visits: the resume given at the last stop. -/
def modeAfter (modes : List Resume) (past : List (Visit H)) : Resume :=
  (Resume.continue :: modes)[stops past]?.getD .continue

/-- The statement is where the step asked for ends. -/
def Resume.targets (depth : Nat) : Resume → Bool
  | .continue => false
  | .over fromDepth => depth ≤ fromDepth
  | .into => true
  | .out fromDepth => depth < fromDepth
  | .pause => true

/-- A reason to stop at a visit, in the mode that is in force. -/
def applies (stopOnEntry : Bool) (armed : ArmedBreakpoints H) (mode : Resume) (visit : Visit H)
    (past : List (Visit H)) : StopReason → Bool
  | .entry => stopOnEntry && past.isEmpty
  | .pause => visit.paused || mode == .pause
  | .step => mode.targets visit.statement.frame.depth
  | .breakpoint => (actionOf armed visit past).stop

/-- The first reason that applies. -/
def dueReason (stopOnEntry : Bool) (armed : ArmedBreakpoints H) (mode : Resume) (visit : Visit H)
    (past : List (Visit H)) : Option StopReason :=
  [.entry, .pause, .step, .breakpoint].find? (applies stopOnEntry armed mode visit past)

/-- A visit is as the trace before it says. -/
structure Accounted (stopOnEntry : Bool) (armed : ArmedBreakpoints H) (modes : List Resume)
    (visit : Visit H) (past : List (Visit H)) : Prop where
  outputs : visit.outputs = (actionOf armed visit past).outputs
  stop : visit.stop = (dueReason stopOnEntry armed (modeAfter modes past) visit past).map
    (RunThread.stopInfo visit.statement)
  /-- Each earlier stop was resumed. -/
  resumed : stops past ≤ modes.length

/-- The visit is the first after `past` with a reason to stop in this mode; those between have
none. -/
structure FirstDue (stopOnEntry : Bool) (armed : ArmedBreakpoints H) (mode : Resume)
    (visit : Visit H) (between past : List (Visit H)) : Prop where
  due : (dueReason stopOnEntry armed mode visit (between ++ past)).isSome = true
  quiet : ∀ other rest, other :: rest <:+ between →
    dueReason stopOnEntry armed mode other (rest ++ past) = none

/-- The visit is the next stop after `past`. -/
def NextStop (visit : Visit H) (between : List (Visit H)) : Prop :=
  visit.stop.isSome = true ∧ ∀ other ∈ between, other.stop = none

/-- The run stops where its trace says, and for the reason it says. -/
structure StopsAsTraced (stopOnEntry : Bool) (armed : ArmedBreakpoints H) (run : RunThread H)
    (trace : Trace H) : Prop where
  accounted : ∀ visit past, visit :: past <:+ trace.visits →
    Accounted stopOnEntry armed trace.modes visit past
  /-- From any visit on, and so from a stop in the mode given there. -/
  next : ∀ visit between past, visit :: (between ++ past) <:+ trace.visits →
    (NextStop visit between ↔
      FirstDue stopOnEntry armed (modeAfter trace.modes past) visit between past)
  entry : ∀ visit past info, visit :: past <:+ trace.visits → visit.stop = some info →
    info.reason = .entry → stopOnEntry = true ∧ past = []
  /-- Between statements every statement visited is counted. -/
  counts : run.pc = .running → run.breakpoints =
    (inForce armed trace.visits).1.after (inForce armed trace.visits).2

/-! ## Recording -/

/-- What the two threads do to the run while it is not terminated. -/
inductive HookStep (H : DebugHost) where
  | run (step : RunStep H)
  | pause
  | arm (breakpoints : ArmedBreakpoints H)
  | query (query : Query H)
  | resume (mode : Resume)
  /-- The protocol thread receives an event. -/
  | take

namespace RunThread

def hooked (run : RunThread H) : HookStep H → Option (RunThread H)
  | .run step => run.step true step
  | .pause => some run.raisePause
  | .arm breakpoints => some (run.sendBreakpoints breakpoints)
  | .query query => some (run.send (.query query))
  | .resume mode => some (run.send (.resume mode))
  | .take => some { run with events := run.events.tail }

/-- The hook is about to let the statement run. -/
def lets (run : RunThread H) : Bool :=
  match run.step true .report with
  | some { pc := .running, .. } => true
  | _ => false

end RunThread

namespace Trace

def start : Trace H := ⟨[], none, [], false, []⟩

/-- The visit under way is over. -/
def finish (trace : Trace H) (stop : Option StopInfo) : Trace H :=
  { trace with
    visits := (trace.current.map fun visit => { visit with stop := stop }).toList ++ trace.visits
    current := none }

def enter (trace : Trace H) (statement : Statement H) : Trace H :=
  { trace with current := some ⟨statement, [], false, [], none⟩ }

def drain (trace : Trace H) : Trace H :=
  { trace with
    current := trace.current.map fun visit => { visit with pushed := trace.pushed }
    pushed := [] }

def output (trace : Trace H) (text : String) : Trace H :=
  { trace with
    current := trace.current.map fun visit => { visit with outputs := visit.outputs ++ [text] } }

def settle (trace : Trace H) : Trace H :=
  { trace with
    current := trace.current.map fun visit => { visit with paused := trace.paused }
    paused := false }

def noteRun (run : RunThread H) (trace : Trace H) : RunStep H → Trace H
  | .statement statement => trace.enter statement
  | .drain => trace.drain
  | .report =>
    match run.pc with
    | .reporting _ (text :: _) _ => trace.output text
    | _ => if run.lets then trace.settle.finish none else trace.settle
  | .announce =>
    match run.pc with
    | .stopping _ info => trace.finish (some info)
    | _ => trace
  | _ => trace

/-- What is recorded of a step. -/
def note (run : RunThread H) (step : HookStep H) (trace : Trace H) : Trace H :=
  match step with
  | .run step => trace.noteRun run step
  | .pause => { trace with paused := true }
  | .arm breakpoints => { trace with pushed := trace.pushed ++ [breakpoints] }
  | .resume mode => { trace with modes := trace.modes ++ [mode] }
  | .query _ => trace
  | .take => trace

end Trace

/-! ## What the hook can do -/

/-- A step of the run thread that is not told to terminate. -/
inductive Ran (run : RunThread H) : RunStep H → RunThread H → Prop where
  | admitted {statement : Statement H} (hpc : run.pc = .running) :
      Ran run (.statement statement) { run with pc := .admitted statement }
  | drained {statement : Statement H} {breakpoints : ArmedBreakpoints H} {action : BreakpointAction}
      (hpc : run.pc = .admitted statement)
      (hevaluate : run.drainBreakpointSwaps.breakpoints.evaluate statement.frame
        statement.span.line = (breakpoints, action)) :
      Ran run .drain { run with
        breakpoints := breakpoints
        breakpointSwaps := []
        pc := .reporting statement action.outputs action.stop }
  | sent {statement : Statement H} {output : String} {outputs : List String} {stop : Bool}
      (hpc : run.pc = .reporting statement (output :: outputs) stop) :
      Ran run .report { run with
        events := run.events ++ [.output output]
        pc := .reporting statement outputs stop }
  | passed {statement : Statement H} {stop : Bool} {next : RunThread H}
      (hpc : run.pc = .reporting statement [] stop)
      (hreason : run.stopReason statement stop = (none, next)) :
      Ran run .report { next with pc := .running }
  | decided {statement : Statement H} {stop : Bool} {reason : StopReason} {next : RunThread H}
      (hpc : run.pc = .reporting statement [] stop)
      (hreason : run.stopReason statement stop = (some reason, next)) :
      Ran run .report { next with
        pc := .stopping statement (RunThread.stopInfo statement reason) }
  | announced {statement : Statement H} {info : StopInfo}
      (hpc : run.pc = .stopping statement info) :
      Ran run .announce { run with
        events := run.events ++ [.stopped info]
        pc := .parked statement }
  | asked {statement : Statement H} {query : Query H} {control : List (Control H)}
      (hpc : run.pc = .parked statement) (hcontrol : run.control = .query query :: control) :
      Ran run .receive { run with control := control, pc := .answering statement query }
  | resumed {statement : Statement H} {mode : Resume} {control : List (Control H)}
      (hpc : run.pc = .parked statement) (hcontrol : run.control = .resume mode :: control) :
      Ran run .receive { run with control := control, mode := mode, pc := .running }
  | answered {statement : Statement H} {query : Query H}
      (hpc : run.pc = .answering statement query) :
      Ran run .answer { run with
        events := run.events ++ [.answer (statement.frame.answer query)]
        pc := .parked statement }
  | ended {step : RunStep H} {result : RunEnd}
      (hstep : (∃ result output log, step = .finish result output log) ∨ step = .panic) :
      Ran run step { run with pc := .ended result }

theorem ran_of_step {run run' : RunThread H} {step : RunStep H}
    (h : run.step true step = some run') (hterminate : run.terminate = false)
    (hcontrol : .terminate ∉ run.control) : Ran run step run' := by
  cases RunThread.stepped_of_step h with
  | admitted hpc => exact .admitted hpc
  | refused hpc hflag =>
    rw [hterminate] at hflag
    cases hflag
  | drained hpc hevaluate => exact .drained hpc hevaluate
  | sent hpc => exact .sent hpc
  | notSent hpc hconnected => cases hconnected
  | passed hpc hreason => exact .passed hpc hreason
  | decided hpc hreason => exact .decided hpc hreason
  | announced hpc => exact .announced hpc
  | notAnnounced hpc hconnected => cases hconnected
  | asked hpc hmessage => exact .asked hpc hmessage
  | resumed hpc hmessage => exact .resumed hpc hmessage
  | terminated hpc hmessage =>
    rw [hmessage] at hcontrol
    exact absurd List.mem_cons_self hcontrol
  | hungUp hpc hnone hconnected => cases hconnected
  | answered hpc => exact .answered hpc
  | notAnswered hpc hconnected => cases hconnected
  | finished hpc => exact .ended (.inl ⟨_, _, _, rfl⟩)
  | unwound hpc => exact .ended (.inl ⟨_, _, _, rfl⟩)
  | panicked hpc => exact .ended (.inr rfl)

end Dap

end MarrowLsp
