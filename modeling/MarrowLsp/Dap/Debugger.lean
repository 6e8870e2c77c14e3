-- SUMMARY: The run thread of the debug adapter: the stop decision and the hook that runs before each statement, one shared access a step (debugger.rs, step.rs, run.rs).
import MarrowLsp.Dap.Breakpoints

/-!
# The run thread

The hook runs on the thread of the debugged program. It reads a flag, drains a channel,
sends its log output, decides whether to stop, and parks where it does. Between any
two of these the protocol thread may act, so each is a step of its own.
-/
namespace MarrowLsp

namespace Dap

/-! ## The stop decision -/

/-- How the run proceeds after a stop; depths are those of the stop it was asked at. -/
inductive Resume where
  | continue
  | over (fromDepth : Nat)
  | into
  | out (fromDepth : Nat)
  | pause
  deriving DecidableEq, Repr

inductive StopReason where
  | step
  | pause
  | entry
  | breakpoint
  deriving DecidableEq, Repr

def StopReason.asStr : StopReason → String
  | .step => "step"
  | .pause => "pause"
  | .entry => "entry"
  | .breakpoint => "breakpoint"

def decideStop (mode : Resume) (depth : Nat) : Option StopReason :=
  match mode with
  | .continue => none
  | .over fromDepth => if depth ≤ fromDepth then some .step else none
  | .into => some .step
  | .out fromDepth => if depth < fromDepth then some .step else none
  | .pause => some .pause

/-! ## Messages -/

structure StopInfo where
  reason : StopReason
  span : SourceSpan
  file : Option Path
  line : Nat
  column : Nat
  depth : Nat
  deriving DecidableEq, Repr

inductive Query (H : DebugHost) where
  | locals (page : ChildPage) (filter : VariablesFilter)
  | evaluate (expression : H.Expression)
  | dataChildren (segments : List H.DataPathSegment) (page : ChildPage)

inductive QueryResult (H : DebugHost) where
  | locals (snapshot : LocalsSnapshot H)
  | evaluate (result : Except RuntimeErrorDetail (EvaluationSnapshot H))
  | dataChildren (result : Except RuntimeErrorDetail (DataVariablesSnapshot H))

/-- From the protocol thread to the parked run thread. -/
inductive Control (H : DebugHost) where
  | query (query : Query H)
  | resume (mode : Resume)
  | terminate

/-- From the run thread to the protocol thread. -/
inductive RunEvent (H : DebugHost) where
  | stopped (info : StopInfo)
  | output (text : String)
  | answer (result : QueryResult H)

variable {H : DebugHost}

/-! ## Answers -/

namespace Frame

def snapshotLocals (frame : Frame H) (page : ChildPage) (filter : VariablesFilter) :
    LocalsSnapshot H :=
  let (locals, visibleLocalCount, localsTruncated) := frame.debugSnapshot page filter
  ⟨visibleLocalCount, localsTruncated, locals.map childFromDebug⟩

def evaluate (frame : Frame H) (expression : H.Expression) :
    Except RuntimeErrorDetail (EvaluationSnapshot H) :=
  match frame.evaluateDebugExpression expression with
  | .error error => .error error
  | .ok value =>
    if H.requiresDurableData expression then
      frame.debugDataSnapshot.map fun snapshot => ⟨value, some snapshot⟩
    else .ok ⟨value, none⟩

/-- `Debugger::answer`. -/
def answer (frame : Frame H) : Query H → QueryResult H
  | .locals page filter => .locals (frame.snapshotLocals page filter)
  | .evaluate expression => .evaluate (frame.evaluate expression)
  | .dataChildren segments page => .dataChildren (frame.snapshotDataChildren segments page)

end Frame

/-! ## The end of a run -/

structure Outcome where
  output : String
  result : Except String String

/-- What the project session returned: the rendered value of a run, or a fault. -/
inductive InvokeResult where
  | ok (rendered : String)
  | runtime (code message : String)
  | other (code message : String)
  deriving DecidableEq, Repr

def RUN_TERMINATED : String := "run.terminated"

/-- `run::outcome`. The fault of the debugger's own terminate is a clean stop. -/
def outcome (result : InvokeResult) (output log : String) : Outcome :=
  let output := output ++ log
  match result with
  | .ok rendered => ⟨output, .ok rendered⟩
  | .runtime code message =>
    if code == RUN_TERMINATED then ⟨output, .ok ""⟩
    else ⟨output, .error s!"{code}: {message}"⟩
  | .other code message => ⟨output, .error s!"{code}: {message}"⟩

/-- The fault that the hook unwinds the run with. -/
def terminated : InvokeResult := .runtime RUN_TERMINATED "run terminated by the debugger"

/-- What joining the thread gives. -/
inductive RunEnd where
  | returned (outcome : Outcome)
  | panicked

/-! ## The thread -/

/-- Where the run thread is. -/
inductive RunPc (H : DebugHost) where
  /-- Between statements. -/
  | running
  /-- In the hook, past the terminate check. -/
  | admitted (statement : Statement H)
  /-- The breakpoints are evaluated; their outputs are still to send. -/
  | reporting (statement : Statement H) (outputs : List String) (stop : Bool)
  /-- The decision to stop is taken, the stop not announced. -/
  | stopping (statement : Statement H) (info : StopInfo)
  | parked (statement : Statement H)
  | answering (statement : Statement H) (query : Query H)
  /-- The hook returned its terminate fault. -/
  | unwinding
  | ended (result : RunEnd)

/-- The run thread with what it shares with the protocol thread: the channels, oldest
message first, and the flags. -/
structure RunThread (H : DebugHost) where
  pc : RunPc H
  mode : Resume
  stopOnEntry : Bool
  entered : Bool
  breakpoints : ArmedBreakpoints H
  breakpointSwaps : List (ArmedBreakpoints H)
  control : List (Control H)
  events : List (RunEvent H)
  terminate : Bool
  pause : Bool

namespace RunThread

/-- A run just started. -/
def start (stopOnEntry : Bool) (breakpoints : ArmedBreakpoints H) : RunThread H where
  pc := .running
  mode := .continue
  stopOnEntry := stopOnEntry
  entered := false
  breakpoints := breakpoints
  breakpointSwaps := []
  control := []
  events := []
  terminate := false
  pause := false

/-- Only the newest set matters. -/
def drainBreakpointSwaps (run : RunThread H) : RunThread H :=
  { run with
    breakpoints := run.breakpointSwaps.getLast?.getD run.breakpoints
    breakpointSwaps := [] }

/-- Whether this is the entry stop, to take once. -/
def isEntryStop (run : RunThread H) : Bool := run.stopOnEntry && !run.entered

/-- The reason to stop at a statement, and the thread after asking for it. The entry stop
satisfies a pause; an asynchronous pause goes before the step mode. -/
def stopReason (run : RunThread H) (statement : Statement H) (breakpointStop : Bool) :
    Option StopReason × RunThread H :=
  if run.isEntryStop then (some .entry, { run with entered := true, pause := false })
  else if run.pause then (some .pause, { run with pause := false })
  else
    match decideStop run.mode statement.frame.depth with
    | some reason => (some reason, run)
    | none => (if breakpointStop then some .breakpoint else none, run)

def stopInfo (statement : Statement H) (reason : StopReason) : StopInfo where
  reason := reason
  span := statement.span
  file := statement.frame.file
  line := statement.span.line
  column := statement.span.column
  depth := statement.frame.depth

end RunThread

/-- The steps of the run thread. -/
inductive RunStep (H : DebugHost) where
  /-- A statement is about to run: the hook checks the terminate flag. -/
  | statement (statement : Statement H)
  /-- Drain the breakpoint swaps and evaluate the breakpoints. -/
  | drain
  /-- Send the next log output, or with none left decide whether to stop. -/
  | report
  /-- Announce the stop. -/
  | announce
  /-- Take the next control message. -/
  | receive
  /-- Answer the query taken. -/
  | answer
  /-- The run returns, or the thread panics. -/
  | finish (result : InvokeResult) (output log : String)
  | panic

namespace RunThread

/-- A step of the run thread; `connected` while the protocol thread holds the other
ends of the channels. -/
def step (connected : Bool) (run : RunThread H) : RunStep H → Option (RunThread H)
  | .statement statement =>
    match run.pc with
    | .running => some { run with pc := if run.terminate then .unwinding else .admitted statement }
    | _ => none
  | .drain =>
    match run.pc with
    | .admitted statement =>
      let run := run.drainBreakpointSwaps
      let (breakpoints, action) := run.breakpoints.evaluate statement.frame statement.span.line
      some { run with
        breakpoints := breakpoints
        pc := .reporting statement action.outputs action.stop }
    | _ => none
  | .report =>
    match run.pc with
    | .reporting statement (output :: outputs) stop =>
      if connected then
        some { run with
          events := run.events ++ [.output output]
          pc := .reporting statement outputs stop }
      else some { run with pc := .unwinding }
    | .reporting statement [] stop =>
      let (reason, run) := run.stopReason statement stop
      match reason with
      | some reason => some { run with pc := .stopping statement (stopInfo statement reason) }
      | none => some { run with pc := .running }
    | _ => none
  | .announce =>
    match run.pc with
    | .stopping statement info =>
      if connected then
        some { run with events := run.events ++ [.stopped info], pc := .parked statement }
      else some { run with pc := .unwinding }
    | _ => none
  | .receive =>
    match run.pc, run.control with
    | .parked statement, .query query :: control =>
      some { run with control := control, pc := .answering statement query }
    | .parked _, .resume mode :: control =>
      some { run with control := control, mode := mode, pc := .running }
    | .parked _, .terminate :: control => some { run with control := control, pc := .unwinding }
    | .parked _, [] => if connected then none else some { run with pc := .unwinding }
    | _, _ => none
  | .answer =>
    match run.pc with
    | .answering statement query =>
      if connected then
        some { run with
          events := run.events ++ [.answer (statement.frame.answer query)]
          pc := .parked statement }
      else some { run with pc := .unwinding }
    | _ => none
  | .finish result output log =>
    match run.pc with
    | .running => some { run with pc := .ended (.returned (outcome result output log)) }
    -- The runtime hands the fault of the hook through.
    | .unwinding => some { run with pc := .ended (.returned (outcome terminated output log)) }
    | _ => none
  | .panic =>
    match run.pc with
    | .running => some { run with pc := .ended .panicked }
    | .unwinding => some { run with pc := .ended .panicked }
    | _ => none

end RunThread

end Dap

end MarrowLsp
