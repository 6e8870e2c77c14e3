-- SUMMARY: The debug adapter as a whole: the session, the run thread and the channels between them, and the steps of the protocol loop and of the thread in any order (main.rs, session.rs).
import MarrowLsp.Dap.Session
import MarrowLsp.Lib.Transition

/-!
# The adapter

The protocol thread is idle in its loop, waiting for an answer inside a request, or
draining the last events of a run it ends. The loop of the source takes requests first,
then a staged resume, then a run event; here it may take them in any order.
-/
namespace MarrowLsp

namespace Dap

variable {H : DebugHost}

/-- What the protocol thread is doing. -/
inductive Phase (H : DebugHost) where
  | idle
  | awaiting (request : Json) (query : Query H)
  | draining

/-- A run thread stays here when the session has let go of it. -/
structure Adapter (H : DebugHost) where
  session : Session H
  phase : Phase H
  run : Option (RunThread H)

inductive AdapterStep (H : DebugHost) where
  /-- `handle` takes a request. -/
  | request (request : Json) (world : LaunchWorld H)
  | flushResume
  | pumpRunEvent
  /-- `query` receives from the event channel. -/
  | receiveAnswer
  /-- `finish_run_within` receives from the event channel. -/
  | drainRunEvent
  /-- `finish_run_within` runs out of its budget. -/
  | deadline
  /-- The loop is left, and the session dropped. -/
  | drop
  | run (step : RunStep H)

namespace RunThread

def send (run : RunThread H) (control : Control H) : RunThread H :=
  { run with control := run.control ++ [control] }

def sendBreakpoints (run : RunThread H) (breakpoints : ArmedBreakpoints H) : RunThread H :=
  { run with breakpointSwaps := run.breakpointSwaps ++ [breakpoints] }

def raisePause (run : RunThread H) : RunThread H := { run with pause := true }

def raiseTerminate (run : RunThread H) : RunThread H :=
  { run with terminate := true }.send .terminate

/-- How the run ended, once it has. -/
def result (run : RunThread H) : Option RunEnd :=
  match run.pc with
  | .ended result => some result
  | _ => none

end RunThread

namespace Adapter

def init : Adapter H := ⟨.new, .idle, none⟩

/-- `terminate_session`, up to the wait for the run. -/
def terminateSession (a : Adapter H) : Adapter H :=
  if a.session.running.isSome then
    ⟨a.session.beginTerminate, .draining, a.run.map .raiseTerminate⟩
  else { a with session := { a.session with done := true }, phase := .idle }

/-- Do what a handler left to do. A query cannot be sent to a thread that is gone. -/
def perform (a : Adapter H) (request : Json) : Effect H → Adapter H
  | .none => a
  | .pause => { a with run := a.run.map .raisePause }
  | .arm breakpoints => { a with run := a.run.map (·.sendBreakpoints breakpoints) }
  | .start stopOnEntry breakpoints => { a with run := some (.start stopOnEntry breakpoints) }
  | .query query =>
    if (a.run.bind (·.result)).isSome then
      { a with session := a.session.afterQuery request query none }
    else { a with phase := .awaiting request query, run := a.run.map (·.send (.query query)) }
  | .terminate => a.terminateSession

def handle (a : Adapter H) (request : Json) (world : LaunchWorld H) : Adapter H :=
  let (session, effect) := a.session.handle world request
  { a with session := session }.perform request effect

/-- A run that is terminating drops the staged resume; to a thread that is gone the
resume cannot be sent. -/
def flushResume (a : Adapter H) : Option (Adapter H) :=
  match a.session.running, a.run with
  | some running, some run =>
    match running.pendingResume with
    | some mode =>
      let session := { a.session with running := some { running with pendingResume := none } }
      if running.terminating then some { a with session := session }
      else
        match run.result with
        | some result => some { a with session := session.finishRun result }
        | none => some { a with session := session, run := some (run.send (.resume mode)) }
    | none => none
  | _, _ => none

/-- Receive a run event, or join the thread when the channel is closed. -/
def takeRunEvent (a : Adapter H) : Option (Adapter H) :=
  match a.session.running, a.run with
  | some _, some run =>
    match run.events, run.result with
    | event :: events, _ => some { a with
        session := a.session.handleRunEvent event
        run := some { run with events := events } }
    | [], some result => some ⟨a.session.finishRun result, .idle, some run⟩
    | [], none => none
  | _, _ => none

/-- Anything but an answer that is received here is lost. -/
def receiveAnswer (a : Adapter H) (request : Json) (query : Query H) : Option (Adapter H) :=
  a.run.bind fun run =>
    match run.events, run.result with
    | .answer answer :: events, _ => some
        ⟨a.session.afterQuery request query (some answer), .idle, some { run with events := events }⟩
    | _ :: events, _ => some
        ⟨a.session.afterQuery request query none, .idle, some { run with events := events }⟩
    | [], some _ => some { a with session := a.session.afterQuery request query none, phase := .idle }
    | [], none => none

/-- The budget ends only while nothing is there to receive. -/
def deadline (a : Adapter H) : Option (Adapter H) :=
  a.run.bind fun run =>
    if run.events = [] ∧ run.result.isNone then some ⟨a.session.detachRun, .idle, some run⟩
    else none

def step (a : Adapter H) (label : AdapterStep H) : Option (Adapter H) :=
  match label, a.phase with
  | .run step, _ =>
    a.run.bind fun run =>
      (run.step a.session.running.isSome step).map fun run => { a with run := some run }
  | .drop, .idle => some a.terminateSession
  | .request request world, .idle => if a.session.done then none else a.handle request world
  | .flushResume, .idle => if a.session.done then none else a.flushResume
  | .pumpRunEvent, .idle => if a.session.done then none else a.takeRunEvent
  | .receiveAnswer, .awaiting request query => a.receiveAnswer request query
  | .drainRunEvent, .draining => a.takeRunEvent
  | .deadline, .draining => a.deadline
  | _, _ => none

end Adapter

end Dap

end MarrowLsp
