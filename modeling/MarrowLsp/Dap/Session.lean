-- SUMMARY: The session of the debug adapter: the protocol-thread state, the handlers of its requests, and what it does with run events and the end of a run (session.rs).
import MarrowLsp.Dap.Debugger
import MarrowLsp.Dap.Protocol

/-!
# The session

A handler answers its request and leaves at most one thing to do to the run thread: a
flag to raise, a message to send, a thread to start, a query to wait for, or the teardown.
It is given as an effect, so that the run thread can act in between.
-/
namespace MarrowLsp

namespace Dap

variable {H : DebugHost}

/-! ## State -/

/-- What a dynamic variable reference expands to. -/
inductive Expandable (H : DebugHost) where
  | value (value : H.DebugValue) (storeSnapshot : Option H.StoreSnapshot)
  | dataPath (path : List H.DataPathSegment)

/-- The live run as the protocol thread knows it. -/
structure Running where
  executionBoundary : Json
  stoppedAt : Option StopInfo
  pendingResume : Option Resume
  terminating : Bool

/-- Launch state held until `configurationDone` starts the run. -/
structure PendingLaunch where
  stopOnEntry : Bool
  deriving DecidableEq, Repr

structure Session (H : DebugHost) where
  out : List Message
  seq : Nat
  running : Option Running
  pending : Option PendingLaunch
  analysis : Option H.Analysis
  stopPoints : Option StopPointIndex
  breakpoints : List (Path × List RequestedBreakpoint)
  supportsVariablePaging : Bool
  expandables : List (Nat × Expandable H)
  nextRef : Nat
  done : Bool

/-- A prepared launch: the analyzed files with their sources, and the stop points of the
program whose file has a path. -/
structure Launch (H : DebugHost) where
  executionBoundary : Json
  surfaceServeBoundary : Except LaunchError Json
  files : List (Path × String)
  points : List RuntimeStop
  analysis : H.Analysis

/-- What a started run thread reports before it runs. -/
structure RunStart where
  executionBoundary : Json
  surfaceServeBoundary : Json

inductive SpawnError where
  | launch (error : LaunchError)
  | thread (message : String)

/-- What Marrow and the operating system answer while a request is handled. -/
structure LaunchWorld (H : DebugHost) where
  prepare : Except LaunchError (Launch H)
  spawn : Except SpawnError RunStart

/-- What a handler leaves to do to the run thread. -/
inductive Effect (H : DebugHost) where
  | none
  | pause
  | arm (breakpoints : ArmedBreakpoints H)
  | start (stopOnEntry : Bool) (breakpoints : ArmedBreakpoints H)
  | query (query : Query H)
  | terminate

def LOCALS_REF : Nat := 1
def DURABLE_REF : Nat := 2
def FIRST_DYNAMIC_REF : Nat := 1000
def RUN_PANIC_EXIT_CODE : Nat := 101

namespace Session

def new : Session H where
  out := []
  seq := 0
  running := none
  pending := none
  analysis := none
  stopPoints := none
  breakpoints := []
  supportsVariablePaging := false
  expandables := []
  nextRef := FIRST_DYNAMIC_REF
  done := false

/-! ## Output -/

def write (s : Session H) (message : Nat → Message) : Session H :=
  { s with seq := s.seq + 1, out := s.out ++ [message (s.seq + 1)] }

/-- A field of the request that its response repeats. -/
def requestField (request : Json) (field : String) : Json := (request.get field).getD .null

def respond (s : Session H) (request body : Json) : Session H :=
  s.write fun seq => .response seq (requestField request "seq") (requestField request "command") true
    none body

def respondError (s : Session H) (request : Json) (error : DapInputError) : Session H :=
  s.write fun seq => .response seq (requestField request "seq") (requestField request "command")
    false (some error.message) (.object [("marrowError", error.contract.metadata)])

def event (s : Session H) (name : String) (body : Json) : Session H :=
  s.write fun seq => .event seq name body

def allocRef (s : Session H) (expandable : Expandable H) : Nat × Session H :=
  (s.nextRef,
    { s with
      nextRef := s.nextRef + 1
      expandables := (s.nextRef, expandable) :: s.expandables })

/-- The stop the client was told of, while the run is parked there. -/
def stoppedAt (s : Session H) : Option StopInfo := s.running.bind (·.stoppedAt)

/-! ## Launching -/

def clearLaunchConfiguration (s : Session H) : Session H :=
  { s with pending := none, analysis := none, stopPoints := none, breakpoints := [] }

def onInitialize (s : Session H) (request arguments : Json) : Session H :=
  let s := { s with
    supportsVariablePaging :=
      ((arguments.get "supportsVariablePaging").bind Json.asBool).getD false }
  s.respond request (.object [("supportsConfigurationDoneRequest", .bool true),
    ("supportsTerminateRequest", .bool true), ("supportsConditionalBreakpoints", .bool true),
    ("supportsHitConditionalBreakpoints", .bool true), ("supportsLogPoints", .bool true),
    ("supportsEvaluateForHovers", .bool true)])

/-- The launch arguments, checked in the order of the source: all that is kept of them is
whether to stop on entry. -/
def parseLaunch (H : DebugHost) (arguments : Json) : Except DapInputError Bool := do
  let _ ← parseProject arguments
  let _ ← parseEntry arguments
  parseLaunchArgs H (arguments.get "args")
  parseStopOnEntry arguments

def onLaunch (s : Session H) (w : LaunchWorld H) (request arguments : Json) : Session H :=
  if s.pending.isSome || s.running.isSome then s.respondError request launchAlreadyConfigured
  else
    let s := s.clearLaunchConfiguration
    match parseLaunch H arguments with
    | .error error => s.respondError request error
    | .ok stopOnEntry =>
      match w.prepare with
      | .error error => s.respondError request error.toInputError
      | .ok launch =>
        match launch.surfaceServeBoundary with
        | .error error => s.respondError request error.toInputError
        | .ok surfaceServeBoundary =>
          let s := { s with
            stopPoints := some (.fromRuntime H launch.files launch.points)
            analysis := some launch.analysis
            pending := some ⟨stopOnEntry⟩ }
          (s.respond request (.object [("marrowDebug", .object [
            ("previewExecutionBoundary", launch.executionBoundary),
            ("previewSurfaceServeBoundary", surfaceServeBoundary)])])).event
            "initialized" emptyObject

/-! ## Breakpoints -/

/-- The base message, with what the diagnostics say. -/
def diagnosticMessage (base : String) (diagnostics : List String) : String :=
  let details := "; ".intercalate diagnostics
  if details = "" then base else s!"{base}: {details}"

def checkedExpression (s : Session H) (stop : RuntimeStop) (source : String)
    (invalid : DapInputError) : Except DapInputError H.Expression :=
  match s.analysis with
  | none => .error breakpointUnverified
  | some analysis =>
    match H.checkedDebugExpression analysis stop.file stop.span source with
    | .ok expression => .ok expression
    | .error diagnostics =>
      .error ⟨diagnosticMessage invalid.message diagnostics, invalid.contract⟩

def checkedCondition (s : Session H) (stop : RuntimeStop) (source : String) :
    Except DapInputError H.Expression := do
  let expression ← s.checkedExpression stop source breakpointConditionInvalid
  if H.isBool expression then .ok expression else .error breakpointConditionInvalid

def checkedLogMessage (s : Session H) (stop : RuntimeStop) (template : LogMessage String) :
    Except DapInputError (LogMessage H.Expression) :=
  template.mapM fun
    | .literal value => .ok (.literal value)
    | .expression source =>
      (s.checkedExpression stop source breakpointLogMessageInvalid).map LogMessagePart.expression

structure CheckedBreakpointSpec (H : DebugHost) where
  condition : Option H.Expression
  logMessage : Option (LogMessage H.Expression)

def checkedBreakpointSpec (s : Session H) (stop : RuntimeStop) (spec : BreakpointSpec) :
    Except DapInputError (CheckedBreakpointSpec H) := do
  let condition ← spec.condition.mapM (s.checkedCondition stop)
  let logMessage ← spec.logMessage.mapM (s.checkedLogMessage stop)
  .ok ⟨condition, logMessage⟩

/-- What one requested breakpoint arms at one stop point of its line. -/
def armAt (s : Session H) (line : Nat) (spec : BreakpointSpec) (armed : ArmedBreakpoints H)
    (stop : RuntimeStop) : ArmedBreakpoints H :=
  match s.checkedBreakpointSpec stop spec with
  | .ok checked =>
    armed.insert stop.file (.new line checked.condition spec.hitTarget checked.logMessage)
  | .error _ => armed

def armRequested (s : Session H) (stopPoints : StopPointIndex) (source : Path)
    (armed : ArmedBreakpoints H) : RequestedBreakpoint → ArmedBreakpoints H
  | .valid line (.valid spec) => (stopPoints.stops source line).foldl (s.armAt line spec) armed
  | _ => armed

def armedBreakpoints (s : Session H) : ArmedBreakpoints H :=
  match s.stopPoints with
  | none => .empty
  | some stopPoints =>
    s.breakpoints.foldl
      (fun armed entry => entry.2.foldl (s.armRequested stopPoints entry.1) armed) .empty

def unverifiedBreakpoint (line : Nat) (error : DapInputError) : Json :=
  .object [("verified", .bool false), ("line", jsonNat line), ("message", .string error.message),
    ("marrowContract", error.contract.metadata)]

/-- Why a request that does not parse is not verified. -/
def invalidRequest : BreakpointRequest → Option DapInputError
  | .valid _ => none
  | .invalidCondition => some breakpointConditionInvalid
  | .invalidHitCondition => some breakpointHitConditionInvalid
  | .invalidLogMessage => some breakpointLogMessageInvalid

def resolvedLaunchedBreakpoint (s : Session H) (source : Path) (line : Nat)
    (request : BreakpointRequest) (stopPoints : StopPointIndex) : Json :=
  match stopPoints.stops source line with
  | [] => unverifiedBreakpoint line breakpointNoStopPoint
  | stop :: _ =>
    match request with
    | .valid spec =>
      match s.checkedBreakpointSpec stop spec with
      | .ok _ => .object [("verified", .bool true), ("line", jsonNat line)]
      | .error error => unverifiedBreakpoint line error
    | .invalidCondition => unverifiedBreakpoint line breakpointConditionInvalid
    | .invalidHitCondition => unverifiedBreakpoint line breakpointHitConditionInvalid
    | .invalidLogMessage => unverifiedBreakpoint line breakpointLogMessageInvalid

def resolvedBreakpoint (s : Session H) (source : Path) (line : Nat) (request : BreakpointRequest) :
    Json :=
  match s.stopPoints with
  | some stopPoints => s.resolvedLaunchedBreakpoint source line request stopPoints
  | none => unverifiedBreakpoint line ((invalidRequest request).getD breakpointUnverified)

def resolveBreakpoints (s : Session H) (source : Path) (requested : List RequestedBreakpoint) :
    List Json :=
  requested.map fun
    | .valid line request => s.resolvedBreakpoint source line request
    | .invalidLine => .object [("verified", .bool false),
        ("message", .string breakpointInvalidLine.message),
        ("marrowContract", breakpointInvalidLine.contract.metadata)]

/-- The file that breakpoints are set in. -/
def breakpointFile (s : Session H) (arguments : Json) : Except DapInputError Path :=
  match breakpointSource H arguments with
  | .error error => .error error
  | .ok (.path path) => .ok path
  | .ok (.sourceReference reference) =>
    match s.stopPoints.bind (·.sourceFile reference) with
    | some source => .ok source.canonicalPath
    | none => .error breakpointSourceReferenceInvalid

/-- Replace the requested breakpoints of a source, and with none forget it. -/
def setRequested (breakpoints : List (Path × List RequestedBreakpoint)) (source : Path)
    (requested : List RequestedBreakpoint) : List (Path × List RequestedBreakpoint) :=
  let others := breakpoints.filter fun entry => entry.1 ≠ source
  if requested = [] then others else others ++ [(source, requested)]

def onSetBreakpoints (s : Session H) (request arguments : Json) : Session H × Effect H :=
  match s.breakpointFile arguments with
  | .error error => (s.respondError request error, .none)
  | .ok source =>
    match requestedBreakpoints arguments with
    | .error error => (s.respondError request error, .none)
    | .ok requested =>
      let (s, effect) : Session H × Effect H :=
        if s.stopPoints.isSome then
          let s := { s with breakpoints := setRequested s.breakpoints source requested }
          (s, if s.running.isSome then .arm s.armedBreakpoints else .none)
        else (s, .none)
      (s.respond request
        (.object [("breakpoints", .array (s.resolveBreakpoints source requested))]), effect)

/-! ## Starting -/

def onConfigurationDone (s : Session H) (w : LaunchWorld H) (request : Json) :
    Session H × Effect H :=
  match s.pending with
  | none => (s.respondError request configurationNotReady, .none)
  | some pending =>
    let s := { s with pending := none }
    let breakpoints := s.armedBreakpoints
    match w.spawn with
    | .ok start =>
      let s := { s with running := some ⟨start.executionBoundary, none, none, false⟩ }
      (s.respond request (.object [("marrowDebug", .object [
        ("executionBoundary", start.executionBoundary),
        ("surfaceServeBoundary", start.surfaceServeBoundary)])]),
        .start pending.stopOnEntry breakpoints)
    | .error (.launch error) =>
      (s.clearLaunchConfiguration.respondError request error.toInputError, .none)
    | .error (.thread message) => (s.respondError request (runInvalid message), .terminate)

/-! ## Inspecting -/

def onThreads (s : Session H) (request : Json) : Session H :=
  s.respond request (.object [("threads",
    .array [.object [("id", jsonNat THREAD_ID), ("name", .string "marrow")]])])

/-- The source of a stack frame, with a reference where the adapter has its text. -/
def frameSource (s : Session H) (path : Path) : Json :=
  .object ([("path", .string (H.display path))] ++
    match s.stopPoints.bind (·.sourceReference (H.normalizeExistingPath path)) with
    | some reference => [("sourceReference", jsonNat reference)] ++
        (path.fileName.map fun name => ("name", Json.string name)).toList
    | none => [])

def stackFrame (s : Session H) (stop : StopInfo) : Json :=
  .object ([("id", jsonNat FRAME_ID), ("name", .string s!"depth {stop.depth}"),
    ("line", jsonNat stop.line), ("column", jsonNat (max stop.column 1))] ++
    (stop.file.map fun path => ("source", s.frameSource path)).toList)

def onStackTrace (s : Session H) (request arguments : Json) : Session H :=
  match parseThreadId arguments with
  | .error error => s.respondError request error
  | .ok () =>
    let frames := (s.stoppedAt.map s.stackFrame).toList
    s.respond request
      (.object [("stackFrames", .array frames), ("totalFrames", jsonNat frames.length)])

def onSource (s : Session H) (request arguments : Json) : Session H :=
  match parseSourceReference arguments with
  | .error error => s.respondError request error
  | .ok reference =>
    match s.stopPoints.bind (·.sourceFile reference) with
    | none => s.respondError request sourceReferenceInvalid
    | some source => s.respond request
        (.object [("content", .string source.source), ("mimeType", .string "text/x-marrow")])

def scope (name : String) (reference : Nat) : Json :=
  .object [("name", .string name), ("variablesReference", jsonNat reference),
    ("expensive", .bool false)]

def onScopes (s : Session H) (request arguments : Json) : Session H :=
  match parseFrameId arguments with
  | .error error => s.respondError request error
  | .ok () =>
    if s.stoppedAt.isSome then
      s.respond request (.object
        [("scopes", .array [scope "Locals" LOCALS_REF, scope "Durable Data" DURABLE_REF])])
    else s.respondError request notStopped

def presentationHint : Json :=
  .object [("kind", .string "data"), ("attributes", .array [.string "readOnly"])]

/-- The members that say how many children a value has. -/
def countMembers (counts : Option ChildCounts) : List (String × Json) :=
  ((counts.bind (·.named)).map fun named => ("namedVariables", jsonNat named)).toList ++
    ((counts.bind (·.indexed)).map fun indexed => ("indexedVariables", jsonNat indexed)).toList

def truncatedMember (childrenTruncated : Option Bool) : List (String × Json) :=
  (childrenTruncated.map fun truncated =>
    ("marrowDebug", Json.object [("childrenTruncated", .bool truncated)])).toList

def variableJson (name value : String) (reference : Nat) (counts : Option ChildCounts)
    (childrenTruncated : Option Bool) : Json :=
  .object ([("name", .string name), ("value", .string value),
    ("presentationHint", presentationHint), ("variablesReference", jsonNat reference)] ++
    countMembers counts ++ truncatedMember childrenTruncated)

/-- A reference for a row that can be expanded, and zero for a leaf. -/
def refFor (s : Session H) (expandable : Option (Expandable H)) : Nat × Session H :=
  match expandable with
  | some expandable => s.allocRef expandable
  | none => (0, s)

def childVariable (storeSnapshot : Option H.StoreSnapshot) (s : Session H) (child : Child H) :
    Json × Session H :=
  let (reference, s) := s.refFor (child.expand.map (.value · storeSnapshot))
  (variableJson child.name child.value reference (child.expand.bind H.childCounts)
    child.childrenTruncated, s)

def dataVariable (s : Session H) (entry : DataVar H) : Json × Session H :=
  let (reference, s) := s.refFor (if entry.expandable then some (.dataPath entry.path) else none)
  (variableJson entry.name entry.value reference none entry.childrenTruncated, s)

/-- Rows one after the other, each with the references before it taken. -/
def rows {α : Type} (row : Session H → α → Json × Session H) (s : Session H) :
    List α → List Json × Session H
  | [] => ([], s)
  | entry :: entries =>
    let (json, s) := row s entry
    let (jsons, s) := rows row s entries
    (json :: jsons, s)

/-- The facts Marrow adds to a reply on saved data. -/
def boundaryMembers (s : Session H) (storeSnapshot : H.StoreSnapshot) : List (String × Json) :=
  let storeSnapshot := H.dataGenerationStampToJson storeSnapshot
  let generation := (s.running.bind (·.executionBoundary.get "sourceAnalysisGeneration")).getD .null
  [("storeSnapshot", storeSnapshot),
    ("debugDataBoundary", .object [("sourceAnalysisGeneration", generation),
      ("storeSnapshot", storeSnapshot)])]

def variablesBody (entries : List Json) (marrowDebug : List (String × Json)) : Json :=
  .object ([("variables", .array entries)] ++
    if marrowDebug = [] then [] else [("marrowDebug", .object marrowDebug)])

/-- The children of a value the client was given a reference for. -/
def valueVariables (s : Session H) (value : H.DebugValue) (storeSnapshot : Option H.StoreSnapshot)
    (page : ChildPage) (filter : VariablesFilter) : Json × Session H :=
  let (entries, s) :=
    rows (childVariable storeSnapshot) s ((H.children value page filter).map childFromDebug)
  (variablesBody entries ([("childrenTruncated", .bool (H.childrenTruncated value))] ++
    (storeSnapshot.map s.boundaryMembers).getD []), s)

def localsBody (s : Session H) (snapshot : LocalsSnapshot H) : Json × Session H :=
  let (entries, s) := rows (childVariable none) s snapshot.entries
  (variablesBody entries [("visibleLocalCount", jsonNat snapshot.visibleLocalCount),
    ("localsTruncated", .bool snapshot.localsTruncated)], s)

def dataBody (s : Session H) (snapshot : DataVariablesSnapshot H) : Json × Session H :=
  let (entries, s) := rows dataVariable s snapshot.entries
  (variablesBody entries ([("childrenTruncated", .bool snapshot.childrenTruncated)] ++
    s.boundaryMembers snapshot.storeSnapshot), s)

def evaluateBody (s : Session H) (snapshot : EvaluationSnapshot H) : Json × Session H :=
  let value := snapshot.value
  let counts := H.childCounts value
  let (reference, s) :=
    s.refFor (if counts.isSome then some (.value value snapshot.storeSnapshot) else none)
  let truncated : List (String × Json) :=
    if counts.isSome then [("childrenTruncated", .bool (H.childrenTruncated value))] else []
  let marrowDebug := truncated ++ (snapshot.storeSnapshot.map s.boundaryMembers).getD []
  (.object ([("result", .string (H.preview value)), ("variablesReference", jsonNat reference),
    ("presentationHint", presentationHint)] ++ countMembers counts ++
    if marrowDebug = [] then [] else [("marrowDebug", .object marrowDebug)]), s)

/-- The reply to a request that asked the run thread, `none` where no answer came. -/
def afterQuery (s : Session H) (request : Json) (query : Query H)
    (answer : Option (QueryResult H)) : Session H :=
  match query, answer with
  | .locals _ _, some (.locals snapshot) =>
    let (body, s) := s.localsBody snapshot
    s.respond request body
  | .dataChildren _ _, some (.dataChildren (.ok snapshot)) =>
    let (body, s) := s.dataBody snapshot
    s.respond request body
  | .dataChildren _ _, some (.dataChildren (.error error)) =>
    s.respondError request (variablesRuntime error)
  | .evaluate _, some (.evaluate (.ok snapshot)) =>
    let (body, s) := s.evaluateBody snapshot
    s.respond request body
  | .evaluate _, some (.evaluate (.error error)) => s.respondError request (evaluateRuntime error)
  | .evaluate _, _ => s.respondError request notStopped
  | _, _ => s.respond request (variablesBody [] [])

/-- `query`: only a parked run is asked. -/
def ask (s : Session H) (request : Json) (query : Query H) : Session H × Effect H :=
  if s.stoppedAt.isSome then (s, .query query) else (s.afterQuery request query none, .none)

def onVariables (s : Session H) (request arguments : Json) : Session H × Effect H :=
  match parseVariablesInput arguments s.supportsVariablePaging with
  | .error error => (s.respondError request error, .none)
  | .ok input =>
    if input.reference = LOCALS_REF then s.ask request (.locals input.page input.filter)
    else if input.reference = DURABLE_REF then s.ask request (.dataChildren [] input.page)
    else
      match s.expandables.lookup input.reference with
      | none => (s.respond request (variablesBody [] []), .none)
      | some (.value value storeSnapshot) =>
        let (body, s) := s.valueVariables value storeSnapshot input.page input.filter
        (s.respond request body, .none)
      | some (.dataPath path) => s.ask request (.dataChildren path input.page)

def checkedEvaluateExpression (s : Session H) (file : Path) (span : SourceSpan)
    (source : String) : Except DapInputError H.Expression :=
  match s.analysis with
  | none => .error notStopped
  | some analysis =>
    match H.checkedDebugExpression analysis file span source with
    | .ok expression => .ok expression
    | .error diagnostics => .error
        ⟨diagnosticMessage evaluateExpressionInvalid.message diagnostics,
          evaluateExpressionInvalid.contract⟩

/-- The file and span of the current stop. -/
def currentStopFileSpan (s : Session H) : Option (Path × SourceSpan) :=
  s.stoppedAt.bind fun stop => stop.file.map fun file => (file, stop.span)

def onEvaluate (s : Session H) (request arguments : Json) : Session H × Effect H :=
  match parseEvaluateInput arguments with
  | .error error => (s.respondError request error, .none)
  | .ok source =>
    match s.currentStopFileSpan with
    | none => (s.respondError request notStopped, .none)
    | some (file, span) =>
      match s.checkedEvaluateExpression file span source with
      | .error error => (s.respondError request error, .none)
      | .ok expression => s.ask request (.evaluate expression)

/-! ## Resuming -/

/-- Mark the parked run as resumed; the resume itself is sent by `flushResume`. -/
def resumeRun (s : Session H) (mode : Resume) : Session H :=
  { s with
    expandables := []
    running := s.running.map fun running =>
      { running with stoppedAt := none, pendingResume := some mode } }

def continued (s : Session H) : Session H :=
  s.event "continued"
    (.object [("threadId", jsonNat THREAD_ID), ("allThreadsContinued", .bool true)])

def onContinue (s : Session H) (request arguments : Json) : Session H :=
  match parseThreadId arguments with
  | .error error => s.respondError request error
  | .ok () =>
    match s.running with
    | none => s.respondError request notRunning
    | some running =>
      if running.stoppedAt.isNone then s.respondError request notStopped
      else
        (s.respond request (.object [("allThreadsContinued", .bool true)])).continued.resumeRun
          .continue

inductive StepKind where
  | over
  | into
  | out
  deriving DecidableEq, Repr

/-- The step target, relative to the depth of the stop. -/
def StepKind.mode (kind : StepKind) (depth : Nat) : Resume :=
  match kind with
  | .over => .over depth
  | .into => .into
  | .out => .out depth

def onStep (s : Session H) (request arguments : Json) (kind : StepKind) : Session H :=
  match parseThreadId arguments with
  | .error error => s.respondError request error
  | .ok () =>
    match s.stoppedAt with
    | none => s.respondError request notStopped
    | some stop => (s.respond request emptyObject).resumeRun (kind.mode stop.depth)

/-- A parked run resumes to the next statement; one that runs gets the flag raised. -/
def onPause (s : Session H) (request arguments : Json) : Session H × Effect H :=
  match parseThreadId arguments with
  | .error error => (s.respondError request error, .none)
  | .ok () =>
    match s.running with
    | none => (s.respondError request notRunning, .none)
    | some running =>
      if running.stoppedAt.isSome then
        ((s.respond request emptyObject).continued.resumeRun .pause, .none)
      else (s.respond request emptyObject, .pause)

/-! ## Ending -/

def onDisconnect (s : Session H) (request : Json) : Session H × Effect H :=
  (s.respond request emptyObject, .terminate)

def onTerminate (s : Session H) (request : Json) : Session H × Effect H :=
  if s.running.isNone then (s.respondError request notRunning, .none)
  else (s.respond request emptyObject, .terminate)

def output (s : Session H) (category text : String) : Session H :=
  s.event "output" (.object [("category", .string category), ("output", .string text)])

def exited (s : Session H) (exitCode : Nat) : Session H :=
  s.event "exited" (.object [("exitCode", jsonNat exitCode)])

def emitRunOutcome (s : Session H) (outcome : Outcome) : Session H :=
  let s := if outcome.output = "" then s else s.output "stdout" outcome.output
  match outcome.result with
  | .ok message =>
    (if message = "" then s else s.output "stdout" (message ++ "\n")).exited 0
  | .error message => (s.output "stderr" (message ++ "\n")).exited 1

def emitRunPanic (s : Session H) : Session H :=
  (s.output "stderr" "the debug run thread panicked\n").exited RUN_PANIC_EXIT_CODE

/-- The run is gone: the last event of the session. -/
def endRun (s : Session H) : Session H :=
  let s := s.event "terminated" emptyObject
  { s with running := none, done := true }

/-- The thread is joined: report how the run ended. -/
def finishRun (s : Session H) (result : RunEnd) : Session H :=
  match result with
  | .returned outcome => (s.emitRunOutcome outcome).endRun
  | .panicked => s.emitRunPanic.endRun

/-- The run did not unwind within the budget: leave it. -/
def detachRun (s : Session H) : Session H := s.endRun

/-- What `terminate_session` does to the session before it waits for the run. -/
def beginTerminate (s : Session H) : Session H :=
  { s with running := s.running.map fun running =>
      { running with stoppedAt := none, pendingResume := none, terminating := true } }

def logpointOutput (text : String) : String := if text.endsWith "\n" then text else text ++ "\n"

/-- A late stop of a run that is terminating is not told. -/
def handleRunEvent (s : Session H) : RunEvent H → Session H
  | .stopped info =>
    if s.running.any (·.terminating) then s
    else
      let s : Session H := { s with running := s.running.map fun running =>
        { running with stoppedAt := some info } }
      s.event "stopped" (.object [("reason", .string info.reason.asStr),
        ("threadId", jsonNat THREAD_ID), ("allThreadsStopped", .bool true)])
  | .output text => s.output "console" (logpointOutput text)
  | .answer _ => s

/-! ## Dispatch -/

/-- A handler that leaves nothing to do to the run thread. -/
def only (s : Session H) : Session H × Effect H := (s, .none)

def command (request : Json) : String := ((request.get "command").bind Json.asStr).getD ""

/-- `arguments_or_reject`. -/
def withArguments (s : Session H) (request : Json)
    (onCommand : Json → Session H × Effect H) : Session H × Effect H :=
  match requestArguments request with
  | .ok arguments => onCommand arguments
  | .error error => (s.respondError request error).only

/-- `handle`: every command checks its arguments first. -/
def handle (s : Session H) (w : LaunchWorld H) (request : Json) : Session H × Effect H :=
  match command request with
  | "initialize" => s.withArguments request fun arguments => (s.onInitialize request arguments).only
  | "launch" => s.withArguments request fun arguments => (s.onLaunch w request arguments).only
  | "setBreakpoints" => s.withArguments request fun arguments => s.onSetBreakpoints request arguments
  | "configurationDone" => s.withArguments request fun _ => s.onConfigurationDone w request
  | "threads" => s.withArguments request fun _ => (s.onThreads request).only
  | "stackTrace" => s.withArguments request fun arguments => (s.onStackTrace request arguments).only
  | "source" => s.withArguments request fun arguments => (s.onSource request arguments).only
  | "scopes" => s.withArguments request fun arguments => (s.onScopes request arguments).only
  | "variables" => s.withArguments request fun arguments => s.onVariables request arguments
  | "continue" => s.withArguments request fun arguments => (s.onContinue request arguments).only
  | "next" => s.withArguments request fun arguments => (s.onStep request arguments .over).only
  | "stepIn" => s.withArguments request fun arguments => (s.onStep request arguments .into).only
  | "stepOut" => s.withArguments request fun arguments => (s.onStep request arguments .out).only
  | "pause" => s.withArguments request fun arguments => s.onPause request arguments
  | "evaluate" => s.withArguments request fun arguments => s.onEvaluate request arguments
  | "disconnect" => s.withArguments request fun _ => s.onDisconnect request
  | "terminate" => s.withArguments request fun _ => s.onTerminate request
  | other => (s.respondError request (unsupportedRequest other)).only

end Session

end Dap

end MarrowLsp
