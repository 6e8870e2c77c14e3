-- SUMMARY: The messages of the debug adapter: its errors, the replies and events it writes, and how it reads the arguments of a request (session.rs).
import Mathlib.Algebra.Group.Int.Defs
import MarrowLsp.Dap.Breakpoints

/-!
# Messages

Every argument parser gives its value or the message and contract of the error that the
request is answered with.
-/
namespace MarrowLsp

namespace Dap

/-! ## Errors -/

structure DapError where
  code : String
  status : String
  blockedOn : Option String
  deriving DecidableEq, Repr

def STATUS_INVALID_PARAMS : String := "invalid-params"
def STATUS_INVALID_STATE : String := "invalid-state"
def STATUS_RUNTIME_ERROR : String := "runtime-error"
def STATUS_UNSUPPORTED_REQUEST : String := "unsupported-request"
def STATUS_INVALID_PROJECT : String := "invalid-project"

namespace DapError

def new (code status : String) : DapError := ⟨code, status, none⟩

def metadata (error : DapError) : Json :=
  .object ([("code", .string error.code), ("status", .string error.status)] ++
    (error.blockedOn.map fun blockedOn => ("blockedOn", Json.string blockedOn)).toList)

end DapError

/-- The message of an error and its contract. -/
structure DapInputError where
  message : String
  contract : DapError
  deriving DecidableEq, Repr

def unsupportedRequest (command : String) : DapInputError :=
  ⟨s!"unsupported request `{command}`", .new "dap.unsupportedRequest" STATUS_UNSUPPORTED_REQUEST⟩

def argumentsInvalid : DapInputError :=
  ⟨"request arguments must be an object", .new "dap.arguments.invalid" STATUS_INVALID_PARAMS⟩

def launchProjectInvalid : DapInputError :=
  ⟨"launch needs a non-empty `project` directory",
    .new "dap.launchProject.invalid" STATUS_INVALID_PARAMS⟩

def launchArgsInvalid (message : String) : DapInputError :=
  ⟨message, .new "dap.launchArgs.invalidType" STATUS_INVALID_PARAMS⟩

def launchEntryInvalid : DapInputError :=
  ⟨"`entry` must be a string when present",
    .new "dap.launchEntry.invalidType" STATUS_INVALID_PARAMS⟩

def launchStopOnEntryInvalid : DapInputError :=
  ⟨"`stopOnEntry` must be a boolean",
    .new "dap.launchStopOnEntry.invalidType" STATUS_INVALID_PARAMS⟩

def launchAlreadyConfigured : DapInputError :=
  ⟨"launch is already configured or running",
    .new "dap.launch.alreadyConfigured" STATUS_INVALID_STATE⟩

def breakpointUnverified : DapInputError :=
  ⟨"breakpoint verification requires launch configuration",
    .new "dap.breakpoint.unverified" STATUS_INVALID_STATE⟩

def breakpointConditionInvalid : DapInputError :=
  ⟨"invalid conditional breakpoint expression",
    .new "dap.breakpoint.conditionInvalid" STATUS_INVALID_PARAMS⟩

def breakpointHitConditionInvalid : DapInputError :=
  ⟨"hitCondition must be a positive integer string",
    .new "dap.breakpoint.hitConditionInvalid" STATUS_INVALID_PARAMS⟩

def breakpointLogMessageInvalid : DapInputError :=
  ⟨"invalid logMessage expression", .new "dap.breakpoint.logMessageInvalid" STATUS_INVALID_PARAMS⟩

def breakpointSourceInvalid : DapInputError :=
  ⟨"missing or invalid breakpoint source",
    .new "dap.breakpoint.sourceInvalid" STATUS_INVALID_PARAMS⟩

def breakpointSourceReferenceInvalid : DapInputError :=
  ⟨"unknown DAP sourceReference",
    .new "dap.breakpoint.sourceReferenceInvalid" STATUS_INVALID_PARAMS⟩

def breakpointsInvalid : DapInputError :=
  ⟨"`breakpoints` must be an array", .new "dap.breakpoint.breakpointsInvalid" STATUS_INVALID_PARAMS⟩

def breakpointInvalidLine : DapInputError :=
  ⟨"missing or invalid breakpoint line", .new "dap.breakpoint.invalidLine" STATUS_INVALID_PARAMS⟩

def breakpointNoStopPoint : DapInputError :=
  ⟨"no executable Marrow stop point at this source line",
    .new "dap.breakpoint.noStopPoint" STATUS_INVALID_PARAMS⟩

def configurationNotReady : DapInputError :=
  ⟨"configurationDone before a launch", .new "dap.launch.notConfigured" STATUS_INVALID_STATE⟩

def runInvalid (message : String) : DapInputError :=
  ⟨message, .new "dap.run.invalid" STATUS_RUNTIME_ERROR⟩

def notRunning : DapInputError := ⟨"not running", .new "dap.notRunning" STATUS_INVALID_STATE⟩

def notStopped : DapInputError := ⟨"not stopped", .new "dap.notStopped" STATUS_INVALID_STATE⟩

def evaluateExpressionInvalid : DapInputError :=
  ⟨"missing or invalid evaluate expression",
    .new "dap.evaluate.expressionInvalid" STATUS_INVALID_PARAMS⟩

def evaluateContextInvalid : DapInputError :=
  ⟨"invalid evaluate context", .new "dap.evaluate.contextInvalid" STATUS_INVALID_PARAMS⟩

def evaluateRuntime (error : RuntimeErrorDetail) : DapInputError :=
  ⟨s!"{error.code}: {error.message}", .new "dap.evaluate.runtimeError" STATUS_RUNTIME_ERROR⟩

def sourceReferenceInvalid : DapInputError :=
  ⟨"missing or unknown DAP sourceReference",
    .new "dap.source.sourceReferenceInvalid" STATUS_INVALID_PARAMS⟩

def variablesReferenceInvalid : DapInputError :=
  ⟨"missing or invalid variablesReference",
    .new "dap.variables.referenceInvalid" STATUS_INVALID_PARAMS⟩

def variablesPageInvalid : DapInputError :=
  ⟨"invalid variables paging arguments", .new "dap.variables.pageInvalid" STATUS_INVALID_PARAMS⟩

def variablesFilterInvalid : DapInputError :=
  ⟨"invalid variables filter", .new "dap.variables.filterInvalid" STATUS_INVALID_PARAMS⟩

def variablesRuntime (error : RuntimeErrorDetail) : DapInputError :=
  ⟨s!"{error.code}: {error.message}", .new "dap.variables.runtimeError" STATUS_RUNTIME_ERROR⟩

def threadIdInvalid : DapInputError :=
  ⟨"missing or invalid threadId", .new "dap.threadId.invalid" STATUS_INVALID_PARAMS⟩

def frameIdInvalid : DapInputError :=
  ⟨"missing or invalid frameId", .new "dap.frameId.invalid" STATUS_INVALID_PARAMS⟩

/-! ## Launch errors -/

def CONFIG_FILE : String := "marrow.json"

/-- `project::LaunchError`; the project directory is given as it is printed. -/
inductive LaunchError where
  | noProject (dir : String)
  | config (message : String)
  | session (message : String)
  | entry (message : String)
  | entryArgs (message : String)
  | entryChanged
  | analysisChanged (message : String)
  | noEntry
  | readAdmissionInvalid
  | checkErrors (errors : List String)
  deriving DecidableEq, Repr

namespace LaunchError

def message : LaunchError → String
  | noProject dir => s!"no {CONFIG_FILE} found at {dir}"
  | config message => s!"invalid {CONFIG_FILE}: {message}"
  | session message => s!"could not open the debug session: {message}"
  | entry message => s!"invalid launch entry: {message}"
  | entryArgs message => s!"invalid launch args: {message}"
  | entryChanged => "launch target changed between launch and configurationDone; launch again"
  | analysisChanged message => s!"{message}; launch again"
  | noEntry => s!"no entry to run: pass `entry` or configure `defaultEntry` in {CONFIG_FILE}"
  | readAdmissionInvalid => "DAP launch cannot admit the committed store for read-only debug; " ++
      "use Marrow's production data flow before launching"
  | checkErrors errors => "the project has errors: " ++ "; ".intercalate errors

def code : LaunchError → String
  | noProject _ => "dap.launchProject.invalid"
  | config _ => "dap.launchProject.invalid"
  | session _ => "dap.launchProject.invalid"
  | checkErrors _ => "dap.launchProject.invalid"
  | entry _ => "dap.launchEntry.invalid"
  | noEntry => "dap.launchEntry.invalid"
  | entryArgs _ => "dap.launchArgs.invalid"
  | entryChanged => "dap.launch.changed"
  | analysisChanged _ => "dap.launchAnalysis.changed"
  | readAdmissionInvalid => "dap.launchReadAdmission.invalid"

def status : LaunchError → String
  | entry _ => STATUS_INVALID_PARAMS
  | entryArgs _ => STATUS_INVALID_PARAMS
  | entryChanged => STATUS_INVALID_STATE
  | analysisChanged _ => STATUS_INVALID_STATE
  | _ => STATUS_INVALID_PROJECT

/-- The error a launch request is answered with. -/
def toInputError (error : LaunchError) : DapInputError :=
  ⟨error.message, .new error.code error.status⟩

end LaunchError

/-! ## Replies and events -/

inductive Message where
  | response (seq : Nat) (requestSeq command : Json) (success : Bool) (message : Option String)
      (body : Json)
  | event (seq : Nat) (name : String) (body : Json)

def Message.seq : Message → Nat
  | response seq .. => seq
  | event seq .. => seq

/-- A number in a reply. -/
def jsonNat (n : Nat) : Json := .number (.posInt n)

def emptyObject : Json := .object []

/-! ## Arguments -/

def asI64 : Json → Option Int
  | .number (.posInt n) => if n < 2 ^ 63 then some n else none
  | .number (.negInt n) => if -(2 ^ 63) ≤ n then some n else none
  | _ => none

def requestArguments (request : Json) : Except DapInputError Json :=
  match request.get "arguments" with
  | none => .ok emptyObject
  | some .null => .ok emptyObject
  | some (.object members) => .ok (.object members)
  | some _ => .error argumentsInvalid

/-- An id of which there is only one. -/
def parseSingletonId (arguments : Json) (field : String) (expected : Int) (error : DapInputError) :
    Except DapInputError Unit :=
  if (arguments.get field).bind asI64 = some expected then .ok () else .error error

def THREAD_ID : Nat := 1
def FRAME_ID : Nat := 1

def parseThreadId (arguments : Json) : Except DapInputError Unit :=
  parseSingletonId arguments "threadId" THREAD_ID threadIdInvalid

def parseFrameId (arguments : Json) : Except DapInputError Unit :=
  parseSingletonId arguments "frameId" FRAME_ID frameIdInvalid

/-- A reference counts from one. -/
def parseReference (arguments : Json) (field : String) (error : DapInputError) :
    Except DapInputError Nat :=
  match (arguments.get field).bind asI64 with
  | some (.ofNat (reference + 1)) => .ok (reference + 1)
  | _ => .error error

def parseSourceReference (arguments : Json) : Except DapInputError Nat :=
  parseReference arguments "sourceReference" sourceReferenceInvalid

def parseVariablesReference (arguments : Json) : Except DapInputError Nat :=
  parseReference arguments "variablesReference" variablesReferenceInvalid

def optionalUsize (arguments : Json) (key : String) : Except DapInputError (Option Nat) :=
  match arguments.get key with
  | none => .ok none
  | some .null => .ok none
  | some (.number number) =>
    match (Json.number number).asU64 with
    | some value => .ok (some value)
    | none => .error variablesPageInvalid
  | some _ => .error variablesPageInvalid

/-- Both numbers are checked also where the client does not page. -/
def parseChildPage (arguments : Json) (supportsVariablePaging : Bool) :
    Except DapInputError ChildPage := do
  let start ← optionalUsize arguments "start"
  let count ← optionalUsize arguments "count"
  if supportsVariablePaging then .ok (.requested (start.getD 0) count) else .ok (.all 0)

def parseVariablesFilter (arguments : Json) : Except DapInputError VariablesFilter :=
  match arguments.get "filter" with
  | none => .ok .all
  | some .null => .ok .all
  | some (.string "named") => .ok .named
  | some (.string "indexed") => .ok .indexed
  | some _ => .error variablesFilterInvalid

structure VariablesInput where
  reference : Nat
  page : ChildPage
  filter : VariablesFilter
  deriving DecidableEq, Repr

def parseVariablesInput (arguments : Json) (supportsVariablePaging : Bool) :
    Except DapInputError VariablesInput := do
  let reference ← parseVariablesReference arguments
  let page ← parseChildPage arguments supportsVariablePaging
  let filter ← parseVariablesFilter arguments
  .ok ⟨reference, page, filter⟩

/-- The expression to evaluate. -/
def parseEvaluateInput (arguments : Json) : Except DapInputError String :=
  match (arguments.get "expression").bind Json.asStr with
  | none => .error evaluateExpressionInvalid
  | some expression =>
    if Utf8.trim expression.toList = [] then .error evaluateExpressionInvalid
    else
      match arguments.get "context" with
      | none => .ok expression
      | some context =>
        if context.asStr ∈ [some "watch", some "repl", some "hover"] then .ok expression
        else .error evaluateContextInvalid

/-- Where breakpoints are set: a path, or a source the adapter numbered. -/
inductive BreakpointSource where
  | path (path : Path)
  | sourceReference (reference : Nat)
  deriving DecidableEq, Repr

def breakpointSource (H : DebugHost) (arguments : Json) : Except DapInputError BreakpointSource :=
  match arguments.get "source" with
  | some (.object members) =>
    let source := Json.object members
    match parseReference source "sourceReference" breakpointSourceInvalid with
    | .ok reference => .ok (.sourceReference reference)
    | .error _ =>
      match (source.get "path").bind Json.asStr with
      | some path => .ok (.path (H.normalizeExistingPath (Path.ofString path)))
      | none => .error breakpointSourceInvalid
  | _ => .error breakpointSourceInvalid

def requestedBreakpoints (arguments : Json) : Except DapInputError (List RequestedBreakpoint) :=
  match arguments.get "breakpoints" with
  | none => .ok []
  | some (.array points) => .ok (points.map requestedBreakpoint)
  | some _ => .error breakpointsInvalid

def parseProject (arguments : Json) : Except DapInputError String :=
  match arguments.get "project" with
  | some (.string project) =>
    if Utf8.trim project.toList = [] then .error launchProjectInvalid else .ok project
  | _ => .error launchProjectInvalid

def parseEntry (arguments : Json) : Except DapInputError (Option String) :=
  match arguments.get "entry" with
  | none => .ok none
  | some .null => .ok none
  | some (.string entry) => .ok (some entry)
  | some _ => .error launchEntryInvalid

def parseStopOnEntry (arguments : Json) : Except DapInputError Bool :=
  match arguments.get "stopOnEntry" with
  | none => .ok false
  | some .null => .ok false
  | some (.bool stopOnEntry) => .ok stopOnEntry
  | some _ => .error launchStopOnEntryInvalid

/-- The arguments themselves go to Marrow; only their errors are the adapter's. -/
def parseLaunchArgs (H : DebugHost) : Option Json → Except DapInputError Unit
  | none => .ok ()
  | some (.array items) =>
    match H.entryArgumentsFromJson items with
    | .ok () => .ok ()
    | .error message => .error (launchArgsInvalid message)
  | some _ => .error (launchArgsInvalid "`args` must be an array")

end Dap

end MarrowLsp
