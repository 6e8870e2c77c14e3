-- SUMMARY: Breakpoints of the debug adapter: the requests a client makes, the set armed from them, and what an armed breakpoint does at a statement (session.rs, debugger.rs).
import MarrowLsp.Dap.Host
import MarrowLsp.Lib.Utf8

/-!
# Breakpoints

The session keeps what the client requested for each source. The run thread keeps the
set armed from it, and with each armed breakpoint how often it was hit.
-/
namespace MarrowLsp

namespace Dap

/-! ## Log messages -/

inductive LogMessagePart (Expression : Type) where
  | literal (value : String)
  | expression (expression : Expression)
  deriving DecidableEq, Repr

abbrev LogMessage (Expression : Type) := List (LogMessagePart Expression)

def literalParts (literal : List Char) : LogMessage String :=
  if literal = [] then [] else [.literal (String.ofList literal)]

/-- The loop of `parse_log_message`; every round but the last drops a brace, so the length
of the text is fuel enough. -/
def parseLogMessageFrom : Nat → List Char → Option (LogMessage String)
  | 0, _ => none
  | fuel + 1, rest =>
    let literal := rest.takeWhile (· ≠ '{')
    match rest.dropWhile (· ≠ '{') with
    | [] => if '}' ∈ rest then none else some (literalParts rest)
    | _ :: afterOpen =>
      if '}' ∈ literal then none
      else
        match afterOpen.dropWhile (· ≠ '}') with
        | [] => none
        | _ :: rest =>
          let expression := Utf8.trim (afterOpen.takeWhile (· ≠ '}'))
          if expression = [] then none
          else if rest.head? = some '}' then none
          else
            (parseLogMessageFrom fuel rest).map fun parts =>
              literalParts literal ++ .expression (String.ofList expression) :: parts

def parseLogMessage (value : String) : Option (LogMessage String) :=
  if value = "" then none else parseLogMessageFrom (value.length + 1) value.toList

/-! ## Requests -/

structure BreakpointSpec where
  condition : Option String
  hitTarget : Option (Fin (2 ^ 64))
  logMessage : Option (LogMessage String)
  deriving DecidableEq, Repr

inductive BreakpointRequest where
  | valid (spec : BreakpointSpec)
  | invalidCondition
  | invalidHitCondition
  | invalidLogMessage
  deriving DecidableEq, Repr

inductive RequestedBreakpoint where
  | valid (line : Nat) (request : BreakpointRequest)
  | invalidLine
  deriving DecidableEq, Repr

/-- A positive `u64` in decimal digits. -/
def parseHitCondition (value : String) : Option (Fin (2 ^ 64)) :=
  if value = "" || !value.toList.all Char.isDigit then none
  else
    let target := Nat.ofDigitChars 10 value.toList 0
    if h : target < 2 ^ 64 then if 0 < target then some ⟨target, h⟩ else none else none

/-- An optional string field: absent, a string that `parse` takes, or neither. -/
def optionalField {α : Type} (parse : String → Option α) : Option Json → Option (Option α)
  | none => some none
  | some .null => some none
  | some (.string value) => (parse value).map some
  | some _ => none

/-- A blank condition is no condition. -/
def parseCondition : Option Json → Option (Option String)
  | none => some none
  | some .null => some none
  | some (.string condition) =>
    some (if Utf8.trim condition.toList = [] then none else some condition)
  | some _ => none

def breakpointRequest (point : Json) : BreakpointRequest :=
  match parseCondition (point.get "condition") with
  | none => .invalidCondition
  | some condition =>
    match optionalField parseHitCondition (point.get "hitCondition") with
    | none => .invalidHitCondition
    | some hitTarget =>
      match optionalField parseLogMessage (point.get "logMessage") with
      | none => .invalidLogMessage
      | some logMessage => .valid ⟨condition, hitTarget, logMessage⟩

def requestedBreakpoint (point : Json) : RequestedBreakpoint :=
  match (point.get "line").bind Json.asU64 with
  | none => .invalidLine
  | some line =>
    if 0 < line && line < 2 ^ 32 then .valid line (breakpointRequest point) else .invalidLine

/-! ## Armed breakpoints -/

section Armed

variable {H : DebugHost}

structure ArmedBreakpoint (H : DebugHost) where
  line : Nat
  condition : Option H.Expression
  hitTarget : Option (Fin (2 ^ 64))
  logMessage : Option (LogMessage H.Expression)
  hits : Nat
  deriving DecidableEq

instance : LawfulBEq (ArmedBreakpoint H) := inferInstance

/-- `ArmedBreakpoint::new`: not hit yet. -/
def ArmedBreakpoint.new (line : Nat) (condition : Option H.Expression)
    (hitTarget : Option (Fin (2 ^ 64))) (logMessage : Option (LogMessage H.Expression)) : ArmedBreakpoint H :=
  ⟨line, condition, hitTarget, logMessage, 0⟩

structure BreakpointAction where
  outputs : List String
  stop : Bool
  deriving DecidableEq, Repr

namespace BreakpointAction

def default : BreakpointAction := ⟨[], false⟩

def merge (action next : BreakpointAction) : BreakpointAction :=
  ⟨action.outputs ++ next.outputs, action.stop || next.stop⟩

end BreakpointAction

/-- `CheckedLogMessage::render`. -/
def renderLogMessage (message : LogMessage H.Expression) (frame : Frame H) : String :=
  String.join (message.map fun
    | .literal value => value
    | .expression expression =>
      match frame.evaluateDebugExpression expression with
      | .ok value => H.preview value
      | .error error => s!"<{error.code}: {error.message}>")

namespace ArmedBreakpoint

/-- Whether a statement on this line qualifies: the condition, if any, evaluates to true. -/
def qualifies (breakpoint : ArmedBreakpoint H) (frame : Frame H) (line : Nat) : Bool :=
  breakpoint.line == line && breakpoint.condition.all fun condition =>
    match frame.evaluateDebugExpression condition with
    | .ok value => H.isTrue value
    | .error _ => false

/-- The breakpoint after a statement, and what it does there. `hits` saturates as a `u64`. -/
def evaluate (breakpoint : ArmedBreakpoint H) (frame : Frame H) (line : Nat) :
    ArmedBreakpoint H × Option BreakpointAction :=
  if breakpoint.qualifies frame line then
    let hits := min (breakpoint.hits + 1) (2 ^ 64 - 1)
    let breakpoint := { breakpoint with hits := hits }
    if breakpoint.hitTarget.any (hits ≠ ·.val) then (breakpoint, none)
    else
      match breakpoint.logMessage with
      | some message => (breakpoint, some ⟨[renderLogMessage message frame], false⟩)
      | none => (breakpoint, some ⟨[], true⟩)
  else (breakpoint, none)

end ArmedBreakpoint

/-- The armed breakpoints of each file. -/
abbrev ArmedBreakpoints (H : DebugHost) := Path → List (ArmedBreakpoint H)

namespace ArmedBreakpoints

def empty : ArmedBreakpoints H := fun _ => []

def insert (armed : ArmedBreakpoints H) (file : Path) (breakpoint : ArmedBreakpoint H) :
    ArmedBreakpoints H :=
  if breakpoint ∈ armed file then armed
  else fun other => if other = file then armed file ++ [breakpoint] else armed other

/-- The armed set after a statement, and what its breakpoints do there together. -/
def evaluate (armed : ArmedBreakpoints H) (frame : Frame H) (line : Nat) :
    ArmedBreakpoints H × BreakpointAction :=
  match frame.file with
  | none => (armed, .default)
  | some file =>
    let evaluated := (armed file).map fun breakpoint => breakpoint.evaluate frame line
    (fun other => if other = file then evaluated.map (·.1) else armed other,
      (evaluated.filterMap (·.2)).foldl .merge .default)

end ArmedBreakpoints

end Armed

/-! ## Stop points -/

structure RuntimeStop where
  file : Path
  span : SourceSpan
  deriving DecidableEq, Repr

structure DapSourceFile where
  canonicalPath : Path
  source : String
  deriving DecidableEq, Repr

/-- Where the program can stop, by canonical file and line, and the sources by reference. -/
structure StopPointIndex where
  stopsByCanonicalFile : Path → Nat → List RuntimeStop
  sourcesByReference : List DapSourceFile

namespace StopPointIndex

/-- The stops at a line that has some. -/
def stops (index : StopPointIndex) (source : Path) (line : Nat) : List RuntimeStop :=
  index.stopsByCanonicalFile source line

/-- References count from one. -/
def sourceFile (index : StopPointIndex) (reference : Nat) : Option DapSourceFile :=
  if reference = 0 then none else index.sourcesByReference[reference - 1]?

def sourceReference (index : StopPointIndex) (source : Path) : Option Nat :=
  (index.sourcesByReference.findIdx? fun file => file.canonicalPath == source).map (· + 1)

def registerSource (index : StopPointIndex) (canonicalPath : Path) (source : String) :
    StopPointIndex :=
  if index.sourcesByReference.any fun file => file.canonicalPath == canonicalPath then index
  else { index with sourcesByReference := index.sourcesByReference ++ [⟨canonicalPath, source⟩] }

def addStop (index : StopPointIndex) (canonicalPath : Path) (stop : RuntimeStop) :
    StopPointIndex :=
  { index with
    stopsByCanonicalFile := fun file line =>
      if file = canonicalPath ∧ line = stop.span.line then
        index.stopsByCanonicalFile file line ++ [stop]
      else index.stopsByCanonicalFile file line }

/-- `from_runtime`: `files` are the analyzed files with their sources, `points` the stop
points of the program whose file has a path. -/
def fromRuntime (H : DebugHost) (files : List (Path × String)) (points : List RuntimeStop) :
    StopPointIndex :=
  points.foldl
    (fun index point =>
      let canonicalPath := H.normalizeExistingPath point.file
      let index :=
        match files.reverse.find? fun file => H.normalizeExistingPath file.1 == canonicalPath with
        | some file => index.registerSource canonicalPath file.2
        | none => index
      index.addStop canonicalPath point)
    ⟨fun _ _ => [], []⟩

end StopPointIndex

end Dap

end MarrowLsp
