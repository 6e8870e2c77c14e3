-- SUMMARY: The agent tools and their dispatch (server.rs, mcp.rs), with every store a call opens.
import MarrowLsp.Core.Json
import MarrowLsp.Mcp.Project

/-!
# The tool server

`call` decodes a tool's arguments, loads the project it names and answers. A
reply is modelled by the facts it is rendered from; the rendering to JSON is left
out. `opens` lists every open of a project's native store in order.
-/
namespace MarrowLsp

variable {M : Marrow}

/-- The ways to open a project's native store. -/
inductive StoreOpen where
  /-- `ReadOnlyStoreView::open` of a store file. -/
  | view (path : Path)
  /-- `open_saved_data_session` of the project at the root. -/
  | savedData (root : Path)
  /-- `ProjectSurfaceReadSession::open`. -/
  | surfaceRead (root : Path)
  /-- `ProjectSurfaceSession::open`. -/
  | surfaceWrite (root : Path)
  deriving DecidableEq, Repr

/-- The launch policy; the run budget decides only what a run's reply is cut to. -/
structure Policy where
  allowRead : Bool
  allowWrite : Bool
  deriving DecidableEq, Repr

/-- The request types the tools decode their arguments to, and their decoders. -/
structure Wire where
  Segment : Type
  Key : Type
  SurfaceOperation : Type
  EntryArgument : Type
  decodeChildren : Json → Except String (List Segment × Nat × Option Key)
  decodeRead : Json → Except String (List Segment × Option Nat)
  decodeOperation : Json → Except String SurfaceOperation
  entryArguments : List Json → Except String (List EntryArgument)

inductive RunMode where
  | run
  | test
  deriving DecidableEq, Repr

inductive SurfaceRouteScope where
  | readOnly
  | all
  deriving DecidableEq, Repr

structure DataChildrenRequest (W : Wire) where
  segments : List W.Segment
  limit : Nat
  cursor : Option W.Key

structure DataReadRequest (W : Wire) where
  segments : List W.Segment
  previewLimit : Option Nat

/-- What a source tool asks of the analyzed project. -/
inductive SourceQuery where
  | check
  | typeAt (line character : Nat)
  | complete (line character : Nat)
  | namespaceComplete (qualifier : List String)
  | resourceSchema (name : String)
  | surfaceRoutes (scope : SurfaceRouteScope)
  deriving DecidableEq, Repr

/-- What a tool's reply is rendered from. -/
inductive Reply (M : Marrow) (W : Wire) where
  | snippet (source : Text)
  | source (query : SourceQuery) (facts : Option (Analysis M))
  | accessError (error : ProjectAccessError)
  | readDisabled
  | writeDisabled
  | noProject
  | surfaceRead (root : Path) (operation : W.SurfaceOperation)
  | surfaceWrite (root : Path) (operation : W.SurfaceOperation)
  | dataUnavailable (error : Option String)
  | savedRoots (root : Path)
  | dataChildren (root : Path) (request : DataChildrenRequest W)
  | dataRead (root : Path) (request : DataReadRequest W)
  | runArgsError (message : String)
  | run (root : Path) (mode : RunMode) (entry : Option String) (args : List W.EntryArgument)

/-- What one tool call returns, leaves in the transport's cache, and opens. -/
structure ToolResult (M : Marrow) (W : Wire) where
  reply : Except String (Reply M W)
  cache : CachedProject M
  opens : List StoreOpen

/-! ## Arguments -/

def requiredStr (arguments : Json) (key : String) : Except String String :=
  match (arguments.get key).bind Json.asStr with
  | some value => .ok value
  | none => .error s!"missing or non-string argument `{key}`"

def optionalStr (arguments : Json) (key : String) : Except String (Option String) :=
  match arguments.get key with
  | none => .ok none
  | some .null => .ok none
  | some (.string value) => .ok (some value)
  | some _ => .error s!"argument `{key}` must be a string when present"

def optionalBool (arguments : Json) (key : String) : Except String Bool :=
  match arguments.get key with
  | none => .ok false
  | some .null => .ok false
  | some (.bool value) => .ok value
  | some _ => .error s!"argument `{key}` must be a boolean when present"

/-- An optional array argument, empty when absent; a present `null` is an error. -/
def optionalArray (arguments : Json) (key : String) : Except String (List Json) :=
  match arguments.get key with
  | some value =>
    match value.asArray with
    | some values => .ok values
    | none => .error s!"missing or non-array argument `{key}`"
  | none => .ok []

def invalidQualifier : String :=
  "invalid mw_namespace_complete arguments: `qualifier` must be a non-empty array of non-empty string segments"

/-- Whether a name contains the `::` separator. -/
def containsSeparator : List Char → Bool
  | ':' :: ':' :: _ => true
  | _ :: rest => containsSeparator rest
  | [] => false

def namespaceQualifier (arguments : Json) : Except String (List String) :=
  match arguments.get "qualifier" with
  | some (.array values) =>
    if values.isEmpty then .error invalidQualifier
    else values.mapM fun value =>
      match value.asStr with
      | some segment =>
        if !segment.isEmpty && !containsSeparator segment.toList then .ok segment
        else .error invalidQualifier
      | none => .error invalidQualifier
  | _ => .error invalidQualifier

def requiredObject (arguments : Json) (key : String) : Except String Json :=
  match arguments.get key with
  | some (.object members) => .ok (.object members)
  | _ => .error s!"missing or non-object argument `{key}`"

def requiredPath (arguments : Json) (key : String) : Except String Path :=
  (requiredStr arguments key).map Path.ofString

def optionalPath (arguments : Json) (key : String) : Except String (Option Path) :=
  (optionalStr arguments key).map fun value => value.map Path.ofString

def requiredU32 (arguments : Json) (key : String) : Except String Nat :=
  match ((arguments.get key).bind Json.asU64).filter (· < 2 ^ 32) with
  | some value => .ok value
  | none => .error s!"missing or out-of-range integer argument `{key}`"

def validateDataChildrenRequest {W : Wire} (request : DataChildrenRequest W) :
    Except String (DataChildrenRequest W) :=
  if request.segments.isEmpty then .error "`segments` must not be empty"
  else if request.limit = 0 then .error "`limit` must be at least 1"
  else .ok request

def validateDataReadRequest {W : Wire} (request : DataReadRequest W) :
    Except String (DataReadRequest W) :=
  if request.segments.isEmpty then .error "`segments` must not be empty"
  else if request.previewLimit = some 0 then .error "`preview_limit` must be at least 1"
  else .ok request

def dataChildrenRequest (W : Wire) (arguments : Json) : Except String (DataChildrenRequest W) :=
  match W.decodeChildren arguments with
  | .error error => .error s!"invalid mw_data_children arguments: {error}"
  | .ok (segments, limit, cursor) =>
    (validateDataChildrenRequest ⟨segments, limit, cursor⟩).mapError fun error =>
      s!"invalid mw_data_children arguments: {error}"

def dataReadRequest (W : Wire) (arguments : Json) : Except String (DataReadRequest W) :=
  match W.decodeRead arguments with
  | .error error => .error s!"invalid mw_data_read arguments: {error}"
  | .ok (segments, previewLimit) =>
    (validateDataReadRequest ⟨segments, previewLimit⟩).mapError fun error =>
      s!"invalid mw_data_read arguments: {error}"

/-! ## The tools -/

namespace Mcp

section Tools

variable {W : Wire} (allowedRoot : Option Path) (c : CachedProject M) (w : World M)

/-- A source tool: load the project, then answer from the snapshot or program the
query reads. `mw_type_at` builds the binding index. -/
def sourceTool (file : Path) (source : Option Text) (query : SourceQuery) : ToolResult M W :=
  let load := c.withLoadedProject allowedRoot w file source
  let opens := load.opens.map StoreOpen.view
  match load.result with
  | .error e => ⟨.ok (.accessError e), load.cache, opens⟩
  | .ok () =>
    let ws := load.cache.workspace
    match query with
    | .typeAt line character =>
      ⟨.ok (.source (.typeAt line character) ws.latest),
        { load.cache with workspace := ws.withBindingIndex }, opens⟩
    | .resourceSchema name => ⟨.ok (.source (.resourceSchema name) ws.program), load.cache, opens⟩
    | .surfaceRoutes scope => ⟨.ok (.source (.surfaceRoutes scope) ws.program), load.cache, opens⟩
    | query => ⟨.ok (.source query ws.latest), load.cache, opens⟩

/-- `mw_check`: a file of a project, or a bare snippet. -/
def check (file : Option Path) (source : Option Text) : ToolResult M W :=
  match file with
  | some file => sourceTool allowedRoot c w file source .check
  | none => ⟨.ok (.snippet (source.getD [])), c, []⟩

def typeAtPosition (file : Path) (line character : Nat) : ToolResult M W :=
  sourceTool allowedRoot c w file none (.typeAt line character)

def complete (file : Path) (line character : Nat) : ToolResult M W :=
  sourceTool allowedRoot c w file none (.complete line character)

def namespaceComplete (file : Path) (qualifier : List String) : ToolResult M W :=
  sourceTool allowedRoot c w file none (.namespaceComplete qualifier)

def resourceSchema (file : Path) (name : String) : ToolResult M W :=
  sourceTool allowedRoot c w file none (.resourceSchema name)

def surfaceRoutes (file : Path) (scope : SurfaceRouteScope) : ToolResult M W :=
  sourceTool allowedRoot c w file none (.surfaceRoutes scope)

/-- Load the project and open its surface session, which opens the store. -/
def surfaceTool (file : Path) (opened : Path → StoreOpen) (reply : Path → Reply M W) :
    ToolResult M W :=
  let load := c.withLoadedProject allowedRoot w file none
  let opens := load.opens.map StoreOpen.view
  match load.result with
  | .error e => ⟨.ok (.accessError e), load.cache, opens⟩
  | .ok () =>
    match load.cache.workspace.project with
    | none => ⟨.ok .noProject, load.cache, opens⟩
    | some project => ⟨.ok (reply project.root), load.cache, opens ++ [opened project.root]⟩

def surfaceRead (file : Path) (operation : Json) (access : Bool) : ToolResult M W :=
  if !access then ⟨.ok .readDisabled, c, []⟩
  else
    match W.decodeOperation operation with
    | .error error => ⟨.error s!"invalid mw_surface_read operation: {error}", c, []⟩
    | .ok request =>
      surfaceTool allowedRoot c w file .surfaceRead fun root => .surfaceRead root request

def surfaceWrite (file : Path) (operation : Json) (access : Bool) : ToolResult M W :=
  if !access then ⟨.ok .writeDisabled, c, []⟩
  else
    match W.decodeOperation operation with
    | .error error => ⟨.error s!"invalid mw_surface_write operation: {error}", c, []⟩
    | .ok request =>
      surfaceTool allowedRoot c w file .surfaceWrite fun root => .surfaceWrite root request

/-- A saved-data tool: load the project and open a saved-data session when the
project has an inspectable store. -/
def dataTool (file : Path) (access : Bool) (reply : Path → Reply M W) : ToolResult M W :=
  if !access then ⟨.ok .readDisabled, c, []⟩
  else
    let load := c.withLoadedProject allowedRoot w file none
    let opens := load.opens.map StoreOpen.view
    match load.result with
    | .error e => ⟨.ok (.accessError e), load.cache, opens⟩
    | .ok () =>
      match load.cache.workspace.project with
      | none => ⟨.ok (.dataUnavailable (some "no project resolved for the file")), load.cache, opens⟩
      | some project =>
        match M.dataViewUnavailableReason project.root project.config with
        | .error e => ⟨.ok (.dataUnavailable (some (M.ioMessage e))), load.cache, opens⟩
        | .ok (some _) => ⟨.ok (.dataUnavailable none), load.cache, opens⟩
        | .ok none =>
          ⟨.ok (reply project.root), load.cache, opens ++ [.savedData project.root]⟩

def savedRoots (file : Path) (access : Bool) : ToolResult M W :=
  dataTool allowedRoot c w file access .savedRoots

def dataChildren (file : Path) (request : DataChildrenRequest W) (access : Bool) :
    ToolResult M W :=
  dataTool allowedRoot c w file access fun root => .dataChildren root request

def dataRead (file : Path) (request : DataReadRequest W) (access : Bool) : ToolResult M W :=
  dataTool allowedRoot c w file access fun root => .dataRead root request

/-- `mw_run`: on its watchdog thread, with a cache of its own. The session it
then runs holds a fresh in-memory store. -/
def run (file : Path) (entry : Option String) (args : List Json) (mode : RunMode) :
    ToolResult M W :=
  match W.entryArguments args with
  | .error message => ⟨.ok (.runArgsError message), c, []⟩
  | .ok args =>
    if mode = .test && !args.isEmpty then
      ⟨.ok (.runArgsError "mw_run test mode does not accept entry args"), c, []⟩
    else
      let load := CachedProject.new.withLoadedProject allowedRoot w file none
      let opens := load.opens.map StoreOpen.view
      match load.result with
      | .error e => ⟨.ok (.accessError e), c, opens⟩
      | .ok () =>
        match load.cache.workspace.project with
        | none => ⟨.ok (.accessError (.load "no project resolved for the file")), c, opens⟩
        | some project => ⟨.ok (.run project.root mode entry args), c, opens⟩

/-- A tool behind its argument decoding. -/
def withArguments {α : Type} (arguments : Except String α) (tool : α → ToolResult M W) :
    ToolResult M W :=
  match arguments with
  | .error message => ⟨.error message, c, []⟩
  | .ok decoded => tool decoded

def checkArguments (arguments : Json) : Except String (Option Path × Option Text) := do
  let file ← optionalPath arguments "file"
  let source ← optionalStr arguments "source"
  if file.isNone && source.isNone then
    throw "mw_check needs a `file` or a `source`"
  return (file, source.map (·.toList))

def positionArguments (arguments : Json) : Except String (Path × Nat × Nat) := do
  let file ← requiredPath arguments "file"
  let line ← requiredU32 arguments "line"
  let character ← requiredU32 arguments "character"
  return (file, line, character)

/-- A required file and one further argument. -/
def fileAnd {α : Type} (arguments : Json) (rest : Except String α) : Except String (Path × α) := do
  let file ← requiredPath arguments "file"
  let rest ← rest
  return (file, rest)

def runMode (mode : Option String) : Except String RunMode :=
  match mode with
  | some "test" => .ok .test
  | some "run" => .ok .run
  | none => .ok .run
  | some other => .error s!"unknown run mode `{other}`; use `run` or `test`"

def runArguments (arguments : Json) :
    Except String (Path × Option String × List Json × RunMode) := do
  let file ← requiredPath arguments "file"
  let entry ← optionalStr arguments "entry"
  let args ← optionalArray arguments "args"
  let mode ← optionalStr arguments "mode"
  let mode ← runMode mode
  return (file, entry, args, mode)

/-- `server::call`. -/
def call (policy : Policy) (name : String) (arguments : Json) : ToolResult M W :=
  match name with
  | "mw_check" => withArguments c (checkArguments arguments) fun (file, source) =>
      check allowedRoot c w file source
  | "mw_type_at" => withArguments c (positionArguments arguments) fun (file, line, character) =>
      typeAtPosition allowedRoot c w file line character
  | "mw_complete" => withArguments c (positionArguments arguments) fun (file, line, character) =>
      complete allowedRoot c w file line character
  | "mw_namespace_complete" =>
    withArguments c (fileAnd arguments (namespaceQualifier arguments)) fun (file, qualifier) =>
      namespaceComplete allowedRoot c w file qualifier
  | "mw_resource_schema" =>
    withArguments c (fileAnd arguments (requiredStr arguments "name")) fun (file, name) =>
      resourceSchema allowedRoot c w file name
  | "mw_surface_routes" =>
    withArguments c (fileAnd arguments (optionalBool arguments "includeWrites"))
      fun (file, includeWrites) =>
        surfaceRoutes allowedRoot c w file (if includeWrites then .all else .readOnly)
  | "mw_surface_read" =>
    withArguments c (fileAnd arguments (requiredObject arguments "operation"))
      fun (file, operation) => surfaceRead allowedRoot c w file operation policy.allowRead
  | "mw_surface_write" =>
    withArguments c (fileAnd arguments (requiredObject arguments "operation"))
      fun (file, operation) => surfaceWrite allowedRoot c w file operation policy.allowWrite
  | "mw_saved_roots" => withArguments c (requiredPath arguments "file") fun file =>
      savedRoots allowedRoot c w file policy.allowRead
  | "mw_data_children" =>
    withArguments c (fileAnd arguments (dataChildrenRequest W arguments)) fun (file, request) =>
      dataChildren allowedRoot c w file request policy.allowRead
  | "mw_data_read" =>
    withArguments c (fileAnd arguments (dataReadRequest W arguments)) fun (file, request) =>
      dataRead allowedRoot c w file request policy.allowRead
  | "mw_run" => withArguments c (runArguments arguments) fun (file, entry, args, mode) =>
      run allowedRoot c w file entry args mode
  | other => ⟨.error s!"unknown tool `{other}`", c, []⟩

end Tools

end Mcp

end MarrowLsp
