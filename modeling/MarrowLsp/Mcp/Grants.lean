-- SUMMARY: What a tool call does to the world, and that it does nothing and depends on nothing without the grant it needs.
import MarrowLsp.Mcp.StoreAccess

/-!
# Grants

`Mcp.call` decides which reply a call renders; performing the reply is what reads
the store or changes it. The refusals of the data tools stand before the first
look at the world, so two runs of an ungranted call cannot be told apart.
-/
namespace MarrowLsp

open Transition

variable {M : Marrow} {W : Wire}

/-- The identity of a store at one commit. -/
structure StoreStamp where
  storeUid : String
  catalogEpoch : Nat
  commitId : Nat
  deriving DecidableEq, Repr

/-- One line of the write-audit trail. The operation's tag, kind and target are
read off the operation. -/
structure WriteAuditRecord (W : Wire) where
  timestampMs : Nat
  operation : W.SurfaceOperation
  file : Path
  succeeded : Bool
  storeBefore : Option StoreStamp
  storeAfter : Option StoreStamp

/-- The executors of the Marrow crates, on the world they find. The ones that may
change it return the world they leave. -/
structure Executors (M : Marrow) (W : Wire) where
  ReadSession : Type
  Session : Type
  Response : Type
  SurfaceError : Type
  Value : Type
  unixMillisNow : World M → Nat
  /-- `ProjectSurfaceReadSession::open`, its stamp and its executor. -/
  openRead : World M → Path → Except String ReadSession
  readStamp : World M → ReadSession → Except String StoreStamp
  executeReadOnly : World M → ReadSession → W.SurfaceOperation → Except SurfaceError Response
  /-- `ProjectSurfaceSession::open`, its stamp and `execute_project_surface_operation`. -/
  openWritable : World M → Path → World M × Except String Session
  stamp : World M → Session → Except String StoreStamp
  execute : World M → Session → W.SurfaceOperation → World M × Except SurfaceError Response
  appendWriteAudit : World M → Path → WriteAuditRecord W → World M × Option String
  /-- The saved-data reads, each of one session on the project at the root. -/
  savedRoots : World M → Path → Value
  dataChildren : World M → Path → DataChildrenRequest W → Value
  dataRead : World M → Path → DataReadRequest W → Value
  /-- A run of the project, over stores of its own. -/
  run : World M → Path → RunMode → Option String → List W.EntryArgument → World M × Value

/-- What a tool answers: facts of an analysis or a refusal, the outcome of a
surface operation with its audit, or what a session read. -/
inductive Answer (X : Executors M W) where
  | reply (reply : Reply M W)
  | surfaceError (message : String)
  | surface (stamp : Option StoreStamp) (outcome : Except X.SurfaceError X.Response)
      (audit : Option (WriteAuditRecord W × Option String))
  | value (value : X.Value)

/-- What performing a reply answers, leaves, and executes on a writable store. -/
structure Performed (X : Executors M W) where
  answer : Answer X
  world : World M
  executed : List (Path × W.SurfaceOperation)

namespace Executors

variable (X : Executors M W)

def performRead (w : World M) (root : Path) (operation : W.SurfaceOperation) : Performed X :=
  match X.openRead w root with
  | .error message => ⟨.surfaceError message, w, []⟩
  | .ok session =>
    match X.readStamp w session with
    | .error message => ⟨.surfaceError message, w, []⟩
    | .ok stamp => ⟨.surface (some stamp) (X.executeReadOnly w session operation) none, w, []⟩

/-- Execute on a writable session and audit what was executed, whatever it answered. -/
def performWrite (w : World M) (file root : Path) (operation : W.SurfaceOperation) :
    Performed X :=
  match X.openWritable w root with
  | (opened, .error message) => ⟨.surfaceError message, opened, []⟩
  | (opened, .ok session) =>
    let (executed, outcome) := X.execute opened session operation
    let storeAfter := (X.stamp executed session).toOption
    let record : WriteAuditRecord W :=
      { timestampMs := X.unixMillisNow executed
        operation
        file
        succeeded := outcome.isOk
        storeBefore := (X.stamp opened session).toOption
        storeAfter }
    let (audited, auditError) := X.appendWriteAudit executed root record
    ⟨.surface storeAfter outcome (some (record, auditError)), audited, [(root, operation)]⟩

/-- Perform the reply to a call about `file`. -/
def perform (w : World M) (file : Path) : Reply M W → Performed X
  | .surfaceRead root operation => X.performRead w root operation
  | .surfaceWrite root operation => X.performWrite w file root operation
  | .savedRoots root => ⟨.value (X.savedRoots w root), w, []⟩
  | .dataChildren root request => ⟨.value (X.dataChildren w root request), w, []⟩
  | .dataRead root request => ⟨.value (X.dataRead w root request), w, []⟩
  | .run root mode entry args =>
    let (left, value) := X.run w root mode entry args
    ⟨.value value, left, []⟩
  | reply => ⟨.reply reply, w, []⟩

end Executors

/-- What a call finds: the world, the transport's cache and the allowed root. -/
structure Host (M : Marrow) where
  world : World M
  cache : CachedProject M
  allowedRoot : Option Path

/-- What a call returns, leaves, and executes on a writable store. -/
structure Served (X : Executors M W) where
  answer : Except String (Answer X)
  host : Host M
  executed : List (Path × W.SurfaceOperation)

namespace Mcp

section Serve

variable (X : Executors M W) (policy : Policy)

/-- A call with its reply performed. -/
def serve (host : Host M) (name : String) (arguments : Json) : Served X :=
  let result : ToolResult M W :=
    call host.allowedRoot host.cache host.world policy name arguments
  match result.reply with
  | .error message => ⟨.error message, { host with cache := result.cache }, []⟩
  | .ok reply =>
    let file := ((requiredPath arguments "file").toOption).getD .empty
    let performed := X.perform host.world file reply
    ⟨.ok performed.answer, { host with world := performed.world, cache := result.cache },
      performed.executed⟩

/-- The tools that take the read grant. -/
def readTools : List String := ["mw_surface_read", "mw_saved_roots", "mw_data_children", "mw_data_read"]

/-- The tool takes a grant the policy does not hold. -/
def LacksGrant (name : String) : Prop :=
  (name ∈ readTools ∧ policy.allowRead = false) ∨
    (name = "mw_surface_write" ∧ policy.allowWrite = false)

/-- What an ungranted call answers: the error of its arguments or its refusal. -/
def refusal (W : Wire) (M : Marrow) (name : String) (arguments : Json) :
    Except String (Reply M W) :=
  match name with
  | "mw_surface_read" =>
    (fileAnd arguments (requiredObject arguments "operation")).map fun _ => .readDisabled
  | "mw_surface_write" =>
    (fileAnd arguments (requiredObject arguments "operation")).map fun _ => .writeDisabled
  | "mw_data_children" =>
    (fileAnd arguments (dataChildrenRequest W arguments)).map fun _ => .readDisabled
  | "mw_data_read" => (fileAnd arguments (dataReadRequest W arguments)).map fun _ => .readDisabled
  | _ => (requiredPath arguments "file").map fun _ => .readDisabled

theorem call_of_lacksGrant {policy : Policy} {name : String} (h : LacksGrant policy name)
    (allowedRoot : Option Path) (c : CachedProject M) (w : World M) (arguments : Json) :
    (call allowedRoot c w policy name arguments : ToolResult M W) =
      ⟨refusal W M name arguments, c, []⟩ := by
  obtain ⟨hname, hread⟩ | ⟨rfl, hwrite⟩ := h
  · simp only [readTools, List.mem_cons, List.not_mem_nil, or_false] at hname
    obtain rfl | rfl | rfl | rfl := hname
    · simp only [call, refusal]
      cases fileAnd arguments (requiredObject arguments "operation") with
      | error message => rfl
      | ok decoded => simp [withArguments, surfaceRead, hread, Except.map]
    · simp only [call, refusal]
      cases requiredPath arguments "file" with
      | error message => rfl
      | ok decoded => simp [withArguments, savedRoots, dataTool, hread, Except.map]
    · simp only [call, refusal]
      cases fileAnd arguments (dataChildrenRequest W arguments) with
      | error message => rfl
      | ok decoded => simp [withArguments, dataChildren, dataTool, hread, Except.map]
    · simp only [call, refusal]
      cases fileAnd arguments (dataReadRequest W arguments) with
      | error message => rfl
      | ok decoded => simp [withArguments, dataRead, dataTool, hread, Except.map]
  · simp only [call, refusal]
    cases fileAnd arguments (requiredObject arguments "operation") with
    | error message => rfl
    | ok decoded => simp [withArguments, surfaceWrite, hwrite, Except.map]

theorem reply_of_refusal {name : String} {arguments : Json} {reply : Reply M W}
    (h : refusal W M name arguments = .ok reply) :
    reply = .readDisabled ∨ reply = .writeDisabled := by
  have hmap : ∀ {α : Type} {decoded : Except String α} {refused : Reply M W},
      (decoded.map fun _ => refused) = .ok reply → reply = refused := by
    intro α decoded refused hdecoded
    cases decoded with
    | error message => cases hdecoded
    | ok value =>
      cases hdecoded
      rfl
  unfold refusal at h
  split at h
  · exact .inl (hmap h)
  · exact .inr (hmap h)
  · exact .inl (hmap h)
  · exact .inl (hmap h)
  · exact .inl (hmap h)

/-! ## Who reaches the writable executor -/

/-- The reply is performed on a writable session. -/
def writes : Reply M W → Bool
  | .surfaceWrite _ _ => true
  | _ => false

theorem writes_of_executed {w : World M} {file : Path} {reply : Reply M W}
    (h : (X.perform w file reply).executed ≠ []) : writes reply = true := by
  cases reply with
  | surfaceWrite root operation => rfl
  | surfaceRead root operation =>
    simp only [Executors.perform, Executors.performRead] at h
    split at h
    · exact absurd rfl h
    · split at h
      · exact absurd rfl h
      · exact absurd rfl h
  | _ => exact absurd rfl h

theorem writes_sourceTool {allowedRoot : Option Path} {c : CachedProject M} {w : World M}
    {file : Path} {source : Option Text} {query : SourceQuery} {reply : Reply M W}
    (h : (sourceTool allowedRoot c w file source query : ToolResult M W).reply = .ok reply) :
    writes reply = false := by
  unfold sourceTool at h
  generalize c.withLoadedProject allowedRoot w file source = load at h
  obtain ⟨_ | _, cache, opens⟩ := load
  · cases h
    rfl
  · cases query <;> cases h <;> rfl

theorem writes_surfaceTool {allowedRoot : Option Path} {c : CachedProject M} {w : World M}
    {file : Path} {opened : Path → StoreOpen} {rendered : Path → Reply M W} {reply : Reply M W}
    (h : (surfaceTool allowedRoot c w file opened rendered).reply = .ok reply)
    (hrendered : ∀ root, writes (rendered root) = false) : writes reply = false := by
  unfold surfaceTool at h
  generalize c.withLoadedProject allowedRoot w file none = load at h
  obtain ⟨_ | _, cache, opens⟩ := load
  · cases h
    rfl
  · dsimp only at h
    split at h
    · cases h
      rfl
    · cases h
      exact hrendered _

theorem writes_dataTool {allowedRoot : Option Path} {c : CachedProject M} {w : World M}
    {file : Path} {access : Bool} {rendered : Path → Reply M W} {reply : Reply M W}
    (h : (dataTool allowedRoot c w file access rendered).reply = .ok reply)
    (hrendered : ∀ root, writes (rendered root) = false) : writes reply = false := by
  unfold dataTool at h
  split at h
  · cases h
    rfl
  · generalize c.withLoadedProject allowedRoot w file none = load at h
    obtain ⟨_ | _, cache, opens⟩ := load
    · cases h
      rfl
    · dsimp only at h
      split at h
      · cases h
        rfl
      · split at h
        · cases h
          rfl
        · cases h
          rfl
        · cases h
          exact hrendered _

theorem writes_run {allowedRoot : Option Path} {c : CachedProject M} {w : World M}
    {file : Path} {entry : Option String} {args : List Json} {mode : RunMode}
    {reply : Reply M W}
    (h : (run allowedRoot c w file entry args mode : ToolResult M W).reply = .ok reply) :
    writes reply = false := by
  unfold run at h
  split at h
  · cases h
    rfl
  · split at h
    · cases h
      rfl
    · generalize (CachedProject.new : CachedProject M).withLoadedProject allowedRoot w file none =
        load at h
      obtain ⟨_ | _, cache, opens⟩ := load
      · cases h
        rfl
      · dsimp only at h
        split at h
        · cases h
          rfl
        · cases h
          rfl

/-- A tool that never writes does not write behind its argument decoding. -/
theorem writes_withArguments {α : Type} {c : CachedProject M} {arguments : Except String α}
    {tool : α → ToolResult M W} {reply : Reply M W}
    (h : (withArguments c arguments tool).reply = .ok reply)
    (htool : ∀ decoded, (tool decoded).reply = .ok reply → writes reply = false) :
    writes reply = false := by
  cases arguments with
  | error message => cases h
  | ok decoded => exact htool decoded h

theorem writes_surfaceRead {allowedRoot : Option Path} {c : CachedProject M} {w : World M}
    {file : Path} {operation : Json} {access : Bool} {reply : Reply M W}
    (h : (surfaceRead allowedRoot c w file operation access).reply = .ok reply) :
    writes reply = false := by
  unfold surfaceRead at h
  split at h
  · cases h
    rfl
  · split at h
    · cases h
    · exact writes_surfaceTool h fun _ => rfl

/-- A call whose reply goes to the writable executor holds the write grant. -/
theorem allowWrite_of_call {policy : Policy} {allowedRoot : Option Path} {c : CachedProject M}
    {w : World M} {name : String} {arguments : Json} {reply : Reply M W}
    (h : (call allowedRoot c w policy name arguments : ToolResult M W).reply = .ok reply)
    (hwrites : writes reply = true) : policy.allowWrite = true := by
  cases hwrite : policy.allowWrite with
  | true => rfl
  | false =>
    have hnot : writes reply = false := by
      unfold call at h
      split at h
      · refine writes_withArguments h ?_
        rintro ⟨_ | file, source⟩ hreply
        · cases hreply
          rfl
        · exact writes_sourceTool hreply
      · exact writes_withArguments h fun _ hreply => writes_sourceTool hreply
      · exact writes_withArguments h fun _ hreply => writes_sourceTool hreply
      · exact writes_withArguments h fun _ hreply => writes_sourceTool hreply
      · exact writes_withArguments h fun _ hreply => writes_sourceTool hreply
      · exact writes_withArguments h fun _ hreply => writes_sourceTool hreply
      · exact writes_withArguments h fun _ hreply => writes_surfaceRead hreply
      · -- The write tool itself: without the grant it refuses.
        refine writes_withArguments h fun decoded hreply => ?_
        simp only [surfaceWrite, hwrite, Bool.not_false, if_true, Except.ok.injEq] at hreply
        rw [← hreply]
        rfl
      · exact writes_withArguments h fun _ hreply => writes_dataTool hreply fun _ => rfl
      · exact writes_withArguments h fun _ hreply => writes_dataTool hreply fun _ => rfl
      · exact writes_withArguments h fun _ hreply => writes_dataTool hreply fun _ => rfl
      · exact writes_withArguments h fun _ hreply => writes_run hreply
      · cases h
    rw [hnot] at hwrites
    cases hwrites

theorem allowWrite_of_serve {host : Host M} {name : String} {arguments : Json}
    (h : (serve X policy host name arguments).executed ≠ []) : policy.allowWrite = true := by
  unfold serve at h
  dsimp only at h
  split at h
  · exact absurd rfl h
  · rename_i reply hreply
    exact allowWrite_of_call hreply (writes_of_executed X h)

/-! ## The server -/

/-- The transport between calls: its cache and what was executed on writable
stores so far. Everything else may change between two calls. -/
structure ServerState (M : Marrow) (W : Wire) where
  cache : CachedProject M
  executed : List (Path × W.SurfaceOperation)

namespace ServerState

def new : ServerState M W := ⟨CachedProject.new, []⟩

/-- One `tools/call` in the world it finds. -/
def step (allowedRoot : Option Path) (s : ServerState M W) (t : ToolCall M) :
    Option (ServerState M W) :=
  let served := serve X policy ⟨t.world, s.cache, allowedRoot⟩ t.name t.arguments
  some ⟨served.host.cache, s.executed ++ served.executed⟩

/-- Only the write grant lets a server reach the writable executor. -/
theorem allowWrite_of_reaches {allowedRoot : Option Path} {s : ServerState M W}
    (h : Reachable (step X policy allowedRoot) new s) (hexecuted : s.executed ≠ []) :
    policy.allowWrite = true := by
  refine h.invariant (I := fun s => s.executed ≠ [] → policy.allowWrite = true) ?_ ?_ hexecuted
  · intro hne
    exact absurd rfl hne
  · intro s t s' hs _ hstep hne
    simp only [step, Option.some.injEq] at hstep
    rw [← hstep] at hne
    by_cases hbefore : s.executed = []
    · rw [hbefore] at hne
      exact allowWrite_of_serve X policy hne
    · exact hs hbefore

end ServerState

/-- A call without the grant it needs returns the same in any two worlds, leaves
the one it ran in alone, and opens and executes nothing; and whatever was called,
the writable executor was only reached under the write grant. -/
theorem grant_noninterference :
    (∀ name arguments, LacksGrant policy name → ∀ here there : Host M,
      (serve X policy here name arguments).answer = (serve X policy there name arguments).answer ∧
        (serve X policy here name arguments).host = here ∧
        (serve X policy here name arguments).executed = [] ∧
        (call here.allowedRoot here.cache here.world policy name arguments :
          ToolResult M W).opens = []) ∧
      ∀ allowedRoot s, Reachable (ServerState.step X policy allowedRoot) ServerState.new s →
        s.executed ≠ [] → policy.allowWrite = true := by
  refine ⟨?_, fun allowedRoot s h => ServerState.allowWrite_of_reaches X policy h⟩
  intro name arguments hlacks here there
  unfold serve
  rw [call_of_lacksGrant hlacks, call_of_lacksGrant hlacks]
  dsimp only
  cases hrefusal : refusal W M name arguments with
  | error message => exact ⟨rfl, rfl, rfl, rfl⟩
  | ok reply =>
    obtain rfl | rfl := reply_of_refusal hrefusal
    · exact ⟨rfl, rfl, rfl, rfl⟩
    · exact ⟨rfl, rfl, rfl, rfl⟩

end Serve

end Mcp

namespace Sample

/-- Executors that find every store locked. -/
def lockedExecutors : Executors Marrow.sample wire where
  ReadSession := Unit
  Session := Unit
  Response := Unit
  SurfaceError := Unit
  Value := Bool
  unixMillisNow _ := 0
  openRead _ _ := .error "the store is locked"
  readStamp _ _ := .error "the store is locked"
  executeReadOnly _ _ _ := .error ()
  openWritable w _ := (w, .error "the store is locked")
  stamp _ _ := .error "the store is locked"
  execute w _ _ := (w, .error ())
  appendWriteAudit w _ _ := (w, none)
  savedRoots _ _ := false
  dataChildren _ _ _ := false
  dataRead _ _ _ := false
  run w _ _ _ _ := (w, false)

def writeArguments : Json :=
  .object [("file", .string "/A/src/app.mw"), ("operation", .object [])]

end Sample

namespace Mcp

open Sample in
/-- A write under a read-only policy, in a world with a store and in one without. -/
theorem grant_noninterference_readOnly :
    LacksGrant ⟨true, false⟩ "mw_surface_write" ∧
      (serve lockedExecutors ⟨true, false⟩ ⟨stored, CachedProject.new, none⟩ "mw_surface_write"
        writeArguments).answer =
      (serve lockedExecutors ⟨true, false⟩ ⟨twins, CachedProject.new, some (projectDir "B")⟩
        "mw_surface_write" writeArguments).answer :=
  have hlacks : LacksGrant ⟨true, false⟩ "mw_surface_write" := .inr ⟨rfl, rfl⟩
  ⟨hlacks, ((grant_noninterference lockedExecutors ⟨true, false⟩).1 _ _ hlacks _ _).1⟩

end Mcp

end MarrowLsp
