-- SUMMARY: Which tool calls open a project's native store without a grant, in any sequence of calls.
import MarrowLsp.Mcp.Calls
import MarrowLsp.Mcp.Server

/-!
# Store access

Without a grant the data tools refuse before they load a project. The source
tools and `mw_run` load one, and a load that recomputes binds the accepted
catalog, which may open the store.
-/
namespace MarrowLsp

open Transition

variable {M : Marrow} {W : Wire}

namespace CachedProject

/-- Whether a load opens the store: confinement admits the file, the cache is not
fresh for it, the file has a URL if it is overlaid, a project resolves, and its
catalog cannot be bound from the change detector alone. -/
def opensStore (c : CachedProject M) (allowedRoot : Option Path) (call : Call M) : Bool :=
  confinementCheck call.world.fs allowedRoot call.file &&
    (!c.isFreshFor call.world.fs call.file call.overlay && (call.documents.isSome &&
      match c.workspace.resolveFor call.world.fs call.file with
      | .error _ => false
      | .ok (project, cache) => mustOpen call.world project.root project.config cache))

theorem recomputeFromSnapshot_opens (ws : Workspace M) (w : World M) (file : Path)
    (documents : DocumentAnalysisSnapshot) :
    (ws.recomputeFromSnapshot w file documents).opens =
      (ws.prepareRecompute w file documents .full).opens := by
  unfold Workspace.recomputeFromSnapshot
  cases hprep : (ws.prepareRecompute w file documents .full).result with
  | error e => simp only [hprep]
  | ok p =>
    cases hana : p.analyze w.fs with
    | error e => simp only [hprep, hana]
    | ok a => simp only [hprep, hana]

theorem prepareRecompute_opens (ws : Workspace M) (w : World M) (file : Path)
    (documents : DocumentAnalysisSnapshot) (scope : RecomputeScope) :
    (ws.prepareRecompute w file documents scope).opens ≠ [] ↔
      (match ws.resolveFor w.fs file with
        | .error _ => false
        | .ok (project, cache) => mustOpen w project.root project.config cache) = true := by
  rcases ws.prepareRecompute_cases w file documents scope with
    ⟨e, hres, heq⟩ | ⟨project, cache, hres, -, hopens, -⟩
  · rw [heq, hres]
    simp
  · rw [hopens, hres, CatalogBindingCache.bind_opens]
    exact probeStore_opens w project.root project.config cache

theorem load_opens (c : CachedProject M) (call : Call M) {documents : DocumentAnalysisSnapshot}
    (hfresh : c.isFreshFor call.world.fs call.file call.overlay = false)
    (hdocuments : call.documents = some documents) :
    (c.load call.world call.file call.source).opens =
      (c.workspace.prepareRecompute call.world call.file documents .full).opens := by
  rw [← recomputeFromSnapshot_opens]
  rcases c.load_cases call with ⟨hfresh', -⟩ | ⟨-, hnone, -⟩ | ⟨documents', -, hdoc, heq⟩
  · rw [hfresh] at hfresh'
    cases hfresh'
  · rw [hdocuments] at hnone
    cases hnone
  · rw [hdocuments] at hdoc
    cases hdoc
    rw [heq]
    cases hresult : (c.workspace.recomputeFromSnapshot call.world call.file documents).result with
    | error e => simp only [hresult]
    | ok r => simp only [hresult]

theorem withLoadedProject_opens (c : CachedProject M) (allowedRoot : Option Path) (call : Call M) :
    (c.withLoadedProject allowedRoot call.world call.file call.source).opens ≠ [] ↔
      c.opensStore allowedRoot call = true := by
  unfold withLoadedProject opensStore
  cases confinementCheck call.world.fs allowedRoot call.file with
  | false => simp
  | true =>
    simp only [if_true, Bool.true_and]
    rcases c.load_cases call with ⟨hfresh, heq⟩ | ⟨hfresh, hnone, heq⟩ | ⟨documents, hfresh, hdoc, -⟩
    · simp [heq, hfresh]
    · simp [heq, hnone]
    · rw [c.load_opens call hfresh hdoc, prepareRecompute_opens, hfresh, hdoc]
      simp

end CachedProject

namespace Mcp

/-- The load a call performs when it holds no data grant: the file and the overlay. -/
def ungrantedLoad (W : Wire) (name : String) (arguments : Json) : Option (Path × Option Text) :=
  match name with
  | "mw_check" =>
    match checkArguments arguments with
    | .ok (some file, source) => some (file, source)
    | .ok (none, _) => none
    | .error _ => none
  | "mw_type_at" => (positionArguments arguments).toOption.map fun decoded => (decoded.1, none)
  | "mw_complete" => (positionArguments arguments).toOption.map fun decoded => (decoded.1, none)
  | "mw_namespace_complete" =>
    (fileAnd arguments (namespaceQualifier arguments)).toOption.map fun decoded => (decoded.1, none)
  | "mw_resource_schema" =>
    (fileAnd arguments (requiredStr arguments "name")).toOption.map fun decoded => (decoded.1, none)
  | "mw_surface_routes" =>
    (fileAnd arguments (optionalBool arguments "includeWrites")).toOption.map fun decoded =>
      (decoded.1, none)
  | "mw_run" =>
    match runArguments arguments with
    | .ok (file, _, args, mode) =>
      match W.entryArguments args with
      | .ok args => if mode = .test && !args.isEmpty then none else some (file, none)
      | .error _ => none
    | .error _ => none
  | _ => none

/-- The cache a call loads through: `mw_run` runs on a thread with an empty one. -/
def cacheFor (c : CachedProject M) (name : String) : CachedProject M :=
  if name = "mw_run" then CachedProject.new else c

theorem sourceTool_opens (allowedRoot : Option Path) (c : CachedProject M) (w : World M)
    (file : Path) (source : Option Text) (query : SourceQuery) :
    (sourceTool allowedRoot c w file source query : ToolResult M W).opens =
      (c.withLoadedProject allowedRoot w file source).opens.map .view := by
  unfold sourceTool
  generalize c.withLoadedProject allowedRoot w file source = load
  obtain ⟨_ | _, cache, opens⟩ := load
  · rfl
  · cases query <;> rfl

theorem run_opens (allowedRoot : Option Path) (c : CachedProject M) (w : World M)
    (file : Path) (entry : Option String) (args : List W.EntryArgument) (values : List Json)
    (mode : RunMode) (hargs : W.entryArguments values = .ok args) :
    (run allowedRoot c w file entry values mode : ToolResult M W).opens =
      if mode = .test && !args.isEmpty then []
      else ((CachedProject.new : CachedProject M).withLoadedProject allowedRoot w file
        none).opens.map .view := by
  unfold run
  simp only [hargs]
  split
  · rfl
  · generalize (CachedProject.new : CachedProject M).withLoadedProject allowedRoot w file none = load
    obtain ⟨_ | _, cache, opens⟩ := load
    · rfl
    · dsimp only
      split <;> rfl

/-- Without a grant, and for `mw_run` always, what a call opens is what its one
project load opens. -/
theorem call_opens (allowedRoot : Option Path) (c : CachedProject M) (w : World M)
    (policy : Policy) (name : String) (arguments : Json)
    (h : (policy.allowRead = false ∧ policy.allowWrite = false) ∨ name = "mw_run") :
    (call allowedRoot c w policy name arguments : ToolResult M W).opens =
      match ungrantedLoad W name arguments with
      | none => []
      | some (file, source) =>
        ((cacheFor c name).withLoadedProject allowedRoot w file source).opens.map .view := by
  unfold call ungrantedLoad
  split
  · cases hargs : checkArguments arguments with
    | error e => simp [withArguments]
    | ok decoded =>
      obtain ⟨_ | file, source⟩ := decoded
      · simp [withArguments, check]
      · simp [withArguments, check, sourceTool_opens, cacheFor]
  · cases positionArguments arguments with
    | error e => simp [withArguments, Except.toOption]
    | ok decoded => simp [withArguments, Except.toOption, typeAtPosition, sourceTool_opens, cacheFor]
  · cases positionArguments arguments with
    | error e => simp [withArguments, Except.toOption]
    | ok decoded => simp [withArguments, Except.toOption, complete, sourceTool_opens, cacheFor]
  · cases fileAnd arguments (namespaceQualifier arguments) with
    | error e => simp [withArguments, Except.toOption]
    | ok decoded =>
      simp [withArguments, Except.toOption, namespaceComplete, sourceTool_opens, cacheFor]
  · cases fileAnd arguments (requiredStr arguments "name") with
    | error e => simp [withArguments, Except.toOption]
    | ok decoded => simp [withArguments, Except.toOption, resourceSchema, sourceTool_opens, cacheFor]
  · cases fileAnd arguments (optionalBool arguments "includeWrites") with
    | error e => simp [withArguments, Except.toOption]
    | ok decoded => simp [withArguments, Except.toOption, surfaceRoutes, sourceTool_opens, cacheFor]
  · -- A tool that needs a grant refuses before it loads anything.
    rcases h with ⟨hread, -⟩ | hname
    · cases fileAnd arguments (requiredObject arguments "operation") <;>
        simp [withArguments, surfaceRead, hread]
    · exact absurd hname (by decide)
  · rcases h with ⟨-, hwrite⟩ | hname
    · cases fileAnd arguments (requiredObject arguments "operation") <;>
        simp [withArguments, surfaceWrite, hwrite]
    · exact absurd hname (by decide)
  · rcases h with ⟨hread, -⟩ | hname
    · cases requiredPath arguments "file" <;> simp [withArguments, savedRoots, dataTool, hread]
    · exact absurd hname (by decide)
  · rcases h with ⟨hread, -⟩ | hname
    · cases fileAnd arguments (dataChildrenRequest W arguments) <;>
        simp [withArguments, dataChildren, dataTool, hread]
    · exact absurd hname (by decide)
  · rcases h with ⟨hread, -⟩ | hname
    · cases fileAnd arguments (dataReadRequest W arguments) <;>
        simp [withArguments, dataRead, dataTool, hread]
    · exact absurd hname (by decide)
  · cases runArguments arguments with
    | error e => simp [withArguments]
    | ok decoded =>
      obtain ⟨file, entry, values, mode⟩ := decoded
      cases hargs : W.entryArguments values with
      | error e => simp [withArguments, run, hargs]
      | ok args =>
        simp only [withArguments]
        rw [run_opens _ _ _ _ _ _ _ _ hargs]
        simp [hargs, cacheFor]
        split <;> simp_all
  · split <;> first | rfl | simp_all

/-! ## Sequences of calls -/

/-- One `tools/call`: the world it finds, the tool and its arguments. -/
structure ToolCall (M : Marrow) where
  world : World M
  name : String
  arguments : Json

section Runs

variable (W) (allowedRoot : Option Path) (policy : Policy)

/-- One call on the transport's cache. -/
def step (c : CachedProject M) (t : ToolCall M) : Option (CachedProject M) :=
  some (call allowedRoot c t.world policy t.name t.arguments : ToolResult M W).cache

/-- No grant covers the call: the policy holds none, or the tool is `mw_run`,
which takes none. -/
def Ungranted (t : ToolCall M) : Prop :=
  (policy.allowRead = false ∧ policy.allowWrite = false) ∨ t.name = "mw_run"

/-- A call that no grant covers opens no store. -/
def OpensNothing (c : CachedProject M) (t : ToolCall M) : Prop :=
  Ungranted policy t →
    (call allowedRoot c t.world policy t.name t.arguments : ToolResult M W).opens = []

/-- The load of a call that no grant covers binds its catalog without opening the store. -/
def BindsWithoutOpen (c : CachedProject M) (t : ToolCall M) : Prop :=
  Ungranted policy t → ∀ file source, ungrantedLoad W t.name t.arguments = some (file, source) →
    (cacheFor c t.name).opensStore allowedRoot ⟨t.world, file, source⟩ = false

theorem opensNothing_iff (c : CachedProject M) (t : ToolCall M) :
    OpensNothing W allowedRoot policy c t ↔ BindsWithoutOpen W allowedRoot policy c t := by
  unfold OpensNothing BindsWithoutOpen
  apply forall_congr'
  intro h
  rw [call_opens allowedRoot c t.world policy t.name t.arguments h]
  cases ungrantedLoad W t.name t.arguments with
  | none => simp
  | some target =>
    obtain ⟨file, source⟩ := target
    have hopens := (cacheFor c t.name).withLoadedProject_opens allowedRoot ⟨t.world, file, source⟩
    rw [List.map_eq_nil_iff]
    constructor
    · intro hnil file' source' htarget
      cases htarget
      rw [← Bool.not_eq_true, ← hopens, not_not]
      exact hnil
    · intro hall
      have halone := hall file source rfl
      rw [← Bool.not_eq_true, ← hopens, not_not] at halone
      exact halone

/-- In a sequence of calls no store is opened without a grant exactly when every
load that no grant covers binds its catalog without opening the store. -/
theorem opensNothing_run_iff (calls : List (ToolCall M)) :
    AllSteps (step W allowedRoot policy) (fun c t _ => OpensNothing W allowedRoot policy c t)
        CachedProject.new calls ↔
      AllSteps (step W allowedRoot policy) (fun c t _ => BindsWithoutOpen W allowedRoot policy c t)
        CachedProject.new calls :=
  allSteps_congr (I := fun _ => True) (fun _ _ _ _ _ _ => trivial)
    (fun c t _ _ _ => opensNothing_iff W allowedRoot policy c t) calls trivial

end Runs

end Mcp

/-! ## A check of a project with a native store -/

namespace Sample

def wire : Wire where
  Segment := Unit
  Key := Unit
  SurfaceOperation := Unit
  EntryArgument := Unit
  decodeChildren _ := .error "no requests"
  decodeRead _ := .error "no requests"
  decodeOperation _ := .error "no requests"
  entryArguments _ := .ok []

/-- A project whose config names a native store, and the committed store. -/
def stored : World Marrow.sample where
  fs := fsOf [((projectDir "A").child CONFIG_FILE, ['n']), (app "A", ['x']),
    (storeFile (projectDir "A"), [])]
  openStore path := if path = storeFile (projectDir "A") then some ⟨1, 1⟩ else none
  openSurface _ := none
  openReadOnly _ := none

def arguments : Json := .object [("file", .string "/A/src/app.mw")]

end Sample

namespace Mcp

open Sample in
/-- `mw_check` under no grant, and `mw_run` under any policy, open the store. -/
theorem not_opensNothing_check_run :
    (¬ AllSteps (step wire none ⟨false, false⟩)
      (fun c t _ => OpensNothing wire none ⟨false, false⟩ c t)
      (CachedProject.new : CachedProject Marrow.sample) [⟨stored, "mw_check", arguments⟩]) ∧
    ∀ policy, ¬ AllSteps (step wire none policy) (fun c t _ => OpensNothing wire none policy c t)
      (CachedProject.new : CachedProject Marrow.sample) [⟨stored, "mw_run", arguments⟩] := by
  refine ⟨fun h => ?_, fun policy h => ?_⟩
  · have hopens := (h _ rfl).1 (.inl ⟨rfl, rfl⟩)
    exact absurd hopens (by decide)
  · have hopens := (h _ rfl).1 (.inr rfl)
    rw [call_opens none _ _ policy _ _ (.inr rfl)] at hopens
    exact absurd hopens (by decide)

end Mcp
end MarrowLsp
