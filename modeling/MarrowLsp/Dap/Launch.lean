-- SUMMARY: Preparing a debug launch: the project session opened with isolated writes behind the read-only guard, the entry admitted, and the second admission on the run thread (project.rs, run.rs).
import MarrowLsp.Core.Marrow
import MarrowLsp.Dap.Adapter

/-!
# Launching a project

A launch is prepared twice: when the client asks for it, and again on the run thread at
`configurationDone`, against whatever the project directory holds by then.
-/
namespace MarrowLsp

namespace Dap

/-! ## Errors -/

/-- `CheckReport`: the severity and message of each diagnostic. -/
abbrev CheckReport := List (Severity × String)

def checkErrors (report : CheckReport) : List String :=
  (report.filter fun diagnostic => diagnostic.1 = .error).map (·.2)

/-- `ProjectIoError`, with its paths and causes as they are printed. -/
inductive ProjectIoError where
  | io (path error : String)
  | dataDirCreate (message : String)
  | configMissing (dir : String)
  | notAProject (message : String)
  | config (message : String)
  | catalog (message : String)
  | check (report : CheckReport)
  | checkLoad (path message : String)
  | store (error : String)

def ProjectIoError.toLaunchError : ProjectIoError → LaunchError
  | io path error => .session s!"{path}: {error}"
  | dataDirCreate message => .config message
  | configMissing dir => .config (s!"no {CONFIG_FILE} in {dir}; run `marrow init {dir}` or open " ++
      s!"a directory containing {CONFIG_FILE}")
  | notAProject message => .config message
  | config message => .config message
  | catalog message => .session message
  | check report => .checkErrors (checkErrors report)
  | checkLoad path message => .session s!"{path}: {message}"
  | store error => .session error

/-- `ProjectSessionError`; `other` is any that no branch of the adapter names. -/
inductive ProjectSessionError where
  | config (message : String)
  | catalog
  | check (report : CheckReport)
  | noEntry
  | io (path error : String) (invalidData : Bool)
  | checkLoad (path message : String)
  | schemaDrift (message : String)
  | durableStoreRequired (message : String)
  | unstampedStore (message : String)
  | store (message : String)
  | other (message : String)

/-- `from_session_error`. -/
def ProjectSessionError.toLaunchError : ProjectSessionError → LaunchError
  | config message => .config message
  | catalog => .readAdmissionInvalid
  | check report => .checkErrors (checkErrors report)
  | noEntry => .noEntry
  | io path error _ => .session s!"{path}: {error}"
  | checkLoad path message => .session s!"{path}: {message}"
  | schemaDrift message => .analysisChanged message
  | durableStoreRequired message => .session message
  | unstampedStore message => .session message
  | store message => .session message
  | other message => .session message

/-- `from_read_only_session_error`. -/
def ProjectSessionError.toReadOnlyLaunchError : ProjectSessionError → LaunchError
  | catalog => .readAdmissionInvalid
  | checkLoad _ _ => .readAdmissionInvalid
  | durableStoreRequired _ => .readAdmissionInvalid
  | unstampedStore _ => .readAdmissionInvalid
  | store _ => .readAdmissionInvalid
  | schemaDrift _ => .readAdmissionInvalid
  | io _ _ true => .readAdmissionInvalid
  | error => error.toLaunchError

inductive EntryDescriptorError where
  | ambiguous
  | isPrivate
  | missing

def EntryDescriptorError.message : EntryDescriptorError → String
  | ambiguous => "entry selector is ambiguous"
  | isPrivate => "entry selector resolves to a private function"
  | missing => "entry selector does not resolve to a public function"

/-! ## What a launch uses of Marrow -/

/-- The project sessions of Marrow over the files and stores of a machine. -/
structure ProjectHost (H : DebugHost) where
  /-- The machine's files and stores at one time. -/
  Disk : Type
  Config : Type
  /-- `ProjectSession`, always opened with isolated writes. -/
  ProjectSession : Type
  AnalysisGeneration : Type
  SourceAnalysisAdmission : Type
  EntryIdentity : Type
  EntryArgument : Type
  [decGeneration : DecidableEq AnalysisGeneration]
  isFile : Disk → Path → Bool
  storeExists : Disk → Path → Bool
  loadConfig : Disk → Path → Except ProjectIoError Config
  nativeStorePath : Path → Config → Except ProjectIoError (Option Path)
  /-- `ProjectSurfaceReadSession::open`. -/
  openForReading : Disk → Path → Except ProjectSessionError Unit
  /-- `ProjectSession::open` with an entry override and an admission, where given. -/
  openSession : Disk → Path → Option String → Option SourceAnalysisAdmission →
    Except ProjectSessionError ProjectSession
  sourceAnalysisSnapshot : ProjectSession → H.Analysis
  generation : H.Analysis → AnalysisGeneration
  sourceAnalysisAdmission : ProjectSession →
    Except ProjectSessionError (Option SourceAnalysisAdmission)
  runEntry : ProjectSession → Option String
  resolveEntry : ProjectSession → String → Except EntryDescriptorError EntryIdentity
  canonicalName : EntryIdentity → String
  /-- What `entry_arguments_from_json` gives for arguments it takes. -/
  entryArguments : List Json → List EntryArgument
  /-- `CheckedEntryCall::from_protocol_invocation`. -/
  checkedEntryCall : ProjectSession → EntryIdentity → List EntryArgument →
    Except RuntimeErrorDetail Unit
  surfaceServeBoundary : ProjectSession → Except ProjectSessionError Json
  executionBoundary : ProjectSession → Json
  /-- The analyzed files with their sources, and the stop points. -/
  files : ProjectSession → List (Path × String)
  points : ProjectSession → List RuntimeStop

attribute [instance] ProjectHost.decGeneration

variable {H : DebugHost} (P : ProjectHost H)

structure EntryInvocation where
  identity : P.EntryIdentity
  arguments : List P.EntryArgument

/-- `project::Launch`. -/
structure ProjectLaunch where
  session : P.ProjectSession
  analysisGeneration : P.AnalysisGeneration
  analysisSnapshot : H.Analysis
  sourceAnalysisAdmission : Option P.SourceAnalysisAdmission
  invocation : EntryInvocation P

namespace ProjectHost

/-! ## Preparing -/

def guardSessionOpenIsReadOnly (disk : P.Disk) (projectDir : Path) : Except LaunchError Unit := do
  let config ← (P.loadConfig disk projectDir).mapError (·.toLaunchError)
  match ← (P.nativeStorePath projectDir config).mapError (·.toLaunchError) with
  | none => .ok ()
  | some storePath =>
    if P.storeExists disk storePath then
      (P.openForReading disk projectDir).mapError (·.toReadOnlyLaunchError)
    else .ok ()

/-- The config file is there, or loading it says what is wrong. -/
def checkConfigFile (disk : P.Disk) (projectDir : Path) : Except LaunchError Unit :=
  if P.isFile disk (projectDir.child CONFIG_FILE) then .ok ()
  else
    match P.loadConfig disk projectDir with
    | .error (.configMissing _) => .error (.noProject (H.display projectDir))
    | .error error => .error error.toLaunchError
    | .ok _ => .ok ()

def prepareDescriptor (disk : P.Disk) (projectDir : Path) (entry : Option String)
    (admission : Option P.SourceAnalysisAdmission) :
    Except LaunchError (P.ProjectSession × P.EntryIdentity) := do
  P.checkConfigFile disk projectDir
  P.guardSessionOpenIsReadOnly disk projectDir
  let session ← (P.openSession disk projectDir entry admission).mapError (·.toLaunchError)
  match P.runEntry session with
  | none => .error .noEntry
  | some entry =>
    let identity ← (P.resolveEntry session entry).mapError fun error => .entry error.message
    .ok (session, identity)

def checkEntryCall (session : P.ProjectSession) (invocation : EntryInvocation P) :
    Except LaunchError Unit :=
  (P.checkedEntryCall session invocation.identity invocation.arguments).mapError
    fun error => .entryArgs s!"{error.code}: {error.message}"

/-- `project::prepare`. -/
def prepare (disk : P.Disk) (projectDir : Path) (entry : Option String)
    (arguments : List P.EntryArgument) : Except LaunchError (ProjectLaunch P) := do
  let (session, identity) ← P.prepareDescriptor disk projectDir entry none
  let analysisSnapshot := P.sourceAnalysisSnapshot session
  let admission ← (P.sourceAnalysisAdmission session).mapError (·.toLaunchError)
  let invocation : EntryInvocation P := ⟨identity, arguments⟩
  P.checkEntryCall session invocation
  .ok ⟨session, P.generation analysisSnapshot, analysisSnapshot, admission, invocation⟩

/-- `project::prepare_admitted`: the sources and the entry are those of the launch. -/
def prepareAdmitted (disk : P.Disk) (projectDir : Path) (entry : Option String)
    (analysisGeneration : P.AnalysisGeneration) (admission : Option P.SourceAnalysisAdmission)
    (invocation : EntryInvocation P) : Except LaunchError (ProjectLaunch P) := do
  let (session, identity) ← P.prepareDescriptor disk projectDir entry admission
  let analysisSnapshot := P.sourceAnalysisSnapshot session
  if P.generation analysisSnapshot ≠ analysisGeneration then
    .error (.analysisChanged "source analysis changed between launch and configurationDone")
  else
    let currentAdmission ← (P.sourceAnalysisAdmission session).mapError (·.toLaunchError)
    if P.canonicalName identity ≠ P.canonicalName invocation.identity then .error .entryChanged
    else
      P.checkEntryCall session invocation
      .ok ⟨session, P.generation analysisSnapshot, analysisSnapshot, currentAdmission, invocation⟩

end ProjectHost

end Dap

end MarrowLsp
