-- SUMMARY: What the workspace links but does not define: the Marrow crates, the `url` crate, and the answers of the operating system.
import MarrowLsp.Lib.Utf8
import MarrowLsp.Core.Path

/-!
# The linked crates and the operating system

The repository calls Marrow's checker, config parser and store through the
`marrow_*` crates, and maps URLs through the `url` crate. Both are parameters of
the model, bundled in `Marrow`. The file system and the native store are read
through a `World`: the answer of every system call an operation makes while it
runs.
-/
namespace MarrowLsp

/-- Source text, as its characters. -/
abbrev Text := List Char

/-- A document URL, as the string an editor sends. -/
structure Url where
  asStr : String
  deriving DecidableEq, Repr

/-- A file of an analysis: the path, the text it was parsed from, and
`parsed.has_errors()`. -/
structure AnalyzedFile where
  path : Path
  source : Text
  hasErrors : Bool
  deriving DecidableEq, Repr

inductive Severity where
  | error
  | warning
  deriving DecidableEq, Repr

/-- `marrow_check::CheckDiagnostic`: a problem of one file, at a byte span. -/
structure CheckDiagnostic where
  file : Path
  code : String
  severity : Severity
  startByte : Nat
  endByte : Nat
  message : String
  deriving DecidableEq, Repr

/-- `marrow_check::AnalysisSnapshot`, with the fields the repository reads. -/
structure AnalysisSnapshot (Program Generation : Type) where
  program : Program
  files : List AnalyzedFile
  diagnostics : List CheckDiagnostic
  generation : Generation

/-- The text analyzed for a file: of two entries for one path the later counts. -/
def AnalysisSnapshot.textOf {Program Generation : Type}
    (snapshot : AnalysisSnapshot Program Generation) (file : Path) : Option Text :=
  (snapshot.files.reverse.find? fun analyzed => analyzed.path == file).map (·.source)

/-- What the analyzer finds at a path: no file of the project, a file it cannot
read, or its text. -/
inductive SourceText where
  | missing
  | unreadable
  | text (source : Text)
  deriving DecidableEq, Repr

/-- Everything one run of the checker depends on. -/
structure AnalyzerInputs (Config Catalog Lock : Type) where
  root : Path
  config : Config
  texts : Path → SourceText
  accepted : Option Catalog
  lock : Option Lock

/-- The change detector of a store file: modification time and length. -/
structure StoreFileStat where
  modified : Nat
  len : Nat
  deriving DecidableEq, Repr

/-- The commit fact a store pins: commit id and catalog epoch. -/
structure CommitMetadata where
  commitId : Nat
  catalogEpoch : Nat
  deriving DecidableEq, Repr

/-- One edit of a rename action: the file, the byte span and the new text. -/
structure SourceEdit where
  file : Path
  startByte : Nat
  endByte : Nat
  replacement : Text
  deriving DecidableEq, Repr

/-- Why Marrow refuses a rename (`marrow_check::SourceRenameError`). -/
inductive SourceRenameError where
  | noSymbol
  | notRenameable
  | invalidName
  | savedDataBacked
  deriving DecidableEq, Repr

/-- What the file system answers to the calls of one operation. The answers need
not be those of one moment. -/
structure Fs where
  isFile : Path → Bool
  pathExists : Path → Bool
  readToString : Path → Except String Text
  readBytes : Path → Option (List UInt8)
  stat : Path → Option StoreFileStat
  canonicalize : Path → Option Path

/-- The Marrow crates and the `url` crate. -/
structure Marrow where
  Config : Type
  Catalog : Type
  Lock : Type
  Generation : Type
  Program : Type
  Index : Type
  StoreUid : Type
  StoreView : Type
  SurfaceSnapshot : Type
  ReadSession : Type
  StampedRoots : Type
  IoError : Type
  ConfigError : Type
  DiscoverError : Type
  [decGeneration : DecidableEq Generation]
  [decStoreUid : DecidableEq StoreUid]
  /-- `marrow_project::parse_config`. -/
  parseConfig : Text → Except ConfigError Config
  /-- The `ConfigError` of an unreadable config file, by its message. -/
  configUnreadable : String → ConfigError
  configMessage : ConfigError → String
  ioMessage : IoError → String
  discoverMessage : DiscoverError → String
  sourceRoots : Config → List Path
  /-- `config.tests.clear()`. -/
  clearTests : Config → Config
  /-- Whether `marrow_project::test_module_file` finds a test module at the path. -/
  testModuleFile : Path → Config → Path → Bool
  discoverModules : Fs → Path → Config → Except DiscoverError (List Path)
  discoverTestModules : Fs → Path → Config → Except DiscoverError (List Path)
  /-- The checker proper: a pure function of its inputs. -/
  check : AnalyzerInputs Config Catalog Lock → AnalysisSnapshot Program Generation
  modulesIsEmpty : Program → Bool
  sourceDigest : Program → String
  readOnlyContextDigest : Program → String
  buildBindingIndex : AnalysisSnapshot Program Generation → Index
  /-- `BindingIndex::source_only_rename_action_at`: the edits of the action. -/
  sourceOnlyRenameActionAt : Index → Path → Nat → Text → Except SourceRenameError (List SourceEdit)
  /-- The name of the symbol that the rename action at a byte offset renames. -/
  renamedName : Index → Path → Nat → Text
  nativeStorePath : Path → Config → Except IoError (Option Path)
  readCommittedLock : Fs → Path → Except IoError (Option Lock)
  /-- `SealedStore::open(path, AccessMode::Read)` succeeded: what the handle pins. -/
  pin : StoreView → Except IoError Unit
  storeUid : StoreView → Except IoError (Option StoreUid)
  commitMetadata : StoreView → Except IoError (Option CommitMetadata)
  acceptedCatalog : StoreView → Path → Except IoError (Option Catalog)
  /-- `data_view_unavailable_reason_for_config`. -/
  dataViewUnavailableReason : Path → Config → Except IoError (Option String)
  /-- `ProjectSurfaceReadSession::admits_checked_program`. -/
  admitsCheckedProgram : ReadSession → Program → Bool
  /-- `ProjectSurfaceReadSession::saved_data_roots`. -/
  savedDataRoots : ReadSession → Option StampedRoots
  /-- `Url::to_file_path`. -/
  toFilePath : Url → Option Path
  /-- `Url::from_file_path`. -/
  fromFilePath : Path → Option Url

namespace Marrow

variable (M : Marrow)

instance : DecidableEq M.Generation := M.decGeneration
instance : DecidableEq M.StoreUid := M.decStoreUid

abbrev Snapshot := AnalysisSnapshot M.Program M.Generation
abbrev Inputs := AnalyzerInputs M.Config M.Catalog M.Lock

/-- Under one root, equal analysis generations have equal binding indexes: what
lets a recompute of unchanged source keep the index it has. -/
def IndexByGeneration : Prop :=
  ∀ i i' : M.Inputs, i.root = i'.root → (M.check i).generation = (M.check i').generation →
    M.buildBindingIndex (M.check i) = M.buildBindingIndex (M.check i')

/-- The rename action is correct for the sources its index was built from: each
edit spans an occurrence of the renamed name in them. -/
def RenameCorrect : Prop :=
  ∀ (i : M.Inputs) file offset newName edits,
    M.sourceOnlyRenameActionAt (M.buildBindingIndex (M.check i)) file offset newName = .ok edits →
      ∀ edit ∈ edits, ∃ source, (M.check i).textOf edit.file = some source ∧
        Utf8.slice source edit.startByte edit.endByte =
          some (M.renamedName (M.buildBindingIndex (M.check i)) file offset)

/-- The URL made from a file path names that file. -/
def UrlNamesFile : Prop :=
  ∀ path url, M.fromFilePath path = some url → M.toFilePath url = some path

end Marrow

/-- The file system and the native stores, as one operation finds them. An open
is `none` while a writer holds the lock or the file cannot be opened. -/
structure World (M : Marrow) where
  fs : Fs
  /-- `SealedStore::open` in read mode. -/
  openStore : Path → Option M.StoreView
  /-- `ProjectSurfaceSnapshot::open`, which checks the project and opens no store. -/
  openSurface : Path → Option M.SurfaceSnapshot
  /-- `ProjectSurfaceSnapshot::open_read_only`. -/
  openReadOnly : M.SurfaceSnapshot → Option M.ReadSession

end MarrowLsp
