-- SUMMARY: The boundary of a data view: decoding it from the wire, and the field-by-field comparison, which is equality (dataViewBoundary.ts).
import MarrowLsp.Lib.Lists
import MarrowLsp.Core.Json

/-!
# Data view boundaries

A boundary says which source analysis and which store contents an answer was computed
from. The editor compares two of them field by field.
-/
namespace MarrowLsp

namespace Editor

/-! ## Records -/

structure SourceAnalysisCatalog where
  epoch : Nat
  digest : Option String
  deriving DecidableEq, Repr

def ANALYSIS_GENERATION_PROFILE_VERSION : String := "analysis.generation.v1"
def DATA_GENERATION_PROFILE_VERSION : String := "data.generation.v1"

structure SourceAnalysisGeneration where
  profileVersion : String
  sourceIdentity : String
  configDigest : String
  checkedSourceDigest : String
  readOnlyContextDigest : String
  acceptedCatalog : Option SourceAnalysisCatalog
  proposalCatalog : Option SourceAnalysisCatalog
  deriving DecidableEq, Repr

structure DataGenerationCommit where
  commit_id : Nat
  catalog_epoch : Nat
  source_digest : String
  layout_epoch : Nat
  engine_profile_digest : String
  deriving DecidableEq, Repr

structure DataGenerationTransaction where
  depth : Nat
  deriving DecidableEq, Repr

structure DataGeneration where
  profile_version : String
  store_uid : Option String
  catalog_digest : Option String
  commit : Option DataGenerationCommit
  open_transaction : Option DataGenerationTransaction
  checked_source_digest : String
  deriving DecidableEq, Repr

inductive WatchTargetKind where
  | store_file
  | catalog_lock
  deriving DecidableEq, Repr

structure DataViewWatchTarget where
  kind : WatchTargetKind
  path : String
  deriving DecidableEq, Repr

structure Compatibility where
  verdict : String
  deriving DecidableEq, Repr

structure DataViewBoundary where
  sourceAnalysisGeneration : SourceAnalysisGeneration
  storeSnapshot : DataGeneration
  compatibility : Compatibility
  watchTargets : List DataViewWatchTarget
  deriving DecidableEq, Repr

/-! ## From the wire -/

section FromWire

-- What `JSON.parse` makes of a number spelled with a fraction, an exponent or a sign,
-- where that is a non-negative safe integer.
variable (integerOf : String → Option Nat)

/-- A field that `isNonNegativeSafeInteger`. -/
def nonNegativeSafeInteger : Option Json → Option Nat
  | some (.number (.posInt n)) => if n ≤ 9007199254740991 then some n else none
  | some (.number (.float spelling)) => integerOf spelling
  | _ => none

/-- A field that `isStringOrNull`. -/
def stringOrNull : Option Json → Option (Option String)
  | some .null => some none
  | some (.string value) => some (some value)
  | _ => none

def stringFromWire (value : Option Json) : Option String := value.bind Json.asStr

/-- A field that is one string and no other. -/
def literalFromWire (literal : String) (value : Option Json) : Option String :=
  (stringFromWire value).filter (· == literal)

def isRecord : Json → Bool
  | .object _ => true
  | _ => false

/-- A field that is a record with a value of its own. -/
def recordFromWire {α : Type} (fromRecord : Json → Option α) (value : Option Json) : Option α :=
  (value.filter isRecord).bind fromRecord

/-- A field that is `null` or such a record. -/
def recordOrNull {α : Type} (fromRecord : Json → Option α) : Option Json → Option (Option α)
  | some .null => some none
  | value => (recordFromWire fromRecord value).map some

def sourceAnalysisCatalogFromWire : Option Json → Option (Option SourceAnalysisCatalog) :=
  recordOrNull fun value => do
    let epoch ← nonNegativeSafeInteger integerOf (value.get "epoch")
    let digest ← stringOrNull (value.get "digest")
    some ⟨epoch, digest⟩

def sourceAnalysisGenerationFromWire : Option Json → Option SourceAnalysisGeneration :=
  recordFromWire fun value => do
    let profileVersion ←
      literalFromWire ANALYSIS_GENERATION_PROFILE_VERSION (value.get "profileVersion")
    let sourceIdentity ← stringFromWire (value.get "sourceIdentity")
    let configDigest ← stringFromWire (value.get "configDigest")
    let checkedSourceDigest ← stringFromWire (value.get "checkedSourceDigest")
    let readOnlyContextDigest ← stringFromWire (value.get "readOnlyContextDigest")
    let acceptedCatalog ← sourceAnalysisCatalogFromWire integerOf (value.get "acceptedCatalog")
    let proposalCatalog ← sourceAnalysisCatalogFromWire integerOf (value.get "proposalCatalog")
    some ⟨profileVersion, sourceIdentity, configDigest, checkedSourceDigest,
      readOnlyContextDigest, acceptedCatalog, proposalCatalog⟩

def generationCommitFromWire : Option Json → Option (Option DataGenerationCommit) :=
  recordOrNull fun value => do
    let commit_id ← nonNegativeSafeInteger integerOf (value.get "commit_id")
    let catalog_epoch ← nonNegativeSafeInteger integerOf (value.get "catalog_epoch")
    let source_digest ← stringFromWire (value.get "source_digest")
    let layout_epoch ← nonNegativeSafeInteger integerOf (value.get "layout_epoch")
    let engine_profile_digest ← stringFromWire (value.get "engine_profile_digest")
    some ⟨commit_id, catalog_epoch, source_digest, layout_epoch, engine_profile_digest⟩

def generationTransactionFromWire : Option Json → Option (Option DataGenerationTransaction) :=
  recordOrNull fun value => do
    let depth ← nonNegativeSafeInteger integerOf (value.get "depth")
    some ⟨depth⟩

def storeSnapshotFromWire : Option Json → Option DataGeneration :=
  recordFromWire fun value => do
    let profile_version ←
      literalFromWire DATA_GENERATION_PROFILE_VERSION (value.get "profile_version")
    let store_uid ← stringOrNull (value.get "store_uid")
    let catalog_digest ← stringOrNull (value.get "catalog_digest")
    let checked_source_digest ← stringFromWire (value.get "checked_source_digest")
    let commit ← generationCommitFromWire integerOf (value.get "commit")
    let open_transaction ← generationTransactionFromWire integerOf (value.get "open_transaction")
    some ⟨profile_version, store_uid, catalog_digest, commit, open_transaction,
      checked_source_digest⟩

def compatibilityFromWire : Option Json → Option Compatibility :=
  recordFromWire fun value => do
    let verdict ← literalFromWire "admitted" (value.get "verdict")
    some ⟨verdict⟩

def watchTargetKindFromWire : Option Json → Option WatchTargetKind
  | some (.string "store_file") => some .store_file
  | some (.string "catalog_lock") => some .catalog_lock
  | _ => none

def watchTargetsFromWire : Option Json → Option (List DataViewWatchTarget)
  | some (.array values) => values.mapM fun target => recordFromWire (fun target => do
      let kind ← watchTargetKindFromWire (target.get "kind")
      let path ← stringFromWire (target.get "path")
      some ⟨kind, path⟩) (some target)
  | _ => none

def dataViewBoundaryFromWire : Option Json → Option DataViewBoundary :=
  recordFromWire fun value => do
    let sourceAnalysisGeneration ←
      sourceAnalysisGenerationFromWire integerOf (value.get "sourceAnalysisGeneration")
    let storeSnapshot ← storeSnapshotFromWire integerOf (value.get "storeSnapshot")
    let compatibility ← compatibilityFromWire (value.get "compatibility")
    let watchTargets ← watchTargetsFromWire (value.get "watchTargets")
    some ⟨sourceAnalysisGeneration, storeSnapshot, compatibility, watchTargets⟩

end FromWire

/-! ## The comparison -/

def sameSourceAnalysisCatalog : Option SourceAnalysisCatalog → Option SourceAnalysisCatalog → Bool
  | some left, some right => left.epoch == right.epoch && left.digest == right.digest
  | none, none => true
  | _, _ => false

def sameSourceAnalysisGeneration (left right : SourceAnalysisGeneration) : Bool :=
  left.profileVersion == right.profileVersion &&
    left.sourceIdentity == right.sourceIdentity &&
    left.configDigest == right.configDigest &&
    left.checkedSourceDigest == right.checkedSourceDigest &&
    left.readOnlyContextDigest == right.readOnlyContextDigest &&
    sameSourceAnalysisCatalog left.acceptedCatalog right.acceptedCatalog &&
    sameSourceAnalysisCatalog left.proposalCatalog right.proposalCatalog

def sameCommit : Option DataGenerationCommit → Option DataGenerationCommit → Bool
  | some left, some right =>
    left.commit_id == right.commit_id &&
      left.catalog_epoch == right.catalog_epoch &&
      left.source_digest == right.source_digest &&
      left.layout_epoch == right.layout_epoch &&
      left.engine_profile_digest == right.engine_profile_digest
  | none, none => true
  | _, _ => false

def sameTransaction :
    Option DataGenerationTransaction → Option DataGenerationTransaction → Bool
  | some left, some right => left.depth == right.depth
  | none, none => true
  | _, _ => false

def sameSnapshot (left right : DataGeneration) : Bool :=
  left.profile_version == right.profile_version &&
    left.store_uid == right.store_uid &&
    left.catalog_digest == right.catalog_digest &&
    sameCommit left.commit right.commit &&
    sameTransaction left.open_transaction right.open_transaction &&
    left.checked_source_digest == right.checked_source_digest

/-- `sameWatchTargets` of the boundary, which compares kinds and paths. -/
def sameBoundaryTargets (left right : List DataViewWatchTarget) : Bool :=
  Lists.everySame (fun target other => target.kind == other.kind && target.path == other.path)
    left right

def sameBoundary (left right : DataViewBoundary) : Bool :=
  sameSourceAnalysisGeneration left.sourceAnalysisGeneration right.sourceAnalysisGeneration &&
    sameSnapshot left.storeSnapshot right.storeSnapshot &&
    left.compatibility.verdict == right.compatibility.verdict &&
    sameBoundaryTargets left.watchTargets right.watchTargets

/-! ## The comparison is equality -/

theorem sameSourceAnalysisCatalog_iff {left right : Option SourceAnalysisCatalog} :
    sameSourceAnalysisCatalog left right = true ↔ left = right := by
  cases left with
  | none => cases right <;> simp [sameSourceAnalysisCatalog]
  | some left =>
    cases right with
    | none => simp [sameSourceAnalysisCatalog]
    | some right =>
      cases left
      cases right
      simp [sameSourceAnalysisCatalog]

theorem sameSourceAnalysisGeneration_iff {left right : SourceAnalysisGeneration} :
    sameSourceAnalysisGeneration left right = true ↔ left = right := by
  cases left
  cases right
  simp [sameSourceAnalysisGeneration, sameSourceAnalysisCatalog_iff, and_assoc]

theorem sameCommit_iff {left right : Option DataGenerationCommit} :
    sameCommit left right = true ↔ left = right := by
  cases left with
  | none => cases right <;> simp [sameCommit]
  | some left =>
    cases right with
    | none => simp [sameCommit]
    | some right =>
      cases left
      cases right
      simp [sameCommit, and_assoc]

theorem sameTransaction_iff {left right : Option DataGenerationTransaction} :
    sameTransaction left right = true ↔ left = right := by
  cases left with
  | none => cases right <;> simp [sameTransaction]
  | some left =>
    cases right with
    | none => simp [sameTransaction]
    | some right =>
      cases left
      cases right
      simp [sameTransaction]

theorem sameSnapshot_iff {left right : DataGeneration} :
    sameSnapshot left right = true ↔ left = right := by
  cases left
  cases right
  simp [sameSnapshot, sameCommit_iff, sameTransaction_iff, and_assoc]

theorem sameBoundaryTargets_iff {left right : List DataViewWatchTarget} :
    sameBoundaryTargets left right = true ↔ left = right := by
  refine Lists.everySame_iff ?_
  intro target other
  cases target
  cases other
  simp

theorem sameBoundary_iff {left right : DataViewBoundary} :
    sameBoundary left right = true ↔ left = right := by
  obtain ⟨_, _, ⟨_⟩, _⟩ := left
  obtain ⟨_, _, ⟨_⟩, _⟩ := right
  simp [sameBoundary, sameSourceAnalysisGeneration_iff, sameSnapshot_iff, sameBoundaryTargets_iff,
    and_assoc]

end Editor

end MarrowLsp
