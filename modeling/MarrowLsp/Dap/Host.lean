-- SUMMARY: What the debug adapter uses of Marrow: checked debug expressions, debug values, the frame at a statement, and the pages in which a client reads children (debugger.rs, variables.rs).
import MarrowLsp.Core.Json
import MarrowLsp.Core.Path

/-!
# The debug host

Marrow compiles and runs the debugged program. What the adapter asks of it is a record
of functions here; a frame is what a statement about to run can be asked.
-/
namespace MarrowLsp

namespace Dap

structure SourceSpan where
  startByte : Nat
  endByte : Nat
  line : Nat
  column : Nat
  deriving DecidableEq, Repr

structure ChildCounts where
  named : Option Nat
  indexed : Option Nat
  deriving DecidableEq, Repr

inductive ChildPage where
  | all (start : Nat)
  | range (start count : Nat)
  deriving DecidableEq, Repr

/-- A missing or zero count asks for all children from the start. -/
def ChildPage.requested (start : Nat) : Option Nat → ChildPage
  | none => .all start
  | some 0 => .all start
  | some count => .range start count

inductive VariablesFilter where
  | all
  | named
  | indexed
  deriving DecidableEq, Repr

/-- The stable runtime-error detail carried back to the protocol thread. -/
structure RuntimeErrorDetail where
  code : String
  message : String
  deriving DecidableEq, Repr

structure DebugHost where
  /-- `AnalysisSnapshot`. -/
  Analysis : Type
  /-- `CheckedDebugExpression`. -/
  Expression : Type
  DebugValue : Type
  /-- `tooling::DataSnapshotStamp`. -/
  StoreSnapshot : Type
  /-- `tooling::DataPathSegment`. -/
  DataPathSegment : Type
  [decExpression : DecidableEq Expression]
  /-- `canonicalize`, or the path itself where that fails. -/
  normalizeExistingPath : Path → Path
  /-- How a path is printed. -/
  display : Path → String
  /-- The messages of the diagnostics where the expression does not check. -/
  checkedDebugExpression : Analysis → Path → SourceSpan → String → Except (List String) Expression
  isBool : Expression → Bool
  requiresDurableData : Expression → Bool
  isTrue : DebugValue → Bool
  preview : DebugValue → String
  childCounts : DebugValue → Option ChildCounts
  childrenTruncated : DebugValue → Bool
  children : DebugValue → ChildPage → VariablesFilter → List (String × DebugValue)
  /-- `data_generation_stamp_to_json`. -/
  dataGenerationStampToJson : StoreSnapshot → Json
  /-- Whether `marrow_run::entry_arguments_from_json` takes the arguments. -/
  entryArgumentsFromJson : List Json → Except String Unit

attribute [instance] DebugHost.decExpression

variable (H : DebugHost)

/-! ## Snapshots -/

/-- A row of the Variables view. -/
structure Child where
  name : String
  value : String
  childrenTruncated : Option Bool
  expand : Option H.DebugValue

variable {H} in
def childFromDebug (child : String × H.DebugValue) : Child H :=
  let expandable := (H.childCounts child.2).isSome
  { name := child.1
    value := H.preview child.2
    childrenTruncated := if expandable then some (H.childrenTruncated child.2) else none
    expand := if expandable then some child.2 else none }

structure LocalsSnapshot where
  visibleLocalCount : Nat
  localsTruncated : Bool
  entries : List (Child H)

/-- One saved-data variable row captured from the stopped frame. -/
structure DataVar where
  name : String
  value : String
  childrenTruncated : Option Bool
  path : List H.DataPathSegment
  expandable : Bool

structure DataVariablesSnapshot where
  entries : List (DataVar H)
  childrenTruncated : Bool
  storeSnapshot : H.StoreSnapshot

structure EvaluationSnapshot where
  value : H.DebugValue
  storeSnapshot : Option H.StoreSnapshot

/-! ## Frames -/

/-- The frame of a statement about to run. -/
structure Frame where
  file : Option Path
  depth : Nat
  evaluateDebugExpression : H.Expression → Except RuntimeErrorDetail H.DebugValue
  debugDataSnapshot : Except RuntimeErrorDetail H.StoreSnapshot
  /-- `debug_snapshot`: the locals, how many are visible, and whether some are left out. -/
  debugSnapshot : ChildPage → VariablesFilter → List (String × H.DebugValue) × Nat × Bool
  /-- `snapshot_data_children`. -/
  snapshotDataChildren : List H.DataPathSegment → ChildPage →
    Except RuntimeErrorDetail (DataVariablesSnapshot H)

/-- What the hook gets before a statement. -/
structure Statement where
  span : SourceSpan
  frame : Frame H

end Dap

end MarrowLsp
