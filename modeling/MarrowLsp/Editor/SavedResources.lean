-- SUMMARY: The saved-data tree of the editor: its nodes, what expanding one asks and shows, and that everything shown beneath a root has the boundary of the root (savedResourceInspector.ts).
import MarrowLsp.Lib.Transition
import MarrowLsp.Editor.DataViewBoundary

/-!
# The saved-data tree

Each node carries the boundary of the answer it came from, and expanding it compares the
next answer with that boundary alone. The store and the sources may change at any
time, so each expansion meets a server of its own.
-/
namespace MarrowLsp

namespace Editor

open Transition

/-! ## Paths and keys -/

structure DataRootSegment where
  store_catalog_id : String
  deriving DecidableEq, Repr

/-- A typed key; what TypeScript has as a `number` is an integer here. -/
inductive DataKey where
  | int (value : Int)
  | bool (value : Bool)
  | string (value : String)
  | date (value : Int)
  | instant (value : String)
  | duration (value : String)
  | bytes (value : List Nat)
  deriving DecidableEq, Repr

inductive DataPathSegment where
  | root (segment : DataRootSegment)
  | field (member_catalog_id : String)
  | layer (member_catalog_id : String)
  | key (value : DataKey)
  deriving DecidableEq, Repr

structure DataChildView where
  segment : DataPathSegment
  label : String
  deriving DecidableEq, Repr

structure SavedRootView where
  segment : DataRootSegment
  label : String
  deriving DecidableEq, Repr

/-! ## Requests and answers -/

structure SavedRootsResult where
  available : Bool
  roots : List SavedRootView
  data_view_boundary : Option Json

structure DataChildrenRequest where
  segments : List DataPathSegment
  limit : Nat
  cursor : Option DataKey
  deriving DecidableEq, Repr

structure DataChildViewsResult where
  available : Bool
  children : List DataChildView
  truncated : Bool
  cursor : Option DataKey
  data_view_boundary : Option Json
  error : Option Json

inductive DataPresence where
  | absent
  | value_only
  | children_only
  deriving DecidableEq, Repr

structure DataReadRequest where
  segments : List DataPathSegment
  preview_limit : Nat
  deriving DecidableEq, Repr

structure DataReadResult where
  available : Bool
  presence : DataPresence
  value : Option String
  value_truncated : Bool
  data_view_boundary : Option Json
  error : Option Json

def DATA_PAGE_LIMIT : Nat := 200
def DATA_VALUE_PREVIEW_LIMIT : Nat := 2048

/-- How a request ends. -/
inductive Reply (α : Type) where
  | noClient
  | failed
  | answered (result : α)

/-- What the requests of one expansion come back with. -/
structure DataServer where
  savedRoots : Reply SavedRootsResult
  dataChildren : DataChildrenRequest → Reply DataChildViewsResult
  dataRead : DataReadRequest → Reply DataReadResult

/-! ## Nodes -/

structure SavedRootNode where
  label : String
  segment : DataRootSegment
  boundary : DataViewBoundary
  deriving DecidableEq, Repr

inductive PlaceholderKind where
  | unavailable
  | blocked
  | absent
  | truncated
  | changed
  deriving DecidableEq, Repr

inductive SavedResourceNode where
  | root (node : SavedRootNode)
  | segment (label : String) (segments : List DataPathSegment) (boundary : DataViewBoundary)
  | value (label : String) (valueTruncated : Bool)
  | more (label : String) (segments : List DataPathSegment) (cursor : DataKey)
      (boundary : DataViewBoundary)
  | placeholder (kind : PlaceholderKind) (label : String)
  deriving DecidableEq, Repr

def unavailableNode : SavedResourceNode := .placeholder .unavailable "store unavailable"

def changedNode : SavedResourceNode := .placeholder .changed "data changed; refresh"

def truncatedNode : SavedResourceNode := .placeholder .truncated "additional children unavailable"

/-- A store failure and a path failure are told apart. -/
def blockedNode (error : Json) : SavedResourceNode :=
  match error.get "kind" with
  | some (.string "store") => .placeholder .blocked "store unavailable"
  | _ => .placeholder .blocked "path unavailable"

/-! ## The provider -/

section Provider

variable (integerOf : String → Option Nat)

/-- The roots, and `none` where they are unavailable or there is no client. -/
def loadRootNodes (server : DataServer) : Except (List SavedResourceNode) (List SavedRootNode) :=
  match server.savedRoots with
  | .noClient => .error []
  | .failed => .error [unavailableNode]
  | .answered result =>
    if !result.available then .error [unavailableNode]
    else
      match dataViewBoundaryFromWire integerOf result.data_view_boundary with
      | none => .error [unavailableNode]
      | some boundary => .ok (result.roots.map fun root => ⟨root.label, root.segment, boundary⟩)

def segmentNode (segments : List DataPathSegment) (boundary : DataViewBoundary)
    (child : DataChildView) : SavedResourceNode :=
  .segment child.label (segments ++ [child.segment]) boundary

/-- What stands for the children that a page left out. -/
def moreNodes (segments : List DataPathSegment) (boundary : DataViewBoundary) (truncated : Bool)
    (cursor : Option DataKey) : List SavedResourceNode :=
  if truncated then
    match cursor with
    | some cursor => [.more "more children" segments cursor boundary]
    | none => [truncatedNode]
  else []

section MoreNodes

variable (segments : List DataPathSegment) (boundary : DataViewBoundary)

theorem moreNodes_whole (cursor : Option DataKey) :
    moreNodes segments boundary false cursor = [] := rfl

theorem moreNodes_cursor (cursor : DataKey) : moreNodes segments boundary true (some cursor) =
    [.more "more children" segments cursor boundary] := rfl

theorem moreNodes_noCursor : moreNodes segments boundary true none = [truncatedNode] := rfl

end MoreNodes

def getDataChildren (dataChildren : DataChildrenRequest → Reply DataChildViewsResult)
    (segments : List DataPathSegment) (cursor : Option DataKey)
    (expectedBoundary : DataViewBoundary) : List SavedResourceNode :=
  match dataChildren ⟨segments, DATA_PAGE_LIMIT, cursor⟩ with
  | .noClient => []
  | .failed => [unavailableNode]
  | .answered result =>
    if !result.available then [unavailableNode]
    else
      match result.error with
      | some error => [blockedNode error]
      | none =>
        match dataViewBoundaryFromWire integerOf result.data_view_boundary with
        | none => [changedNode]
        | some boundary =>
          if !sameBoundary expectedBoundary boundary then [changedNode]
          else
            result.children.map (segmentNode segments boundary) ++
              moreNodes segments boundary result.truncated result.cursor

/-- What a read shows, `none` where there are children to ask for. -/
def readNodes (result : DataReadResult) : Option (List SavedResourceNode) :=
  match result.value with
  | some value => some [.value value result.value_truncated]
  | none => if result.presence = .absent then some [.placeholder .absent "absent"] else none

def readData (dataRead : DataReadRequest → Reply DataReadResult) (segments : List DataPathSegment)
    (expectedBoundary : DataViewBoundary) : Option (List SavedResourceNode) :=
  match dataRead ⟨segments, DATA_VALUE_PREVIEW_LIMIT⟩ with
  | .noClient => some []
  | .failed => some [unavailableNode]
  | .answered result =>
    if !result.available then some [unavailableNode]
    else
      match result.error with
      | some error => some [blockedNode error]
      | none =>
        match dataViewBoundaryFromWire integerOf result.data_view_boundary with
        | none => some [changedNode]
        | some boundary =>
          if !sameBoundary expectedBoundary boundary then some [changedNode] else readNodes result

/-- `getChildren` of a node. -/
def getChildren (server : DataServer) : SavedResourceNode → List SavedResourceNode
  | .root node =>
    getDataChildren integerOf server.dataChildren [.root node.segment] none node.boundary
  | .segment _ segments boundary =>
    match readData integerOf server.dataRead segments boundary with
    | some read => read
    | none => getDataChildren integerOf server.dataChildren segments none boundary
  | .more _ segments cursor boundary =>
    getDataChildren integerOf server.dataChildren segments (some cursor) boundary
  | .value .. => []
  | .placeholder .. => []

end Provider

/-! ## The tree over time -/

namespace SavedResourceNode

/-- A node that shows data of the store. -/
def isData : SavedResourceNode → Bool
  | .segment .. => true
  | .more .. => true
  | .value .. => true
  | .placeholder .absent _ => true
  | _ => false

/-- The boundary that expanding a node expects. -/
def boundary : SavedResourceNode → Option DataViewBoundary
  | .root node => some node.boundary
  | .segment _ _ boundary => some boundary
  | .more _ _ _ boundary => some boundary
  | _ => none

/-- The children request that expanding a node makes. -/
def childrenRequest : SavedResourceNode → Option DataChildrenRequest
  | .root node => some ⟨[.root node.segment], DATA_PAGE_LIMIT, none⟩
  | .segment _ segments _ => some ⟨segments, DATA_PAGE_LIMIT, none⟩
  | .more _ segments cursor _ => some ⟨segments, DATA_PAGE_LIMIT, some cursor⟩
  | _ => none

/-- The read request that expanding a node makes first. -/
def readRequest : SavedResourceNode → Option DataReadRequest
  | .segment _ segments _ => some ⟨segments, DATA_VALUE_PREVIEW_LIMIT⟩
  | _ => none

end SavedResourceNode

namespace DataServer

def childrenBoundary (server : DataServer) (request : DataChildrenRequest) : Option Json :=
  match server.dataChildren request with
  | .answered result => result.data_view_boundary
  | _ => none

def readBoundary (server : DataServer) (request : DataReadRequest) : Option Json :=
  match server.dataRead request with
  | .answered result => result.data_view_boundary
  | _ => none

/-- The boundary on the answer behind a node that an expansion shows: segments and `more`
come from the children answer, values and `absent` from the read answer. -/
def boundaryBehind (server : DataServer) (expanded shown : SavedResourceNode) : Option Json :=
  match shown with
  | .segment .. => expanded.childrenRequest.bind server.childrenBoundary
  | .more .. => expanded.childrenRequest.bind server.childrenBoundary
  | .value .. => expanded.readRequest.bind server.readBoundary
  | .placeholder .absent _ => expanded.readRequest.bind server.readBoundary
  | _ => none

end DataServer

/-- A node shown, the root it is beneath, and the boundary on the answer it came from. -/
structure TreeEntry where
  node : SavedResourceNode
  root : SavedRootNode
  wire : Option Json

/-- The nodes shown so far. A refresh shows new roots, and the old ones are not forgotten. -/
abbrev SavedResourceTree := List TreeEntry

inductive TreeEvent where
  | load (server : DataServer)
  | expand (entry : Nat) (server : DataServer)

namespace SavedResourceTree

variable (integerOf : String → Option Nat)

/-- The roots of an answer, each beneath itself. -/
def rootEntries (server : DataServer) : List TreeEntry :=
  match loadRootNodes integerOf server, server.savedRoots with
  | .ok roots, .answered result => roots.map fun root => ⟨.root root, root, result.data_view_boundary⟩
  | _, _ => []

def childEntries (server : DataServer) (entry : TreeEntry) : List TreeEntry :=
  (getChildren integerOf server entry.node).map fun shown =>
    ⟨shown, entry.root, server.boundaryBehind entry.node shown⟩

def step (tree : SavedResourceTree) : TreeEvent → Option SavedResourceTree
  | .load server => some (tree ++ rootEntries integerOf server)
  | .expand entry server =>
    tree[entry]?.map fun entry => tree ++ childEntries integerOf server entry

end SavedResourceTree

/-! ## What an answer shows -/

section Answers

variable (integerOf : String → Option Nat)

/-- The one node shown for an answer that shows no data: one that is not available, that
has an error, or whose boundary is not the expected one. -/
def refusal (expected : DataViewBoundary) (available : Bool) (error wire : Option Json) :
    Option SavedResourceNode :=
  if !available then some unavailableNode
  else
    match error with
    | some error => some (blockedNode error)
    | none =>
      if dataViewBoundaryFromWire integerOf wire = some expected then none else some changedNode

variable {integerOf} {segments : List DataPathSegment} {expected : DataViewBoundary}

theorem sameBoundary_self (boundary : DataViewBoundary) : sameBoundary boundary boundary = true :=
  sameBoundary_iff.mpr rfl

theorem sameBoundary_of_ne {left right : DataViewBoundary} (h : right ≠ left) :
    sameBoundary left right = false := by
  rw [← Bool.not_eq_true, sameBoundary_iff]
  exact fun heq => h heq.symm

/-- The checks an answer goes through, in order. -/
theorem refusal_cases (expected : DataViewBoundary) (available : Bool) (error wire : Option Json) :
    (available = false ∧
      refusal integerOf expected available error wire = some unavailableNode) ∨
    (available = true ∧ ∃ failure, error = some failure ∧
      refusal integerOf expected available error wire = some (blockedNode failure)) ∨
    (available = true ∧ error = none ∧ dataViewBoundaryFromWire integerOf wire = none ∧
      refusal integerOf expected available error wire = some changedNode) ∨
    (available = true ∧ error = none ∧ ∃ boundary, boundary ≠ expected ∧
      dataViewBoundaryFromWire integerOf wire = some boundary ∧
      refusal integerOf expected available error wire = some changedNode) ∨
    (available = true ∧ error = none ∧ dataViewBoundaryFromWire integerOf wire = some expected ∧
      refusal integerOf expected available error wire = none) := by
  cases available with
  | false => exact .inl ⟨rfl, rfl⟩
  | true =>
    cases error with
    | some failure => exact .inr (.inl ⟨rfl, failure, rfl, rfl⟩)
    | none =>
      cases hwire : dataViewBoundaryFromWire integerOf wire with
      | none => exact .inr (.inr (.inl ⟨rfl, rfl, rfl, by simp [refusal, hwire]⟩))
      | some boundary =>
        by_cases hsame : boundary = expected
        · refine .inr (.inr (.inr (.inr ⟨rfl, rfl, by rw [hsame], ?_⟩)))
          simp [refusal, hwire, hsame]
        · refine .inr (.inr (.inr (.inl ⟨rfl, rfl, boundary, hsame, rfl, ?_⟩)))
          simp [refusal, hwire, hsame]

theorem refusal_not_data {available : Bool} {error wire : Option Json} {node : SavedResourceNode}
    (h : refusal integerOf expected available error wire = some node) :
    node.isData = false ∧ node.boundary = none := by
  rcases refusal_cases expected available error wire with
    ⟨-, hrefusal⟩ | ⟨-, failure, -, hrefusal⟩ | ⟨-, -, -, hrefusal⟩ | ⟨-, -, _, -, -, hrefusal⟩ |
      ⟨-, -, -, hrefusal⟩
  · cases hrefusal.symm.trans h
    exact ⟨rfl, rfl⟩
  · cases hrefusal.symm.trans h
    unfold blockedNode
    split <;> exact ⟨rfl, rfl⟩
  · cases hrefusal.symm.trans h
    exact ⟨rfl, rfl⟩
  · cases hrefusal.symm.trans h
    exact ⟨rfl, rfl⟩
  · cases hrefusal.symm.trans h

section Children

variable {dataChildren : DataChildrenRequest → Reply DataChildViewsResult}
  {cursor : Option DataKey} {result : DataChildViewsResult}
  (hanswer : dataChildren ⟨segments, DATA_PAGE_LIMIT, cursor⟩ = .answered result)
include hanswer

/-- A children answer shows its refusal alone, or its page. -/
theorem getDataChildren_answered (integerOf : String → Option Nat) (expected : DataViewBoundary) :
    (∃ node, refusal integerOf expected result.available result.error result.data_view_boundary =
        some node ∧
      getDataChildren integerOf dataChildren segments cursor expected = [node]) ∨
    (refusal integerOf expected result.available result.error result.data_view_boundary = none ∧
      dataViewBoundaryFromWire integerOf result.data_view_boundary = some expected ∧
      getDataChildren integerOf dataChildren segments cursor expected =
        result.children.map (segmentNode segments expected) ++
          moreNodes segments expected result.truncated result.cursor) := by
  unfold getDataChildren
  rw [hanswer]
  rcases refusal_cases expected result.available result.error result.data_view_boundary with
    ⟨havailable, hrefusal⟩ | ⟨havailable, failure, herror, hrefusal⟩ |
      ⟨havailable, herror, hwire, hrefusal⟩ | ⟨havailable, herror, boundary, hne, hwire, hrefusal⟩ |
      ⟨havailable, herror, hwire, hrefusal⟩
  · exact .inl ⟨_, hrefusal, by simp [havailable]⟩
  · exact .inl ⟨_, hrefusal, by simp [havailable, herror]⟩
  · exact .inl ⟨_, hrefusal, by simp [havailable, herror, hwire]⟩
  · exact .inl ⟨_, hrefusal, by simp [havailable, herror, hwire, sameBoundary_of_ne hne]⟩
  · exact .inr ⟨hrefusal, hwire, by simp [havailable, herror, hwire, sameBoundary_self]⟩

end Children

section Read

variable {dataRead : DataReadRequest → Reply DataReadResult} {result : DataReadResult}
  (hanswer : dataRead ⟨segments, DATA_VALUE_PREVIEW_LIMIT⟩ = .answered result)
include hanswer

/-- A read answer shows its refusal alone, or what it read. -/
theorem readData_answered (integerOf : String → Option Nat) (expected : DataViewBoundary) :
    (∃ node, refusal integerOf expected result.available result.error result.data_view_boundary =
        some node ∧
      readData integerOf dataRead segments expected = some [node]) ∨
    (refusal integerOf expected result.available result.error result.data_view_boundary = none ∧
      dataViewBoundaryFromWire integerOf result.data_view_boundary = some expected ∧
      readData integerOf dataRead segments expected = readNodes result) := by
  unfold readData
  rw [hanswer]
  rcases refusal_cases expected result.available result.error result.data_view_boundary with
    ⟨havailable, hrefusal⟩ | ⟨havailable, failure, herror, hrefusal⟩ |
      ⟨havailable, herror, hwire, hrefusal⟩ | ⟨havailable, herror, boundary, hne, hwire, hrefusal⟩ |
      ⟨havailable, herror, hwire, hrefusal⟩
  · exact .inl ⟨_, hrefusal, by simp [havailable]⟩
  · exact .inl ⟨_, hrefusal, by simp [havailable, herror]⟩
  · exact .inl ⟨_, hrefusal, by simp [havailable, herror, hwire]⟩
  · exact .inl ⟨_, hrefusal, by simp [havailable, herror, hwire, sameBoundary_of_ne hne]⟩
  · exact .inr ⟨hrefusal, hwire, by simp [havailable, herror, hwire, sameBoundary_self]⟩

end Read

/-- What `getDataChildren` shows is no data, or has the boundary it expects. -/
theorem mem_getDataChildren {dataChildren : DataChildrenRequest → Reply DataChildViewsResult}
    {cursor : Option DataKey} {shown : SavedResourceNode}
    (h : shown ∈ getDataChildren integerOf dataChildren segments cursor expected) :
    (shown.isData = false ∧ shown.boundary = none) ∨
      shown.isData = true ∧ shown.boundary = some expected ∧ ∃ result,
        dataChildren ⟨segments, DATA_PAGE_LIMIT, cursor⟩ = .answered result ∧
          dataViewBoundaryFromWire integerOf result.data_view_boundary = some expected := by
  cases hanswer : dataChildren ⟨segments, DATA_PAGE_LIMIT, cursor⟩ with
  | noClient =>
    rw [getDataChildren, hanswer] at h
    cases h
  | failed =>
    rw [getDataChildren, hanswer] at h
    rw [List.mem_singleton.mp h]
    exact .inl ⟨rfl, rfl⟩
  | answered result =>
    obtain ⟨node, hrefusal, hnodes⟩ | ⟨-, hwire, hnodes⟩ :=
      getDataChildren_answered hanswer integerOf expected
    · rw [hnodes] at h
      rw [List.mem_singleton.mp h]
      exact .inl (refusal_not_data hrefusal)
    · rw [hnodes] at h
      rcases List.mem_append.mp h with h | h
      · obtain ⟨child, -, rfl⟩ := List.mem_map.mp h
        exact .inr ⟨rfl, rfl, result, rfl, hwire⟩
      · unfold moreNodes at h
        split at h
        · split at h
          · rw [List.mem_singleton.mp h]
            exact .inr ⟨rfl, rfl, result, rfl, hwire⟩
          · rw [List.mem_singleton.mp h]
            exact .inl ⟨rfl, rfl⟩
        · cases h

/-- What `readData` shows is no data, or comes with the boundary it expects. -/
theorem mem_readData {dataRead : DataReadRequest → Reply DataReadResult}
    {nodes : List SavedResourceNode} {shown : SavedResourceNode}
    (h : readData integerOf dataRead segments expected = some nodes) (hmem : shown ∈ nodes) :
    shown.boundary = none ∧ (shown.isData = false ∨ ∃ result,
      dataRead ⟨segments, DATA_VALUE_PREVIEW_LIMIT⟩ = .answered result ∧
        dataViewBoundaryFromWire integerOf result.data_view_boundary = some expected) := by
  cases hanswer : dataRead ⟨segments, DATA_VALUE_PREVIEW_LIMIT⟩ with
  | noClient =>
    rw [readData, hanswer] at h
    cases h
    cases hmem
  | failed =>
    rw [readData, hanswer] at h
    cases h
    rw [List.mem_singleton.mp hmem]
    exact ⟨rfl, .inl rfl⟩
  | answered result =>
    obtain ⟨node, hrefusal, hnodes⟩ | ⟨-, hwire, hnodes⟩ :=
      readData_answered hanswer integerOf expected
    · cases hnodes.symm.trans h
      rw [List.mem_singleton.mp hmem]
      obtain ⟨hdata, hboundary⟩ := refusal_not_data hrefusal
      exact ⟨hboundary, .inl hdata⟩
    · refine ⟨?_, .inr ⟨result, rfl, hwire⟩⟩
      have hread := hnodes.symm.trans h
      unfold readNodes at hread
      split at hread
      · cases hread
        rw [List.mem_singleton.mp hmem]
        rfl
      · split at hread
        · cases hread
          rw [List.mem_singleton.mp hmem]
          rfl
        · cases hread

end Answers

end Editor

end MarrowLsp
