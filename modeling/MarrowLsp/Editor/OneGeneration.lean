-- SUMMARY: One root, one generation: what the saved-data tree shows beneath a root agrees with the boundary of the root, an answer at another boundary shows nothing of it, and following the `more` nodes lists the children (savedResourceInspector.ts).
import MarrowLsp.Editor.SavedResources

/-!
# One root, one generation

A child is compared with its direct parent only, so agreement with the root is an
induction over the expansions. Paging rests on the server: it hands out pages behind a
key, and the editor sends back the key of the last page.
-/
namespace MarrowLsp

namespace Editor

open Transition

/-! ## Numbers in keys -/

/-- The double nearest to a natural number, ties to even. -/
def nearestDouble (n : Nat) : Nat :=
  if n < 2 ^ 53 then n
  else
    let unit := 2 ^ (n.log2 - 52)
    let low := n / unit
    let rest := n % unit
    if unit < 2 * rest ∨ (2 * rest = unit ∧ low % 2 = 1) then (low + 1) * unit else low * unit

/-- The shortest decimal that reads as this double, padded with zeros. -/
def printDouble (n : Nat) : Nat :=
  let rounded := (List.range 20).reverse.map fun zeros =>
    (n + 10 ^ zeros / 2) / 10 ^ zeros * 10 ^ zeros
  (rounded.find? fun decimal => nearestDouble decimal == n).getD n

/-- An integer that `JSON.parse` has read and `JSON.stringify` prints again. -/
def echoInteger (n : Int) : Int :=
  let printed : Nat := printDouble (nearestDouble n.natAbs)
  if n < 0 then -printed else printed

/-- `Number.isSafeInteger` of an integer. -/
def isSafeInteger (n : Int) : Bool := n.natAbs < 2 ^ 53

theorem nearestDouble_of_lt {n : Nat} (h : n < 2 ^ 53) : nearestDouble n = n := by
  unfold nearestDouble
  rw [if_pos h]

/-- Rounding does not lead back below the first integer that needs it. -/
theorem le_nearestDouble {n : Nat} (h : 2 ^ 53 ≤ n) : 2 ^ 53 ≤ nearestDouble n := by
  unfold nearestDouble
  rw [if_neg (Nat.not_lt.mpr h)]
  dsimp only
  have hne : n ≠ 0 := by omega
  have hlog : 53 ≤ n.log2 := (Nat.le_log2 hne).mpr h
  have hunit : 2 ^ n.log2 = 2 ^ 52 * 2 ^ (n.log2 - 52) := by
    rw [← Nat.pow_add]
    congr 1
    omega
  have hlow : 2 ^ 52 ≤ n / 2 ^ (n.log2 - 52) := by
    rw [Nat.le_div_iff_mul_le (Nat.two_pow_pos _), ← hunit]
    exact Nat.log2_self_le hne
  have htwo : 2 ^ 1 ≤ 2 ^ (n.log2 - 52) := Nat.pow_le_pow_right (by decide) (by omega)
  have hfloor : 2 ^ 52 * 2 ^ 1 ≤ n / 2 ^ (n.log2 - 52) * 2 ^ (n.log2 - 52) :=
    Nat.mul_le_mul hlow htwo
  split
  · exact Nat.le_trans hfloor (Nat.mul_le_mul_right _ (Nat.le_succ _))
  · exact hfloor

theorem printDouble_of_lt {n : Nat} (h : n < 2 ^ 53) : printDouble n = n := by
  unfold printDouble
  dsimp only
  cases hfind : List.find? (fun decimal => nearestDouble decimal == n)
      ((List.range 20).reverse.map fun zeros => (n + 10 ^ zeros / 2) / 10 ^ zeros * 10 ^ zeros) with
  | none => rfl
  | some decimal =>
    have hreads : nearestDouble decimal = n := by
      have hfound := List.find?_some hfind
      exact beq_iff_eq.mp hfound
    have hsmall : decimal < 2 ^ 53 := by
      by_contra hlarge
      have hle := le_nearestDouble (Nat.not_lt.mp hlarge)
      omega
    rw [Option.getD_some, ← nearestDouble_of_lt hsmall, hreads]

/-- A safe integer comes back as it was. -/
theorem echoInteger_of_safe {n : Int} (h : isSafeInteger n = true) : echoInteger n = n := by
  have hlt : n.natAbs < 2 ^ 53 := of_decide_eq_true h
  unfold echoInteger
  rw [nearestDouble_of_lt hlt, printDouble_of_lt hlt]
  dsimp only
  split <;> omega

namespace DataKey

/-- The key as the editor sends it back. -/
def echo : DataKey → DataKey
  | .int value => .int (echoInteger value)
  | .date value => .date (echoInteger value)
  | key => key

def isSafe : DataKey → Bool
  | .int value => isSafeInteger value
  | .date value => isSafeInteger value
  | _ => true

theorem echo_of_safe {key : DataKey} (h : key.isSafe = true) : key.echo = key := by
  cases key with
  | int value => exact congrArg DataKey.int (echoInteger_of_safe h)
  | date value => exact congrArg DataKey.date (echoInteger_of_safe h)
  | bool value => rfl
  | string value => rfl
  | instant value => rfl
  | duration value => rfl
  | bytes value => rfl

end DataKey

namespace DataChildView

/-- The key of a child that has one. -/
def key (child : DataChildView) : Option DataKey :=
  match child.segment with
  | .key value => some value
  | _ => none

/-- The child as the editor holds it. -/
def echo (child : DataChildView) : DataChildView :=
  match child.segment with
  | .key value => ⟨.key value.echo, child.label⟩
  | _ => child

def isSafe (child : DataChildView) : Bool := child.key.all DataKey.isSafe

theorem echo_of_safe {child : DataChildView} (h : child.isSafe = true) : child.echo = child := by
  obtain ⟨segment, label⟩ := child
  cases segment with
  | key value =>
    have hsafe : value.isSafe = true := h
    simp only [echo, DataKey.echo_of_safe hsafe]
  | root segment => rfl
  | field id => rfl
  | layer id => rfl

end DataChildView

/-! ## Following `more` -/

section Pages

variable (integerOf : String → Option Nat)

/-- The server answers every children request for a path with a page of its children, at
one boundary. -/
def ServesPath (dataChildren : DataChildrenRequest → Reply DataChildViewsResult)
    (segments : List DataPathSegment) (boundary : DataViewBoundary)
    (children : List DataChildView) : Prop :=
  ∀ cursor, ∃ page wire,
    Lists.IsPage DataChildView.key children DATA_PAGE_LIMIT cursor page ∧
      dataViewBoundaryFromWire integerOf wire = some boundary ∧
      dataChildren ⟨segments, DATA_PAGE_LIMIT, cursor⟩ = .answered
        ⟨true, page.items.map DataChildView.echo, page.truncated, page.cursor.map DataKey.echo,
          wire, none⟩

/-- Every page of the path that leaves children out has a cursor to go on with. -/
def Cursored (dataChildren : DataChildrenRequest → Reply DataChildViewsResult)
    (segments : List DataPathSegment) : Prop :=
  ∀ cursor result, dataChildren ⟨segments, DATA_PAGE_LIMIT, cursor⟩ = .answered result →
    result.truncated = true → result.cursor.isSome

/-- Expand the `more` node at the end of a list, as often as there is one and `expansions`
allows. -/
def followMore (server : DataServer) (expansions : Nat) (nodes : List SavedResourceNode) :
    List SavedResourceNode :=
  match expansions, nodes.getLast? with
  | expansions + 1, some (.more label segments cursor boundary) =>
    nodes.dropLast ++
      followMore server expansions
        (getChildren integerOf server (.more label segments cursor boundary))
  | _, _ => nodes

variable {integerOf} {segments : List DataPathSegment} {boundary : DataViewBoundary}
  {children : List DataChildView}

/-- The nodes of a page the server serves. -/
theorem getDataChildren_of_page {dataChildren : DataChildrenRequest → Reply DataChildViewsResult}
    {cursor : Option DataKey} {page : Lists.Page DataChildView DataKey} {wire : Option Json}
    (hwire : dataViewBoundaryFromWire integerOf wire = some boundary)
    (hanswer : dataChildren ⟨segments, DATA_PAGE_LIMIT, cursor⟩ = .answered
      ⟨true, page.items.map DataChildView.echo, page.truncated, page.cursor.map DataKey.echo,
        wire, none⟩)
    (hsafe : ∀ child ∈ page.items, child.isSafe = true) :
    getDataChildren integerOf dataChildren segments cursor boundary =
      page.items.map (segmentNode segments boundary) ++
        moreNodes segments boundary page.truncated (page.cursor.map DataKey.echo) := by
  have hecho : page.items.map DataChildView.echo = page.items := by
    rw [List.map_congr_left fun child hchild => DataChildView.echo_of_safe (hsafe child hchild)]
    exact List.map_id' _
  unfold getDataChildren
  rw [hanswer]
  simp only [hwire, sameBoundary_iff.mpr, Bool.not_true, Bool.false_eq_true, if_false, hecho]

theorem followMore_more (server : DataServer) (expansions : Nat) (nodes : List SavedResourceNode)
    (label : String) (cursor : DataKey) :
    followMore integerOf server (expansions + 1)
        (nodes ++ [.more label segments cursor boundary]) =
      nodes ++ followMore integerOf server expansions
        (getDataChildren integerOf server.dataChildren segments (some cursor) boundary) := by
  rw [followMore.eq_def]
  simp only [List.getLast?_concat, List.dropLast_concat]
  rfl

theorem followMore_end (server : DataServer) (expansions : Nat) {nodes : List SavedResourceNode}
    (h : ∀ label segments cursor boundary,
      nodes.getLast? ≠ some (.more label segments cursor boundary)) :
    followMore integerOf server expansions nodes = nodes := by
  unfold followMore
  split
  · next hlast => exact absurd hlast (h _ _ _ _)
  · rfl

theorem getLast?_segmentNodes {shown : List DataChildView} (label : String)
    (path : List DataPathSegment) (cursor : DataKey) (other : DataViewBoundary) :
    (shown.map (segmentNode segments boundary)).getLast? ≠ some (.more label path cursor other) := by
  intro hlast
  obtain ⟨child, -, hchild⟩ := List.mem_map.mp (List.mem_of_getLast? hlast)
  cases hchild

/-- Following `more` from a page to the end shows the children behind its cursor, each once and
in order: all of them if no page is left without a cursor to go on with. -/
theorem followMore_behind {server : DataServer}
    (hserves : ServesPath integerOf server.dataChildren segments boundary children)
    (hdistinct : (children.filterMap DataChildView.key).Nodup)
    (hsafe : ∀ child ∈ children, child.isSafe = true) (expansions : Nat)
    (cursor : Option DataKey)
    (henough : (Lists.behind DataChildView.key children cursor).length ≤ expansions) :
    ∃ shown, shown <+: Lists.behind DataChildView.key children cursor ∧
      (Cursored server.dataChildren segments →
        shown = Lists.behind DataChildView.key children cursor) ∧
      followMore integerOf server expansions
          (getDataChildren integerOf server.dataChildren segments cursor boundary) =
        shown.map (segmentNode segments boundary) ++
          if shown = Lists.behind DataChildView.key children cursor then [] else [truncatedNode] := by
  induction expansions generalizing cursor with
  | zero =>
    obtain ⟨page, wire, hpage, hwire, hanswer⟩ := hserves cursor
    have hnil := List.length_eq_zero_iff.mp (Nat.le_zero.mp henough)
    have hitems : page.items = [] := by rw [hpage.items_eq, hnil, List.take_nil]
    have hwhole : page.truncated = false := by
      rw [← Bool.not_eq_true, hpage.truncated_iff, hnil]
      exact Nat.not_lt_zero _
    refine ⟨[], List.nil_prefix, fun _ => hnil.symm, ?_⟩
    rw [getDataChildren_of_page hwire hanswer (by simp [hitems]), hitems, hwhole, hnil]
    rfl
  | succ expansions ih =>
    obtain ⟨page, wire, hpage, hwire, hanswer⟩ := hserves cursor
    have hmem : ∀ child ∈ page.items, child ∈ children := by
      intro child hchild
      rw [hpage.items_eq] at hchild
      exact (Lists.behind_suffix _ children cursor).subset (List.mem_of_mem_take hchild)
    rw [getDataChildren_of_page hwire hanswer fun child hchild => hsafe child (hmem child hchild)]
    cases htruncated : page.truncated with
    | false =>
      have hall : page.items = Lists.behind DataChildView.key children cursor := by
        rw [hpage.items_eq]
        refine List.take_of_length_le (Nat.le_of_not_lt fun hlt => ?_)
        rw [← hpage.truncated_iff, htruncated] at hlt
        cases hlt
      refine ⟨page.items, hall ▸ List.prefix_refl _, fun _ => hall, ?_⟩
      rw [if_pos hall, moreNodes_whole, List.append_nil,
        followMore_end server _ getLast?_segmentNodes]
    | true =>
      have hlong := hpage.truncated_iff.mp htruncated
      cases hnext : page.cursor with
      | none =>
        have hsome : page.items ≠ Lists.behind DataChildView.key children cursor := by
          intro hall
          have hlength := congrArg List.length hpage.items_eq
          rw [hall, List.length_take] at hlength
          omega
        refine ⟨page.items, hpage.items_eq ▸ List.take_prefix _ _, fun hcursored => ?_, ?_⟩
        · have hcursor := hcursored cursor _ hanswer htruncated
          simp [hnext] at hcursor
        rw [if_neg hsome, Option.map_none, moreNodes_noCursor]
        refine followMore_end server _ ?_
        intro label path next other
        rw [List.getLast?_concat]
        exact fun h => by cases h
      | some next =>
        -- The last child of the page has the cursor for its key, so it comes back unchanged.
        obtain ⟨last, hlast, hkey⟩ := hpage.cursor_eq next hnext
        have hnextSafe : next.isSafe = true := by
          have hlastSafe := hsafe last (hmem last (List.mem_of_getLast? hlast))
          rw [DataChildView.isSafe, hkey] at hlastSafe
          exact hlastSafe
        have hbehind := hpage.behind_cursor hdistinct hnext
        have hrest : (Lists.behind DataChildView.key children (some next)).length ≤ expansions := by
          rw [hbehind, List.length_drop]
          have hlimit : 0 < DATA_PAGE_LIMIT := by decide
          omega
        obtain ⟨shown, hprefix, hall, hshown⟩ := ih (some next) hrest
        have hsplit : page.items ++ Lists.behind DataChildView.key children (some next) =
            Lists.behind DataChildView.key children cursor := by
          rw [hbehind, hpage.items_eq, List.take_append_drop]
        refine ⟨page.items ++ shown, ?_, fun hcursored => ?_, ?_⟩
        · rw [← hsplit]
          exact (List.prefix_append_right_inj _).mpr hprefix
        · rw [hall hcursored, hsplit]
        · rw [Option.map_some, DataKey.echo_of_safe hnextSafe, moreNodes_cursor,
            followMore_more, hshown, ← hsplit, List.map_append, List.append_assoc]
          simp only [List.append_cancel_left_eq]

end Pages

/-! ## Beneath a root -/

section Tree

variable {integerOf : String → Option Nat} {server : DataServer}
  {expanded shown : SavedResourceNode} {expected : DataViewBoundary}

theorem boundaryBehind_of_children {request : DataChildrenRequest}
    {result : DataChildViewsResult} (hdata : shown.isData = true)
    (hboundary : shown.boundary = some expected)
    (hrequest : expanded.childrenRequest = some request)
    (hanswer : server.dataChildren request = .answered result) :
    server.boundaryBehind expanded shown = result.data_view_boundary := by
  have hchildren : expanded.childrenRequest.bind server.childrenBoundary =
      result.data_view_boundary := by
    rw [hrequest, Option.bind_some, DataServer.childrenBoundary, hanswer]
  cases shown with
  | segment label segments boundary => exact hchildren
  | more label segments cursor boundary => exact hchildren
  | root node => cases hdata
  | value label truncated => cases hboundary
  | placeholder kind label => cases hboundary

theorem boundaryBehind_of_read {request : DataReadRequest} {result : DataReadResult}
    (hdata : shown.isData = true) (hboundary : shown.boundary = none)
    (hrequest : expanded.readRequest = some request)
    (hanswer : server.dataRead request = .answered result) :
    server.boundaryBehind expanded shown = result.data_view_boundary := by
  have hread : expanded.readRequest.bind server.readBoundary = result.data_view_boundary := by
    rw [hrequest, Option.bind_some, DataServer.readBoundary, hanswer]
  cases shown with
  | value label truncated => exact hread
  | placeholder kind label =>
    cases kind with
    | absent => exact hread
    | unavailable => cases hdata
    | blocked => cases hdata
    | truncated => cases hdata
    | changed => cases hdata
  | root node => cases hdata
  | segment label segments boundary => cases hboundary
  | more label segments cursor boundary => cases hboundary

/-- A node with the boundary it should have: that of the answer behind it. -/
structure FitsBoundary (integerOf : String → Option Nat) (boundary : DataViewBoundary)
    (node : SavedResourceNode) (wire : Option Json) : Prop where
  expects : ∀ own, node.boundary = some own → own = boundary
  comes : node.isData = true → dataViewBoundaryFromWire integerOf wire = some boundary

theorem fitsBoundary_of_children {segments : List DataPathSegment} {cursor : Option DataKey}
    (hrequest : expanded.childrenRequest = some ⟨segments, DATA_PAGE_LIMIT, cursor⟩)
    (h : shown ∈ getDataChildren integerOf server.dataChildren segments cursor expected) :
    FitsBoundary integerOf expected shown (server.boundaryBehind expanded shown) := by
  obtain ⟨hdata, hnone⟩ | ⟨hdata, hsome, result, hanswer, hwire⟩ := mem_getDataChildren h
  · refine ⟨fun own hown => ?_, fun h => ?_⟩
    · cases hnone.symm.trans hown
    · cases hdata.symm.trans h
  · refine ⟨fun own hown => ?_, fun _ => ?_⟩
    · cases hsome.symm.trans hown
      rfl
    · rw [boundaryBehind_of_children hdata hsome hrequest hanswer]
      exact hwire

/-- What expanding a node shows fits the boundary of that node. -/
theorem fitsBoundary_of_mem_getChildren (hexpanded : expanded.boundary = some expected)
    (h : shown ∈ getChildren integerOf server expanded) :
    FitsBoundary integerOf expected shown (server.boundaryBehind expanded shown) := by
  cases expanded with
  | root node =>
    cases hexpanded
    exact fitsBoundary_of_children rfl h
  | more label segments cursor boundary =>
    cases hexpanded
    exact fitsBoundary_of_children rfl h
  | segment label segments boundary =>
    cases hexpanded
    rw [getChildren] at h
    split at h
    · next nodes hread =>
      obtain ⟨hnone, hdata | ⟨result, hanswer, hwire⟩⟩ := mem_readData hread h
      · refine ⟨fun own hown => ?_, fun h => ?_⟩
        · cases hnone.symm.trans hown
        · cases hdata.symm.trans h
      · refine ⟨fun own hown => ?_, fun hdata => ?_⟩
        · cases hnone.symm.trans hown
        · rw [boundaryBehind_of_read hdata hnone rfl hanswer]
          exact hwire
    · exact fitsBoundary_of_children rfl h
  | value label truncated => cases hexpanded
  | placeholder kind label => cases hexpanded

theorem getChildren_of_no_boundary (h : expanded.boundary = none) :
    getChildren integerOf server expanded = [] := by
  cases expanded with
  | root node => cases h
  | segment label segments boundary => cases h
  | more label segments cursor boundary => cases h
  | value label truncated => rfl
  | placeholder kind label => rfl

namespace SavedResourceTree

/-- Every node fits the boundary of the root it is beneath. -/
def Fits (integerOf : String → Option Nat) (tree : SavedResourceTree) : Prop :=
  ∀ entry ∈ tree, FitsBoundary integerOf entry.root.boundary entry.node entry.wire

theorem fits_rootEntries (server : DataServer) : Fits integerOf (rootEntries integerOf server) := by
  intro entry hentry
  unfold rootEntries at hentry
  split at hentry
  · obtain ⟨root, -, rfl⟩ := List.mem_map.mp hentry
    exact ⟨fun own hown => (Option.some.inj hown).symm, fun h => by cases h⟩
  · cases hentry

/-- What an entry shows when expanded is beneath the same root. -/
theorem fits_childEntries {entry : TreeEntry} (server : DataServer)
    (h : FitsBoundary integerOf entry.root.boundary entry.node entry.wire) :
    Fits integerOf (childEntries integerOf server entry) := by
  intro child hchild
  obtain ⟨shown, hshown, rfl⟩ := List.mem_map.mp hchild
  cases hboundary : entry.node.boundary with
  | none =>
    rw [getChildren_of_no_boundary hboundary] at hshown
    cases hshown
  | some own =>
    cases h.expects own hboundary
    exact fitsBoundary_of_mem_getChildren hboundary hshown

theorem fits_step {tree next : SavedResourceTree} {event : TreeEvent} (h : Fits integerOf tree)
    (hs : step integerOf tree event = some next) : Fits integerOf next := by
  have hadd : ∀ {added : SavedResourceTree}, Fits integerOf added →
      Fits integerOf (tree ++ added) := by
    intro added hadded entry hentry
    rcases List.mem_append.mp hentry with hentry | hentry
    · exact h entry hentry
    · exact hadded entry hentry
  cases event with
  | load server =>
    cases hs
    exact hadd (fits_rootEntries server)
  | expand index server =>
    obtain ⟨entry, hentry, rfl⟩ := Option.map_eq_some_iff.mp hs
    exact hadd (fits_childEntries server (h entry (List.mem_of_getElem? hentry)))

end SavedResourceTree

/-- What the saved-data tree promises. -/
structure OneGeneration (integerOf : String → Option Nat) (tree : SavedResourceTree) : Prop where
  sourced : ∀ entry ∈ tree, entry.node.isData = true →
    dataViewBoundaryFromWire integerOf entry.wire = some entry.root.boundary
  agreeing : ∀ entry ∈ tree, ∀ other ∈ tree, entry.root = other.root →
    entry.node.isData = true → other.node.isData = true →
      dataViewBoundaryFromWire integerOf entry.wire = dataViewBoundaryFromWire integerOf other.wire
  refusedChildren : ∀ dataChildren segments cursor expected result node,
    dataChildren ⟨segments, DATA_PAGE_LIMIT, cursor⟩ = .answered result →
    refusal integerOf expected result.available result.error result.data_view_boundary =
      some node →
    getDataChildren integerOf dataChildren segments cursor expected = [node]
  refusedRead : ∀ dataRead segments expected result node,
    dataRead ⟨segments, DATA_VALUE_PREVIEW_LIMIT⟩ = .answered result →
    refusal integerOf expected result.available result.error result.data_view_boundary =
      some node →
    readData integerOf dataRead segments expected = some [node]
  listed : ∀ (server : DataServer) segments boundary children expansions,
    ServesPath integerOf server.dataChildren segments boundary children →
    (children.filterMap DataChildView.key).Nodup →
    (∀ child ∈ children, child.isSafe = true) →
    children.length ≤ expansions → ∃ shown, shown <+: children ∧
      (Cursored server.dataChildren segments → shown = children) ∧
      followMore integerOf server expansions
          (getDataChildren integerOf server.dataChildren segments none boundary) =
        shown.map (segmentNode segments boundary) ++
          if shown = children then [] else [truncatedNode]

/-- Whatever is expanded, in whatever order and with whatever answers. -/
theorem oneGeneration_of_reachable {tree : SavedResourceTree}
    (h : Reachable (SavedResourceTree.step integerOf) [] tree) : OneGeneration integerOf tree := by
  have hfits : SavedResourceTree.Fits integerOf tree := by
    refine h.invariant (fun entry hentry => by cases hentry) ?_
    exact fun tree event next hfits _ hs => SavedResourceTree.fits_step hfits hs
  refine ⟨fun entry hentry => (hfits entry hentry).comes, ?_, ?_, ?_, ?_⟩
  · intro entry hentry other hother hroot hdata hdata'
    rw [(hfits entry hentry).comes hdata, (hfits other hother).comes hdata', hroot]
  · intro dataChildren segments cursor expected result node hanswer hrefusal
    obtain ⟨other, hother, hnodes⟩ | ⟨hnone, -, -⟩ :=
      getDataChildren_answered hanswer integerOf expected
    · cases hother.symm.trans hrefusal
      exact hnodes
    · cases hnone.symm.trans hrefusal
  · intro dataRead segments expected result node hanswer hrefusal
    obtain ⟨other, hother, hnodes⟩ | ⟨hnone, -, -⟩ :=
      readData_answered hanswer integerOf expected
    · cases hother.symm.trans hrefusal
      exact hnodes
    · cases hnone.symm.trans hrefusal
  · intro server segments boundary children expansions hserves hdistinct hsafe henough
    exact followMore_behind hserves hdistinct hsafe expansions none henough

end Tree

/-! ## A store at one boundary -/

namespace Sample

def generationWire : Json := .object [("profileVersion", .string "analysis.generation.v1"),
  ("sourceIdentity", .string "s"), ("configDigest", .string "c"),
  ("checkedSourceDigest", .string "d"), ("readOnlyContextDigest", .string "r"),
  ("acceptedCatalog", .null), ("proposalCatalog", .null)]

def snapshotWire : Json := .object [("profile_version", .string "data.generation.v1"),
  ("store_uid", .string "u"), ("catalog_digest", .null), ("commit", .null),
  ("open_transaction", .null), ("checked_source_digest", .string "d")]

def boundaryWire : Json := .object [("sourceAnalysisGeneration", generationWire),
  ("storeSnapshot", snapshotWire), ("compatibility", .object [("verdict", .string "admitted")]),
  ("watchTargets", .array [])]

/-- What `boundaryWire` decodes to. -/
def boundary : DataViewBoundary :=
  ⟨⟨"analysis.generation.v1", "s", "c", "d", "r", none, none⟩,
    ⟨"data.generation.v1", some "u", none, none, none, "d"⟩, ⟨"admitted"⟩, []⟩

def noFractions (_ : String) : Option Nat := none

example : dataViewBoundaryFromWire noFractions (some boundaryWire) = some boundary := by
  decide +kernel

def counter : DataRootSegment := ⟨"cat_1"⟩

/-- A server of one path, whose page it cuts from its children. -/
def server (children : List DataChildView) : DataServer where
  savedRoots := .answered ⟨true, [⟨counter, "counter"⟩], some boundaryWire⟩
  dataChildren request :=
    let page := Lists.pageOf DataChildView.key children DATA_PAGE_LIMIT request.cursor
    .answered ⟨true, page.items.map DataChildView.echo, page.truncated,
      page.cursor.map DataKey.echo, some boundaryWire, none⟩
  dataRead _ := .answered ⟨true, .value_only, some "1", false, some boundaryWire, none⟩

/-- A server whose store cannot be read. -/
def brokenServer : DataServer where
  savedRoots := .failed
  dataChildren _ :=
    .answered ⟨true, [], false, none, none, some (.object [("kind", .string "store")])⟩
  dataRead _ := .failed

def oneKey : List DataChildView := [⟨.key (.int 1), "(1)"⟩]

/-- More fields than fit on a page, and no key to go on behind. -/
def manyFields : List DataChildView := (List.range 201).map fun i => ⟨.field (toString i), "f"⟩

/-- Keys around the first integer that no double holds. -/
def farKeys : List DataChildView :=
  (List.range 201).map fun i => ⟨.key (.int (9007199254740794 + i)), "k"⟩

/-- More keys than fit on a page. -/
def nearKeys : List DataChildView := (List.range 201).map fun i : Nat => ⟨.key (.int i), "k"⟩

theorem nodup_nearKeys : (nearKeys.filterMap DataChildView.key).Nodup := by
  have hkeys : nearKeys.filterMap DataChildView.key =
      (List.range 201).map fun i : Nat => DataKey.int i := by
    unfold nearKeys
    rw [List.filterMap_map]
    exact congrFun (@List.filterMap_eq_map _ _ fun i : Nat => DataKey.int i) _
  rw [hkeys]
  refine List.nodup_range.map fun i j h => ?_
  exact Int.ofNat.inj (DataKey.int.inj h)

theorem servesPath_server (children : List DataChildView) (segments : List DataPathSegment) :
    ServesPath noFractions (server children).dataChildren segments boundary children := fun cursor =>
  ⟨_, some boundaryWire, Lists.isPage_pageOf DataChildView.key children DATA_PAGE_LIMIT cursor,
    by decide +kernel, rfl⟩

/-- Children with keys have cursors. -/
theorem cursored_server {children : List DataChildView}
    (h : ∀ child ∈ children, child.key.isSome = true) (segments : List DataPathSegment) :
    Cursored (server children).dataChildren segments := by
  intro cursor result hanswer htruncated
  cases hanswer
  dsimp only [Lists.pageOf] at htruncated ⊢
  rw [if_pos htruncated, Option.isSome_map]
  have hmem : ∀ child ∈ (Lists.behind DataChildView.key children cursor).take DATA_PAGE_LIMIT,
      child ∈ children := fun child hchild =>
    (Lists.behind_suffix _ children cursor).subset (List.mem_of_mem_take hchild)
  cases hlast : ((Lists.behind DataChildView.key children cursor).take DATA_PAGE_LIMIT).getLast? with
  | some last => exact h last (hmem last (List.mem_of_getLast? hlast))
  | none =>
    -- A page that leaves children out is not empty.
    have hlong := of_decide_eq_true htruncated
    rw [List.getLast?_eq_none_iff, List.take_eq_nil_iff] at hlast
    rcases hlast with hlimit | hnil
    · cases hlimit
    · rw [hnil] at hlong
      cases hlong

/-- The root, the child beneath it and its value; then the store breaks. -/
def expandTwice : List TreeEvent :=
  [.load (server oneKey), .expand 0 (server oneKey), .expand 1 (server oneKey),
    .expand 0 brokenServer]

theorem oneGeneration_expandTwice :
    ∃ tree, run (SavedResourceTree.step noFractions) [] expandTwice = some tree ∧
      tree.map (·.node.isData) = [false, true, true, false] ∧ OneGeneration noFractions tree ∧
      followMore noFractions (server nearKeys) nearKeys.length
          (getDataChildren noFractions (server nearKeys).dataChildren [.root counter] none boundary) =
        nearKeys.map (segmentNode [.root counter] boundary) := by
  have hdata : (run (SavedResourceTree.step noFractions) [] expandTwice).map
      (List.map (·.node.isData)) = some [false, true, true, false] := by decide +kernel
  obtain ⟨tree, hrun, htree⟩ := Option.map_eq_some_iff.mp hdata
  have hone := oneGeneration_of_reachable (reachable_of_run hrun)
  obtain ⟨shown, -, hall, hshown⟩ := hone.listed (server nearKeys) [.root counter] boundary nearKeys
    nearKeys.length (servesPath_server _ _) nodup_nearKeys (by decide +kernel) (Nat.le_refl _)
  have hnear := hall (cursored_server (by decide +kernel) _)
  rw [if_pos hnear, List.append_nil, hnear] at hshown
  exact ⟨tree, hrun, htree, hone, hshown⟩

/-- An answer without a boundary does not always show `changed`, and `more` does not always
lead to every child. -/
theorem not_changed_not_listed :
    getDataChildren noFractions brokenServer.dataChildren [.root counter] none boundary ≠
        [changedNode] ∧
      followMore noFractions (server manyFields) manyFields.length
          (getDataChildren noFractions (server manyFields).dataChildren [.root counter] none
            boundary) ≠
        manyFields.map (segmentNode [.root counter] boundary) ∧
      followMore noFractions (server farKeys) farKeys.length
          (getDataChildren noFractions (server farKeys).dataChildren [.root counter] none
            boundary) ≠
        farKeys.map (segmentNode [.root counter] boundary) := by
  refine ⟨?_, ?_, ?_⟩
  · decide +kernel
  · decide +kernel
  · decide +kernel

end Sample

end Editor

end MarrowLsp
