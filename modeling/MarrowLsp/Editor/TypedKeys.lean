-- SUMMARY: Typed keys on their way to the editor and back: what the tree asks for decodes to the path that the server sent exactly where its numbers are doubles (savedResourceInspector.ts, data_explorer.rs).
import Mathlib.Algebra.Group.Int.Defs
import MarrowLsp.Editor.OneGeneration

/-!
# Typed keys

The server sends integer keys as JSON numbers, and the editor reads every number as a
double. What it sends back is that double, printed exactly.
-/
namespace MarrowLsp

namespace Editor

/-! ## Doubles -/

/-- An integer that a double holds: a significand of 53 bits times a power of two. -/
def IsDouble (n : Nat) : Prop := ∃ significand exponent, significand < 2 ^ 53 ∧
  n = significand * 2 ^ exponent

theorem isDouble_of_lt {n : Nat} (h : n < 2 ^ 53) : IsDouble n := ⟨n, 0, h, by simp⟩

/-- The nearest double of a number is that number where it is one. -/
theorem nearestDouble_eq_self_iff {n : Nat} : nearestDouble n = n ↔ IsDouble n := by
  by_cases hsmall : n < 2 ^ 53
  · exact iff_of_true (nearestDouble_of_lt hsmall) (isDouble_of_lt hsmall)
  · have hne : n ≠ 0 := by omega
    have hlt : n < 2 ^ (n.log2 + 1) := Nat.lt_log2_self
    have hlog : 53 ≤ n.log2 := (Nat.le_log2 hne).mpr (Nat.not_lt.mp hsmall)
    have hpos := Nat.two_pow_pos (n.log2 - 52)
    have hsplit := Nat.div_add_mod n (2 ^ (n.log2 - 52))
    have hrest := Nat.mod_lt n hpos
    constructor
    · intro h
      unfold nearestDouble at h
      rw [if_neg hsmall] at h
      dsimp only at h
      have hexact : n / 2 ^ (n.log2 - 52) * 2 ^ (n.log2 - 52) = n := by
        split at h
        · rw [Nat.add_mul, Nat.mul_comm] at h
          omega
        · exact h
      refine ⟨n / 2 ^ (n.log2 - 52), n.log2 - 52, ?_, hexact.symm⟩
      rw [Nat.div_lt_iff_lt_mul hpos, ← Nat.pow_add]
      rwa [show 53 + (n.log2 - 52) = n.log2 + 1 by omega]
    · rintro ⟨significand, exponent, hsignificand, heq⟩
      have hbound : n < 2 ^ (53 + exponent) := by
        rw [heq, Nat.pow_add]
        exact Nat.mul_lt_mul_of_pos_right hsignificand (Nat.two_pow_pos exponent)
      have hlogLt : n.log2 < 53 + exponent := (Nat.log2_lt hne).mpr hbound
      have hle : n.log2 - 52 ≤ exponent := by omega
      have hdvd : 2 ^ (n.log2 - 52) ∣ significand * 2 ^ exponent :=
        Nat.dvd_mul_left_of_dvd (Nat.pow_dvd_pow 2 hle) significand
      rw [← heq] at hdvd
      have hzero : n % 2 ^ (n.log2 - 52) = 0 := Nat.mod_eq_zero_of_dvd hdvd
      unfold nearestDouble
      rw [if_neg hsmall]
      dsimp only
      rw [hzero, if_neg (by omega), Nat.div_mul_cancel hdvd]

/-- An integer as the editor reads it. -/
def nearestInteger (n : Int) : Int :=
  if n < 0 then -nearestDouble n.natAbs else nearestDouble n.natAbs

theorem nearestInteger_eq_self_iff {n : Int} : nearestInteger n = n ↔ IsDouble n.natAbs := by
  rw [← nearestDouble_eq_self_iff]
  unfold nearestInteger
  split <;> omega

/-! ## In the editor -/

namespace DataKey

/-- The key that the editor has of one that the server sent. -/
def received : DataKey → DataKey
  | .int value => .int (nearestInteger value)
  | .date value => .date (nearestInteger value)
  | .bytes value => .bytes (value.map nearestDouble)
  | key => key

/-- Its number, if it has one, is a double. -/
def Exact : DataKey → Prop
  | .int value => IsDouble value.natAbs
  | .date value => IsDouble value.natAbs
  | _ => True

end DataKey

namespace DataPathSegment

def received : DataPathSegment → DataPathSegment
  | .key value => .key value.received
  | segment => segment

def Exact : DataPathSegment → Prop
  | .key value => value.Exact
  | _ => True

end DataPathSegment

def DataChildView.received (child : DataChildView) : DataChildView :=
  ⟨child.segment.received, child.label⟩

def DataChildViewsResult.received (result : DataChildViewsResult) : DataChildViewsResult :=
  { result with
    children := result.children.map DataChildView.received
    cursor := result.cursor.map DataKey.received }

/-- The server as the editor hears it. -/
def DataServer.received (server : DataServer) : DataServer :=
  { server with
    dataChildren := fun request =>
      match server.dataChildren request with
      | .noClient => .noClient
      | .failed => .failed
      | .answered result => .answered result.received }

/-! ## On the server -/

/-- What is relied on of `DataKeyJson`: it reads a number as that number, and bytes from bytes
alone. -/
structure DecodesKeys (decodeKey : DataKey → Option DataKey) : Prop where
  int : ∀ {value decoded}, decodeKey (.int value) = some decoded → decoded = .int value
  date : ∀ {value decoded}, decodeKey (.date value) = some decoded → decoded = .date value
  bytes : ∀ {value decoded}, decodeKey (.bytes value) = some decoded → ∀ byte ∈ value, byte < 256

section Decode

variable (decodeKey : DataKey → Option DataKey)

def decodeSegment : DataPathSegment → Option DataPathSegment
  | .key value => (decodeKey value).map .key
  | segment => some segment

def decodePath (segments : List DataPathSegment) : Option (List DataPathSegment) :=
  segments.mapM (decodeSegment decodeKey)

def decodeCursor : Option DataKey → Option (Option DataKey)
  | none => some none
  | some key => (decodeKey key).map some

/-- What the server sends it can read. -/
def SendsKey (key : DataKey) : Prop := decodeKey key = some key

def SendsSegment (segment : DataPathSegment) : Prop :=
  decodeSegment decodeKey segment = some segment

variable {decodeKey} (hdecodes : DecodesKeys decodeKey)

include hdecodes

/-- A key is read as itself where its number is a double. -/
theorem decodeKey_received_iff {key : DataKey} (h : SendsKey decodeKey key) :
    decodeKey key.received = some key ↔ key.Exact := by
  constructor
  · intro hdecode
    cases key with
    | int value =>
      exact nearestInteger_eq_self_iff.mp (DataKey.int.inj (hdecodes.int hdecode)).symm
    | date value =>
      exact nearestInteger_eq_self_iff.mp (DataKey.date.inj (hdecodes.date hdecode)).symm
    | bool value => trivial
    | string value => trivial
    | instant value => trivial
    | duration value => trivial
    | bytes value => trivial
  · intro hexact
    have hsame : key.received = key := by
      cases key with
      | int value => exact congrArg DataKey.int (nearestInteger_eq_self_iff.mpr hexact)
      | date value => exact congrArg DataKey.date (nearestInteger_eq_self_iff.mpr hexact)
      | bytes value =>
        have hmap : value.map nearestDouble = value.map id :=
          List.map_congr_left fun byte hbyte =>
            nearestDouble_of_lt (Nat.lt_trans (hdecodes.bytes h byte hbyte) (by decide))
        exact congrArg DataKey.bytes (hmap.trans (List.map_id _))
      | bool value => rfl
      | string value => rfl
      | instant value => rfl
      | duration value => rfl
    rw [hsame]
    exact h

theorem decodeSegment_received_iff {segment : DataPathSegment} (h : SendsSegment decodeKey segment) :
    decodeSegment decodeKey segment.received = some segment ↔ segment.Exact := by
  cases segment with
  | key value =>
    obtain ⟨key, hkey, heq⟩ := Option.map_eq_some_iff.mp h
    cases heq
    have hiff := decodeKey_received_iff hdecodes (show SendsKey decodeKey value from hkey)
    constructor
    · intro hdecode
      obtain ⟨key, hkey, heq⟩ := Option.map_eq_some_iff.mp hdecode
      cases heq
      exact hiff.mp hkey
    · intro hexact
      exact Option.map_eq_some_iff.mpr ⟨value, hiff.mpr hexact, rfl⟩
  | root segment => exact iff_of_true rfl trivial
  | field id => exact iff_of_true rfl trivial
  | layer id => exact iff_of_true rfl trivial

/-- A path is read as itself where each of its segments is. -/
theorem decodePath_received_iff {path : List DataPathSegment}
    (h : ∀ segment ∈ path, SendsSegment decodeKey segment) :
    decodePath decodeKey (path.map DataPathSegment.received) = some path ↔
      ∀ segment ∈ path, segment.Exact := by
  unfold decodePath
  induction path with
  | nil => exact iff_of_true rfl (by simp)
  | cons segment path ih =>
    have hfirst := decodeSegment_received_iff hdecodes (h segment List.mem_cons_self)
    have hrest := ih fun s hs => h s (List.mem_cons_of_mem _ hs)
    rw [List.map_cons, List.mapM_cons, List.forall_mem_cons, ← hfirst, ← hrest]
    cases hsegment : decodeSegment decodeKey segment.received with
    | none => simp
    | some decoded =>
      cases hpath : (path.map DataPathSegment.received).mapM (decodeSegment decodeKey) with
      | none => simp
      | some segments => simp

theorem decodeCursor_received_iff {cursor : Option DataKey}
    (h : ∀ key, cursor = some key → SendsKey decodeKey key) :
    decodeCursor decodeKey (cursor.map DataKey.received) = some cursor ↔
      ∀ key, cursor = some key → key.Exact := by
  cases cursor with
  | none => exact iff_of_true rfl (by simp)
  | some key =>
    have hiff := decodeKey_received_iff hdecodes (h key rfl)
    constructor
    · rintro hdecode _ ⟨⟩
      obtain ⟨decoded, hdecoded, heq⟩ := Option.map_eq_some_iff.mp hdecode
      cases heq
      exact hiff.mp hdecoded
    · intro hexact
      exact Option.map_eq_some_iff.mpr ⟨key, hiff.mpr (hexact key rfl), rfl⟩

end Decode

/-! ## The tree -/

section Tree

variable (decodeKey : DataKey → Option DataKey)

/-- A node that can be expanded, the path of what it shows as the server sent it, and the
cursor that the server returned for its page. -/
inductive Shown : SavedResourceNode → List DataPathSegment → Option DataKey → Prop
  | root (node : SavedRootNode) : Shown (.root node) [.root node.segment] none
  | child {parent path cursor request} {child : DataChildView} (boundary : DataViewBoundary)
      (hparent : Shown parent path cursor) (hrequest : parent.childrenRequest = some request)
      (hsends : SendsSegment decodeKey child.segment) :
      Shown (segmentNode request.segments boundary child.received) (path ++ [child.segment]) none
  | more {parent path cursor request next} (boundary : DataViewBoundary)
      (hparent : Shown parent path cursor) (hrequest : parent.childrenRequest = some request)
      (hsends : SendsKey decodeKey next) :
      Shown (.more "more children" request.segments next.received boundary) path (some next)

/-- What expanding the node asks for is the path, from the cursor on. -/
structure Survives (node : SavedResourceNode) (path : List DataPathSegment)
    (cursor : Option DataKey) : Prop where
  children : ∀ request, node.childrenRequest = some request →
    decodePath decodeKey request.segments = some path ∧
      decodeCursor decodeKey request.cursor = some cursor
  read : ∀ request, node.readRequest = some request →
    decodePath decodeKey request.segments = some path

variable {decodeKey} {node : SavedResourceNode} {path : List DataPathSegment} {cursor : Option DataKey}

/-- What expanding a node of the tree asks for. -/
theorem Shown.request (h : Shown decodeKey node path cursor) : node.childrenRequest =
    some ⟨path.map DataPathSegment.received, DATA_PAGE_LIMIT, cursor.map DataKey.received⟩ := by
  induction h with
  | root node => rfl
  | child boundary hparent hrequest hsends ih =>
    cases hrequest.symm.trans ih
    simp [segmentNode, SavedResourceNode.childrenRequest, DataChildView.received]
  | more boundary hparent hrequest hsends ih =>
    cases hrequest.symm.trans ih
    rfl

theorem Shown.readRequest (h : Shown decodeKey node path cursor) {request : DataReadRequest}
    (hread : node.readRequest = some request) :
    request.segments = path.map DataPathSegment.received := by
  have hchildren := h.request
  cases h with
  | root node => cases hread
  | child boundary hparent hrequest hsends =>
    cases hread
    exact congrArg DataChildrenRequest.segments (Option.some.inj hchildren)
  | more boundary hparent hrequest hsends => cases hread

theorem Shown.sends (h : Shown decodeKey node path cursor) :
    (∀ segment ∈ path, SendsSegment decodeKey segment) ∧
      ∀ key, cursor = some key → SendsKey decodeKey key := by
  induction h with
  | root node =>
    refine ⟨?_, by simp⟩
    intro segment hsegment
    rw [List.mem_singleton.mp hsegment]
    rfl
  | child boundary hparent hrequest hsends ih =>
    refine ⟨?_, by simp⟩
    intro segment hsegment
    rcases List.mem_append.mp hsegment with hsegment | hsegment
    · exact ih.1 segment hsegment
    · rw [List.mem_singleton.mp hsegment]
      exact hsends
  | more boundary hparent hrequest hsends ih =>
    refine ⟨ih.1, ?_⟩
    rintro _ ⟨⟩
    exact hsends

theorem childrenRequest_of_boundary (h : node.boundary = none) : node.childrenRequest = none := by
  cases node with
  | root node => cases h
  | segment label segments boundary => cases h
  | more label segments cursor boundary => cases h
  | value label valueTruncated => rfl
  | placeholder kind label => rfl

/-- What a page shows to be expanded, where the server can read the keys on it: a child of the
answer, below the path, or what comes behind the answer's cursor. -/
theorem Shown.of_mem_getDataChildren {integerOf : String → Option Nat} {server : DataServer}
    {request : DataChildrenRequest} {expected : DataViewBoundary} {shown : SavedResourceNode}
    (h : Shown decodeKey node path cursor) (hrequest : node.childrenRequest = some request)
    (hsends : ∀ result, server.dataChildren request = .answered result →
      (∀ child ∈ result.children, SendsSegment decodeKey child.segment) ∧
        ∀ key, result.cursor = some key → SendsKey decodeKey key)
    (hmem : shown ∈ getDataChildren integerOf server.received.dataChildren request.segments
      request.cursor expected)
    (hexpands : shown.childrenRequest ≠ none) :
    ∃ result, server.dataChildren request = .answered result ∧
      ((∃ child ∈ result.children, Shown decodeKey shown (path ++ [child.segment]) none) ∨
        ∃ next, result.cursor = some next ∧ Shown decodeKey shown path (some next)) := by
  have hlimit : (⟨request.segments, DATA_PAGE_LIMIT, request.cursor⟩ : DataChildrenRequest) =
      request := by
    cases hrequest.symm.trans h.request
    rfl
  cases hanswer : server.dataChildren request with
  | noClient =>
    have hreceived : server.received.dataChildren request = .noClient := by
      simp only [DataServer.received, hanswer]
    rw [getDataChildren, hlimit, hreceived] at hmem
    cases hmem
  | failed =>
    have hreceived : server.received.dataChildren request = .failed := by
      simp only [DataServer.received, hanswer]
    rw [getDataChildren, hlimit, hreceived] at hmem
    rw [List.mem_singleton.mp hmem] at hexpands
    exact absurd rfl hexpands
  | answered result =>
    obtain ⟨hchildren, hcursor⟩ := hsends result hanswer
    have hreceived : server.received.dataChildren ⟨request.segments, DATA_PAGE_LIMIT,
        request.cursor⟩ = .answered result.received := by
      simp only [DataServer.received, hlimit, hanswer]
    obtain ⟨refused, hrefusal, hnodes⟩ | ⟨-, -, hnodes⟩ :=
      getDataChildren_answered hreceived integerOf expected
    · rw [hnodes] at hmem
      rw [List.mem_singleton.mp hmem] at hexpands
      exact absurd (childrenRequest_of_boundary (refusal_not_data hrefusal).2) hexpands
    · rw [hnodes] at hmem
      rcases List.mem_append.mp hmem with hmem | hmem
      · obtain ⟨child, hchild, rfl⟩ := List.mem_map.mp hmem
        obtain ⟨sent, hsent, rfl⟩ := List.mem_map.mp hchild
        exact ⟨result, rfl, .inl ⟨sent, hsent, .child expected h hrequest (hchildren sent hsent)⟩⟩
      · unfold moreNodes at hmem
        split at hmem
        · cases hnext : result.cursor with
          | none =>
            simp only [DataChildViewsResult.received, hnext, Option.map_none] at hmem
            rw [List.mem_singleton.mp hmem] at hexpands
            exact absurd rfl hexpands
          | some next =>
            simp only [DataChildViewsResult.received, hnext, Option.map_some] at hmem
            rw [List.mem_singleton.mp hmem]
            exact ⟨result, rfl, .inr ⟨next, hnext, .more expected h hrequest (hcursor next hnext)⟩⟩
        · cases hmem

/-- What the tree asks for is the path and the cursor that the server sent exactly where the
numbers in them are doubles; there, two nodes that ask for the same show the same. -/
theorem survives_iff_exact (hdecodes : DecodesKeys decodeKey) (h : Shown decodeKey node path cursor) :
    (Survives decodeKey node path cursor ↔
      (∀ segment ∈ path, segment.Exact) ∧ ∀ key, cursor = some key → key.Exact) ∧
    ∀ other otherPath otherCursor, Shown decodeKey other otherPath otherCursor →
      Survives decodeKey node path cursor → Survives decodeKey other otherPath otherCursor →
        node.childrenRequest = other.childrenRequest →
          path = otherPath ∧ cursor = otherCursor := by
  obtain ⟨hpath, hcursor⟩ := h.sends
  constructor
  · rw [← decodePath_received_iff hdecodes hpath, ← decodeCursor_received_iff hdecodes hcursor]
    constructor
    · intro hsurvives
      exact hsurvives.children _ h.request
    · rintro ⟨hsegments, hnext⟩
      constructor
      · intro request hrequest
        cases hrequest.symm.trans h.request
        exact ⟨hsegments, hnext⟩
      · intro request hrequest
        rw [h.readRequest hrequest]
        exact hsegments
  · intro other otherPath otherCursor hother hsurvives hsurvives' hsame
    obtain ⟨hsegments, hnext⟩ := hsurvives.children _ h.request
    obtain ⟨hsegments', hnext'⟩ := hsurvives'.children _ (hsame.symm.trans h.request)
    exact ⟨Option.some.inj (hsegments.symm.trans hsegments'),
      Option.some.inj (hnext.symm.trans hnext')⟩

end Tree

/-! ## Keys near and far -/

namespace Sample

/-- A decoder: integers are `i64`, bytes are bytes, and every number is that of a date. -/
def decodeKey : DataKey → Option DataKey
  | .int value => if -(2 ^ 63) ≤ value ∧ value < 2 ^ 63 then some (.int value) else none
  | .bytes value => if ∀ byte ∈ value, byte < 256 then some (.bytes value) else none
  | key => some key

theorem decodesKeys : DecodesKeys decodeKey where
  int h := (Option.some.inj (Option.ite_none_right_eq_some.mp h).2).symm
  date h := (Option.some.inj h).symm
  bytes h := (Option.ite_none_right_eq_some.mp h).1

theorem shown_counter : Shown decodeKey (.root ⟨"counter", counter, boundary⟩) [.root counter]
    none := .root _

/-- A page of a child and a cursor. -/
theorem shown_key {value : Int} (h : SendsKey decodeKey (.int value)) :
    Shown decodeKey (segmentNode [.root counter] boundary
      (DataChildView.received ⟨.key (.int value), "key"⟩)) [.root counter, .key (.int value)] none :=
  @Shown.child _ _ _ _ ⟨[.root counter], DATA_PAGE_LIMIT, none⟩ ⟨.key (.int value), "key"⟩ boundary
    shown_counter rfl (Option.map_eq_some_iff.mpr ⟨_, h, rfl⟩)

theorem survives_one : Survives decodeKey (segmentNode [.root counter] boundary
    (DataChildView.received ⟨.key (.int 1), "key"⟩)) [.root counter, .key (.int 1)] none := by
  apply (survives_iff_exact decodesKeys (shown_key (by unfold SendsKey; decide))).1.mpr
  refine ⟨?_, by simp⟩
  intro segment hsegment
  rw [List.mem_cons, List.mem_singleton] at hsegment
  rcases hsegment with rfl | rfl
  · trivial
  · exact isDouble_of_lt (by decide)

/-- The first integer that is no double. -/
theorem not_survives_far : ¬ ∀ node path cursor, Shown decodeKey node path cursor →
    Survives decodeKey node path cursor := by
  intro h
  have hshown := shown_key (show SendsKey decodeKey (.int (2 ^ 53 + 1)) by
    unfold SendsKey
    decide)
  have hpath := ((h _ _ _ hshown).children _ hshown.request).1
  exact absurd hpath (by decide)

end Sample

end Editor

end MarrowLsp
