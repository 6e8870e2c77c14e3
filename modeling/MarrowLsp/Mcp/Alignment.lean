-- SUMMARY: Which lines of its input the tool server answers: the requests up to the first line that is not UTF-8, each with its own id (marrow-mcp main.rs).
import MarrowLsp.Mcp.StoreAccess
import MarrowLsp.Mcp.Transport

/-!
# Replies and requests

The replies are those to the requests among the lines the loop gets to read. A line
that is not UTF-8 ends the loop, so the requests after it go unanswered.
-/
namespace MarrowLsp

namespace Mcp.Stdio

section Alignment

variable {σ : Type} (call : σ → String → Json → Except String Json × σ) (tools : Json)
  (parse : String → Option Json) (compact : Json → String)

/-- The message and id of a line that is a request. -/
def requestOf (line : List UInt8) : Option (Json × Json) :=
  (decodeLine line).bind fun text =>
    if isBlank text then none
    else (parse text).bind fun message => (message.get "id").map fun id => (message, id)

/-- A line that is not UTF-8, or neither blank nor JSON. -/
def isMalformed (line : List UInt8) : Bool :=
  (decodeLine line).all fun text => !isBlank text && (parse text).isNone

/-- The replies to requests answered one after the other. -/
def answerAll (s : σ) : List (Json × Json) → List Json
  | [] => []
  | (message, id) :: requests =>
    let (reply, s) := handleRequest call tools compact s message id
    reply :: answerAll s requests

/-- What the output of `serve` promises of an input. -/
structure Aligned (s : σ) (input : List UInt8) : Prop where
  lines : Utf8.lines (serve call tools parse compact s input) =
    (serveLines call tools parse compact s (cutLines input)).map (fun r => (compact r).toList) ++
      [[]]
  ids : (serveLines call tools parse compact s (cutLines input)).map (·.get "id") =
    ((cutLines input).filterMap (requestOf parse)).map fun request => some request.2
  unaffected : ∀ before bad after, cutLines input = before ++ bad :: after →
    isMalformed parse bad = true →
      serveLines call tools parse compact s (before ++ bad :: after) =
        serveLines call tools parse compact s (before ++ after)

/-- No line that is not UTF-8 comes before a request. -/
def RequestsReadable (lines : List (List UInt8)) : Prop :=
  ∀ before bad after, lines = before ++ bad :: after → decodeLine bad = none →
    ∀ line ∈ after, requestOf parse line = none

variable {call tools parse compact}

/-! ## One reply -/

theorem get_id_withParams {s : σ} {id message : Json} {method : String}
    {okWithParams : Json → Json × σ} (h : ∀ params, (okWithParams params).1.get "id" = some id) :
    (withParams s id message method okWithParams).1.get "id" = some id := by
  unfold withParams
  split
  · exact h _
  · rfl

theorem get_id_handleToolsCall (s : σ) (id params : Json) :
    (handleToolsCall call compact s id params).1.get "id" = some id := by
  unfold handleToolsCall
  cases (params.get "name").bind Json.asStr with
  | none => rfl
  | some name =>
    dsimp only
    split
    · rfl
    · split <;> rfl

/-- Every reply carries the id of its request. -/
theorem get_id_handleRequest (s : σ) (message id : Json) :
    (handleRequest call tools compact s message id).1.get "id" = some id := by
  unfold handleRequest
  dsimp only
  split
  · exact get_id_withParams fun _ => rfl
  · exact get_id_withParams fun _ => rfl
  · exact get_id_withParams fun _ => rfl
  · exact get_id_withParams fun params => get_id_handleToolsCall s id params
  · exact get_id_withParams fun _ => rfl
  · rfl

theorem get_id_answerAll (s : σ) (requests : List (Json × Json)) :
    (answerAll call tools compact s requests).map (·.get "id") =
      requests.map fun request => some request.2 := by
  induction requests generalizing s with
  | nil => rfl
  | cons request requests ih =>
    simp only [answerAll, List.map_cons, get_id_handleRequest, ih]

/-! ## The loop -/

/-- The loop answers the requests before the first line it cannot read. -/
theorem serveLines_eq_answerAll (s : σ) (lines : List (List UInt8)) :
    serveLines call tools parse compact s lines = answerAll call tools compact s
      ((lines.takeWhile fun line => (decodeLine line).isSome).filterMap (requestOf parse)) := by
  induction lines generalizing s with
  | nil => rfl
  | cons line lines ih =>
    unfold serveLines
    cases hdecode : decodeLine line with
    | none => simp [hdecode, answerAll]
    | some text =>
      rw [List.takeWhile_cons_of_pos (by simp [hdecode])]
      by_cases hblank : isBlank text = true
      · simp [hblank, ih, requestOf, hdecode]
      · cases hparse : parse text with
        | none => simp [hblank, ih, requestOf, hdecode, hparse]
        | some message =>
          cases hid : message.get "id" with
          | none => simp [hblank, ih, requestOf, hdecode, hparse, hid, handle]
          | some id => simp [hblank, ih, requestOf, hdecode, hparse, hid, handle, answerAll]

theorem requestOf_of_malformed {line : List UInt8} (h : isMalformed parse line = true) :
    requestOf parse line = none := by
  unfold isMalformed at h
  unfold requestOf
  cases hdecode : decodeLine line with
  | none => rfl
  | some text =>
    simp only [hdecode, Option.all_some, Bool.and_eq_true, Option.isNone_iff_eq_none] at h
    simp [h.2]

theorem requestOf_of_undecodable {line : List UInt8} (h : decodeLine line = none) :
    requestOf parse line = none := by
  simp [requestOf, h]

/-- The requests are readable when none is left where the loop ends. -/
theorem requestsReadable_iff {lines : List (List UInt8)} : RequestsReadable parse lines ↔
    (lines.dropWhile fun line => (decodeLine line).isSome).filterMap (requestOf parse) = [] := by
  constructor
  · intro h
    have hsplit := List.takeWhile_append_dropWhile
      (p := fun line => (decodeLine line).isSome) (l := lines)
    cases hdrop : lines.dropWhile fun line => (decodeLine line).isSome with
    | nil => rfl
    | cons bad after =>
      have hbad : decodeLine bad = none := by
        have hne : (lines.dropWhile fun line => (decodeLine line).isSome) ≠ [] := by simp [hdrop]
        have hhead := List.head_dropWhile_not (fun line => (decodeLine line).isSome) hne
        simpa [hdrop] using hhead
      rw [hdrop] at hsplit
      rw [List.filterMap_cons_none (requestOf_of_undecodable hbad)]
      exact List.filterMap_eq_nil_iff.mpr (h _ bad after hsplit.symm hbad)
  · rintro h before bad after rfl hbad line hline
    refine List.filterMap_eq_nil_iff.mp h line ?_
    rw [List.dropWhile_append]
    split
    · rw [List.dropWhile_cons_of_neg (by simp [hbad])]
      exact List.mem_cons_of_mem _ hline
    · exact List.mem_append_right _ (List.mem_cons_of_mem _ hline)

/-- The requests of all lines: those the loop reads, and those it leaves. -/
theorem filterMap_requestOf (lines : List (List UInt8)) :
    lines.filterMap (requestOf parse) =
      (lines.takeWhile fun line => (decodeLine line).isSome).filterMap (requestOf parse) ++
        (lines.dropWhile fun line => (decodeLine line).isSome).filterMap (requestOf parse) := by
  rw [← List.filterMap_append, List.takeWhile_append_dropWhile]

/-- Where the requests are readable the loop answers all of them. -/
theorem serveLines_of_readable (s : σ) {lines : List (List UInt8)}
    (h : RequestsReadable parse lines) :
    serveLines call tools parse compact s lines =
      answerAll call tools compact s (lines.filterMap (requestOf parse)) := by
  rw [serveLines_eq_answerAll, filterMap_requestOf lines, requestsReadable_iff.mp h,
    List.append_nil]

theorem RequestsReadable.remove {before after : List (List UInt8)} {bad : List UInt8}
    (h : RequestsReadable parse (before ++ bad :: after)) :
    RequestsReadable parse (before ++ after) := by
  intro front worse rest hsplit hworse line hline
  rcases List.append_eq_append_iff.mp hsplit with ⟨mid, rfl, hafter⟩ | ⟨mid, rfl, hmid⟩
  · refine h (before ++ bad :: mid) worse rest ?_ hworse line hline
    simp [hafter]
  · cases mid with
    | nil =>
      refine h (front ++ [bad]) worse rest ?_ hworse line hline
      simpa using hmid.symm
    | cons first mid =>
      obtain ⟨rfl, rfl⟩ := List.cons.inj hmid
      rcases List.mem_append.mp hline with hline | hline
      · exact h front worse (mid ++ bad :: after) (by simp) hworse line
          (List.mem_append_left _ hline)
      · exact h front worse (mid ++ bad :: after) (by simp) hworse line
          (List.mem_append_right _ (List.mem_cons_of_mem _ hline))

/-- The output of `serve` keeps its promises exactly when no line that is not UTF-8 comes
before a request. -/
theorem aligned_iff (hcompact : ∀ json, '\n' ∉ (compact json).toList) (s : σ)
    (input : List UInt8) : Aligned call tools parse compact s input ↔
      RequestsReadable parse (cutLines input) := by
  constructor
  · intro h
    have hids := h.ids
    rw [serveLines_eq_answerAll, get_id_answerAll, filterMap_requestOf (cutLines input),
      List.map_append] at hids
    rw [requestsReadable_iff]
    have hnil := List.self_eq_append_right.mp hids
    exact List.map_eq_nil_iff.mp hnil
  · intro h
    refine ⟨?_, ?_, ?_⟩
    · have hwritten := @Utf8.lines_flatMap
        ((serveLines call tools parse compact s (cutLines input)).map fun r => (compact r).toList)
        (by
          intro line hline
          obtain ⟨r, -, rfl⟩ := List.mem_map.mp hline
          exact hcompact r)
      rw [List.flatMap_map] at hwritten
      exact hwritten
    · rw [serveLines_of_readable s h, get_id_answerAll]
    · intro before bad after hsplit hbad
      rw [hsplit] at h
      rw [serveLines_of_readable s h, serveLines_of_readable s h.remove]
      simp [requestOf_of_malformed hbad]

end Alignment

/-! ## The tools behind the transport -/

/-- What tool calls share: the cache, and the worlds they find one after the other. -/
structure ToolState (M : Marrow) where
  cache : CachedProject M
  worlds : Nat → World M
  calls : Nat

/-- A tool call as the transport makes it; `render` is what a reply's facts become. -/
def callTool {M : Marrow} {W : Wire} (allowedRoot : Option Path) (policy : Policy)
    (render : World M → Reply M W → Json) (s : ToolState M) (name : String) (arguments : Json) :
    Except String Json × ToolState M :=
  let w := s.worlds s.calls
  let result := call (W := W) allowedRoot s.cache w policy name arguments
  (result.reply.map (render w), { s with cache := result.cache, calls := s.calls + 1 })

/-! ## A byte that is not UTF-8 -/

def pingLine : List UInt8 := "\x7b\"id\":1,\"method\":\"ping\"\x7d".toUTF8.data.toList

def pingMessage : Json := .object [("id", .number (.posInt 1)), ("method", .string "ping")]

/-- A line that is not UTF-8. -/
def badLine : List UInt8 := [0xFF]

/-- `serde_json` on these lines and the reply to them. -/
def parsePing (text : String) : Option Json :=
  if text = "\x7b\"id\":1,\"method\":\"ping\"\x7d" then some pingMessage else none

def printPong (_ : Json) : String :=
  "\x7b\"id\":1,\"jsonrpc\":\"2.0\",\"result\":\x7b\x7d\x7d"

def freshTools : ToolState Marrow.sample := ⟨CachedProject.new, fun _ => Sample.twins, 0⟩

/-- The tools of a session without grants. -/
def ungrantedTool (s : ToolState Marrow.sample) (name : String) (arguments : Json) :
    Except String Json × ToolState Marrow.sample :=
  callTool (W := Sample.wire) none ⟨false, false⟩ (fun _ _ => .null) s name arguments

/-- A bad line after the request leaves its reply as it is. -/
theorem aligned_ping_bad : Aligned ungrantedTool .null parsePing printPong freshTools
    (pingLine ++ [10] ++ badLine ++ [10]) := by
  refine (aligned_iff ?_ freshTools _).mpr (requestsReadable_iff.mpr rfl)
  intro json
  unfold printPong
  decide

/-- A bad line before the request ends the loop, and the request goes unanswered. -/
theorem not_aligned_bad_ping : ¬ Aligned ungrantedTool .null parsePing printPong freshTools
    (badLine ++ [10] ++ pingLine ++ [10]) := by
  intro h
  have hids := h.ids
  cases hids

end Mcp.Stdio

end MarrowLsp
