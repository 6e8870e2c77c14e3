-- SUMMARY: The stdio transport of the tool server: cutting the input into lines, handling one message, and the loop that answers them (marrow-mcp main.rs).
import MarrowLsp.Lib.Lines
import MarrowLsp.Mcp.Server
import MarrowLsp.Mcp.Summary

/-!
# The transport

One JSON-RPC message a line, one reply a line. What `serde_json` reads and prints is a
parameter, and so is what a tool call does with the state that calls share: the caches
and whatever it finds on disk.
-/
namespace MarrowLsp

namespace Mcp.Stdio

/-! ## Lines -/

/-- Drop the carriage return before a newline. -/
def stripCarriageReturn (line : List UInt8) : List UInt8 :=
  if line.getLast? = some 13 then line.dropLast else line

/-- `BufRead::lines`, as bytes: an input that ends in a newline has no line after it. -/
def cutLines (input : List UInt8) : List (List UInt8) :=
  let parts := input.splitOn 10
  parts.dropLast.map stripCarriageReturn ++ parts.getLast?.toList.filter (· ≠ [])

/-- A line as a string, `none` where it is not UTF-8. -/
def decodeLine (line : List UInt8) : Option String := String.fromUTF8? ⟨line.toArray⟩

/-- `line.trim().is_empty()`. -/
def isBlank (line : String) : Bool := line.toList.all Utf8.isWhitespace

/-! ## Replies -/

def INVALID_PARAMS : Int := -32602
def METHOD_NOT_FOUND : Int := -32601

def PROTOCOL_VERSION : String := "2025-06-18"
def SUPPORTED_PROTOCOL_VERSIONS : List String := [PROTOCOL_VERSION, "2025-03-26"]

/-- Echo the client's version when it is supported, else answer with the latest. -/
def negotiateProtocolVersion (requested : Option String) : String :=
  (requested.bind fun requested =>
    SUPPORTED_PROTOCOL_VERSIONS.find? (· == requested)).getD PROTOCOL_VERSION

/-- `server_info`, with the version of the crate. -/
def serverInfo : Json := .object [("name", .string "marrow-mcp"), ("version", .string "0.1.0")]

def initializeResult (protocolVersion : String) : Json :=
  .object [("protocolVersion", .string protocolVersion),
    ("capabilities", .object [("tools", .object [])]), ("serverInfo", serverInfo)]

/-- A successful JSON-RPC response. -/
def ok (id result : Json) : Json :=
  .object [("jsonrpc", .string "2.0"), ("id", id), ("result", result)]

/-- A JSON-RPC error response. -/
def error (id : Json) (code : Int) (message : String) : Json :=
  .object [("jsonrpc", .string "2.0"), ("id", id),
    ("error", .object [("code", .number (.negInt code)), ("message", .string message)])]

/-- Whether the core flagged a result a tool-internal fault. -/
def isToolError (result : Json) : Bool := flag result "tool_error"

/-- The `tools/call` result envelope. -/
def toolResult (compact : Json → String) (name : String) (result : Json) : Json :=
  .object [
    ("content", .array [.object [("type", .string "text"),
      ("text", .string (summarize compact name result))]]),
    ("structuredContent", result.remove "tool_error"),
    ("isError", .bool (isToolError result))]

def requestParams (message : Json) : Option Json :=
  match message.get "params" with
  | none => some (.object [])
  | some .null => some (.object [])
  | some (.object members) => some (.object members)
  | some _ => none

/-! ## Messages -/

section Serve

-- `call` is `server::call` and `tools` the table of `server::tools`; `parse` and
-- `compact` are `serde_json::from_str` and `serde_json::to_string`.
variable {σ : Type} (call : σ → String → Json → Except String Json × σ) (tools : Json)
  (parse : String → Option Json) (compact : Json → String)

def handleToolsCall (s : σ) (id params : Json) : Json × σ :=
  match (params.get "name").bind Json.asStr with
  | none => (error id INVALID_PARAMS "tools/call needs a tool `name`", s)
  | some name =>
    let arguments :=
      match params.get "arguments" with
      | none => some (.object [])
      | some .null => some (.object [])
      | some (.object members) => some (.object members)
      | some _ => none
    match arguments with
    | none => (error id INVALID_PARAMS "tools/call `arguments` must be an object when present", s)
    | some arguments =>
      match call s name arguments with
      | (.ok result, s) => (ok id (toolResult compact name result), s)
      | (.error message, s) => (error id INVALID_PARAMS message, s)

def withParams (s : σ) (id message : Json) (method : String) (okWithParams : Json → Json × σ) :
    Json × σ :=
  match requestParams message with
  | some params => okWithParams params
  | none => (error id INVALID_PARAMS s!"{method} `params` must be an object", s)

/-- The reply to a request that carries `id`. -/
def handleRequest (s : σ) (message id : Json) : Json × σ :=
  let method := ((message.get "method").bind Json.asStr).getD ""
  match method with
  | "initialize" => withParams s id message method fun params =>
      (ok id (initializeResult (negotiateProtocolVersion
        ((params.get "protocolVersion").bind Json.asStr))), s)
  | "ping" => withParams s id message method fun _ => (ok id (.object []), s)
  | "tools/list" => withParams s id message method fun _ => (ok id (.object [("tools", tools)]), s)
  | "tools/call" => withParams s id message method fun params =>
      handleToolsCall call compact s id params
  | "shutdown" => withParams s id message method fun _ => (ok id .null, s)
  | other => (error id METHOD_NOT_FOUND s!"unknown method `{other}`", s)

/-- One message: the reply, or nothing for a notification, which has no `id`. -/
def handle (s : σ) (message : Json) : Option Json × σ :=
  match message.get "id" with
  | none => (none, s)
  | some id =>
    let (reply, s) := handleRequest call tools compact s message id
    (some reply, s)

/-! ## The loop -/

/-- The replies of `serve`, in order. A line that is not UTF-8 ends the loop. -/
def serveLines (s : σ) : List (List UInt8) → List Json
  | [] => []
  | line :: lines =>
    match decodeLine line with
    | none => []
    | some line =>
      if isBlank line then serveLines s lines
      else
        match parse line with
        | none => serveLines s lines
        | some message =>
          let (reply, s) := handle call tools compact s message
          reply.toList ++ serveLines s lines

/-- `write_message`: one line a message. -/
def writeMessage (message : Json) : List Char := (compact message).toList ++ ['\n']

/-- What `serve` writes for an input. -/
def serve (s : σ) (input : List UInt8) : List Char :=
  (serveLines call tools parse compact s (cutLines input)).flatMap (writeMessage compact)

end Serve

end Mcp.Stdio

end MarrowLsp
