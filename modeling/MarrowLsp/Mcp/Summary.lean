-- SUMMARY: The one-line summary of a tool's result that stands beside its structured form (marrow-mcp main.rs).
import MarrowLsp.Core.Json

/-!
# Summaries

A tool's result is summarized for clients that read text. Every field is read with a
default; what is inserted of a value is clipped to one short line.
-/
namespace MarrowLsp

namespace Mcp

/-- `"s"` for a plural count, the empty string for one. -/
def plural (count : Nat) : String := if count == 1 then "" else "s"

/-- The first of `str::lines`: what precedes the first newline, less a carriage return
right before that newline. -/
def firstLine (text : String) : String :=
  let line := text.toList.takeWhile (· != '\n')
  if text.toList.contains '\n' && line.getLast? == some '\r' then String.ofList line.dropLast
  else String.ofList line

/-- A fragment bounded to one short line. -/
def clip (text : String) : String :=
  let line := firstLine text
  if line.length ≤ 120 then line else String.ofList (line.toList.take 120) ++ "…"

/-- The length of an array-valued field, 0 when it is missing or not an array. -/
def arrayLen (result : Json) (field : String) : Nat :=
  (((result.get field).bind Json.asArray).map List.length).getD 0

def countSummary (result : Json) (field empty noun : String) : String :=
  let count := arrayLen result field
  if count = 0 then empty else s!"{count} {noun}{plural count}"

/-- Whether a field holds `true`. -/
def flag (result : Json) (field : String) : Bool :=
  (result.get field).bind Json.asBool == some true

section Print

-- `compact` is `serde_json::to_string`.
variable (compact : Json → String)

def surfaceReadSummary (result : Json) : String :=
  if !flag result "available" then "data unavailable"
  else
    (((((result.get "response").bind fun response => response.get "result").bind
      fun operationResult => operationResult.get "kind").bind Json.asStr).map clip).getD "ok"

def errorSummary (result : Json) : Option String :=
  (result.get "error").map fun error => s!"error: {clip (error.asStr.getD (compact error))}"

def missingFactSummary (facts : List Json) : Option String :=
  (facts.head?.bind Json.asStr).map fun first =>
    if facts.length == 1 then clip first else s!"{clip first} +{facts.length - 1}"

def prefixContract (result : Json) (base : String) : String :=
  match result.get "contract" with
  | none => base
  | some contract =>
    match (contract.get "description").bind Json.asStr with
    | none => base
    | some description =>
      match (contract.get "status").bind Json.asStr with
      | none => s!"{clip description}: {base}"
      | some status =>
        match ((contract.get "missingFacts").bind Json.asArray).bind missingFactSummary with
        | some missing => s!"{clip description} ({clip status}: {missing}): {base}"
        | none => s!"{clip description} ({clip status}): {base}"

def runReturnSummary (value : Json) : String :=
  match (value.get "kind").bind Json.asStr with
  | none => compact value
  | some kind =>
    if ["int", "bool", "string", "decimal", "date", "duration", "instant"].contains kind then
      ((value.get "value").map compact).getD (compact value)
    else if kind == "bytes" then
      (((value.get "originalBytes").bind Json.asU64).map fun bytes => s!"{bytes} bytes").getD
        (compact value)
    else if kind == "sequence" then toString (arrayLen value "values") ++ " values"
    else compact value

/-- Whether a run captured any output. -/
def hasOutput (result : Json) : Bool :=
  ((result.get "output").bind Json.asStr).any fun output => !output.isEmpty

def runSummary (result : Json) : String :=
  let count := arrayLen result "diagnostics"
  if count > 0 then
    let first :=
      ((((result.get "diagnostics").bind Json.asArray).bind List.head?).bind fun diagnostic =>
        (diagnostic.get "message").bind Json.asStr).getD "see diagnostics"
    s!"{count} diagnostic{plural count}: {clip first}"
  else
    match (result.get "tests").bind Json.asArray with
    | some tests =>
      let passed := tests.countP fun test => (test.get "outcome").bind Json.asStr == some "passed"
      s!"{passed}/{tests.length} tests passed"
    | none =>
      -- A run's result that is no object has no `kind` either.
      match result.get "result" with
      | some run =>
        if (run.get "kind").bind Json.asStr == some "value" then
          let value := runReturnSummary compact ((run.get "value").getD .null)
          s!"value {clip value}"
        else if hasOutput result then "ran, no value (output captured)"
        else "ran, no value"
      | none => if hasOutput result then "ran, no value (output captured)" else "ran, no value"

def namespaceCompleteSummary (result : Json) : String :=
  match (result.get "kind").bind Json.asStr with
  | some "module" =>
    let count := arrayLen result "resources" + arrayLen result "enums" +
      arrayLen result "functions"
    let module := ((result.get "module").bind Json.asStr).getD "module"
    if count = 0 then s!"{module}: no namespace items"
    else s!"{module}: {count} namespace item{plural count}"
  | some "enum" =>
    let enumName := ((result.get "enum_name").bind Json.asStr).getD "enum"
    let count := arrayLen result "members"
    if count = 0 then s!"{enumName}: no enum members"
    else s!"{enumName}: {count} enum member{plural count}"
  | _ => "no namespace fact"

def savedRootsSummary (result : Json) : String :=
  if !flag result "available" then "data unavailable"
  else countSummary result "roots" "no saved roots" "saved root"

def dataChildrenSummary (result : Json) : String :=
  if !flag result "available" then "data unavailable"
  else
    let base :=
      match arrayLen result "children" with
      | 0 => "no children"
      | 1 => "1 child"
      | count => s!"{count} children"
    if flag result "truncated" then s!"{base} (truncated)" else base

def dataReadSummary (result : Json) : String :=
  if !flag result "available" then "data unavailable"
  else
    match (result.get "value").bind Json.asStr with
    | some value => if flag result "value_truncated" then s!"{clip value} (truncated)" else clip value
    | none => (((result.get "presence").bind Json.asStr).map clip).getD "absent"

/-- The summary of a result that is neither a refusal nor an error. -/
def toolSummary (name : String) (result : Json) : String :=
  match name with
  | "mw_check" => countSummary result "diagnostics" "no diagnostics" "diagnostic"
  | "mw_type_at" => (((result.get "type").bind Json.asStr).map clip).getD "no type"
  | "mw_complete" => countSummary result "items" "no completions" "completion"
  | "mw_namespace_complete" => namespaceCompleteSummary result
  | "mw_resource_schema" => countSummary result "resources" "no resources" "resource"
  | "mw_surface_routes" => countSummary result "routes" "no routes" "route"
  | "mw_surface_read" => surfaceReadSummary result
  | "mw_surface_write" => surfaceReadSummary result
  | "mw_saved_roots" => savedRootsSummary result
  | "mw_data_children" => dataChildrenSummary result
  | "mw_data_read" => dataReadSummary result
  | "mw_run" => runSummary compact result
  | _ => "ok"

def summarize (name : String) (result : Json) : String :=
  let base :=
    if (result.get "dataAccess").bind Json.asStr == some "disabled" then "data access disabled"
    else
      match (result.get "refusal").bind Json.asStr with
      | some refusal => s!"refused: {clip refusal}"
      | none => (errorSummary compact result).getD (toolSummary compact name result)
  prefixContract result base

end Print

end Mcp

end MarrowLsp
