-- SUMMARY: A small executable program under the debug adapter: a host whose expressions are their own values, statements of two files, and the requests of a client.
import MarrowLsp.Dap.Adapter

/-!
# A small debugged program

`Sample.host` is a concrete instance of what the adapter uses of Marrow: every expression
checks and evaluates to its own text. The program has the files `/a.mw` and `/b.mw`, with a
stop point on each of their first three lines.
-/
namespace MarrowLsp

namespace Dap

namespace Sample

def host : DebugHost where
  Analysis := Unit
  Expression := String
  DebugValue := String
  StoreSnapshot := Unit
  DataPathSegment := String
  normalizeExistingPath := id
  display := fun _ => ""
  checkedDebugExpression := fun _ _ _ source => .ok source
  isBool := fun expression => expression == "true" || expression == "false"
  requiresDurableData := fun _ => false
  isTrue := fun value => value == "true"
  preview := id
  childCounts := fun _ => none
  childrenTruncated := fun _ => false
  children := fun _ _ _ => []
  dataGenerationStampToJson := fun _ => .null
  entryArgumentsFromJson := fun _ => .ok ()

def fileA : Path := Path.rootDir.child "a.mw"
def fileB : Path := Path.rootDir.child "b.mw"

def span (line : Nat) : SourceSpan := ⟨0, 0, line, 1⟩

def statement (file : Path) (line depth : Nat) : Statement host where
  span := span line
  frame :=
    { file := some file
      depth := depth
      evaluateDebugExpression := .ok
      debugDataSnapshot := .ok ()
      debugSnapshot := fun _ _ => ([], 0, false)
      snapshotDataChildren := fun _ _ => .ok ⟨[], false, ()⟩ }

def points : List RuntimeStop :=
  [1, 2, 3].map (⟨fileA, span ·⟩) ++ [1, 2, 3].map (⟨fileB, span ·⟩)

/-- The launch is prepared, and the run starts. -/
def world : LaunchWorld host where
  prepare := .ok ⟨.null, .ok .null, [], points, ()⟩
  spawn := .ok ⟨.null, .null⟩

def request (command : String) (arguments : List (String × Json)) : Json :=
  .object [("seq", jsonNat 1), ("command", .string command), ("arguments", .object arguments)]

def send (command : String) (arguments : List (String × Json)) : AdapterStep host :=
  .request (request command arguments) world

def threadId : String × Json := ("threadId", jsonNat THREAD_ID)

def launch (stopOnEntry : Bool) : AdapterStep host :=
  send "launch" [("project", .string "/"), ("stopOnEntry", .bool stopOnEntry)]

/-- Ask for a breakpoint at each line, with a hit condition where one is given. -/
def setBreakpoints (file : String) (points : List (Nat × Option String)) : AdapterStep host :=
  send "setBreakpoints" [("source", .object [("path", .string file)]),
    ("breakpoints", .array (points.map fun point =>
      .object (("line", jsonNat point.1) ::
        (point.2.map fun hit => ("hitCondition", Json.string hit)).toList)))]

/-- The hook goes through a statement where nothing is to stop or to say. -/
def pass (file : Path) (line : Nat) : List (AdapterStep host) :=
  [.run (.statement (statement file line 0)), .run .drain, .run .report]

/-- The hook stops at a statement; the stop is in the event channel. -/
def stop (file : Path) (line : Nat) : List (AdapterStep host) :=
  pass file line ++ [.run .announce]

end Sample

end Dap

end MarrowLsp
