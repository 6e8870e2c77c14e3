-- SUMMARY: The write-audit trail of the tool server (mcp.rs): what a record says, how it is appended, and that a trail holds one record for each operation executed on a writable store.
import MarrowLsp.Lib.Lines
import MarrowLsp.Mcp.Grants

/-!
# The write-audit trail

A granted write leaves one line in a file at the root of its project. The append is
best-effort: the store is already written when it runs, so a failure is told to the
client and may leave the beginning of the line behind.
-/
namespace MarrowLsp

open Transition

variable {M : Marrow} {W : Wire}

/-! ## Records -/

/-- `SurfaceOperationRequestBodyJson`, with the identity of the record it addresses. -/
inductive SurfaceRequestBody where
  | singletonRead
  | pointRead (identity : Json)
  | page
  | uniqueLookup
  | singletonUpdate
  | pointUpdate (identity : Json)
  | singletonCreate
  | pointCreate (identity : Json)
  | singletonDelete
  | pointDelete (identity : Json)
  | action
  | computedRead

def auditTarget : SurfaceRequestBody → Option Json
  | .pointRead identity => some identity
  | .pointUpdate identity => some identity
  | .pointCreate identity => some identity
  | .pointDelete identity => some identity
  | _ => none

def requestKindName : SurfaceRequestBody → String
  | .singletonRead => "singleton_read"
  | .pointRead _ => "point_read"
  | .page => "page"
  | .uniqueLookup => "unique_lookup"
  | .singletonUpdate => "singleton_update"
  | .pointUpdate _ => "point_update"
  | .singletonCreate => "singleton_create"
  | .pointCreate _ => "point_create"
  | .singletonDelete => "singleton_delete"
  | .pointDelete _ => "point_delete"
  | .action => "action"
  | .computedRead => "computed_read"

/-- `AuditStoreStamp`, made of a store's stamp: the catalog epoch is left out. -/
def auditStoreStamp (stamp : StoreStamp) : Json :=
  .object [("store_uid", .string stamp.storeUid), ("commit_id", .number (.posInt stamp.commitId))]

/-- The file at a project's root that the records are appended to. -/
def WRITE_AUDIT_FILE : String := "marrow-mcp-write-audit.jsonl"

def trailPath (root : Path) : Path := root.child WRITE_AUDIT_FILE

theorem trailPath_inj {root root' : Path} : trailPath root = trailPath root' ↔ root = root' := by
  simp [trailPath, Path.child]

/-- What the trail is written with: what a record reads of its operation, the text of a
path, `serde_json` and the file system. -/
structure TrailWriter (M : Marrow) (W : Wire) where
  operationTag : W.SurfaceOperation → String
  body : W.SurfaceOperation → SurfaceRequestBody
  pathText : Path → String
  /-- `serde_json::to_string` and `serde_json::from_str`. -/
  print : Json → String
  parse : String → Option Json
  /-- The text of a file, empty where there is none. -/
  contents : World M → Path → Text
  /-- Open a file to append to, creating it, or say why not. -/
  openAppend : World M → Path → World M × Option String
  /-- `writeln!` of a line at the end of a file, or why it stopped. -/
  writeln : World M → Path → Text → World M × Option String

namespace TrailWriter

variable (A : TrailWriter M W)

/-- A record as `serde` serializes it: a missing target is skipped, a missing stamp is null. -/
def recordJson (record : WriteAuditRecord W) : Json :=
  .object ([("timestamp_ms", .number (.posInt record.timestampMs)),
      ("operation_tag", .string (A.operationTag record.operation)),
      ("file", .string (A.pathText record.file)),
      ("request_kind", .string (requestKindName (A.body record.operation)))] ++
    ((auditTarget (A.body record.operation)).toList.map fun target => ("target", target)) ++
    [("outcome", .string (if record.succeeded then "ok" else "error")),
      ("store_before", (record.storeBefore.map auditStoreStamp).getD .null),
      ("store_after", (record.storeAfter.map auditStoreStamp).getD .null)])

def line (record : WriteAuditRecord W) : Text := (A.print (A.recordJson record)).toList

def appendWriteAudit (w : World M) (root : Path) (record : WriteAuditRecord W) :
    World M × Option String :=
  match A.openAppend w (trailPath root) with
  | (opened, some message) => (opened, some message)
  | (opened, none) => A.writeln opened (trailPath root) (A.line record)

/-- What a reader of the trail makes of it: the value of each line. -/
def readTrail (text : Text) : List (Option Json) :=
  (Utf8.lines text).dropLast.map fun line => A.parse (String.ofList line)

/-- `serde_json` prints the value on one line, which it reads back. -/
structure PrintsBack (json : Json) : Prop where
  newline_not_mem : '\n' ∉ (A.print json).toList
  parse_print : A.parse (A.print json) = some json

/-- Printed one after the other, each with its newline, values read back as they are. -/
theorem readTrail_flatMap {values : List Json} (h : ∀ json ∈ values, A.PrintsBack json) :
    A.readTrail (values.flatMap fun json => (A.print json).toList ++ ['\n']) = values.map some := by
  have hlines := @Utf8.lines_flatMap (values.map fun json => (A.print json).toList) (by
    intro line hline
    obtain ⟨json, hjson, rfl⟩ := List.mem_map.mp hline
    exact (h json hjson).newline_not_mem)
  rw [List.flatMap_map] at hlines
  rw [readTrail, hlines, List.dropLast_concat, List.map_map]
  apply List.map_congr_left
  intro json hjson
  simp [(h json hjson).parse_print]

/-- Opening to append changes no contents, and a write appends the line and its newline,
or as much of them as it wrote before it failed. -/
structure Appends : Prop where
  contents_openAppend : ∀ w path other, A.contents (A.openAppend w path).1 other = A.contents w other
  contents_writeln_ne : ∀ w path text other, other ≠ path →
    A.contents (A.writeln w path text).1 other = A.contents w other
  contents_writeln : ∀ w path text, ∃ written, written <+: text ++ ['\n'] ∧
    A.contents (A.writeln w path text).1 path = A.contents w path ++ written ∧
    ((A.writeln w path text).2 = none → written = text ++ ['\n'])

/-- The executors append their records by `appendWriteAudit`, and nothing else that they
do touches a trail. -/
structure Records (X : Executors M W) : Prop where
  appendWriteAudit_eq : X.appendWriteAudit = A.appendWriteAudit
  contents_openWritable : ∀ w root other,
    A.contents (X.openWritable w root).1 (trailPath other) = A.contents w (trailPath other)
  contents_execute : ∀ w session operation other,
    A.contents (X.execute w session operation).1 (trailPath other) = A.contents w (trailPath other)
  contents_run : ∀ w root mode entry args other,
    A.contents (X.run w root mode entry args).1 (trailPath other) = A.contents w (trailPath other)

end TrailWriter

/-! ## Audits -/

/-- One record as the client is told of it: the project, the record, and why its append
failed. -/
structure Audit (W : Wire) where
  root : Path
  record : WriteAuditRecord W
  error : Option String

/-- `text` is what the append of the record left behind. -/
structure Audit.Wrote (A : TrailWriter M W) (audit : Audit W) (text : Text) : Prop where
  prefix_line : text <+: A.line audit.record ++ ['\n']
  whole : audit.error = none → text = A.line audit.record ++ ['\n']

/-- From `before` to `after` the trail of a root grew by what the appends left, in order. -/
def TrailGrew (A : TrailWriter M W) (root : Path) (audits : List (Audit W)) (before after : Text) :
    Prop :=
  ∃ texts, List.Forall₂ (Audit.Wrote A) (audits.filter (·.root = root)) texts ∧
    after = before ++ texts.flatten

namespace TrailGrew

variable {A : TrailWriter M W} {root : Path} {audits audits' : List (Audit W)}
  {before mid after : Text}

theorem refl : TrailGrew A root [] before before := ⟨[], .nil, by simp⟩

theorem trans (h : TrailGrew A root audits before mid) (h' : TrailGrew A root audits' mid after) :
    TrailGrew A root (audits ++ audits') before after := by
  obtain ⟨texts, hwrote, rfl⟩ := h
  obtain ⟨texts', hwrote', rfl⟩ := h'
  refine ⟨texts ++ texts', ?_, by simp⟩
  rw [List.filter_append]
  exact List.rel_append hwrote hwrote'

/-- Where no append failed, the trail grew by whole lines. -/
theorem lines_eq (h : TrailGrew A root audits before after)
    (hnone : ∀ audit ∈ audits, audit.root = root → audit.error = none) :
    after = before ++
      ((audits.filter (·.root = root)).map fun audit => A.line audit.record).flatMap (· ++ ['\n']) := by
  obtain ⟨texts, hwrote, rfl⟩ := h
  have hhere : ∀ audit ∈ audits.filter (·.root = root), audit.error = none := by
    intro audit haudit
    obtain ⟨hmem, hroot⟩ := List.mem_filter.mp haudit
    exact hnone audit hmem (of_decide_eq_true hroot)
  generalize audits.filter (·.root = root) = here at hwrote hhere
  rw [List.append_cancel_left_eq]
  induction hwrote with
  | nil => rfl
  | cons hfirst _ ih =>
    rw [List.flatten_cons, List.map_cons, List.flatMap_cons,
      hfirst.whole (hhere _ List.mem_cons_self),
      ih fun audit haudit => hhere audit (List.mem_cons_of_mem _ haudit)]

end TrailGrew

namespace TrailWriter

variable {A : TrailWriter M W}

/-- One append: the trail of its root grows by the record, and every other trail stays. -/
theorem Appends.appendWriteAudit (h : A.Appends) (w : World M) (root : Path)
    (record : WriteAuditRecord W) (other : Path) :
    TrailGrew A other [⟨root, record, (A.appendWriteAudit w root record).2⟩]
      (A.contents w (trailPath other))
      (A.contents (A.appendWriteAudit w root record).1 (trailPath other)) := by
  unfold TrailWriter.appendWriteAudit
  have hopen := h.contents_openAppend w (trailPath root)
  generalize A.openAppend w (trailPath root) = opening at hopen ⊢
  obtain ⟨opened, _ | message⟩ := opening
  · dsimp only
    by_cases hother : root = other
    · subst hother
      obtain ⟨written, hwritten, hcontents, hwhole⟩ :=
        h.contents_writeln opened (trailPath root) (A.line record)
      refine ⟨[written], ?_, by simp [hcontents, hopen]⟩
      rw [List.filter_cons_of_pos (by simp), List.filter_nil]
      exact .cons ⟨hwritten, hwhole⟩ .nil
    · rw [h.contents_writeln_ne _ _ _ _ (fun heq => hother (trailPath_inj.mp heq).symm), hopen]
      exact ⟨[], by simp [hother], by simp⟩
  · -- The file could not be opened: nothing was written.
    dsimp only
    rw [hopen]
    by_cases hother : root = other
    · refine ⟨[[]], ?_, by simp⟩
      rw [List.filter_cons_of_pos (by simp [hother]), List.filter_nil]
      exact .cons ⟨List.nil_prefix, fun hnone => nomatch hnone⟩ .nil
    · exact ⟨[], by simp [hother], by simp⟩

end TrailWriter

/-! ## Runs of the server -/

/-- The record that an answer carries of what was executed. -/
def auditsOf {X : Executors M W} :
    List (Path × W.SurfaceOperation) → Answer X → List (Audit W)
  | [(root, _)], .surface _ _ (some (record, error)) => [⟨root, record, error⟩]
  | _, _ => []

/-- The audits that the client is told of by one call. -/
def Served.audits {X : Executors M W} (served : Served X) : List (Audit W) :=
  match served.answer with
  | .ok answer => auditsOf served.executed answer
  | .error _ => []

namespace Executors

variable (X : Executors M W) {A : TrailWriter M W}

/-- The record of an operation executed on a session. -/
def auditRecord (opened : World M) (session : X.Session) (file : Path)
    (operation : W.SurfaceOperation) : WriteAuditRecord W :=
  let executed := X.execute opened session operation
  { timestampMs := X.unixMillisNow executed.1
    operation
    file
    succeeded := executed.2.isOk
    storeBefore := (X.stamp opened session).toOption
    storeAfter := (X.stamp executed.1 session).toOption }

/-- What a reply is performed to: the operations executed are those that the answer has
records of, and the trails grew by these records. -/
structure Audits (A : TrailWriter M W) (w : World M) (performed : Performed X) : Prop where
  executed : (auditsOf performed.executed performed.answer).map
    (fun audit => (audit.root, audit.record.operation)) = performed.executed
  grew : ∀ root, TrailGrew A root (auditsOf performed.executed performed.answer)
    (A.contents w (trailPath root)) (A.contents performed.world (trailPath root))

theorem audits_performRead (w : World M) (root : Path) (operation : W.SurfaceOperation) :
    X.Audits A w (X.performRead w root operation) := by
  unfold performRead
  split
  · exact ⟨rfl, fun _ => .refl⟩
  · split
    · exact ⟨rfl, fun _ => .refl⟩
    · exact ⟨rfl, fun _ => .refl⟩

variable {X}

theorem audits_performWrite (hX : A.Records X) (hA : A.Appends) (w : World M) (file root : Path)
    (operation : W.SurfaceOperation) : X.Audits A w (X.performWrite w file root operation) := by
  unfold performWrite
  have hopened := hX.contents_openWritable w root
  generalize X.openWritable w root = opening at hopened ⊢
  obtain ⟨opened, message | session⟩ := opening
  · refine ⟨rfl, fun other => ?_⟩
    rw [hopened other]
    exact .refl
  · refine ⟨rfl, fun other => ?_⟩
    have hgrew := hA.appendWriteAudit (X.execute opened session operation).1 root
      (X.auditRecord opened session file operation) other
    rw [← hX.appendWriteAudit_eq, hX.contents_execute, hopened] at hgrew
    exact hgrew

theorem audits_perform (hX : A.Records X) (hA : A.Appends) (w : World M) (file : Path)
    (reply : Reply M W) : X.Audits A w (X.perform w file reply) := by
  cases reply with
  | surfaceRead root operation => exact X.audits_performRead w root operation
  | surfaceWrite root operation => exact audits_performWrite hX hA w file root operation
  | run root mode entry args =>
    refine ⟨rfl, fun other => ?_⟩
    dsimp only [perform]
    rw [hX.contents_run]
    exact .refl
  | _ => exact ⟨rfl, fun _ => .refl⟩

end Executors

namespace Mcp

section Trail

variable (X : Executors M W) (A : TrailWriter M W) (policy : Policy)

/-- The server between calls, the world as its last call left it, and the audits that
the client was told of. -/
structure TrailState (M : Marrow) (W : Wire) where
  server : ServerState M W
  world : World M
  audits : List (Audit W)

namespace TrailState

/-- A server that starts in a world. -/
def starts (w : World M) : TrailState M W := ⟨ServerState.new, w, []⟩

/-- One `tools/call` in the world it finds. -/
def step (allowedRoot : Option Path) (s : TrailState M W) (t : ToolCall M) :
    Option (TrailState M W) :=
  let served := serve X policy ⟨t.world, s.server.cache, allowedRoot⟩ t.name t.arguments
  (ServerState.step X policy allowedRoot s.server t).map fun server =>
    ⟨server, served.host.world, s.audits ++ served.audits⟩

/-- Between two calls nobody else writes a trail. -/
def FindsTrails (s : TrailState M W) (t : ToolCall M) : Prop :=
  ∀ root, A.contents t.world (trailPath root) = A.contents s.world (trailPath root)

/-- The operations executed are those audited, and each trail is what it was at the start
and then what the appends left. -/
structure Recorded (w : World M) (s : TrailState M W) : Prop where
  executed : s.server.executed = s.audits.map fun audit => (audit.root, audit.record.operation)
  grew : ∀ root, TrailGrew A root s.audits (A.contents w (trailPath root))
    (A.contents s.world (trailPath root))

variable {X A}

theorem recorded_step (hX : A.Records X) (hA : A.Appends) {allowedRoot : Option Path} {w : World M}
    {s s' : TrailState M W} {t : ToolCall M} (h : Recorded A w s) (hfinds : FindsTrails A s t)
    (hstep : step X policy allowedRoot s t = some s') : Recorded A w s' := by
  simp only [step, ServerState.step, Option.map_some, Option.some.injEq] at hstep
  subst hstep
  have hserved : ∃ audits, (serve X policy ⟨t.world, s.server.cache, allowedRoot⟩ t.name
        t.arguments).audits = audits ∧
      (serve X policy ⟨t.world, s.server.cache, allowedRoot⟩ t.name t.arguments).executed =
        audits.map (fun audit => (audit.root, audit.record.operation)) ∧
      ∀ root, TrailGrew A root audits (A.contents t.world (trailPath root))
        (A.contents (serve X policy ⟨t.world, s.server.cache, allowedRoot⟩ t.name
          t.arguments).host.world (trailPath root)) := by
    unfold serve
    dsimp only
    split
    · exact ⟨[], rfl, rfl, fun _ => .refl⟩
    · have hperform := X.audits_perform hX hA
      exact ⟨_, rfl, (hperform _ _ _).executed.symm, (hperform _ _ _).grew⟩
  obtain ⟨audits, haudits, hexecuted, hgrew⟩ := hserved
  refine ⟨?_, fun root => ?_⟩
  · dsimp only
    rw [haudits, hexecuted, h.executed, List.map_append]
  · dsimp only
    rw [haudits]
    apply (h.grew root).trans
    rw [← hfinds root]
    exact hgrew root

end TrailState

theorem TrailState.reachable_server {allowedRoot : Option Path} {w : World M}
    {s : TrailState M W} (h : Reaches (TrailState.step X policy allowedRoot)
      (TrailState.FindsTrails A) (TrailState.starts w) s) :
    Reachable (ServerState.step X policy allowedRoot) ServerState.new s.server := by
  refine h.invariant
    (I := fun s => Reachable (ServerState.step X policy allowedRoot) ServerState.new s.server)
    .refl ?_
  intro s t s' hs _ hstep
  simp only [TrailState.step, Option.map_eq_some_iff] at hstep
  obtain ⟨server, hserver, rfl⟩ := hstep
  exact hs.snoc trivial hserver

/-- Over every run of a server that alone writes the trails: each operation executed on a
writable store has one record, in order, and the policy allows it; the trail of a project
is what it was and then what the appends of its records left; and where none of them
failed, reading the trail gives the values that were there and then the records. -/
theorem audit_trail (hX : A.Records X) (hA : A.Appends) (allowedRoot : Option Path) (w : World M)
    (s : TrailState M W)
    (h : Reaches (TrailState.step X policy allowedRoot) (TrailState.FindsTrails A)
      (TrailState.starts w) s) :
    (s.server.executed = s.audits.map fun audit => (audit.root, audit.record.operation)) ∧
      (s.audits ≠ [] → policy.allowWrite = true) ∧
      ∀ root,
        TrailGrew A root s.audits (A.contents w (trailPath root))
          (A.contents s.world (trailPath root)) ∧
        ∀ earlier : List Json,
          A.contents w (trailPath root) =
            (earlier.flatMap fun json => (A.print json).toList ++ ['\n']) →
          (∀ audit ∈ s.audits, audit.root = root → audit.error = none) →
          let values := earlier ++
            (s.audits.filter (·.root = root)).map fun audit => A.recordJson audit.record
          (∀ json ∈ values, A.PrintsBack json) →
            A.readTrail (A.contents s.world (trailPath root)) = values.map some := by
  have hrecorded : TrailState.Recorded A w s := by
    refine h.invariant ⟨rfl, fun _ => .refl⟩ ?_
    intro s t s' hs hfinds hstep
    exact TrailState.recorded_step policy hX hA hs hfinds hstep
  refine ⟨hrecorded.executed, ?_, fun root => ⟨hrecorded.grew root, ?_⟩⟩
  · intro haudits
    refine ServerState.allowWrite_of_reaches X policy (TrailState.reachable_server X A policy h) ?_
    rw [hrecorded.executed]
    exact fun hnil => haudits (List.map_eq_nil_iff.mp hnil)
  · intro earlier hearlier hnone values hvalues
    rw [← A.readTrail_flatMap hvalues, (hrecorded.grew root).lines_eq hnone, hearlier]
    simp only [values, List.flatMap_append, List.flatMap_map]
    rfl

end Trail

end Mcp

/-! ## One write -/

namespace Sample

/-- A wire whose surface operations all decode. -/
def operationWire : Wire := { wire with decodeOperation := fun _ => .ok () }

/-- The line of a record, as `serde_json` prints it. -/
def auditLine : String :=
  "\x7b\"timestamp_ms\":7,\"operation_tag\":\"notes.close\",\"file\":\"/A/src/app.mw\"," ++
    "\"request_kind\":\"action\",\"outcome\":\"ok\",\"store_before\":null,\"store_after\":null\x7d"

def auditJson : Json :=
  .object [("timestamp_ms", .number (.posInt 7)), ("operation_tag", .string "notes.close"),
    ("file", .string "/A/src/app.mw"), ("request_kind", .string "action"),
    ("outcome", .string "ok"), ("store_before", .null), ("store_after", .null)]

def textAt (w : World Marrow.sample) (path : Path) : Text :=
  (w.fs.readToString path).toOption.getD []

/-- A writer on the files of the world whose appends succeed. -/
def trailWriter : TrailWriter Marrow.sample operationWire where
  operationTag _ := "notes.close"
  body _ := .action
  pathText _ := "/A/src/app.mw"
  print _ := auditLine
  parse text := if text = auditLine then some auditJson else none
  contents := textAt
  openAppend w _ := (w, none)
  writeln w path text :=
    let readToString other :=
      if other = path then .ok (textAt w path ++ (text ++ ['\n'])) else w.fs.readToString other
    (⟨⟨w.fs.isFile, w.fs.pathExists, readToString, w.fs.readBytes, w.fs.stat, w.fs.canonicalize⟩,
      w.openStore, w.openSurface, w.openReadOnly⟩, none)

set_option maxRecDepth 2000 in
theorem newline_not_mem_auditLine : '\n' ∉ auditLine.toList := by decide

theorem printsBack_auditJson : trailWriter.PrintsBack auditJson where
  newline_not_mem := newline_not_mem_auditLine
  parse_print := by simp only [trailWriter, if_true]

theorem appends_trailWriter : trailWriter.Appends where
  contents_openAppend _ _ _ := rfl
  contents_writeln_ne w path text other h := by simp [trailWriter, textAt, h]
  contents_writeln w path text :=
    ⟨text ++ ['\n'], List.prefix_rfl, by simp [trailWriter, textAt, Except.toOption], fun _ => rfl⟩

/-- Executors on a store without a commit, on which every operation succeeds. -/
def writingExecutors : Executors Marrow.sample operationWire where
  ReadSession := Unit
  Session := Unit
  Response := Unit
  SurfaceError := Unit
  Value := Bool
  unixMillisNow _ := 7
  openRead _ _ := .ok ()
  readStamp _ _ := .error "no commit"
  executeReadOnly _ _ _ := .ok ()
  openWritable w _ := (w, .ok ())
  stamp _ _ := .error "no commit"
  execute w _ _ := (w, .ok ())
  appendWriteAudit := trailWriter.appendWriteAudit
  savedRoots _ _ := false
  dataChildren _ _ _ := false
  dataRead _ _ _ := false
  run w _ _ _ _ := (w, false)

theorem records_writingExecutors : trailWriter.Records writingExecutors :=
  ⟨rfl, fun _ _ _ => rfl, fun _ _ _ _ => rfl, fun _ _ _ _ _ _ => rfl⟩

def writeCall : Mcp.ToolCall Marrow.sample := ⟨stored, "mw_surface_write", writeArguments⟩

end Sample

namespace Mcp

open Sample in
theorem audits_writeCall : ∃ s, TrailState.step writingExecutors ⟨true, true⟩ none
    (TrailState.starts stored) writeCall = some s ∧
      s.audits = [⟨projectDir "A", ⟨7, (), app "A", true, none, none⟩, none⟩] :=
  ⟨_, rfl, rfl⟩

open Sample in
/-- The trail after one granted write reads back as its record. -/
theorem audit_trail_once : ∃ s, TrailState.step writingExecutors ⟨true, true⟩ none
    (TrailState.starts stored) writeCall = some s ∧
      trailWriter.readTrail (trailWriter.contents s.world (trailPath (projectDir "A"))) =
        [some auditJson] := by
  obtain ⟨s, hstep, haudits⟩ := audits_writeCall
  refine ⟨s, hstep, ?_⟩
  have hfinds : TrailState.FindsTrails trailWriter (TrailState.starts stored) writeCall :=
    fun _ => rfl
  have htrail := audit_trail writingExecutors trailWriter ⟨true, true⟩ records_writingExecutors
    appends_trailWriter none stored s (Reaches.refl.snoc hfinds hstep)
  have hread := (htrail.2.2 (projectDir "A")).2 [] (by decide)
  rw [haudits] at hread
  refine hread ?_ ?_
  · intro audit haudit _
    rw [List.mem_singleton.mp haudit]
  · intro json hjson
    rw [List.mem_singleton.mp hjson]
    exact printsBack_auditJson

end Mcp

end MarrowLsp
