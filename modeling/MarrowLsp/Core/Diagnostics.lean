-- SUMMARY: A project analysis as editor diagnostics, grouped by file URL (diagnostics.rs).
import Mathlib.Data.List.AList
import MarrowLsp.Core.Positions

/-!
# Diagnostics

A problem is placed under the URL of its file, its span mapped through the open
buffer's line index when there is one and through the text on disk otherwise.
-/
namespace MarrowLsp

/-- The diagnostic `source` an editor shows beside each problem. -/
def SOURCE : String := "marrow"

inductive DiagnosticSeverity where
  | ERROR
  | WARNING
  deriving DecidableEq, Repr

/-- An LSP diagnostic, with the fields the server fills. -/
structure Diagnostic where
  range : Range
  severity : DiagnosticSeverity
  code : String
  source : String
  message : String
  deriving DecidableEq, Repr

/-- Diagnostics by URL. -/
abbrev DiagnosticsByUrl := AList fun _ : Url => List Diagnostic

def severityToLsp : Severity → DiagnosticSeverity
  | .error => .ERROR
  | .warning => .WARNING

/-- Map one problem against its file's index; `help` becomes a line of the message. -/
def diagnosticToLsp (code : String) (severity : Severity) (startByte endByte : Nat)
    (message : String) (help : Option String) (index : LineIndex) : Diagnostic where
  range := index.range startByte endByte
  severity := severityToLsp severity
  code
  source := SOURCE
  message :=
    match help with
    | some help => message ++ "\nhelp: " ++ help
    | none => message

/-- A checker diagnostic carries no help. -/
def checkDiagnosticToLsp (diagnostic : CheckDiagnostic) (index : LineIndex) : Diagnostic :=
  diagnosticToLsp diagnostic.code diagnostic.severity diagnostic.startByte diagnostic.endByte
    diagnostic.message none index

/-- `read_to_string(path).unwrap_or_default()`. -/
def readOrEmpty (fs : Fs) (path : Path) : Text :=
  match fs.readToString path with
  | .ok text => text
  | .error _ => []

/-- Add one problem under its file's URL; a file without a URL is skipped. -/
def addDiagnostic (M : Marrow) (fs : Fs) (indexFor : Url → Option LineIndex)
    (result : DiagnosticsByUrl) (diagnostic : CheckDiagnostic) : DiagnosticsByUrl :=
  match M.fromFilePath diagnostic.file with
  | none => result
  | some url =>
    let index := (indexFor url).getD (LineIndex.new (readOrEmpty fs diagnostic.file))
    result.insert url
      ((result.lookup url).getD [] ++ [checkDiagnosticToLsp diagnostic index])

/-- `snapshot_to_diagnostics`: every open URL has an entry, empty where nothing is
reported. -/
def snapshotToDiagnostics (M : Marrow) (fs : Fs) (snapshot : M.Snapshot) (openUrls : List Url)
    (indexFor : Url → Option LineIndex) : DiagnosticsByUrl :=
  snapshot.diagnostics.foldl (addDiagnostic M fs indexFor)
    (openUrls.foldl (fun result url => result.insert url []) ∅)

/-! ## The URLs that get an entry -/

theorem mem_addDiagnostic {M : Marrow} {fs : Fs} {indexFor : Url → Option LineIndex}
    {result : DiagnosticsByUrl} {diagnostic : CheckDiagnostic} {url : Url} :
    url ∈ addDiagnostic M fs indexFor result diagnostic ↔
      M.fromFilePath diagnostic.file = some url ∨ url ∈ result := by
  unfold addDiagnostic
  cases hurl : M.fromFilePath diagnostic.file with
  | none => simp
  | some named =>
    rw [AList.mem_insert, Option.some.injEq]
    exact or_congr_left eq_comm

theorem mem_foldl_addDiagnostic {M : Marrow} {fs : Fs} {indexFor : Url → Option LineIndex}
    (diagnostics : List CheckDiagnostic) (result : DiagnosticsByUrl) {url : Url} :
    url ∈ diagnostics.foldl (addDiagnostic M fs indexFor) result ↔
      (∃ diagnostic ∈ diagnostics, M.fromFilePath diagnostic.file = some url) ∨
        url ∈ result := by
  induction diagnostics generalizing result with
  | nil => simp
  | cons first diagnostics ih =>
    rw [List.foldl_cons, ih, mem_addDiagnostic, List.exists_mem_cons_iff, or_assoc]
    exact or_left_comm

theorem mem_foldl_insert_nil (urls : List Url) (result : DiagnosticsByUrl) {url : Url} :
    url ∈ urls.foldl (fun result url => result.insert url []) result ↔
      url ∈ urls ∨ url ∈ result := by
  induction urls generalizing result with
  | nil => simp
  | cons first urls ih =>
    rw [List.foldl_cons, ih, AList.mem_insert, List.mem_cons, or_assoc]
    exact or_left_comm

theorem mem_snapshotToDiagnostics {M : Marrow} {fs : Fs} {snapshot : M.Snapshot}
    {openUrls : List Url} {indexFor : Url → Option LineIndex} {url : Url} :
    url ∈ snapshotToDiagnostics M fs snapshot openUrls indexFor ↔
      (∃ diagnostic ∈ snapshot.diagnostics, M.fromFilePath diagnostic.file = some url) ∨
        url ∈ openUrls := by
  unfold snapshotToDiagnostics
  rw [mem_foldl_addDiagnostic, mem_foldl_insert_nil]
  simp

/-! ## The list at a URL -/

/-- The index a problem's span is mapped through. -/
def indexOf (fs : Fs) (indexFor : Url → Option LineIndex) (url : Url) (file : Path) : LineIndex :=
  (indexFor url).getD (LineIndex.new (readOrEmpty fs file))

theorem lookup_addDiagnostic {M : Marrow} {fs : Fs} {indexFor : Url → Option LineIndex}
    {result : DiagnosticsByUrl} {diagnostic : CheckDiagnostic} {url : Url} :
    (addDiagnostic M fs indexFor result diagnostic).lookup url =
      if M.fromFilePath diagnostic.file = some url then
        some ((result.lookup url).getD [] ++
          [checkDiagnosticToLsp diagnostic (indexOf fs indexFor url diagnostic.file)])
      else result.lookup url := by
  unfold addDiagnostic indexOf
  cases hurl : M.fromFilePath diagnostic.file with
  | none => simp
  | some named =>
    by_cases hsame : named = url
    · subst hsame
      simp
    · simp [hsame, AList.lookup_insert_ne (Ne.symm hsame)]

/-- The problems of a report that name a URL, mapped, in the report's order. -/
def diagnosticsAt (M : Marrow) (fs : Fs) (indexFor : Url → Option LineIndex)
    (diagnostics : List CheckDiagnostic) (url : Url) : List Diagnostic :=
  (diagnostics.filter fun diagnostic => M.fromFilePath diagnostic.file = some url).map
    fun diagnostic => checkDiagnosticToLsp diagnostic (indexOf fs indexFor url diagnostic.file)

theorem lookup_foldl_addDiagnostic {M : Marrow} {fs : Fs} {indexFor : Url → Option LineIndex}
    (diagnostics : List CheckDiagnostic) (result : DiagnosticsByUrl) {url : Url} :
    ((diagnostics.foldl (addDiagnostic M fs indexFor) result).lookup url).getD [] =
      (result.lookup url).getD [] ++ diagnosticsAt M fs indexFor diagnostics url := by
  induction diagnostics generalizing result with
  | nil => simp [diagnosticsAt]
  | cons first diagnostics ih =>
    rw [List.foldl_cons, ih, lookup_addDiagnostic]
    by_cases hfirst : M.fromFilePath first.file = some url
    · simp [hfirst, diagnosticsAt]
    · simp [hfirst, diagnosticsAt]

theorem lookup_foldl_insert_nil (urls : List Url) (result : DiagnosticsByUrl) {url : Url} :
    ((urls.foldl (fun result url => result.insert url []) result).lookup url).getD [] =
      if url ∈ urls then [] else (result.lookup url).getD [] := by
  induction urls generalizing result with
  | nil => rfl
  | cons first urls ih =>
    rw [List.foldl_cons, ih]
    by_cases hrest : url ∈ urls
    · simp [hrest]
    · by_cases hfirst : url = first
      · subst hfirst
        simp [hrest]
      · simp [hrest, hfirst, AList.lookup_insert_ne hfirst]

/-- An entry holds the problems that name its URL and nothing else. -/
theorem lookup_snapshotToDiagnostics {M : Marrow} {fs : Fs} {snapshot : M.Snapshot}
    {openUrls : List Url} {indexFor : Url → Option LineIndex} {url : Url}
    (h : url ∈ snapshotToDiagnostics M fs snapshot openUrls indexFor) :
    (snapshotToDiagnostics M fs snapshot openUrls indexFor).lookup url =
      some (diagnosticsAt M fs indexFor snapshot.diagnostics url) := by
  obtain ⟨list, hlist⟩ := Option.isSome_iff_exists.mp (AList.lookup_isSome.mpr h)
  rw [hlist, Option.some.injEq]
  have hget := @lookup_foldl_addDiagnostic M fs indexFor snapshot.diagnostics
    (openUrls.foldl (fun result url => result.insert url []) ∅) url
  unfold snapshotToDiagnostics at hlist
  rw [hlist, lookup_foldl_insert_nil] at hget
  simpa using hget

end MarrowLsp
