-- SUMMARY: Where what a recompute publishes lands: under the URL re-encoded from a file's path or tracked before, and so at the buffer exactly when each file has one spelling (backend.rs, diagnostics.rs).
import MarrowLsp.Core.Sample
import MarrowLsp.Lsp.Freshness

/-!
# Where diagnostics land

Buffers are keyed by the URL the editor chose, problems by the URL made from their
file's path, and a path has more than one URL. The published map also clears the tracked
URLs, which are keyed by what was published before.
-/
namespace MarrowLsp

variable {M : Marrow}

/-- What a recompute publishes: its diagnostics, and a clear of every tracked URL in scope. -/
def Server.publishedMap (tracker : DiagnosticsTracker) (root : Path) (scope : ReconcileScope)
    (fs : Fs) (documents : DocumentAnalysisSnapshot) (project : Project M) (a : Analysis M) :
    DiagnosticsByUrl :=
  tracker.withCleared root scope (Server.diagnosticsByUrl fs documents project a)

/-- The published map serves the open buffers. -/
structure Lands (fs : Fs) (documents : DocumentAnalysisSnapshot) (project : Project M)
    (a : Analysis M) (published : DiagnosticsByUrl) : Prop where
  /-- A problem in an open file is under its buffer's URL, mapped through the buffer. -/
  onBuffer : ∀ diagnostic ∈ a.snapshot.diagnostics, ∀ document ∈ documents.openDocuments,
    diagnostic.file = document.path →
      ∃ list, published.lookup document.url = some list ∧
        checkDiagnosticToLsp diagnostic (LineIndex.new document.text) ∈ list
  /-- A URL's list is the report's problems of the file it names, in the report's order. -/
  ofFile : ∀ url list, published.lookup url = some list →
    ∃ file, M.toFilePath url = some file ∧
      list = (a.snapshot.diagnostics.filter fun diagnostic => diagnostic.file = file).map
        fun diagnostic => checkDiagnosticToLsp diagnostic
          (indexOf fs (fun url => (documents.get url).map fun d => LineIndex.new d.text) url file)
  cleared : ∀ document ∈ documents.openDocuments, project.analyzesFile document.path = true →
    (∀ diagnostic ∈ a.snapshot.diagnostics, diagnostic.file ≠ document.path) →
      published.lookup document.url = some []
  distinct : ∀ url ∈ published, ∀ url' ∈ published,
    M.toFilePath url = M.toFilePath url' → url = url'

/-- The URL made from the path of a reported file, or that of an analyzed buffer. -/
def IsReportedOrOpen (documents : DocumentAnalysisSnapshot) (project : Project M)
    (a : Analysis M) (url : Url) : Prop :=
  (∃ diagnostic ∈ a.snapshot.diagnostics, M.fromFilePath diagnostic.file = some url) ∨
    ∃ document ∈ documents.openDocuments,
      project.analyzesFile document.path = true ∧ document.url = url

/-- The only URL among the tracked ones in scope and the analyzed buffers' that names its
file, which has no problem. -/
def NamesQuietFile (tracker : DiagnosticsTracker) (root : Path) (scope : ReconcileScope)
    (documents : DocumentAnalysisSnapshot) (project : Project M) (a : Analysis M)
    (url : Url) : Prop :=
  ∃ file, M.toFilePath url = some file ∧
    (∀ diagnostic ∈ a.snapshot.diagnostics, diagnostic.file ≠ file) ∧
    (∀ document ∈ documents.openDocuments, project.analyzesFile document.path = true →
      document.path ≠ file) ∧
    ∀ other, tracker.TracksUrl root other → scope.covers other = true →
      M.toFilePath other = some file → other = url

/-- Each file has one spelling among the URLs of a publish. -/
structure SpelledAsEncoded (tracker : DiagnosticsTracker) (root : Path) (scope : ReconcileScope)
    (documents : DocumentAnalysisSnapshot) (project : Project M) (a : Analysis M) : Prop where
  /-- The buffer of a reported file is open under the URL made from its path. -/
  reported : ∀ document ∈ documents.openDocuments,
    (∃ diagnostic ∈ a.snapshot.diagnostics, diagnostic.file = document.path) →
      M.fromFilePath document.path = some document.url
  /-- No analyzed file is open under two URLs. -/
  openOnce : ∀ document ∈ documents.openDocuments, ∀ other ∈ documents.openDocuments,
    project.analyzesFile document.path = true → document.path = other.path →
      document.url = other.url
  /-- What is only cleared names a file that no other URL of the publish names. -/
  tracked : ∀ url, tracker.TracksUrl root url → scope.covers url = true →
    ¬ IsReportedOrOpen documents project a url →
      NamesQuietFile tracker root scope documents project a url

section Captured

variable {d : Documents} {fs : Fs} {project : Project M} {a : Analysis M}
  {tracker : DiagnosticsTracker} {root : Path} {scope : ReconcileScope}

/-- A buffer is found under its own URL. -/
theorem get_of_mem_openDocuments {document : OpenDocumentForAnalysis}
    (h : document ∈ (d.analysisSnapshot M).openDocuments) :
    (d.analysisSnapshot M).get document.url = some document := by
  cases hget : (d.analysisSnapshot M).get document.url with
  | none => exact absurd (decide_eq_true rfl) (List.find?_eq_none.mp hget document h)
  | some other =>
    have hmem := List.mem_of_find?_eq_some hget
    have hurl : other.url = document.url := by simpa using List.find?_some hget
    obtain ⟨hbuffer, hpath⟩ := Documents.mem_openDocuments_iff.mp hmem
    obtain ⟨hbuffer', hpath'⟩ := Documents.mem_openDocuments_iff.mp h
    rw [hurl, hbuffer'] at hbuffer
    rw [hurl, hpath'] at hpath
    obtain ⟨url, path, text, version⟩ := document
    obtain ⟨url', path', text', version'⟩ := other
    cases hurl
    cases hbuffer
    cases hpath
    rfl

theorem mem_openAnalysisDocumentUrls {documents : DocumentAnalysisSnapshot} {url : Url} :
    url ∈ Server.openAnalysisDocumentUrls documents project ↔
      ∃ document ∈ documents.openDocuments,
        project.analyzesFile document.path = true ∧ document.url = url := by
  simp [Server.openAnalysisDocumentUrls, sortedUrls, and_assoc]

theorem mem_diagnosticsByUrl {documents : DocumentAnalysisSnapshot} {url : Url} :
    url ∈ Server.diagnosticsByUrl fs documents project a ↔
      IsReportedOrOpen documents project a url := by
  unfold Server.diagnosticsByUrl IsReportedOrOpen
  rw [mem_snapshotToDiagnostics, mem_openAnalysisDocumentUrls]

/-- The URLs of the published map: those with an entry of their own, and the cleared ones. -/
theorem mem_publishedMap {documents : DocumentAnalysisSnapshot} {url : Url} :
    url ∈ Server.publishedMap tracker root scope fs documents project a ↔
      (tracker.TracksUrl root url ∧ scope.covers url = true) ∨
        IsReportedOrOpen documents project a url := by
  unfold Server.publishedMap
  rw [DiagnosticsTracker.mem_withCleared, mem_diagnosticsByUrl]

/-- A URL's list, where reported files that are open are open under their own URL. -/
theorem diagnosticsAt_of_encoded (hurl : M.UrlNamesFile) {indexFor : Url → Option LineIndex}
    {diagnostics : List CheckDiagnostic} {url : Url} {file : Path}
    (hfile : M.toFilePath url = some file)
    (hencoded : ∀ diagnostic ∈ diagnostics, diagnostic.file = file →
      M.fromFilePath file = some url) :
    diagnosticsAt M fs indexFor diagnostics url =
      (diagnostics.filter fun diagnostic => diagnostic.file = file).map fun diagnostic =>
        checkDiagnosticToLsp diagnostic (indexOf fs indexFor url file) := by
  have hfilter : (diagnostics.filter fun diagnostic => M.fromFilePath diagnostic.file = some url) =
      diagnostics.filter fun diagnostic => diagnostic.file = file := by
    refine List.filter_congr fun diagnostic hmem => decide_eq_decide.mpr ⟨fun hnamed => ?_, ?_⟩
    · have hnames := hurl _ _ hnamed
      rw [hfile] at hnames
      exact (Option.some.inj hnames).symm
    · rintro rfl
      exact hencoded diagnostic hmem rfl
  unfold diagnosticsAt
  rw [hfilter]
  refine List.map_congr_left fun diagnostic hmem => ?_
  have hsame : diagnostic.file = file := by simpa using (List.mem_filter.mp hmem).2
  rw [hsame]

/-- No reported file has the URL of a cleared list. -/
theorem diagnosticsAt_eq_nil {documents : DocumentAnalysisSnapshot} {url : Url}
    {indexFor : Url → Option LineIndex} (h : ¬ IsReportedOrOpen documents project a url) :
    diagnosticsAt M fs indexFor a.snapshot.diagnostics url = [] := by
  unfold diagnosticsAt
  rw [List.map_eq_nil_iff, List.filter_eq_nil_iff]
  intro diagnostic hmem hnamed
  exact h (.inl ⟨diagnostic, hmem, by simpa using hnamed⟩)

/-- The list at a URL of the map, which for a cleared URL is that of no problem. -/
theorem lookup_publishedMap {documents : DocumentAnalysisSnapshot} {url : Url}
    (h : url ∈ Server.publishedMap tracker root scope fs documents project a) :
    (Server.publishedMap tracker root scope fs documents project a).lookup url =
      some (diagnosticsAt M fs (fun url => (documents.get url).map fun d => LineIndex.new d.text)
        a.snapshot.diagnostics url) := by
  unfold Server.publishedMap
  rw [DiagnosticsTracker.lookup_withCleared]
  by_cases hentry : IsReportedOrOpen documents project a url
  · have hmem : url ∈ Server.diagnosticsByUrl fs documents project a :=
      mem_diagnosticsByUrl.mpr hentry
    have hat := lookup_snapshotToDiagnostics hmem
    change (Server.diagnosticsByUrl fs documents project a).lookup url = _ at hat
    rw [hat, Option.some_or]
  · have hnot : url ∉ Server.diagnosticsByUrl fs documents project a :=
      fun hmem => hentry (mem_diagnosticsByUrl.mp hmem)
    rw [AList.lookup_eq_none.mpr hnot, Option.none_or,
      if_pos ((mem_publishedMap.mp h).resolve_right hentry), diagnosticsAt_eq_nil hentry]

/-- A key of the map names a file, and if that is reported it is the file's own URL. -/
theorem file_of_mem_publishedMap (hurl : M.UrlNamesFile)
    (hspelled : SpelledAsEncoded tracker root scope (d.analysisSnapshot M) project a) {url : Url}
    (h : url ∈ Server.publishedMap tracker root scope fs (d.analysisSnapshot M) project a) :
    ∃ file, M.toFilePath url = some file ∧ ∀ diagnostic ∈ a.snapshot.diagnostics,
      diagnostic.file = file → M.fromFilePath file = some url := by
  by_cases hentry : IsReportedOrOpen (d.analysisSnapshot M) project a url
  · rcases hentry with ⟨reported, -, hnamed⟩ | ⟨document, hmem, -, rfl⟩
    · exact ⟨reported.file, hurl _ _ hnamed, fun _ _ _ => hnamed⟩
    · refine ⟨document.path, (Documents.mem_openDocuments_iff.mp hmem).2, ?_⟩
      intro diagnostic hdiagnostic hfile
      exact hspelled.reported document hmem ⟨diagnostic, hdiagnostic, hfile⟩
  · obtain ⟨htracks, hcovers⟩ := (mem_publishedMap.mp h).resolve_right hentry
    obtain ⟨file, hfile, hquiet, -⟩ := hspelled.tracked url htracks hcovers hentry
    exact ⟨file, hfile, fun diagnostic hdiagnostic hof => (hquiet diagnostic hdiagnostic hof).elim⟩

/-! ### Landing needs one spelling of each file -/

section Landed

variable (h : Lands fs (d.analysisSnapshot M) project a
  (Server.publishedMap tracker root scope fs (d.analysisSnapshot M) project a))

include h

theorem fromFilePath_of_lands (hurl : M.UrlNamesFile) {document : OpenDocumentForAnalysis}
    (hmem : document ∈ (d.analysisSnapshot M).openDocuments) {diagnostic : CheckDiagnostic}
    (hdiagnostic : diagnostic ∈ a.snapshot.diagnostics) (hfile : diagnostic.file = document.path) :
    M.fromFilePath document.path = some document.url := by
  obtain ⟨list, hlist, hin⟩ := h.onBuffer diagnostic hdiagnostic document hmem hfile
  have hkey := AList.lookup_isSome.mp (by rw [hlist]; rfl)
  obtain rfl := Option.some.inj (hlist.symm.trans (lookup_publishedMap hkey))
  -- Something was put under this URL, so some reported file has it.
  obtain ⟨named, hnamed, -⟩ := List.mem_map.mp hin
  obtain ⟨-, hnamed⟩ := List.mem_filter.mp hnamed
  have hnamed : M.fromFilePath named.file = some document.url := by simpa using hnamed
  have hpath := hurl _ _ hnamed
  rw [(Documents.mem_openDocuments_iff.mp hmem).2] at hpath
  rw [Option.some.inj hpath]
  exact hnamed

theorem namesQuietFile_of_lands {url : Url} (htracks : tracker.TracksUrl root url)
    (hcovers : scope.covers url = true)
    (hentry : ¬ IsReportedOrOpen (d.analysisSnapshot M) project a url) :
    NamesQuietFile tracker root scope (d.analysisSnapshot M) project a url := by
  have hkey : url ∈ Server.publishedMap tracker root scope fs (d.analysisSnapshot M) project a :=
    mem_publishedMap.mpr (.inl ⟨htracks, hcovers⟩)
  obtain ⟨file, hfile, hlist⟩ := h.ofFile url _ (lookup_publishedMap hkey)
  -- The list of a cleared URL is empty, so its file has no problem.
  rw [diagnosticsAt_eq_nil hentry, eq_comm, List.map_eq_nil_iff, List.filter_eq_nil_iff] at hlist
  refine ⟨file, hfile, ?_, ?_, ?_⟩
  · intro diagnostic hdiagnostic hof
    exact hlist diagnostic hdiagnostic (by simpa using hof)
  · rintro document hdocument hanalyzes rfl
    have hopen : IsReportedOrOpen (d.analysisSnapshot M) project a document.url :=
      .inr ⟨document, hdocument, hanalyzes, rfl⟩
    have hsame := h.distinct document.url (mem_publishedMap.mpr (.inr hopen)) url hkey ?_
    · exact hentry (hsame ▸ hopen)
    · rw [hfile, (Documents.mem_openDocuments_iff.mp hdocument).2]
  · intro other htracks' hcovers' hother
    refine h.distinct other (mem_publishedMap.mpr (.inl ⟨htracks', hcovers'⟩)) url hkey ?_
    rw [hfile, hother]

theorem spelledAsEncoded_of_lands (hurl : M.UrlNamesFile) :
    SpelledAsEncoded tracker root scope (d.analysisSnapshot M) project a where
  reported := by
    rintro document hmem ⟨diagnostic, hdiagnostic, hfile⟩
    exact fromFilePath_of_lands h hurl hmem hdiagnostic hfile
  openOnce := by
    intro document hmem other hother hanalyzes hpath
    refine h.distinct document.url ?_ other.url ?_ ?_
    · exact mem_publishedMap.mpr (.inr (.inr ⟨document, hmem, hanalyzes, rfl⟩))
    · exact mem_publishedMap.mpr (.inr (.inr ⟨other, hother, hpath ▸ hanalyzes, rfl⟩))
    · rw [(Documents.mem_openDocuments_iff.mp hmem).2,
        (Documents.mem_openDocuments_iff.mp hother).2, hpath]
  tracked := fun _ htracks hcovers hentry => namesQuietFile_of_lands h htracks hcovers hentry

end Landed

/-! ### One spelling of each file is enough -/

theorem NamesQuietFile.of_file {documents : DocumentAnalysisSnapshot} {url : Url} {file : Path}
    (h : NamesQuietFile tracker root scope documents project a url)
    (hfile : M.toFilePath url = some file) :
    (∀ document ∈ documents.openDocuments, project.analyzesFile document.path = true →
      document.path ≠ file) ∧
      ∀ other, tracker.TracksUrl root other → scope.covers other = true →
        M.toFilePath other = some file → other = url := by
  obtain ⟨named, hnamed, -, hopen, honly⟩ := h
  obtain rfl := Option.some.inj (hfile.symm.trans hnamed)
  exact ⟨hopen, honly⟩

/-- A URL of the map whose file has no problem is an analyzed buffer's or only cleared. -/
theorem open_or_cleared_of_unreported (hurl : M.UrlNamesFile) {url : Url} {file : Path}
    (hreported : ¬ ∃ diagnostic ∈ a.snapshot.diagnostics, diagnostic.file = file)
    (hfile : M.toFilePath url = some file)
    (h : url ∈ Server.publishedMap tracker root scope fs (d.analysisSnapshot M) project a) :
    (∃ document ∈ (d.analysisSnapshot M).openDocuments,
      project.analyzesFile document.path = true ∧ document.path = file ∧ document.url = url) ∨
      (tracker.TracksUrl root url ∧ scope.covers url = true) ∧
        ¬ IsReportedOrOpen (d.analysisSnapshot M) project a url := by
  by_cases hentry : IsReportedOrOpen (d.analysisSnapshot M) project a url
  · rcases hentry with ⟨diagnostic, hdiagnostic, hnamed⟩ | ⟨document, hdocument, hanalyzes, rfl⟩
    · refine (hreported ⟨diagnostic, hdiagnostic, ?_⟩).elim
      have hpath := hurl _ _ hnamed
      rw [hfile] at hpath
      exact (Option.some.inj hpath).symm
    · have hpath := (Documents.mem_openDocuments_iff.mp hdocument).2
      rw [hfile] at hpath
      exact .inl ⟨document, hdocument, hanalyzes, (Option.some.inj hpath).symm, rfl⟩
  · exact .inr ⟨(mem_publishedMap.mp h).resolve_right hentry, hentry⟩

theorem distinct_of_spelledAsEncoded (hurl : M.UrlNamesFile)
    (hspelled : SpelledAsEncoded tracker root scope (d.analysisSnapshot M) project a)
    {url url' : Url}
    (hkey : url ∈ Server.publishedMap tracker root scope fs (d.analysisSnapshot M) project a)
    (hkey' : url' ∈ Server.publishedMap tracker root scope fs (d.analysisSnapshot M) project a)
    (hsame : M.toFilePath url = M.toFilePath url') : url = url' := by
  obtain ⟨file, hfile, hencoded⟩ := file_of_mem_publishedMap hurl hspelled hkey
  obtain ⟨file', hfile', hencoded'⟩ := file_of_mem_publishedMap hurl hspelled hkey'
  obtain rfl : file = file' := by
    rw [hfile, hfile'] at hsame
    exact Option.some.inj hsame
  by_cases hreported : ∃ diagnostic ∈ a.snapshot.diagnostics, diagnostic.file = file
  · obtain ⟨diagnostic, hdiagnostic, hof⟩ := hreported
    have hnamed := hencoded diagnostic hdiagnostic hof
    rw [hencoded' diagnostic hdiagnostic hof] at hnamed
    exact (Option.some.inj hnamed).symm
  · rcases open_or_cleared_of_unreported hurl hreported hfile hkey with
      ⟨document, hmem, hanalyzes, rfl, rfl⟩ | ⟨⟨htracks, hcovers⟩, hentry⟩
    · rcases open_or_cleared_of_unreported hurl hreported hfile' hkey' with
        ⟨other, hother, -, hpath, rfl⟩ | ⟨⟨htracks', hcovers'⟩, hentry'⟩
      · exact hspelled.openOnce document hmem other hother hanalyzes hpath.symm
      · have hquiet := (hspelled.tracked url' htracks' hcovers' hentry').of_file hfile'
        exact (hquiet.1 document hmem hanalyzes rfl).elim
    · have hquiet := (hspelled.tracked url htracks hcovers hentry).of_file hfile
      rcases open_or_cleared_of_unreported hurl hreported hfile' hkey' with
        ⟨other, hother, hanalyzes', hpath, -⟩ | ⟨⟨htracks', hcovers'⟩, -⟩
      · exact (hquiet.1 other hother hanalyzes' hpath).elim
      · exact (hquiet.2 url' htracks' hcovers' hfile').symm

theorem lands_of_spelledAsEncoded (hurl : M.UrlNamesFile)
    (hspelled : SpelledAsEncoded tracker root scope (d.analysisSnapshot M) project a) :
    Lands fs (d.analysisSnapshot M) project a
      (Server.publishedMap tracker root scope fs (d.analysisSnapshot M) project a) where
  onBuffer := by
    intro diagnostic hdiagnostic document hmem hfile
    have hnamed := hspelled.reported document hmem ⟨diagnostic, hdiagnostic, hfile⟩
    have hentry : IsReportedOrOpen (d.analysisSnapshot M) project a document.url :=
      .inl ⟨diagnostic, hdiagnostic, hfile ▸ hnamed⟩
    refine ⟨_, lookup_publishedMap (mem_publishedMap.mpr (.inr hentry)),
      List.mem_map.mpr ⟨diagnostic, ?_, ?_⟩⟩
    · exact List.mem_filter.mpr ⟨hdiagnostic, by simp [hfile, hnamed]⟩
    · simp only [indexOf, get_of_mem_openDocuments hmem, Option.map_some, Option.getD_some]
  ofFile := by
    intro url list hlist
    have hkey := AList.lookup_isSome.mp (by rw [hlist]; rfl)
    obtain ⟨file, hfile, hencoded⟩ := file_of_mem_publishedMap hurl hspelled hkey
    refine ⟨file, hfile, ?_⟩
    obtain rfl := Option.some.inj (hlist.symm.trans (lookup_publishedMap hkey))
    exact diagnosticsAt_of_encoded hurl hfile hencoded
  cleared := by
    intro document hmem hanalyzes hnone
    have hfile := (Documents.mem_openDocuments_iff.mp hmem).2
    have hentry : IsReportedOrOpen (d.analysisSnapshot M) project a document.url :=
      .inr ⟨document, hmem, hanalyzes, rfl⟩
    rw [lookup_publishedMap (mem_publishedMap.mpr (.inr hentry)),
      diagnosticsAt_of_encoded hurl hfile fun diagnostic hdiagnostic hsame =>
        (hnone diagnostic hdiagnostic hsame).elim,
      List.filter_eq_nil_iff.mpr fun diagnostic hdiagnostic => by
        simpa using hnone diagnostic hdiagnostic]
    rfl
  distinct := by
    intro url hkey url' hkey' hsame
    exact distinct_of_spelledAsEncoded hurl hspelled hkey hkey' hsame

/-- Whatever was tracked before, a publish lands on the open buffers exactly when reported
buffers carry the URL made from their path, no analyzed file is open under two, and a
tracked URL that is only cleared names a file that no other URL of the publish names. -/
theorem lands_iff (hurl : M.UrlNamesFile) (fs : Fs) (d : Documents) (project : Project M)
    (a : Analysis M) (tracker : DiagnosticsTracker) (root : Path) (scope : ReconcileScope) :
    Lands fs (d.analysisSnapshot M) project a
        (Server.publishedMap tracker root scope fs (d.analysisSnapshot M) project a) ↔
      SpelledAsEncoded tracker root scope (d.analysisSnapshot M) project a :=
  ⟨fun h => spelledAsEncoded_of_lands h hurl, lands_of_spelledAsEncoded hurl⟩

end Captured

/-! ## What a server sends -/

namespace Server

open Transition

/-- The buffers of a run were those of the server when it captured them. -/
theorem exists_documents_of_running {s : Server M} (h : Reachable step new s) {r : Running M}
    (hr : s.running = some r) : ∃ d : Documents, r.documents = d.analysisSnapshot M := by
  have hcaptured : s.AllCaptured fun documents => ∃ d : Documents, documents = d.analysisSnapshot M := by
    refine h.invariant_of coherent_new (fun _ _ _ hs _ hstep => coherent_step hs hstep)
      (I := AllCaptured fun documents => ∃ d : Documents, documents = d.analysisSnapshot M)
      (allCaptured_new _) ?_
    intro s action t hcoherent hs _ hstep
    exact allCaptured_step hcoherent hs ⟨_, rfl⟩ hstep
  exact hcaptured.running r hr

/-- What a reachable server sends for a run is the published map, and lands on the buffers the
run has captured exactly when each file has one spelling. -/
theorem sent_lands_iff (hurl : M.UrlNamesFile) {s t : Server M} {action : Action M}
    (hreach : Reachable step new s) (hstep : s.step action = some t) {root : Path} {a : Analysis M}
    {documents : DocumentAnalysisSnapshot} {sent : List PublishedDiagnostics}
    (hsent : t.published = .recompute root a documents sent :: s.published) :
    ∃ fs published, Carries documents published sent ∧
      (Lands fs documents a.prepared.project a published ↔
        SpelledAsEncoded s.tracker root (reconcileScope a.prepared a) documents
          a.prepared.project a) := by
  obtain ⟨-, rfl, -, fs, hcarries⟩ := preparedSince_of_published hreach hstep hsent
  obtain ⟨d, rfl⟩ : ∃ d : Documents, documents = d.analysisSnapshot M := by
    cases publishStep_of_step hstep with
    | clears h =>
      rcases h with heq | ⟨messages, heq⟩ <;> rw [heq] at hsent
      · exact absurd hsent.symm (List.cons_ne_self _ _)
      · cases hsent
    | recompute hr _ _ _ ht =>
      rw [ht] at hsent
      cases hsent
      exact exists_documents_of_running hreach hr
  refine ⟨fs, _, hcarries, ?_⟩
  exact ⟨fun h => spelledAsEncoded_of_lands h hurl, lands_of_spelledAsEncoded hurl⟩

end Server

/-! ## An escaped letter -/

namespace Sample

def hexDigit (c : Char) : Option Nat :=
  if '0' ≤ c ∧ c ≤ '9' then some (c.toNat - '0'.toNat)
  else if 'a' ≤ c ∧ c ≤ 'f' then some (c.toNat - 'a'.toNat + 10)
  else if 'A' ≤ c ∧ c ≤ 'F' then some (c.toNat - 'A'.toNat + 10)
  else none

/-- Undo the percent-encoding of single-byte characters. -/
def percentDecode : List Char → List Char
  | c :: high :: low :: rest =>
    match if c = '%' then hexDigit high else none, hexDigit low with
    | some h, some l => Char.ofNat (16 * h + l) :: percentDecode rest
    | _, _ => c :: percentDecode (high :: low :: rest)
  | short => short

def decodedFilePath (url : Url) : Option Path :=
  toFilePath ⟨String.ofList (percentDecode url.asStr.toList)⟩

def encodedUrl (path : Path) : Option Url :=
  if decodedFilePath (urlOf path) = some path then some (urlOf path) else none

end Sample

/-- The sample with URLs that are percent-decoded. -/
def Marrow.escaped : Marrow :=
  { Marrow.sample with
    toFilePath := Sample.decodedFilePath
    fromFilePath := Sample.encodedUrl }

theorem Sample.decodedFilePath_of_encodedUrl {path : Path} {url : Url}
    (h : encodedUrl path = some url) : decodedFilePath url = some path := by
  unfold encodedUrl at h
  obtain ⟨hto, heq⟩ := Option.ite_none_right_eq_some.mp h
  rw [← Option.some.inj heq]
  exact hto

theorem Marrow.escaped_toFilePath : Marrow.escaped.toFilePath = Sample.decodedFilePath := by
  rw [Marrow.escaped]

theorem Marrow.escaped_fromFilePath : Marrow.escaped.fromFilePath = Sample.encodedUrl := by
  rw [Marrow.escaped]

theorem Sample.escaped_urlNamesFile : Marrow.escaped.UrlNamesFile := by
  unfold Marrow.UrlNamesFile
  rw [Marrow.escaped_toFilePath, Marrow.escaped_fromFilePath]
  intro path url h
  exact decodedFilePath_of_encodedUrl h

namespace Sample

def escapedWorld : World Marrow.escaped where
  fs := fsOf (projectFiles [("A", ['x'])])
  openStore _ := none
  openSurface _ := none
  openReadOnly _ := none

def canonicalBuffer (text : Text) : Documents :=
  Documents.new.openWithVersion (urlOf (app "A")) text (some 1)

/-- The main file of a project, opened under a URL that escapes its first letter. -/
def escapedBuffer (text : Text) : Documents :=
  Documents.new.openWithVersion ⟨"file:///A/src/%61pp.mw"⟩ text (some 1)

def prepared (d : Documents) : Workspace.Prepare Marrow.escaped :=
  Workspace.new.prepareRecompute escapedWorld (app "A") (d.analysisSnapshot Marrow.escaped) .full

/-- The file beside the main one, which does not exist any more. -/
def deletedFile : Path := ((projectDir "A").child "src").child "lib.mw"

/-- After a publish with a problem in one file of the project. -/
def trackedProblem (file : Path) : DiagnosticsTracker :=
  ⟨AList.singleton (projectDir "A") ⟨1, [urlOf file]⟩⟩

/-- What a full recompute of the sample project publishes after a problem in `file` is `P`. -/
def Publishes (d : Documents) (file : Path)
    (P : Project Marrow.escaped → Analysis Marrow.escaped → DiagnosticsByUrl → Prop) : Prop :=
  ∃ run a project,
    (prepared d).result = .ok run ∧ run.analyze escapedWorld.fs = .ok a ∧
      (prepared d).workspace.project = some project ∧
        P project a (Server.publishedMap (trackedProblem file) project.root .whole escapedWorld.fs
          (d.analysisSnapshot Marrow.escaped) project a)

end Sample

open Sample

/-- Under its own URL the buffer gets its problem, and the deleted file's list is cleared. -/
theorem lands_canonicalBuffer : Publishes (canonicalBuffer ['!']) deletedFile
    (Lands escapedWorld.fs ((canonicalBuffer ['!']).analysisSnapshot Marrow.escaped)) := by
  refine ⟨_, _, _, rfl, rfl, rfl, ?_⟩
  refine (lands_iff escaped_urlNamesFile _ (canonicalBuffer ['!']) _ _ _ _ _).mpr ⟨?_, ?_, ?_⟩
  · intro document hdocument _
    have hsingle : ((canonicalBuffer ['!']).analysisSnapshot Marrow.escaped).openDocuments =
        [⟨urlOf (app "A"), app "A", ['!'], some 1⟩] := by decide
    rw [hsingle, List.mem_singleton] at hdocument
    subst hdocument
    decide
  · decide
  · intro url htracks _ _
    have hurl : url = urlOf deletedFile := List.mem_singleton.mp htracks
    subst hurl
    refine ⟨deletedFile, by decide, by decide, by decide, ?_⟩
    intro other htracks' _ _
    exact List.mem_singleton.mp htracks'

/-- A problem in the escaped buffer is published under the other spelling, and while that
is tracked the file has two lists. -/
theorem not_lands_escapedBuffer :
    Publishes (escapedBuffer ['!']) deletedFile (fun project a published =>
      ¬ Lands escapedWorld.fs ((escapedBuffer ['!']).analysisSnapshot Marrow.escaped) project a
        published) ∧
      Publishes (escapedBuffer ['x']) (app "A") (fun project a published =>
        ¬ Lands escapedWorld.fs ((escapedBuffer ['x']).analysisSnapshot Marrow.escaped) project a
          published) := by
  refine ⟨⟨_, _, _, rfl, rfl, rfl, fun h => ?_⟩, ⟨_, _, _, rfl, rfl, rfl, fun h => ?_⟩⟩
  · obtain ⟨list, hlist, hmem⟩ := h.onBuffer
      ⟨app "A", "parse.error", .error, 0, 1, "unexpected character"⟩ (by decide)
      ⟨⟨"file:///A/src/%61pp.mw"⟩, app "A", ['!'], some 1⟩ (by decide) rfl
    have hempty : list = [] := by
      refine Option.some.inj (hlist.symm.trans ?_)
      decide
    rw [hempty] at hmem
    cases hmem
  · have hsame := h.distinct ⟨"file:///A/src/%61pp.mw"⟩ (by decide +kernel) (urlOf (app "A"))
      (by decide +kernel) (by decide +kernel)
    exact absurd hsame (by decide)

end MarrowLsp
