-- SUMMARY: The open buffers of an editor and their generation counter (documents.rs).
import Mathlib.Data.List.AList
import Mathlib.Data.List.Sort
import Mathlib.Data.String.Basic
import MarrowLsp.Lib.Transition
import MarrowLsp.Core.Marrow

/-!
# Documents

`Documents` keeps the open buffers by URL and counts their changes. The
position index, lex and parse of a buffer are functions of its text and are
recomputed where they are used.
-/
namespace MarrowLsp

variable {M : Marrow}

/-- One open buffer. -/
structure Document where
  text : Text
  version : Option Int
  deriving DecidableEq, Repr

/-- The open buffers, keyed by URL. -/
structure Documents where
  documents : AList fun _ : Url => Document
  generation : Nat

/-- One open file buffer, as an analysis sees it. -/
structure OpenDocumentForAnalysis where
  url : Url
  path : Path
  text : Text
  version : Option Int
  deriving DecidableEq, Repr

structure DocumentAnalysisSnapshot where
  generation : Nat
  openDocuments : List OpenDocumentForAnalysis
  deriving DecidableEq, Repr

namespace Documents

def new : Documents := ⟨∅, 0⟩

/-- Record an opened buffer, replacing any buffer already at `url`. -/
def openWithVersion (d : Documents) (url : Url) (text : Text) (version : Option Int) : Documents :=
  ⟨d.documents.insert url ⟨text, version⟩, d.generation + 1⟩

/-- Replace an open buffer's whole text; a change for a URL that is not open is ignored. -/
def changeWithVersion (d : Documents) (url : Url) (text : Text) (version : Option Int) :
    Documents :=
  if url ∈ d.documents then ⟨d.documents.insert url ⟨text, version⟩, d.generation + 1⟩ else d

/-- Drop a closed buffer. -/
def close (d : Documents) (url : Url) : Documents :=
  if url ∈ d.documents then ⟨d.documents.erase url, d.generation + 1⟩ else d

def get (d : Documents) (url : Url) : Option Document := d.documents.lookup url

variable (M) in
/-- The open buffers whose URL names a file, in URL order. -/
def analysisSnapshot (d : Documents) : DocumentAnalysisSnapshot where
  generation := d.generation
  openDocuments :=
    (d.documents.entries.filterMap fun e =>
      (M.toFilePath e.1).map fun path =>
        ({ url := e.1, path, text := e.2.text, version := e.2.version } :
          OpenDocumentForAnalysis)).insertionSort fun left right => left.url.asStr ≤ right.url.asStr

def matchesGeneration (d : Documents) (snapshot : DocumentAnalysisSnapshot) : Bool :=
  d.generation = snapshot.generation

@[simp] theorem new_generation : new.generation = 0 := rfl

@[simp] theorem openWithVersion_generation (d : Documents) (url : Url) (text : Text)
    (version : Option Int) : (d.openWithVersion url text version).generation = d.generation + 1 :=
  rfl

variable (M) in
@[simp] theorem analysisSnapshot_generation (d : Documents) :
    (d.analysisSnapshot M).generation = d.generation := rfl

theorem matchesGeneration_iff {d : Documents} {snapshot : DocumentAnalysisSnapshot} :
    d.matchesGeneration snapshot = true ↔ d.generation = snapshot.generation :=
  decide_eq_true_iff

theorem matchesGeneration_eq_false_iff {d : Documents} {snapshot : DocumentAnalysisSnapshot} :
    d.matchesGeneration snapshot = false ↔ d.generation ≠ snapshot.generation :=
  decide_eq_false_iff_not

/-- The captured documents are the open buffers whose URL names a file. -/
theorem mem_openDocuments_iff {d : Documents} {document : OpenDocumentForAnalysis} :
    document ∈ (d.analysisSnapshot M).openDocuments ↔
      d.get document.url = some ⟨document.text, document.version⟩ ∧
        M.toFilePath document.url = some document.path := by
  unfold analysisSnapshot get
  rw [List.mem_insertionSort, List.mem_filterMap]
  constructor
  · rintro ⟨⟨url, buffer⟩, hmem, hdocument⟩
    obtain ⟨path, hpath, rfl⟩ := Option.map_eq_some_iff.mp hdocument
    exact ⟨AList.mem_lookup_iff.mpr hmem, hpath⟩
  · rintro ⟨hget, hpath⟩
    exact ⟨⟨document.url, ⟨document.text, document.version⟩⟩, AList.mem_lookup_iff.mp hget,
      by simp [hpath]⟩

/-! ## The order of the captured documents -/

theorem nodup_openDocuments (d : Documents) : (d.analysisSnapshot M).openDocuments.Nodup := by
  unfold analysisSnapshot
  refine (List.perm_insertionSort _ _).nodup_iff.mpr ?_
  refine (AList.nodupKeys d.documents).nodup.filterMap ?_
  rintro ⟨url, buffer⟩ ⟨url', buffer'⟩ document hdocument hdocument'
  obtain ⟨path, -, rfl⟩ := Option.map_eq_some_iff.mp hdocument
  obtain ⟨path', -, heq⟩ := Option.map_eq_some_iff.mp hdocument'
  simp only [OpenDocumentForAnalysis.mk.injEq] at heq
  obtain ⟨rfl, -, htext, hversion⟩ := heq
  obtain ⟨text, version⟩ := buffer
  obtain ⟨text', version'⟩ := buffer'
  subst htext hversion
  rfl

theorem sorted_openDocuments (d : Documents) :
    (d.analysisSnapshot M).openDocuments.Pairwise fun left right =>
      left.url.asStr ≤ right.url.asStr :=
  List.pairwise_insertionSort _ _

/-- Two sets of buffers with the same documents of one kind have them in one order. -/
theorem filter_openDocuments_congr {d d' : Documents} (kind : OpenDocumentForAnalysis → Bool)
    (h : ∀ document, kind document = true → (document ∈ (d.analysisSnapshot M).openDocuments ↔
      document ∈ (d'.analysisSnapshot M).openDocuments)) :
    (d.analysisSnapshot M).openDocuments.filter kind =
      (d'.analysisSnapshot M).openDocuments.filter kind := by
  refine List.Perm.eq_of_pairwise ?_ ((sorted_openDocuments d).filter kind)
    ((sorted_openDocuments d').filter kind) ?_
  · -- One URL has one document, so the order of the URLs is antisymmetric on them.
    intro left right hleft hright hle hge
    obtain ⟨hleft, hkind⟩ := List.mem_filter.mp hleft
    obtain ⟨hright, -⟩ := List.mem_filter.mp hright
    have hurl : left.url = right.url := by
      have hstr := le_antisymm hle hge
      cases hl : left.url
      cases hr : right.url
      rw [hl, hr] at hstr
      exact congrArg Url.mk hstr
    have hleft' := mem_openDocuments_iff.mp ((h left hkind).mp hleft)
    have hright' := mem_openDocuments_iff.mp hright
    obtain ⟨url, path, text, version⟩ := left
    obtain ⟨url', path', text', version'⟩ := right
    subst hurl
    obtain ⟨hget, hpath⟩ := hleft'
    obtain ⟨hget', hpath'⟩ := hright'
    rw [hget] at hget'
    rw [hpath] at hpath'
    cases hget'
    cases hpath'
    rfl
  · refine (List.perm_ext_iff_of_nodup ((nodup_openDocuments d).filter _)
      ((nodup_openDocuments d').filter _)).mpr fun document => ?_
    rw [List.mem_filter, List.mem_filter]
    constructor
    · rintro ⟨hmem, hkind⟩
      exact ⟨(h document hkind).mp hmem, hkind⟩
    · rintro ⟨hmem, hkind⟩
      exact ⟨(h document hkind).mpr hmem, hkind⟩

/-! ## Equal generations, equal buffers -/

/-- The mutations of the open buffers. -/
inductive Op where
  | openWithVersion (url : Url) (text : Text) (version : Option Int)
  | changeWithVersion (url : Url) (text : Text) (version : Option Int)
  | close (url : Url)

def apply (d : Documents) : Op → Documents
  | .openWithVersion url text version => d.openWithVersion url text version
  | .changeWithVersion url text version => d.changeWithVersion url text version
  | .close url => d.close url

/-- The URL a mutation is about. -/
def Op.url : Op → Url
  | .openWithVersion url .. | .changeWithVersion url .. | .close url => url

/-- Whether a mutation has an effect. -/
def moves (d : Documents) : Op → Bool
  | .openWithVersion .. => true
  | .changeWithVersion url .. | .close url => decide (url ∈ d.documents)

theorem get_apply_of_ne (d : Documents) (op : Op) {url : Url} (h : url ≠ op.url) :
    (d.apply op).get url = d.get url := by
  cases op with
  | openWithVersion opened text version => exact AList.lookup_insert_ne h
  | changeWithVersion changed text version =>
    simp only [apply, changeWithVersion]
    split
    · exact AList.lookup_insert_ne h
    · rfl
  | close closed =>
    simp only [apply, close]
    split
    · exact AList.lookup_erase_ne h
    · rfl

theorem apply_of_not_moves {d : Documents} {op : Op} (h : d.moves op = false) :
    d.apply op = d := by
  cases op with
  | openWithVersion => cases h
  | changeWithVersion url text version => exact if_neg (of_decide_eq_false h)
  | close url => exact if_neg (of_decide_eq_false h)

/-- `d'` continues `d`: the generation never falls, and while it stands still
the buffers are the same. -/
def Continues (d d' : Documents) : Prop :=
  d.generation ≤ d'.generation ∧ (d.generation = d'.generation → d = d')

theorem Continues.refl (d : Documents) : Continues d d := ⟨le_rfl, fun _ => rfl⟩

theorem Continues.trans {d₁ d₂ d₃ : Documents} (h : Continues d₁ d₂) (h' : Continues d₂ d₃) :
    Continues d₁ d₃ := by
  refine ⟨h.1.trans h'.1, fun heq => ?_⟩
  have h₁₂ : d₁.generation = d₂.generation := le_antisymm h.1 (heq ▸ h'.1)
  exact (h.2 h₁₂).trans (h'.2 (h₁₂ ▸ heq))

/-- A mutation that has an effect moves the generation. -/
theorem continues_apply (d : Documents) (op : Op) : Continues d (d.apply op) := by
  cases op with
  | openWithVersion url text version =>
    exact ⟨Nat.le_succ _, fun h => absurd h (Nat.succ_ne_self _).symm⟩
  | changeWithVersion url text version =>
    simp only [apply, changeWithVersion]
    split
    · exact ⟨Nat.le_succ _, fun h => absurd h (Nat.succ_ne_self _).symm⟩
    · exact Continues.refl d
  | close url =>
    simp only [apply, close]
    split
    · exact ⟨Nat.le_succ _, fun h => absurd h (Nat.succ_ne_self _).symm⟩
    · exact Continues.refl d

end Documents

namespace DocumentAnalysisSnapshot

def get (s : DocumentAnalysisSnapshot) (url : Url) : Option OpenDocumentForAnalysis :=
  s.openDocuments.find? fun document => document.url = url

/-- The text of the first open buffer at `path`; the line index of the source's
`line_index_for_path` is built from it. -/
def textForPath (s : DocumentAnalysisSnapshot) (path : Path) : Option Text :=
  (s.openDocuments.find? fun document => document.path = path).map (·.text)

end DocumentAnalysisSnapshot

end MarrowLsp
