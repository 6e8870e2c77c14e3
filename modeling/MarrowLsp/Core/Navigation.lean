-- SUMMARY: Renames: the line index of every analyzed file, Marrow's rename action as a workspace edit, and when the edit rewrites the renamed name (navigation/indices.rs, navigation/symbols.rs).
import Mathlib.Data.List.Induction
import MarrowLsp.Core.Documents
import MarrowLsp.Core.Positions

/-!
# Navigation

A span of an analysis is mapped to an editor range through the text of its file:
the open buffer's, or the analyzed source of a file no buffer holds. Applying
an edit maps the range back to bytes of the text it is applied to.
-/
namespace MarrowLsp

open Utf8

variable {M : Marrow}

/-! ## Line indexes -/

/-- A line index for each file an analysis touched. -/
structure SnapshotIndices where
  opened : AList fun _ : Path => LineIndex
  closed : AList fun _ : Path => LineIndex

namespace SnapshotIndices

/-- Index one file: through its open buffer, else through its analyzed source. -/
def add (isOpen : Path → Option LineIndex) (indices : SnapshotIndices) (file : AnalyzedFile) :
    SnapshotIndices :=
  match isOpen file.path with
  | some index => { indices with opened := indices.opened.insert file.path index }
  | none =>
    { indices with closed := indices.closed.insert file.path (LineIndex.new file.source) }

def new (files : List AnalyzedFile) (isOpen : Path → Option LineIndex) : SnapshotIndices :=
  files.foldl (add isOpen) ⟨∅, ∅⟩

def indexFor (indices : SnapshotIndices) (file : Path) : Option LineIndex :=
  (indices.opened.lookup file).or (indices.closed.lookup file)

end SnapshotIndices

/-- `line_index_for_path`. -/
def DocumentAnalysisSnapshot.lineIndexForPath (documents : DocumentAnalysisSnapshot)
    (path : Path) : Option LineIndex :=
  (documents.textForPath path).map LineIndex.new

/-- `snapshot_indices`. -/
def snapshotIndices (snapshot : M.Snapshot) (documents : DocumentAnalysisSnapshot) :
    SnapshotIndices :=
  SnapshotIndices.new snapshot.files documents.lineIndexForPath

/-! ## Rename -/

structure WorkspaceEdit where
  changes : AList fun _ : Url => List TextEdit

/-- The edits of one file. -/
def WorkspaceEdit.editsFor (edit : WorkspaceEdit) (url : Url) : List TextEdit :=
  (edit.changes.lookup url).getD []

/-- Why a rename could not be carried out. -/
inductive RenameError where
  | noSymbol
  | notRenameable
  | invalidName
  | savedDataBacked
  deriving DecidableEq, Repr

def RenameError.message : RenameError → String
  | .noSymbol => "no renameable symbol at this position"
  | .notRenameable => "this symbol cannot be renamed from the editor"
  | .invalidName => "new name must be a valid Marrow identifier"
  | .savedDataBacked => "cannot rename: this names saved data, so renaming it in " ++
      "source would orphan the stored records on disk"

def RenameError.ofSource : SourceRenameError → RenameError
  | .noSymbol => .noSymbol
  | .notRenameable => .notRenameable
  | .invalidName => .invalidName
  | .savedDataBacked => .savedDataBacked

/-- One edit of the action as a text edit of its URL; an edit of a file without an
index or a URL is skipped. -/
def textEditOf (M : Marrow) (indices : SnapshotIndices) (edit : SourceEdit) :
    Option (Url × TextEdit) :=
  match indices.indexFor edit.file, M.fromFilePath edit.file with
  | some index, some url => some (url, ⟨index.range edit.startByte edit.endByte, edit.replacement⟩)
  | _, _ => none

/-- Append one text edit to those of its URL. -/
def WorkspaceEdit.push (edit : WorkspaceEdit) (url : Url) (textEdit : TextEdit) : WorkspaceEdit :=
  ⟨edit.changes.insert url (edit.editsFor url ++ [textEdit])⟩

def workspaceEditOf (M : Marrow) (indices : SnapshotIndices) (edits : List SourceEdit) :
    WorkspaceEdit :=
  edits.foldl (fun edit sourceEdit =>
    match textEditOf M indices sourceEdit with
    | some (url, textEdit) => edit.push url textEdit
    | none => edit) ⟨∅⟩

/-- `navigation::rename`: a workspace edit renaming the symbol at a byte offset. -/
def rename (M : Marrow) (index : M.Index) (indices : SnapshotIndices) (file : Path) (offset : Nat)
    (newName : Text) : Except RenameError WorkspaceEdit :=
  match M.sourceOnlyRenameActionAt index file offset newName with
  | .error e => .error (.ofSource e)
  | .ok edits => .ok (workspaceEditOf M indices edits)

/-! ## What an edit rewrites -/

/-- The text of a file an edit is applied to: its open buffer, else its analyzed
source. -/
def currentText (snapshot : M.Snapshot) (documents : DocumentAnalysisSnapshot) (file : Path) :
    Option Text :=
  (documents.textForPath file).or (snapshot.textOf file)

/-- The text between the bytes a range of positions maps back to. -/
def replaced (text : Text) (range : Range) : Option Text :=
  slice text ((LineIndex.new text).offset range.start) ((LineIndex.new text).offset range.stop)

/-- What a byte span holds once it is mapped to positions of `text` and back. -/
def spanText (text : Text) (startByte endByte : Nat) : Option Text :=
  replaced text ((LineIndex.new text).range startByte endByte)

/-- A span is floored to character boundaries on the way. -/
theorem spanText_eq_slice {text : Text} (hsmall : utf16Len text < 2 ^ 32) (startByte endByte : Nat) :
    spanText text startByte endByte =
      slice text (floorCharBoundary text (min startByte (byteLen text)))
        (floorCharBoundary text (min endByte (byteLen text))) := by
  unfold spanText replaced LineIndex.range
  rw [LineIndex.offset_position hsmall, LineIndex.offset_position hsmall]

/-- A span between character boundaries comes back as it is. -/
theorem spanText_of_slice {text name : Text} (hsmall : utf16Len text < 2 ^ 32)
    {startByte endByte : Nat} (h : slice text startByte endByte = some name) :
    spanText text startByte endByte = some name := by
  obtain ⟨before, after, rfl, rfl, rfl⟩ := slice_eq_some_iff.mp h
  have hstart := LineIndex.floorCharBoundary_cut before [] (name ++ after)
  have hend := LineIndex.floorCharBoundary_cut before name after
  simp only [List.nil_append, byteLen_nil, Nat.add_zero] at hstart
  rw [spanText_eq_slice hsmall, hstart, hend]
  exact slice_append before name after

/-- Applied to the current texts, the edit replaces occurrences of `name` only,
with one text edit for each edit of the action. -/
structure WorkspaceEdit.Renames (edit : WorkspaceEdit) (M : Marrow) (edits : List SourceEdit)
    (current : Path → Option Text) (name : Text) : Prop where
  named : ∀ sourceEdit ∈ edits, ∃ url, M.fromFilePath sourceEdit.file = some url
  complete : ∀ file url, M.fromFilePath file = some url →
    (edit.editsFor url).length = (edits.filter fun sourceEdit => sourceEdit.file == file).length
  exact : ∀ file url text, M.fromFilePath file = some url → current file = some text →
    ∀ textEdit ∈ edit.editsFor url, replaced text textEdit.range = some name

@[simp] theorem WorkspaceEdit.editsFor_push (edit : WorkspaceEdit) (url url' : Url)
    (textEdit : TextEdit) :
    (edit.push url textEdit).editsFor url' =
      edit.editsFor url' ++ if url' = url then [textEdit] else [] := by
  unfold push editsFor
  by_cases h : url' = url
  · subst h
    simp [AList.lookup_insert]
  · simp [AList.lookup_insert_ne h, h]

/-- The text edits of a URL are those of the action's edits that map to it. -/
theorem editsFor_workspaceEditOf (indices : SnapshotIndices) (edits : List SourceEdit) (url : Url) :
    (workspaceEditOf M indices edits).editsFor url =
      edits.filterMap fun sourceEdit =>
        (textEditOf M indices sourceEdit).bind fun (u, textEdit) =>
          if url = u then some textEdit else none := by
  suffices h : ∀ edit : WorkspaceEdit,
      (edits.foldl (fun edit sourceEdit =>
        match textEditOf M indices sourceEdit with
        | some (url, textEdit) => edit.push url textEdit
        | none => edit) edit).editsFor url =
      edit.editsFor url ++ edits.filterMap fun sourceEdit =>
        (textEditOf M indices sourceEdit).bind fun (u, textEdit) =>
          if url = u then some textEdit else none by
    have := h ⟨∅⟩
    simpa [workspaceEditOf, WorkspaceEdit.editsFor] using this
  induction edits with
  | nil => simp
  | cons sourceEdit edits ih =>
    intro edit
    rw [List.foldl_cons, List.filterMap_cons]
    cases hedit : textEditOf M indices sourceEdit with
    | none => simpa [hedit] using ih edit
    | some found =>
      obtain ⟨u, textEdit⟩ := found
      have hrest := ih (edit.push u textEdit)
      by_cases hu : url = u
      · simpa [hedit, hu] using hrest
      · simpa [hedit, hu] using hrest

/-! ## Which renames rewrite the name -/

theorem lookup_snapshotIndices (isOpen : Path → Option LineIndex) (files : List AnalyzedFile)
    (file : Path) :
    (SnapshotIndices.new files isOpen).opened.lookup file =
        ((files.reverse.find? fun analyzed => analyzed.path == file).bind fun _ => isOpen file) ∧
      (SnapshotIndices.new files isOpen).closed.lookup file =
        (files.reverse.find? fun analyzed => analyzed.path == file).bind fun analyzed =>
          if (isOpen file).isSome then none else some (LineIndex.new analyzed.source) := by
  induction files using List.reverseRecOn with
  | nil => exact ⟨rfl, rfl⟩
  | append_singleton files added ih =>
    obtain ⟨hopened, hclosed⟩ := ih
    have hnew : SnapshotIndices.new (files ++ [added]) isOpen =
        (SnapshotIndices.new files isOpen).add isOpen added := by
      simp [SnapshotIndices.new]
    rw [hnew, List.reverse_append, List.reverse_singleton, List.singleton_append,
      List.find?_cons]
    -- The last file with a path decides, and goes on the side its buffer is on.
    by_cases hfile : added.path = file
    · subst hfile
      rw [beq_self_eq_true]
      cases hopen : isOpen added.path with
      | some index =>
        rw [hopen] at hclosed
        simp only [SnapshotIndices.add, hopen, AList.lookup_insert]
        refine ⟨rfl, ?_⟩
        simpa using hclosed
      | none =>
        rw [hopen] at hopened
        simp only [SnapshotIndices.add, hopen, AList.lookup_insert]
        refine ⟨?_, rfl⟩
        simpa using hopened
    · rw [beq_false_of_ne hfile]
      cases hopen : isOpen added.path with
      | some index =>
        simp only [SnapshotIndices.add, hopen, AList.lookup_insert_ne (Ne.symm hfile)]
        exact ⟨hopened, hclosed⟩
      | none =>
        simp only [SnapshotIndices.add, hopen, AList.lookup_insert_ne (Ne.symm hfile)]
        exact ⟨hopened, hclosed⟩

/-- The index of an analyzed file is that of its current text; no other file has one. -/
theorem indexFor_snapshotIndices (snapshot : M.Snapshot) (documents : DocumentAnalysisSnapshot)
    (file : Path) :
    (snapshotIndices snapshot documents).indexFor file =
      if (snapshot.textOf file).isSome then
        (currentText snapshot documents file).map LineIndex.new
      else none := by
  obtain ⟨hopened, hclosed⟩ :=
    lookup_snapshotIndices documents.lineIndexForPath snapshot.files file
  unfold SnapshotIndices.indexFor snapshotIndices currentText AnalysisSnapshot.textOf
  rw [hopened, hclosed]
  unfold DocumentAnalysisSnapshot.lineIndexForPath
  cases snapshot.files.reverse.find? fun analyzed => analyzed.path == file with
  | none => rfl
  | some analyzed => cases documents.textForPath file <;> rfl

/-- The text edits of a file: one for each edit of the action in it, or none where
the file has no index. -/
theorem editsFor_of_fromFilePath (hurl : M.UrlNamesFile) (indices : SnapshotIndices)
    (edits : List SourceEdit) {file : Path} {url : Url} (h : M.fromFilePath file = some url) :
    (workspaceEditOf M indices edits).editsFor url =
      match indices.indexFor file with
      | none => []
      | some index => (edits.filter fun sourceEdit => sourceEdit.file == file).map fun sourceEdit =>
          ⟨index.range sourceEdit.startByte sourceEdit.endByte, sourceEdit.replacement⟩ := by
  rw [editsFor_workspaceEditOf]
  induction edits with
  | nil => cases indices.indexFor file <;> rfl
  | cons sourceEdit edits ih =>
    rw [List.filterMap_cons, ih]
    by_cases hfile : sourceEdit.file = file
    · subst hfile
      cases hindex : indices.indexFor sourceEdit.file with
      | none => simp [textEditOf, hindex]
      | some index => simp [textEditOf, hindex, h]
    · -- Two files do not share a URL, since a URL names one file.
      have hother : ((textEditOf M indices sourceEdit).bind fun (u, textEdit) =>
          if url = u then some textEdit else none) = none := by
        unfold textEditOf
        cases indices.indexFor sourceEdit.file with
        | none => rfl
        | some index =>
          cases hu : M.fromFilePath sourceEdit.file with
          | none => rfl
          | some u =>
            have hne : url ≠ u := by
              rintro rfl
              have hsame := hurl file url h
              rw [hurl sourceEdit.file url hu] at hsame
              exact hfile (Option.some.inj hsame)
            simp [hne]
      rw [hother, List.filter_cons_of_neg (by simpa using hfile)]

/-- One edit of an action lands on the name: its file has a URL and was analyzed,
and the current text holds the name where the span falls. -/
def LandsOn (M : Marrow) (snapshot : M.Snapshot) (documents : DocumentAnalysisSnapshot)
    (name : Text) (sourceEdit : SourceEdit) : Prop :=
  (∃ url, M.fromFilePath sourceEdit.file = some url) ∧
    (snapshot.textOf sourceEdit.file).isSome = true ∧
      ∃ text, currentText snapshot documents sourceEdit.file = some text ∧
        spanText text sourceEdit.startByte sourceEdit.endByte = some name

theorem renames_workspaceEditOf_iff (hurl : M.UrlNamesFile) (snapshot : M.Snapshot)
    (documents : DocumentAnalysisSnapshot) (edits : List SourceEdit) (name : Text) :
    (workspaceEditOf M (snapshotIndices snapshot documents) edits).Renames M edits
        (currentText snapshot documents) name ↔
      ∀ sourceEdit ∈ edits, LandsOn M snapshot documents name sourceEdit := by
  constructor
  · intro h sourceEdit hmem
    obtain ⟨url, hu⟩ := h.named sourceEdit hmem
    -- The file has as many text edits as the action has edits of it, so it has an index.
    have hcount := h.complete sourceEdit.file url hu
    have hedits := editsFor_of_fromFilePath hurl (snapshotIndices snapshot documents) edits hu
    have hfilter : sourceEdit ∈ edits.filter fun e => e.file == sourceEdit.file :=
      List.mem_filter.mpr ⟨hmem, beq_self_eq_true _⟩
    cases hindex : (snapshotIndices snapshot documents).indexFor sourceEdit.file with
    | none =>
      rw [hindex] at hedits
      rw [hedits] at hcount
      exact absurd (List.length_eq_zero_iff.mp hcount.symm) (List.ne_nil_of_mem hfilter)
    | some index =>
      rw [hindex] at hedits
      rw [indexFor_snapshotIndices] at hindex
      split at hindex
      · next htextOf =>
        obtain ⟨text, htext, rfl⟩ := Option.map_eq_some_iff.mp hindex
        refine ⟨⟨url, hu⟩, htextOf, text, htext, ?_⟩
        refine h.exact sourceEdit.file url text hu htext
          ⟨(LineIndex.new text).range sourceEdit.startByte sourceEdit.endByte,
            sourceEdit.replacement⟩ ?_
        rw [hedits]
        exact List.mem_map.mpr ⟨sourceEdit, hfilter, rfl⟩
      · cases hindex
  · intro h
    refine ⟨fun sourceEdit hmem => (h sourceEdit hmem).1, ?_, ?_⟩
    · -- Completeness: a file without an index has no edit of the action.
      intro file url hu
      rw [editsFor_of_fromFilePath hurl _ edits hu]
      cases hindex : (snapshotIndices snapshot documents).indexFor file with
      | some index => simp
      | none =>
        rw [eq_comm, List.length_nil, List.length_eq_zero_iff, List.filter_eq_nil_iff]
        intro sourceEdit hmem hfile
        obtain ⟨-, htextOf, text, htext, -⟩ := h sourceEdit hmem
        rw [beq_iff_eq] at hfile
        rw [indexFor_snapshotIndices, ← hfile, htextOf, htext] at hindex
        cases hindex
    · -- Exactness: each text edit is that of one edit of the action.
      intro file url text hu htext textEdit hmem
      rw [editsFor_of_fromFilePath hurl _ edits hu] at hmem
      cases hindex : (snapshotIndices snapshot documents).indexFor file with
      | none =>
        rw [hindex] at hmem
        cases hmem
      | some index =>
        rw [hindex] at hmem
        obtain ⟨sourceEdit, hsource, rfl⟩ := List.mem_map.mp hmem
        obtain ⟨hmem, hfile⟩ := List.mem_filter.mp hsource
        obtain ⟨-, htextOf, text', htext', hspan⟩ := h sourceEdit hmem
        rw [beq_iff_eq] at hfile
        rw [hfile] at htextOf htext'
        rw [htext] at htext'
        cases htext'
        rw [indexFor_snapshotIndices, htextOf, htext] at hindex
        cases hindex
        exact hspan

end MarrowLsp
