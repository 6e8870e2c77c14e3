-- SUMMARY: Rename: the request of the server, where the index behind its edit comes from, and when the edit rewrites the renamed name and nothing else.
import MarrowLsp.Lsp.Freshness

/-!
# Rename

Three versions of a file meet in a rename: the text its spans were found in, which
may be a prior generation's or the last good one, the buffer of the request, through
which they become editor ranges, and the text the client applies them to. The check
for a superseding edit compares the last two only.
-/
namespace MarrowLsp

open Transition

variable {M : Marrow}

/-- A JSON-RPC error. -/
structure RpcError where
  code : Int
  message : String
  deriving DecidableEq, Repr

def RpcError.contentModified : RpcError := ⟨-32801, "content modified"⟩
def RpcError.invalidParams (message : String) : RpcError := ⟨-32602, message⟩

/-- `handler_panicked`. -/
def RpcError.handlerPanicked (handler : String) : RpcError :=
  ⟨-32603, "the " ++ handler ++ " request failed"⟩

namespace Server

/-- The byte offset of the cursor in the captured buffer. -/
def cursor (buffer : Document) (position : Position) : Nat :=
  (LineIndex.new buffer.text).offset position

/-- `rename` of the symbol at a position, for buffers captured earlier. Choosing the
analysis to read may build its index, so the workspace changes. -/
def rename (s : Server M) (captured : Documents) (url : Url) (position : Position)
    (newName : Text) (busy : Bool) : Except RpcError (Option WorkspaceEdit) × Server M :=
  match M.toFilePath url, captured.get url with
  | some path, some buffer =>
    if !s.documents.matchesGeneration (captured.analysisSnapshot M) then
      (.error .contentModified, s)
    else if busy || s.pending.isPending then (.ok none, s)
    else
      let read := s.workspace.chooseReadSource path
      let answer : Except RpcError (Option WorkspaceEdit) :=
        match read.1 with
        | none => .ok none
        | some source =>
          match read.2.readFacts source with
          | none => .error (.handlerPanicked "rename")
          | some (a, index) =>
            let indices := snapshotIndices a.snapshot (captured.analysisSnapshot M)
            match MarrowLsp.rename M index indices path (cursor buffer position) newName with
            | .ok edit => .ok (some edit)
            | .error .noSymbol => .ok none
            | .error e => .error (.invalidParams e.message)
      (answer, { s with workspace := read.2 })
  | _, _ => (.ok none, s)

/-- The edit of an answer that has one. -/
def answered (answer : Except RpcError (Option WorkspaceEdit)) : Option WorkspaceEdit :=
  answer.toOption.join

theorem answered_eq_some_iff {answer : Except RpcError (Option WorkspaceEdit)}
    {edit : WorkspaceEdit} : answered answer = some edit ↔ answer = .ok (some edit) := by
  cases answer with
  | error e => simp [answered, Except.toOption]
  | ok found => simp [answered, Except.toOption]

end Server

namespace Workspace

/-- The analysis and index a rename of a symbol in `file` reads. -/
def renameFacts (ws : Workspace M) (file : Path) : Option (Analysis M × M.Index) :=
  (ws.chooseReadSource file).1.bind (ws.chooseReadSource file).2.readFacts

/-! ## Every index was built from some sources -/

/-- The index was built from what the checker made of some inputs. -/
def Built (index : M.Index) : Prop := ∃ i, index = M.buildBindingIndex (M.check i)

structure IndexesBuilt (ws : Workspace M) : Prop where
  latest : ∀ index, ws.bindingIndex = some index → Built index
  lastGood : ∀ good, ws.lastGood = some good → Built good.index

namespace IndexesBuilt

variable {ws : Workspace M}

theorem new : (new : Workspace M).IndexesBuilt := by
  constructor
  · intro index h
    cases h
  · intro good h
    cases h

theorem of_none {ws' : Workspace M} (hindex : ws'.bindingIndex = none)
    (hlastGood : ws'.lastGood = none ∨ ws'.lastGood = ws.lastGood) (h : ws.IndexesBuilt) :
    ws'.IndexesBuilt := by
  constructor
  · intro index hsome
    rw [hindex] at hsome
    cases hsome
  · intro good hgood
    rcases hlastGood with hnone | hsame
    · rw [hnone] at hgood
      cases hgood
    · rw [hsame] at hgood
      exact h.lastGood good hgood

theorem retained (h : ws.IndexesBuilt) (previous : Analysis M) :
    Built (ws.bindingIndex.getD (M.buildBindingIndex previous.snapshot)) := by
  cases hindex : ws.bindingIndex with
  | none => exact ⟨previous.inputs, rfl⟩
  | some index => exact h.latest index hindex

theorem withBindingIndex (h : ws.IndexesBuilt) : ws.withBindingIndex.IndexesBuilt := by
  rcases ws.withBindingIndex_cases with heq | ⟨a, project, -, -, -, heq⟩
  · rwa [heq]
  · rw [heq]
    constructor
    · rintro index ⟨⟩
      exact ⟨a.inputs, rfl⟩
    · exact h.lastGood

theorem invalidateProject (h : ws.IndexesBuilt) : ws.invalidateProject.IndexesBuilt :=
  of_none rfl (.inl rfl) h

theorem invalidateAnalysis (h : ws.IndexesBuilt) : ws.invalidateAnalysis.IndexesBuilt := by
  unfold Workspace.invalidateAnalysis demoteLatestToLastGood
  dsimp only
  split
  · next a ha =>
    split
    · constructor
      · intro index hindex
        cases hindex
      · rintro good ⟨⟩
        exact h.retained a
    · exact @of_none _ ws _ rfl (.inr rfl) h
  · exact @of_none _ ws _ rfl (.inr rfl) h

theorem applyPending (h : ws.IndexesBuilt) (bits : PendingInvalidation) :
    (applyPendingWorkspaceInvalidation bits ws).IndexesBuilt := by
  unfold applyPendingWorkspaceInvalidation
  split
  · exact h.invalidateProject
  · split
    · exact h.invalidateAnalysis
    · exact h

theorem invalidateFor (h : ws.IndexesBuilt) (effects : WatchedRootEffects) :
    (Server.invalidateFor effects ws).IndexesBuilt := by
  unfold Server.invalidateFor
  split
  · exact h.invalidateProject
  · split
    · exact h.invalidateAnalysis
    · exact h

theorem install (h : ws.IndexesBuilt) (project : Project M) (generation : Nat) (a : Analysis M) :
    (ws.install project generation a).IndexesBuilt := by
  obtain ⟨lastProgram, bindingIndex, lastGood, heq, hindex, hlastGood⟩ :=
    ws.install_cases project generation a
  rw [heq]
  constructor
  · intro index hsome
    dsimp only at hsome
    split at hsome
    · rcases hindex with hnone | hsame
      · rw [hnone] at hsome
        cases hsome
      · rw [hsame] at hsome
        exact h.latest index hsome
    · cases hsome
  · intro good hgood
    dsimp only at hgood
    rcases hlastGood with hnone | hsame | ⟨previous, -, hretained⟩
    · rw [hnone] at hgood
      cases hgood
    · rw [hsame] at hgood
      exact h.lastGood good hgood
    · rw [hretained] at hgood
      cases hgood
      exact h.retained previous

end IndexesBuilt

end Workspace

namespace Server

theorem indexesBuilt_watchFree {s : Server M} (h : s.workspace.IndexesBuilt)
    (versions : DocumentVersions) (changes : List WatchedPathChange) :
    (s.watchFree versions changes).workspace.IndexesBuilt := by
  unfold watchFree
  dsimp only
  split
  · exact h.applyPending s.pending
  · obtain ⟨_, _, _, heq, -⟩ := carryOut_frame
      { s with
        pending := .none
        workspace := invalidateFor (freeEffects s.tracker
          (applyPendingWorkspaceInvalidation s.pending s.workspace) versions changes).1
          (applyPendingWorkspaceInvalidation s.pending s.workspace)
        tracker := (freeEffects s.tracker
          (applyPendingWorkspaceInvalidation s.pending s.workspace) versions changes).2 }
      (freeEffects s.tracker (applyPendingWorkspaceInvalidation s.pending s.workspace) versions
        changes).1
    rw [heq]
    exact (h.applyPending s.pending).invalidateFor _

theorem indexesBuilt_step {s t : Server M} {action : Action M} (h : s.workspace.IndexesBuilt)
    (hstep : s.step action = some t) : t.workspace.IndexesBuilt := by
  cases stepTo_of_step hstep with
  | didOpen | didChange | didClose | unwatched | capture => exact h
  | @didChangeWatchedFiles fs busy events =>
    cases busy with
    | true => exact h
    | false => exact indexesBuilt_watchFree h _ _
  | handle =>
    obtain ⟨_, _, _, _, _, _, heq, -, -⟩ := s.handle_frame _ _ _
    rw [heq]
    exact h
  | preflight =>
    obtain ⟨_, heq⟩ := s.preflight_frame _ _
    rw [heq]
    exact h
  | @prepare w i x _ _ =>
    obtain ⟨workspace, running, heq, hws, -⟩ := s.prepare_cases w i x
    obtain ⟨_, _, hframe⟩ := (applyPendingWorkspaceInvalidation s.pending s.workspace
      ).prepareRecompute_frame w x.task.file x.documents x.task.scope
    have hdrained := h.applyPending s.pending
    rw [heq, hws, hframe]
    exact ⟨hdrained.latest, hdrained.lastGood⟩
  | @analyze fs r _ _ =>
    rcases s.analyze_cases fs r with ⟨e, -, heq⟩ | ⟨a, -, heq⟩ <;> rw [heq] <;> exact h
  | @commit r a _ _ =>
    rcases s.commit_cases r a with ⟨-, heq⟩ | ⟨-, ⟨-, heq⟩ | ⟨project, -, -, heq⟩⟩ <;> rw [heq]
    · exact h.applyPending s.pending
    · exact h
    · exact h.install project _ a
  | @publish fs r _ _ _ =>
    rcases s.publish_cases fs r with
      ⟨-, heq⟩ | ⟨-, ⟨-, heq⟩ | ⟨-, ⟨-, heq⟩ | ⟨_, _, -, -, heq⟩⟩⟩ <;> rw [heq]
    · exact h.applyPending s.pending
    · exact h
    · exact h
    · exact h
  | @reconcile r root scope a diagnostics _ _ =>
    rcases s.reconcile_cases r root scope a diagnostics with
      ⟨-, heq⟩ | ⟨-, ⟨-, heq⟩ | ⟨_, _, -, heq⟩⟩ <;> rw [heq]
    · exact h.applyPending s.pending
    · exact h
    · exact h
  | bindingIndex _ => exact h.withBindingIndex
  | @chooseReadSource file _ =>
    rcases s.workspace.chooseReadSource_workspace file with heq | heq <;> rw [heq]
    · exact h
    · exact h.withBindingIndex

theorem indexesBuilt_of_reachable {s : Server M} (h : Reachable step new s) :
    s.workspace.IndexesBuilt :=
  h.invariant (I := fun s => s.workspace.IndexesBuilt) .new fun _ _ _ hs _ hstep =>
    indexesBuilt_step hs hstep

/-- The index a rename reads was built from some sources. -/
theorem built_of_renameFacts {s : Server M} (h : s.workspace.IndexesBuilt) {path : Path}
    {a : Analysis M} {index : M.Index} (hfacts : s.workspace.renameFacts path = some (a, index)) :
    Workspace.Built index := by
  obtain ⟨source, -, hread⟩ := Option.bind_eq_some_iff.mp hfacts
  have hbuilt : (s.workspace.chooseReadSource path).2.IndexesBuilt := by
    rcases s.workspace.chooseReadSource_workspace path with heq | heq <;> rw [heq]
    · exact h
    · exact h.withBindingIndex
  cases source with
  | latest =>
    cases hlatest : (s.workspace.chooseReadSource path).2.latest with
    | none => simp [Workspace.readFacts, hlatest] at hread
    | some latest =>
      cases hindex : (s.workspace.chooseReadSource path).2.bindingIndex with
      | none => simp [Workspace.readFacts, hlatest, hindex] at hread
      | some built =>
        simp only [Workspace.readFacts, hlatest, hindex, Option.some.injEq, Prod.mk.injEq] at hread
        obtain ⟨-, rfl⟩ := hread
        exact hbuilt.latest built hindex
  | lastGood =>
    cases hgood : (s.workspace.chooseReadSource path).2.lastGood with
    | none => simp [Workspace.readFacts, hgood] at hread
    | some good =>
      simp only [Workspace.readFacts, hgood, Option.some.injEq, Option.map_some,
        Prod.mk.injEq] at hread
      obtain ⟨-, rfl⟩ := hread
      exact hbuilt.lastGood good hgood

/-! ## The edit -/

/-- Applied to the current texts the edit of a rename rewrites the name of the symbol
at `offset`, with one text edit for each edit of Marrow's action. -/
def RewritesName (s : Server M) (path : Path) (offset : Nat) (newName : Text)
    (edit : WorkspaceEdit) : Prop :=
  ∀ a index edits, s.workspace.renameFacts path = some (a, index) →
    M.sourceOnlyRenameActionAt index path offset newName = .ok edits →
      edit.Renames M edits (currentText a.snapshot (s.documents.analysisSnapshot M))
        (M.renamedName index path offset)

/-- Nothing has come between the texts the action's spans were found in and those they
are applied to: each edited file has a URL and is analyzed, and where the span falls in
its current text stands what stood at the span in the text that was indexed. -/
def Undisturbed (s : Server M) (path : Path) (offset : Nat) (newName : Text) : Prop :=
  ∀ a index edits i, s.workspace.renameFacts path = some (a, index) →
    index = M.buildBindingIndex (M.check i) →
    M.sourceOnlyRenameActionAt index path offset newName = .ok edits →
    ∀ sourceEdit ∈ edits,
      (∃ url, M.fromFilePath sourceEdit.file = some url) ∧
      (a.snapshot.textOf sourceEdit.file).isSome = true ∧
      ∃ text indexed, currentText a.snapshot (s.documents.analysisSnapshot M) sourceEdit.file =
          some text ∧
        (M.check i).textOf sourceEdit.file = some indexed ∧
        spanText text sourceEdit.startByte sourceEdit.endByte =
          Utf8.slice indexed sourceEdit.startByte sourceEdit.endByte

/-- Nothing has come between where the current texts of the edited files are those that
were indexed. -/
theorem undisturbed_of_indexed (hcorrect : M.RenameCorrect) {s : Server M} {path : Path}
    {offset : Nat} {newName : Text}
    (h : ∀ a index edits i, s.workspace.renameFacts path = some (a, index) →
      index = M.buildBindingIndex (M.check i) →
      M.sourceOnlyRenameActionAt index path offset newName = .ok edits →
      ∀ sourceEdit ∈ edits,
        (∃ url, M.fromFilePath sourceEdit.file = some url) ∧
        (a.snapshot.textOf sourceEdit.file).isSome = true ∧
        ∃ text, currentText a.snapshot (s.documents.analysisSnapshot M) sourceEdit.file =
            some text ∧
          (M.check i).textOf sourceEdit.file = some text ∧ Utf8.utf16Len text < 2 ^ 32) :
    s.Undisturbed path offset newName := by
  intro a index edits i hfacts hindex haction sourceEdit hmem
  obtain ⟨hurl, htextOf, text, hcurrent, hindexed, hsmall⟩ :=
    h a index edits i hfacts hindex haction sourceEdit hmem
  rw [hindex] at haction
  obtain ⟨source, hsource, hslice⟩ := hcorrect i _ _ _ _ haction sourceEdit hmem
  rw [hindexed] at hsource
  cases hsource
  exact ⟨hurl, htextOf, text, text, hcurrent, hindexed,
    (spanText_of_slice hsmall hslice).trans hslice.symm⟩

/-- An answered rename is Marrow's action on the index it reads, its spans mapped
through the captured buffers. -/
theorem renameFacts_of_rename {s : Server M} {captured : Documents} {url : Url}
    {position : Position} {newName : Text} {busy : Bool} {path : Path} {buffer : Document}
    {edit : WorkspaceEdit} (hpath : M.toFilePath url = some path)
    (hbuffer : captured.get url = some buffer)
    (h : (s.rename captured url position newName busy).1 = .ok (some edit)) :
    s.documents.generation = captured.generation ∧ ∃ a index edits,
      s.workspace.renameFacts path = some (a, index) ∧
      M.sourceOnlyRenameActionAt index path (cursor buffer position) newName = .ok edits ∧
      edit = workspaceEditOf M
        (snapshotIndices a.snapshot (captured.analysisSnapshot M)) edits := by
  unfold rename at h
  simp only [hpath, hbuffer] at h
  cases hmatch : s.documents.matchesGeneration (captured.analysisSnapshot M) with
  | false => simp [hmatch] at h
  | true =>
    refine ⟨Documents.matchesGeneration_iff.mp hmatch, ?_⟩
    rw [hmatch] at h
    simp only [Bool.not_true, Bool.false_eq_true, if_false] at h
    split at h
    · cases h
    · -- The answer is computed under the lock, from the source chosen there.
      unfold Workspace.renameFacts
      cases hsource : (s.workspace.chooseReadSource path).1 with
      | none => simp [hsource] at h
      | some source =>
        cases hfacts : (s.workspace.chooseReadSource path).2.readFacts source with
        | none => simp [hsource, hfacts] at h
        | some facts =>
          obtain ⟨a, index⟩ := facts
          simp only [hsource, hfacts] at h
          cases haction :
              M.sourceOnlyRenameActionAt index path (cursor buffer position) newName with
          | error e =>
            rw [MarrowLsp.rename, haction] at h
            cases e <;> cases h
          | ok edits =>
            rw [MarrowLsp.rename, haction] at h
            cases h
            exact ⟨a, index, edits, by simpa using hfacts, haction, rfl⟩

/-- In every reachable state, an answered rename rewrites the renamed name and nothing
else exactly when its spans are undisturbed. -/
theorem rewritesName_iff (hurl : M.UrlNamesFile) (hcorrect : M.RenameCorrect)
    {s₀ s : Server M} (h₀ : Reachable step new s₀) (h : Reachable step s₀ s) {url : Url}
    {position : Position} {newName : Text} {busy : Bool} {path : Path} {buffer : Document}
    {edit : WorkspaceEdit} (hpath : M.toFilePath url = some path)
    (hbuffer : s₀.documents.get url = some buffer)
    (hanswer : (s.rename s₀.documents url position newName busy).1 = .ok (some edit)) :
    s.RewritesName path (cursor buffer position) newName edit ↔
      s.Undisturbed path (cursor buffer position) newName := by
  obtain ⟨hgeneration, a, index, edits, hfacts, haction, rfl⟩ :=
    renameFacts_of_rename hpath hbuffer hanswer
  rw [(continues_of_reaches h).2 hgeneration.symm]
  have hiff := renames_workspaceEditOf_iff hurl a.snapshot (s.documents.analysisSnapshot M) edits
    (M.renamedName index path (cursor buffer position))
  constructor
  · intro hrenames a' index' edits' i hfacts' hindex haction' sourceEdit hmem
    rw [hfacts] at hfacts'
    cases hfacts'
    rw [haction] at haction'
    cases haction'
    obtain ⟨hu, htextOf, text, htext, hspan⟩ :=
      hiff.mp (hrenames a index edits hfacts haction) sourceEdit hmem
    rw [hindex] at haction
    -- Marrow puts every span on the name in the text it has indexed.
    obtain ⟨indexed, hindexed, hslice⟩ := hcorrect i _ _ _ _ haction sourceEdit hmem
    refine ⟨hu, htextOf, text, indexed, htext, hindexed, ?_⟩
    rw [hspan, hslice, hindex]
  · intro hundisturbed a' index' edits' hfacts' haction'
    rw [hfacts] at hfacts'
    cases hfacts'
    rw [haction] at haction'
    cases haction'
    obtain ⟨i, hindex⟩ :=
      built_of_renameFacts (indexesBuilt_of_reachable (h₀.trans h)) hfacts
    refine hiff.mpr fun sourceEdit hmem => ?_
    obtain ⟨hu, htextOf, text, indexed, htext, hindexed, hspan⟩ :=
      hundisturbed a index edits i hfacts hindex haction sourceEdit hmem
    rw [hindex] at haction
    obtain ⟨indexed', hindexed', hslice⟩ := hcorrect i _ _ _ _ haction sourceEdit hmem
    rw [hindexed] at hindexed'
    cases hindexed'
    refine ⟨hu, htextOf, text, htext, ?_⟩
    rw [hspan, hslice, hindex]

end Server

/-! ## One rename -/

namespace Sample

/-- A buffer of the main file of `A` is open and its recompute has run. -/
def analyzedOnce : List (Action Marrow.sample) := opened "A" ['x'] ++ recomputed twins

/-- A character is put before the identifier once it has been analyzed. -/
def editedSince : List (Action Marrow.sample) :=
  analyzedOnce ++ [.didChange (urlOf (app "A")) ['y', 'x'] 2, .handle twins.fs false]

end Sample

namespace Server

open Sample in
theorem rewritesName_iff_analyzedOnce : ∃ (s : Server Marrow.sample) (edit : WorkspaceEdit),
    Reachable step new s ∧
    (s.rename s.documents (urlOf (app "A")) ⟨0, 0⟩ ['z'] false).1 = .ok (some edit) ∧
    (s.RewritesName (app "A") 0 ['z'] edit ↔ s.Undisturbed (app "A") 0 ['z']) := by
  have hrun : (run step (new : Server Marrow.sample) analyzedOnce).any (fun s =>
      (s.documents.get (urlOf (app "A"))).any (fun buffer => cursor buffer ⟨0, 0⟩ == 0) &&
        (answered (s.rename s.documents (urlOf (app "A")) ⟨0, 0⟩ ['z'] false).1).isSome) =
      true := by
    decide
  obtain ⟨s, hs, hgood⟩ := (Option.any_eq_true _ _).mp hrun
  have hreach : Reachable step new s := reachable_of_run hs
  rw [Bool.and_eq_true] at hgood
  obtain ⟨hbuffer, hanswer⟩ := hgood
  obtain ⟨buffer, hget, hcursor⟩ := (Option.any_eq_true _ _).mp hbuffer
  obtain ⟨edit, hedit⟩ := Option.isSome_iff_exists.mp hanswer
  rw [answered_eq_some_iff] at hedit
  refine ⟨s, edit, hreach, hedit, ?_⟩
  have hpath : Marrow.sample.toFilePath (urlOf (app "A")) = some (app "A") := by decide
  have hiff := rewritesName_iff urlNamesFile renameCorrect hreach .refl hpath hget hedit
  rwa [eq_of_beq hcursor] at hiff

open Sample in
/-- The edit made for the text analyzed before the character was put in front
rewrites that character. -/
theorem not_rewritesName_editedSince : ∃ (s : Server Marrow.sample) (edit : WorkspaceEdit),
    Reachable step new s ∧
    (s.rename s.documents (urlOf (app "A")) ⟨0, 0⟩ ['z'] false).1 = .ok (some edit) ∧
    ¬ s.RewritesName (app "A") 0 ['z'] edit := by
  have hrun : (run step (new : Server Marrow.sample) editedSince).any (fun s =>
      (answered (s.rename s.documents (urlOf (app "A")) ⟨0, 0⟩ ['z'] false).1).any fun edit =>
        (s.workspace.renameFacts (app "A")).any fun facts =>
          (Marrow.sample.sourceOnlyRenameActionAt facts.2 (app "A") 0 ['z']).isOk &&
            (edit.editsFor (urlOf (app "A"))).any fun textEdit =>
              (currentText facts.1.snapshot (s.documents.analysisSnapshot Marrow.sample)
                (app "A")).any fun text =>
                  replaced text textEdit.range == some ['y'] &&
                    Marrow.sample.renamedName facts.2 (app "A") 0 == ['x']) = true := by
    decide
  obtain ⟨s, hs, hbad⟩ := (Option.any_eq_true _ _).mp hrun
  obtain ⟨edit, hedit, hbad⟩ := (Option.any_eq_true _ _).mp hbad
  rw [answered_eq_some_iff] at hedit
  refine ⟨s, edit, reachable_of_run hs, hedit, fun hrewrites => ?_⟩
  obtain ⟨⟨a, index⟩, hfacts, hbad⟩ := (Option.any_eq_true _ _).mp hbad
  rw [Bool.and_eq_true] at hbad
  obtain ⟨haction, hbad⟩ := hbad
  cases hedits : Marrow.sample.sourceOnlyRenameActionAt index (app "A") 0 ['z'] with
  | error e =>
    rw [hedits] at haction
    cases haction
  | ok edits =>
    obtain ⟨textEdit, hmem, hbad⟩ := List.any_eq_true.mp hbad
    obtain ⟨text, htext, hbad⟩ := (Option.any_eq_true _ _).mp hbad
    rw [Bool.and_eq_true, beq_iff_eq, beq_iff_eq] at hbad
    have hexact := (hrewrites a index edits hfacts hedits).exact (app "A") (urlOf (app "A"))
      text (by decide) htext textEdit hmem
    rw [hbad.1, hbad.2] at hexact
    cases hexact

end Server

end MarrowLsp
