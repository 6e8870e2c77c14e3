-- SUMMARY: Whether a cached binding index is the index of the snapshot it is read with, over every run of a session.
import MarrowLsp.Core.Session
import MarrowLsp.Core.Sample

/-!
# Binding indexes

A cached index carries a key, the project root and the snapshot's generation,
and a commit keeps the index while the key of the new snapshot is the same. The
key's root is that of the project resolved when the index is built, which is the
snapshot's own root only while the two have not come apart.
-/
namespace MarrowLsp

open Transition

variable {M : Marrow}

namespace Workspace

/-- Every index held is the one built from the snapshot beside it, and what
`chooseReadSource` answers can be read. -/
structure IndexesMatch (ws : Workspace M) : Prop where
  latest : ∀ i a, ws.bindingIndex = some i → ws.latest = some a →
    i = M.buildBindingIndex a.snapshot
  lastGood : ∀ good, ws.lastGood = some good →
    good.index = M.buildBindingIndex good.analysis.snapshot
  readable : ∀ file source, (ws.chooseReadSource file).1 = some source →
    ((ws.chooseReadSource file).2.readFacts source).isSome

/-- A cached index stands beside the latest snapshot it was built from, under a
key with that snapshot's generation. -/
def Keyed (ws : Workspace M) : Prop :=
  ∀ i, ws.bindingIndex = some i → ∃ a root, ws.latest = some a ∧
    i = M.buildBindingIndex a.snapshot ∧
      ws.bindingIndexKey = some ⟨root, a.snapshot.generation⟩

/-- The invariant behind `IndexesMatch`. -/
structure Indexed (ws : Workspace M) : Prop where
  keyed : ws.Keyed
  lastGood : ∀ good, ws.lastGood = some good →
    good.index = M.buildBindingIndex good.analysis.snapshot
  resolved : ws.latest.isSome → ws.project.isSome

namespace Indexed

variable {ws : Workspace M}

theorem new : (new : Workspace M).Indexed where
  keyed _ h := by cases h
  lastGood _ h := by cases h
  resolved h := by cases h

/-- The invariant depends on the project only through its presence. -/
theorem of_frame (h : ws.Indexed) (project : Option (Project M))
    (catalogBinding : CatalogBindingCache M)
    (hproject : ws.project.isSome → project.isSome) :
    ({ ws with project, catalogBinding } : Workspace M).Indexed where
  keyed := h.keyed
  lastGood := h.lastGood
  resolved hlatest := hproject (h.resolved hlatest)

theorem withBindingIndex (h : ws.Indexed) : ws.withBindingIndex.Indexed := by
  rcases ws.withBindingIndex_cases with heq | ⟨a, project, -, hlatest, -, heq⟩
  · rwa [heq]
  · rw [heq]
    refine ⟨?_, h.lastGood, h.resolved⟩
    intro i hi
    cases hi
    exact ⟨a, project.root, hlatest, rfl, rfl⟩

theorem chooseReadSource (h : ws.Indexed) (file : Path) :
    (ws.chooseReadSource file).2.Indexed := by
  rcases ws.chooseReadSource_workspace file with heq | heq
  · rwa [heq]
  · rw [heq]
    exact h.withBindingIndex

theorem prepareRecompute (h : ws.Indexed) (w : World M) (file : Path)
    (documents : DocumentAnalysisSnapshot) (scope : RecomputeScope) :
    (ws.prepareRecompute w file documents scope).workspace.Indexed := by
  rcases ws.prepareRecompute_cases w file documents scope with
    ⟨e, -, heq⟩ | ⟨project, cache, -, hws, -, -⟩
  · rwa [heq]
  · rw [hws]
    exact h.of_frame _ _ fun _ => rfl

/-- The index kept for an outgoing snapshot is that snapshot's own. -/
theorem retained_index (h : ws.Indexed) {previous : Analysis M}
    (hlatest : ws.latest = some previous) :
    ws.bindingIndex.getD (M.buildBindingIndex previous.snapshot) =
      M.buildBindingIndex previous.snapshot := by
  cases hi : ws.bindingIndex with
  | none => rfl
  | some i =>
    obtain ⟨a, -, ha, hbuild, -⟩ := h.keyed i hi
    rw [hlatest] at ha
    cases ha
    exact hbuild

theorem retain (h : ws.Indexed) {previous : Analysis M} (hlatest : ws.latest = some previous) :
    (ws.retain previous).Indexed where
  keyed _ hi := by cases hi
  lastGood good hgood := by
    cases hgood
    exact h.retained_index hlatest
  resolved h := by cases h

theorem clearLatest (h : ws.Indexed) : ws.clearLatest.Indexed where
  keyed _ hi := by cases hi
  lastGood := h.lastGood
  resolved h := by cases h

theorem invalidateAnalysis (h : ws.Indexed) : ws.invalidateAnalysis.Indexed := by
  have hnext : ({ ws with invalidationEpoch := ws.invalidationEpoch + 1 } : Workspace M).Indexed :=
    ⟨h.keyed, h.lastGood, h.resolved⟩
  unfold Workspace.invalidateAnalysis demoteLatestToLastGood
  split
  · next a ha =>
    split
    · exact (hnext.retain ha).clearLatest
    · exact hnext.clearLatest
  · exact hnext.clearLatest

theorem invalidateProject (_ : ws.Indexed) : ws.invalidateProject.Indexed where
  keyed _ hi := by cases hi
  lastGood _ hgood := by cases hgood
  resolved h := by cases h

end Indexed

/-! ## What a commit does to the indexes -/

/-- An index survives a commit only under the new snapshot's key. -/
theorem install_bindingIndex {ws : Workspace M} {project : Project M} {generation : Nat}
    {a : Analysis M} {i : M.Index}
    (h : (ws.install project generation a).bindingIndex = some i) :
    ws.bindingIndex = some i ∧ ws.bindingIndexKey = some (.new project a) ∧
      (ws.install project generation a).bindingIndexKey = some (.new project a) := by
  obtain ⟨_, bindingIndex, _, heq, hindex, -⟩ := ws.install_cases project generation a
  rw [heq] at h ⊢
  by_cases hkey : ws.bindingIndexKey = some (.new project a)
  · simp only [hkey, if_true] at h ⊢
    rcases hindex with hnone | hsame
    · rw [hnone] at h
      cases h
    · exact ⟨hsame ▸ h, trivial, trivial⟩
  · simp [hkey] at h

namespace Indexed

/-- A commit keeps the invariant when an index that survives it belongs to a
snapshot of the same root. -/
theorem install {ws : Workspace M} (h : ws.Indexed) (hindex : M.IndexByGeneration)
    {project : Project M} (hproject : ws.project = some project) (generation : Nat)
    {a : Analysis M}
    (hroot : ws.bindingIndex.isSome → ws.bindingIndexKey = some (.new project a) →
      ∀ installed, ws.latest = some installed → installed.prepared.root = a.prepared.root) :
    (ws.install project generation a).Indexed := by
  refine ⟨?_, ?_, ?_⟩
  · intro i hi
    -- A surviving index was built of a snapshot with the generation of the new one.
    obtain ⟨hold, hkey, hkey'⟩ := install_bindingIndex hi
    obtain ⟨installed, root, hlatest, hbuild, hkeyed⟩ := h.keyed i hold
    have hgen : installed.snapshot.generation = a.snapshot.generation := by
      rw [hkeyed] at hkey
      exact congrArg BindingIndexKey.generation (Option.some.inj hkey)
    have hsame : installed.prepared.root = a.prepared.root :=
      hroot (by rw [hold]; rfl) hkey installed hlatest
    refine ⟨a, project.root, rfl, ?_, hkey'⟩
    rw [hbuild]
    exact hindex _ _ hsame hgen
  · intro good hgood
    obtain ⟨_, _, lastGood, heq, -, hlast⟩ := ws.install_cases project generation a
    rw [heq] at hgood
    -- The last good index is dropped, kept, or that of the analysis replaced.
    rcases hlast with hnone | hsame | ⟨previous, hlatest, hmoved⟩
    · rw [hnone] at hgood
      cases hgood
    · exact h.lastGood good (hsame ▸ hgood)
    · rw [hmoved] at hgood
      cases hgood
      exact h.retained_index hlatest
  · intro _
    rw [install_project, hproject]
    rfl

end Indexed

/-- A project is resolved while there is a latest snapshot, so its index can be built. -/
theorem Indexed.readFacts_latest {ws : Workspace M} (h : ws.Indexed) {a : Analysis M}
    (ha : ws.latest = some a) : (ws.withBindingIndex.readFacts .latest).isSome := by
  obtain ⟨project, hproject⟩ := Option.isSome_iff_exists.mp (h.resolved (by rw [ha]; rfl))
  cases hi : ws.bindingIndex with
  | none =>
    have heq : ws.withBindingIndex =
        { ws with
          bindingIndexKey := some (.new project a)
          bindingIndex := some (M.buildBindingIndex a.snapshot) } := by
      simp only [Workspace.withBindingIndex, hi, ha, hproject]
    rw [heq]
    simp [readFacts, ha]
  | some i =>
    have heq : ws.withBindingIndex = ws := by
      simp only [Workspace.withBindingIndex, hi]
    rw [heq]
    simp [readFacts, hi, ha]

/-- The invariant gives what a reader needs. -/
theorem Indexed.indexesMatch {ws : Workspace M} (h : ws.Indexed) : ws.IndexesMatch where
  latest i a hi ha := by
    obtain ⟨a', -, ha', hbuild, -⟩ := h.keyed i hi
    rw [ha] at ha'
    cases ha'
    exact hbuild
  lastGood := h.lastGood
  readable file source hsource := by
    rcases ws.chooseReadSource_cases file with ⟨a, ha, -, -, heq⟩ | ⟨good, hgood, -, heq⟩ | heq
    · rw [heq] at hsource ⊢
      cases hsource
      exact h.readFacts_latest ha
    · rw [heq] at hsource ⊢
      cases hsource
      simp [readFacts, hgood]
    · rw [heq] at hsource
      cases hsource

/-- Whether a commit of `a` would keep the cached index: the commit is admitted
and the key recorded when the index was built equals the key of `a`. -/
def keepsIndex (ws : Workspace M) (a : Analysis M) : Bool :=
  ws.admits a.prepared.documentsGeneration a.prepared.invalidationEpoch &&
    ws.bindingIndex.isSome &&
      ws.project.any fun project => decide (ws.bindingIndexKey = some (.new project a))

end Workspace

/-! ## Runs -/

namespace Session

/-- The condition on one operation: a commit does not keep the index of a
snapshot of another root. -/
def keepsIndexOfRoot (s : Session M) : Action M → Bool
  | .commit i => (s.analyzed[i]?).all fun a => !s.workspace.keepsIndex a ||
      s.workspace.latest.all fun installed => decide (installed.prepared.root = a.prepared.root)
  | _ => true

theorem indexed_commit (hindex : M.IndexByGeneration) {s : Session M} {i : Nat} {a : Analysis M}
    (h : s.workspace.Indexed) (ha : s.analyzed[i]? = some a)
    (hok : s.keepsIndexOfRoot (.commit i) = true) : (s.commit i a).workspace.Indexed := by
  rcases s.workspace.commitRecompute_cases a.prepared.documentsGeneration
    a.prepared.invalidationEpoch a with ⟨-, heq⟩ | ⟨project, hadmits, hproject, heq⟩
  · simp only [commit, heq]
    exact h
  · simp only [commit, heq]
    apply h.install hindex hproject
    intro hsome hkey installed hlatest
    have hkeeps : s.workspace.keepsIndex a = true := by
      simp [Workspace.keepsIndex, hadmits, hsome, hproject, hkey]
    simpa [keepsIndexOfRoot, ha, hkeeps, hlatest] using hok

/-- Every operation keeps the index invariant, a commit under the condition above. -/
theorem indexed_step (hindex : M.IndexByGeneration) (s : Session M) (action : Action M)
    (t : Session M) (h : s.workspace.Indexed) (hok : s.keepsIndexOfRoot action = true)
    (hstep : s.step action = some t) : t.workspace.Indexed := by
  cases action with
  | prepare w file documents scope =>
    simp only [step, Option.some.injEq] at hstep
    rw [← hstep, prepare_workspace]
    exact h.prepareRecompute w file documents scope
  | analyze fs i =>
    simp only [step, Option.map_eq_some_iff] at hstep
    obtain ⟨r, -, ht⟩ := hstep
    rw [← ht, analyze_workspace]
    exact h
  | commit i =>
    simp only [step, Option.map_eq_some_iff] at hstep
    obtain ⟨a, ha, ht⟩ := hstep
    rw [← ht]
    exact indexed_commit hindex h ha hok
  | bindingIndex =>
    simp only [step, Option.some.injEq] at hstep
    rw [← hstep]
    exact h.withBindingIndex
  | chooseReadSource file =>
    simp only [step, Option.some.injEq] at hstep
    rw [← hstep]
    exact h.chooseReadSource file
  | invalidateAnalysis =>
    simp only [step, Option.some.injEq] at hstep
    rw [← hstep]
    exact h.invalidateAnalysis
  | invalidateProject =>
    simp only [step, Option.some.injEq] at hstep
    rw [← hstep]
    exact h.invalidateProject

/-- In every run whose commits never keep an index across roots, every index is
the one of the snapshot it is read with. -/
theorem indexesMatch_of_reaches (hindex : M.IndexByGeneration) {s : Session M}
    (h : Reaches step (fun s action => s.keepsIndexOfRoot action = true) Session.new s) :
    s.workspace.IndexesMatch := by
  have hinv : s.workspace.Indexed :=
    h.invariant (I := fun s => s.workspace.Indexed) Workspace.Indexed.new (indexed_step hindex)
  exact hinv.indexesMatch

end Session

/-! ## Two projects with the same content -/

namespace Sample

/-- A hover in `A` after `B` was prepared builds the index of `A`'s snapshot
under the root of `B`, and `B`'s commit finds its own key. -/
def hoverBetween : List (Session.Action Marrow.sample) :=
  let documents := Documents.new.analysisSnapshot Marrow.sample
  [.prepare twins (app "A") documents .full, .analyze twins.fs 0, .commit 0,
    .prepare twins (app "B") documents .full, .chooseReadSource (app "A"),
    .analyze twins.fs 0, .commit 0]

/-- The same run with the hover before `B` is prepared. -/
def hoverBefore : List (Session.Action Marrow.sample) :=
  let documents := Documents.new.analysisSnapshot Marrow.sample
  [.prepare twins (app "A") documents .full, .analyze twins.fs 0, .commit 0,
    .chooseReadSource (app "A"), .prepare twins (app "B") documents .full,
    .analyze twins.fs 0, .commit 0, .chooseReadSource (app "B")]

/-- The cached index is not the latest snapshot's. -/
def foreignIndex (ws : Workspace Marrow.sample) : Bool :=
  ws.latest.any fun a => ws.bindingIndex.any fun i =>
    decide ((i : Index) ≠ buildBindingIndex a.snapshot)

end Sample

namespace Session

open Sample in
theorem indexesMatch_of_reaches_hoverBefore :
    ∃ s : Session Marrow.sample,
      Reaches step (fun s action => s.keepsIndexOfRoot action = true) Session.new s ∧
        s.workspace.bindingIndex.isSome ∧ s.workspace.IndexesMatch := by
  have hrun : (run (guarded keepsIndexOfRoot step) Session.new hoverBefore).any
      (fun s => s.workspace.bindingIndex.isSome) = true := by decide
  obtain ⟨s, hs, hsome⟩ := (Option.any_eq_true _ _).mp hrun
  have hreaches := reaches_of_run hs
  exact ⟨s, hreaches, hsome, indexesMatch_of_reaches indexByGeneration hreaches⟩

open Sample in
theorem not_indexesMatch_hoverBetween :
    ¬ ∀ s : Session Marrow.sample, Reachable step Session.new s → s.workspace.IndexesMatch := by
  intro h
  have hrun : (run step Session.new hoverBetween).any (fun s => foreignIndex s.workspace) = true :=
    by decide
  obtain ⟨s, hs, hforeign⟩ := (Option.any_eq_true _ _).mp hrun
  have hmatch := h s (reachable_of_run hs)
  obtain ⟨a, ha, hforeign⟩ := (Option.any_eq_true _ _).mp hforeign
  obtain ⟨i, hi, hforeign⟩ := (Option.any_eq_true _ _).mp hforeign
  exact of_decide_eq_true hforeign (hmatch.latest i a hi ha)

end Session
end MarrowLsp
