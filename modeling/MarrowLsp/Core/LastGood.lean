-- SUMMARY: What reads are answered from over every run of commits, reads and invalidations: the good analysis installed last.
import MarrowLsp.Core.Sample

/-!
# Last-good reads

A good analysis stands in the latest slot until a commit or an invalidation moves it to
the last-good slot. Whichever of the two it is in, it is the good analysis installed
last, so the slots together are one register that only a good install writes.
-/
namespace MarrowLsp

variable {M : Marrow}

namespace Workspace

/-- The operations of a workspace whose project is not invalidated. -/
inductive Operation (M : Marrow) where
  | prepareRecompute (w : World M) (file : Path) (documents : DocumentAnalysisSnapshot)
      (scope : RecomputeScope)
  | commitRecompute (documentsGeneration capturedEpoch : Nat) (a : Analysis M)
  | chooseReadSource (file : Path)
  | invalidateAnalysis

def perform (ws : Workspace M) : Operation M → Workspace M
  | .prepareRecompute w file documents scope =>
    (ws.prepareRecompute w file documents scope).workspace
  | .commitRecompute documentsGeneration capturedEpoch a =>
    (ws.commitRecompute documentsGeneration capturedEpoch a).2
  | .chooseReadSource file => (ws.chooseReadSource file).2
  | .invalidateAnalysis => ws.invalidateAnalysis

/-- The analysis an operation installs. -/
def installedBy (ws : Workspace M) : Operation M → Option (Analysis M)
  | .commitRecompute documentsGeneration capturedEpoch a =>
    if (ws.commitRecompute documentsGeneration capturedEpoch a).1 then some a else none
  | .prepareRecompute .. => none
  | .chooseReadSource _ => none
  | .invalidateAnalysis => none

def performAll : Workspace M → List (Operation M) → Workspace M
  | ws, [] => ws
  | ws, operation :: operations => (ws.perform operation).performAll operations

/-- The analyses a run installs, in its order. -/
def installs : Workspace M → List (Operation M) → List (Analysis M)
  | _, [] => []
  | ws, operation :: operations =>
    (ws.installedBy operation).toList ++ (ws.perform operation).installs operations

/-! ## The register -/

/-- The good analysis that one of the slots holds. -/
def readable (ws : Workspace M) : Option (Analysis M) :=
  (ws.latest.filter (·.isGood)).or (ws.lastGood.map (·.analysis))

/-- The good analysis installed last. -/
def recentGood (installed : List (Analysis M)) : Option (Analysis M) :=
  installed.reverse.find? (·.isGood)

/-- A workspace that holds no analysis, such as a new one. -/
structure Blank (ws : Workspace M) : Prop where
  latest : ws.latest = none
  lastGood : ws.lastGood = none

/-- The slots hold one good analysis between them, and a project stands beside the
latest. -/
structure Settled (ws : Workspace M) : Prop where
  single : ∀ a, ws.latest = some a → a.isGood = true → ws.lastGood = none
  good : ∀ kept, ws.lastGood = some kept → kept.analysis.isGood = true
  resolved : ws.latest.isSome → ws.project.isSome

theorem readable_of_good {ws : Workspace M} {a : Analysis M} (hlatest : ws.latest = some a)
    (hgood : a.isGood = true) : ws.readable = some a := by
  rw [readable, hlatest, Option.filter_some_pos hgood, Option.some_or]

theorem readable_of_not_good {ws : Workspace M}
    (hlatest : ∀ a, ws.latest = some a → a.isGood = false) :
    ws.readable = ws.lastGood.map (·.analysis) := by
  have hnone : ws.latest.filter (·.isGood) = none := by
    rw [Option.filter_eq_none_iff]
    intro a ha
    rw [hlatest a ha]
    exact Bool.false_ne_true
  rw [readable, hnone, Option.none_or]

theorem Settled.isGood_of_readable {ws : Workspace M} (h : ws.Settled) {a : Analysis M}
    (hread : ws.readable = some a) : a.isGood = true := by
  rw [readable, Option.or_eq_some_iff] at hread
  obtain hlatest | ⟨-, hlast⟩ := hread
  · exact (Option.filter_eq_some_iff.mp hlatest).2
  · obtain ⟨kept, hkept, rfl⟩ := Option.map_eq_some_iff.mp hlast
    exact h.good kept hkept

theorem Blank.settled {ws : Workspace M} (h : ws.Blank) : ws.Settled where
  single a hlatest := by simp [h.latest] at hlatest
  good kept hkept := by simp [h.lastGood] at hkept
  resolved hsome := by simp [h.latest] at hsome

theorem Blank.readable {ws : Workspace M} (h : ws.Blank) : ws.readable = none := by
  rw [Workspace.readable, h.latest, h.lastGood]
  rfl

/-- Slots and project say all there is to say. -/
theorem Settled.of_same {ws ws' : Workspace M} (h : ws.Settled) (hlatest : ws'.latest = ws.latest)
    (hlast : ws'.lastGood = ws.lastGood) (hproject : ws.project.isSome → ws'.project.isSome) :
    ws'.Settled where
  single a ha hgood := by
    rw [hlast]
    exact h.single a (hlatest ▸ ha) hgood
  good kept hkept := h.good kept (hlast ▸ hkept)
  resolved hsome := hproject (h.resolved (hlatest ▸ hsome))

/-! ## Each operation -/

section Operations

variable {ws : Workspace M}

theorem retain_lastGood (ws : Workspace M) (previous : Analysis M) :
    (ws.retain previous).lastGood.map (·.analysis) = some previous := rfl

/-- A demotion keeps what can be read. -/
theorem lastGood_demote (ws : Workspace M) :
    ws.demoteLatestToLastGood.lastGood.map (·.analysis) = ws.readable := by
  unfold demoteLatestToLastGood
  cases hlatest : ws.latest with
  | none => exact (readable_of_not_good (by simp [hlatest])).symm
  | some a =>
    dsimp only
    by_cases hgood : a.isGood = true
    · rw [if_pos hgood, retain_lastGood, readable_of_good hlatest hgood]
    · rw [if_neg hgood, readable_of_not_good]
      intro b hb
      rw [hlatest] at hb
      cases hb
      exact Bool.eq_false_iff.mpr hgood

theorem lastGood_replaceLatest (ws : Workspace M) (a : Analysis M) :
    (ws.replaceLatest a).lastGood.map (·.analysis) =
      if a.isGood then none else ws.readable := by
  unfold replaceLatest
  split
  · rfl
  · rw [← lastGood_demote, demoteLatestToLastGood]
    cases ws.latest with
    | none => rfl
    | some previous =>
      dsimp only
      split
      · rfl
      · rfl

theorem lastGood_install (ws : Workspace M) (project : Project M) (generation : Nat)
    (a : Analysis M) :
    (ws.install project generation a).lastGood.map (·.analysis) =
      if a.isGood then none else ws.readable := by
  obtain ⟨lastProgram, hlast⟩ : ∃ lastProgram,
      (if !M.modulesIsEmpty a.snapshot.program then { ws with lastProgram := some a } else ws) =
        { ws with lastProgram } := by
    split
    · exact ⟨_, rfl⟩
    · exact ⟨_, rfl⟩
  simp only [install, hlast]
  exact lastGood_replaceLatest { ws with lastProgram } a

theorem lastGood_invalidateAnalysis (ws : Workspace M) :
    ws.invalidateAnalysis.lastGood.map (·.analysis) = ws.readable :=
  lastGood_demote { ws with invalidationEpoch := ws.invalidationEpoch + 1 }

/-- The register after an operation, and the invariant it keeps. -/
def Registers (ws : Workspace M) (installed : Option (Analysis M)) (ws' : Workspace M) : Prop :=
  ws'.Settled ∧ ws'.readable = (installed.filter (·.isGood)).or ws.readable

theorem Settled.registers_same {ws' : Workspace M} (h : ws.Settled)
    (hlatest : ws'.latest = ws.latest) (hlast : ws'.lastGood = ws.lastGood)
    (hproject : ws.project.isSome → ws'.project.isSome) : ws.Registers none ws' := by
  refine ⟨h.of_same hlatest hlast hproject, ?_⟩
  rw [readable, hlatest, hlast]
  rfl

theorem Settled.registers_install (h : ws.Settled) {project : Project M}
    (hproject : ws.project = some project) (generation : Nat) (a : Analysis M) :
    ws.Registers (some a) (ws.install project generation a) := by
  have hlast := lastGood_install ws project generation a
  have hresolved : (ws.install project generation a).project.isSome = true := by
    rw [install_project, hproject]
    rfl
  by_cases hgood : a.isGood = true
  · rw [if_pos hgood, Option.map_eq_none_iff] at hlast
    refine ⟨⟨fun _ _ _ => hlast, ?_, fun _ => hresolved⟩, ?_⟩
    · intro kept hkept
      rw [hlast] at hkept
      cases hkept
    · rw [readable_of_good (install_latest ..) hgood, Option.filter_some_pos hgood,
        Option.some_or]
  · have hbad : ∀ b, (ws.install project generation a).latest = some b → b.isGood = false := by
      intro b hb
      rw [install_latest] at hb
      cases hb
      exact Bool.eq_false_iff.mpr hgood
    rw [if_neg hgood] at hlast
    refine ⟨⟨?_, ?_, fun _ => hresolved⟩, ?_⟩
    · intro b hb hgood'
      rw [hbad b hb] at hgood'
      cases hgood'
    · intro kept hkept
      rw [hkept, Option.map_some] at hlast
      exact h.isGood_of_readable hlast.symm
    · rw [readable_of_not_good hbad, hlast, Option.filter_some_neg (Bool.eq_false_iff.mpr hgood),
        Option.none_or]

theorem Settled.registers_invalidateAnalysis (h : ws.Settled) :
    ws.Registers none ws.invalidateAnalysis := by
  have hlast := lastGood_invalidateAnalysis ws
  refine ⟨⟨?_, ?_, ?_⟩, ?_⟩
  · intro a ha
    rw [invalidateAnalysis_latest] at ha
    cases ha
  · intro kept hkept
    rw [hkept, Option.map_some] at hlast
    exact h.isGood_of_readable hlast.symm
  · intro hsome
    rw [invalidateAnalysis_latest] at hsome
    cases hsome
  · rw [readable_of_not_good (by simp), hlast]
    rfl

/-- Only a good install writes the register. -/
theorem Settled.registers (h : ws.Settled) (operation : Operation M) :
    ws.Registers (ws.installedBy operation) (ws.perform operation) := by
  cases operation with
  | prepareRecompute w file documents scope =>
    obtain ⟨_, -, heq⟩ | ⟨project, _, -, heq, -, -⟩ :=
      ws.prepareRecompute_cases w file documents scope
    · rw [installedBy, perform, heq]
      exact h.registers_same rfl rfl id
    · rw [installedBy, perform, heq]
      exact h.registers_same rfl rfl fun _ => rfl
  | commitRecompute documentsGeneration capturedEpoch a =>
    obtain ⟨-, heq⟩ | ⟨project, -, hproject, heq⟩ :=
      ws.commitRecompute_cases documentsGeneration capturedEpoch a
    · rw [installedBy, perform, heq, if_neg Bool.false_ne_true]
      exact h.registers_same rfl rfl id
    · rw [installedBy, perform, heq, if_pos rfl]
      exact h.registers_install hproject documentsGeneration a
  | chooseReadSource file =>
    rw [installedBy, perform]
    obtain heq | heq := ws.chooseReadSource_workspace file
    · rw [heq]
      exact h.registers_same rfl rfl id
    · rw [heq]
      obtain heq | ⟨_, _, -, -, -, heq⟩ := ws.withBindingIndex_cases
      · rw [heq]
        exact h.registers_same rfl rfl id
      · rw [heq]
        exact h.registers_same rfl rfl id
  | invalidateAnalysis => exact h.registers_invalidateAnalysis

end Operations

/-! ## Runs -/

theorem recentGood_append (installed more : List (Analysis M)) :
    recentGood (installed ++ more) = (recentGood more).or (recentGood installed) := by
  rw [recentGood, List.reverse_append, List.find?_append]
  rfl

theorem recentGood_toList (installed : Option (Analysis M)) :
    recentGood installed.toList = installed.filter (·.isGood) := by
  cases installed with
  | none => rfl
  | some a =>
    cases hgood : a.isGood with
    | true => simp [recentGood, Option.filter, hgood]
    | false => simp [recentGood, Option.filter, hgood]

/-- What can be read after a run is the good analysis it installed last, and what could
be read before if it installed none. -/
theorem Settled.performAll {ws : Workspace M} (h : ws.Settled) (operations : List (Operation M)) :
    (ws.performAll operations).Settled ∧
      (ws.performAll operations).readable =
        (recentGood (ws.installs operations)).or ws.readable := by
  induction operations generalizing ws with
  | nil => exact ⟨h, rfl⟩
  | cons operation operations ih =>
    obtain ⟨hsettled, hread⟩ := h.registers operation
    obtain ⟨hlast, hlastRead⟩ := ih hsettled
    refine ⟨hlast, ?_⟩
    rw [Workspace.performAll, hlastRead, hread, installs, recentGood_append, recentGood_toList,
      Option.or_assoc]

/-! ## Reads -/

/-- A read is answered exactly when the readable analysis has the file, and from it. -/
theorem Settled.chooseReadSource {ws : Workspace M} (h : ws.Settled) (file : Path) :
    (∃ a source index, ws.readable = some a ∧ a.containsFile file = true ∧
      (ws.chooseReadSource file).1 = some source ∧
      (ws.chooseReadSource file).2.readFacts source = some (a, index)) ∨
    ((ws.chooseReadSource file).1 = none ∧
      ∀ a, ws.readable = some a → a.containsFile file = false) := by
  obtain ⟨a, hlatest, hgood, hfile, heq⟩ | ⟨kept, hlast, hfile, heq⟩ | heq :=
    ws.chooseReadSource_cases file
  · obtain ⟨project, hproject⟩ := Option.isSome_iff_exists.mp (h.resolved (by simp [hlatest]))
    have hfacts : ∃ index, ws.withBindingIndex.readFacts .latest = some (a, index) := by
      cases hindex : ws.bindingIndex with
      | none =>
        exact ⟨M.buildBindingIndex a.snapshot, by
          simp [withBindingIndex, readFacts, hindex, hlatest, hproject]⟩
      | some index => exact ⟨index, by simp [withBindingIndex, readFacts, hindex, hlatest]⟩
    obtain ⟨index, hindex⟩ := hfacts
    exact .inl ⟨a, .latest, index, readable_of_good hlatest hgood, hfile, by rw [heq], by
      rw [heq, hindex]⟩
  · have hbad : ∀ a, ws.latest = some a → a.isGood = false := by
      intro a hlatest
      apply Bool.eq_false_iff.mpr
      intro hgood
      rw [h.single a hlatest hgood] at hlast
      cases hlast
    refine .inl ⟨kept.analysis, .lastGood, kept.index, ?_, hfile, by rw [heq], ?_⟩
    · rw [readable_of_not_good hbad, hlast]
      rfl
    · rw [heq, readFacts, hlast]
      rfl
  · refine .inr ⟨by rw [heq], ?_⟩
    intro a hread
    apply Bool.eq_false_iff.mpr
    intro hfile
    rw [Workspace.chooseReadSource] at heq
    rw [readable, Option.or_eq_some_iff] at hread
    obtain hlatest | ⟨-, hlast⟩ := hread
    · obtain ⟨hlatest, hgood⟩ := Option.filter_eq_some_iff.mp hlatest
      simp [hlatest, hgood, hfile] at heq
    · obtain ⟨kept, hkept, rfl⟩ := Option.map_eq_some_iff.mp hlast
      rw [hkept, Option.any_some, hfile] at heq
      split at heq
      · cases heq
      · cases heq

/-- Once a good analysis with a file is installed, reads of the file are answered until a
good one without it is, and always from the good analysis with the file installed last. -/
theorem chooseReadSource_recent {ws : Workspace M} (hblank : ws.Blank)
    (operations : List (Operation M)) (file : Path) :
    (∀ before a after, ws.installs operations = before ++ a :: after → a.isGood = true →
      a.containsFile file = true → (∀ b ∈ after, b.isGood = true → b.containsFile file = true) →
      ((ws.performAll operations).chooseReadSource file).1.isSome) ∧
    ∀ source, ((ws.performAll operations).chooseReadSource file).1 = some source →
      ∃ a index before after,
        ((ws.performAll operations).chooseReadSource file).2.readFacts source = some (a, index) ∧
        a.isGood = true ∧ a.containsFile file = true ∧
        ws.installs operations = before ++ a :: after ∧
        ∀ b ∈ after, ¬(b.isGood = true ∧ b.containsFile file = true) := by
  obtain ⟨hsettled, hread⟩ := hblank.settled.performAll operations
  rw [hblank.readable, Option.or_none] at hread
  have hchoose := hsettled.chooseReadSource file
  constructor
  · intro before a after hinstalls hgood hfile hafter
    obtain ⟨_, source, _, -, -, hsource, -⟩ | ⟨-, hnone⟩ := hchoose
    · rw [hsource]
      rfl
    · -- The good analysis installed last is `a` or comes after it, so it has the file.
      have hrecent : ∃ b, recentGood (ws.installs operations) = some b ∧
          b.containsFile file = true := by
        rw [hinstalls, recentGood, List.reverse_append, List.reverse_cons, List.append_assoc,
          List.find?_append]
        cases hfind : after.reverse.find? (·.isGood) with
        | none => exact ⟨a, by simp [hgood], hfile⟩
        | some b =>
          have hmem := List.mem_reverse.mp (List.mem_of_find?_eq_some hfind)
          exact ⟨b, rfl, hafter b hmem (List.find?_some hfind)⟩
      obtain ⟨b, hb, hbfile⟩ := hrecent
      rw [hnone b (hread.trans hb)] at hbfile
      cases hbfile
  · intro source hsource
    obtain ⟨a, chosen, index, ha, hfile, hchosen, hfacts⟩ | ⟨hnone, -⟩ := hchoose
    · rw [hsource] at hchosen
      cases hchosen
      rw [ha] at hread
      obtain ⟨hgood, after, before, hinstalls, hafter⟩ :=
        List.find?_eq_some_iff_append.mp hread.symm
      refine ⟨a, index, before.reverse, after.reverse, hfacts, hgood, hfile, ?_, ?_⟩
      · rw [← List.reverse_reverse (ws.installs operations), hinstalls]
        simp
      · rintro b hb ⟨hbgood, -⟩
        have hnot := hafter b (List.mem_reverse.mp hb)
        rw [hbgood] at hnot
        cases hnot
    · rw [hnone] at hsource
      cases hsource

end Workspace

namespace Sample

/-- The analysis of the project `A` of `twins`. -/
def firstAnalysis : Analysis Marrow.sample where
  prepared :=
    { root := projectDir "A"
      config := ⟨['m'], false⟩
      sources := ∅
      accepted := none
      lock := none
      documentsGeneration := 0
      invalidationEpoch := 0
      sourceOnly := false }
  texts := sourceTexts twins.fs [app "A"] ∅

/-- `A` is analyzed, and then invalidated by the watcher. -/
def demotion : List (Workspace.Operation Marrow.sample) :=
  [.prepareRecompute twins (app "A") (Documents.new.analysisSnapshot Marrow.sample) .full,
    .commitRecompute 0 0 firstAnalysis, .invalidateAnalysis]

end Sample

namespace Workspace

open Sample in
theorem chooseReadSource_recent_demotion :
    (new.performAll demotion).latest.isNone ∧
      ((new.performAll demotion).chooseReadSource (app "A")).1.isSome :=
  ⟨by decide, (chooseReadSource_recent ⟨rfl, rfl⟩ demotion (app "A")).1 [] firstAnalysis [] rfl
    (by decide) (by decide) (by simp)⟩

end Workspace

end MarrowLsp
