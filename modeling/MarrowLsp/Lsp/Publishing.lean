-- SUMMARY: When no publish is lost: every recompute whose buffers have moved has another one of its project behind it.
import MarrowLsp.Lsp.EditorSteps

/-!
# Lost publishes

A change elsewhere moves the generation under a recompute and schedules none in its
place, so its publish is dropped and nothing publishes for it. Where every step finds
what it must, an outdated recompute always has another of its project to come.
-/
namespace MarrowLsp

open Transition

variable {M : Marrow}

namespace Server

variable {fs : Fs}

/-! ## The recomputes of a project, before and after -/

theorem live_iff {s : Server M} {task : Task} :
    s.live fs task = true ↔ ∀ root epoch, task.rootEpoch = some (root, epoch) →
      projectRootOf fs task.file = some root → s.tracker.epoch root = epoch := by
  unfold live
  cases task.rootEpoch with
  | none => simp
  | some rootEpoch =>
    obtain ⟨root, epoch⟩ := rootEpoch
    simp only [Option.all_some, DiagnosticsTracker.isStale, bne, Bool.not_not, Bool.or_eq_true,
      beq_iff_eq, Bool.not_eq_true', decide_eq_false_iff_not, Option.some.injEq, Prod.mk.injEq]
    constructor
    · rintro h _ _ ⟨rfl, rfl⟩ hproject
      exact h.resolve_right fun hnot => hnot hproject
    · intro h
      by_cases hproject : projectRootOf fs task.file = some root
      · exact .inl (h root epoch ⟨rfl, rfl⟩ hproject)
      · exact .inr hproject

/-- A sleeping recompute of a known root goes on while no other was asked of that root, one
of an unknown root while no other of an unknown root was scheduled. -/
theorem cancelled_eq_false_iff {s : Server M} {task : Task} :
    s.cancelled task = false ↔
      (∀ root epoch, task.rootEpoch = some (root, epoch) → s.tracker.epoch root = epoch) ∧
        (task.rootEpoch = none → ∀ seq, task.seq = some seq → s.editSeq = seq) := by
  unfold cancelled
  cases task.rootEpoch with
  | some rootEpoch =>
    obtain ⟨root, epoch⟩ := rootEpoch
    simp only [DiagnosticsTracker.isStale, bne_eq_false_iff_eq, Option.some.injEq, Prod.mk.injEq,
      reduceCtorEq, false_implies, and_true]
    constructor
    · rintro h _ _ ⟨rfl, rfl⟩
      exact h
    · intro h
      exact h root epoch ⟨rfl, rfl⟩
  | none =>
    cases task.seq with
    | none => simp
    | some seq => simp

theorem live_of_not_cancelled {s : Server M} {task : Task} (h : s.cancelled task = false) :
    s.live fs task = true :=
  live_iff.mpr fun root epoch hroot _ => (cancelled_eq_false_iff.mp h).1 root epoch hroot

theorem live_congr {s t : Server M} {task : Task}
    (hepoch : ∀ root epoch, task.rootEpoch = some (root, epoch) →
      projectRootOf fs task.file = some root → t.tracker.epoch root = s.tracker.epoch root) :
    t.live fs task = s.live fs task := by
  rw [Bool.eq_iff_iff, live_iff, live_iff]
  refine forall₃_congr fun root epoch hroot => forall_congr' fun hproject => ?_
  rw [hepoch root epoch hroot hproject]

theorem mem_uncaptured {s : Server M} {task : Task} :
    task ∈ s.uncaptured fs ↔ (task ∈ s.sleeping ∧ s.cancelled task = false) ∨
      task ∈ s.awake ∧ s.live fs task = true := by
  simp [uncaptured]

theorem mem_waitingCurrent {s : Server M} {task : Task} :
    task ∈ s.waitingCurrent fs ↔ ∃ x ∈ s.waiting,
      (s.documents.matchesGeneration x.documents = true ∧ s.live fs x.task = true) ∧
        x.task = task := by
  simp [waitingCurrent, and_assoc]

theorem mem_runningCurrent {s : Server M} {task : Task} :
    task ∈ s.runningCurrent fs ↔ ∃ r, s.running = some r ∧
      (s.documents.matchesGeneration r.documents = true ∧ s.live fs r.task = true) ∧
        r.task = task := by
  cases hr : s.running with
  | none => simp [runningCurrent, hr]
  | some r => simp [runningCurrent, hr, Option.filter]

section Live

variable {s t : Server M} {task : Task}

theorem mem_waitingCurrent_of_live (h : task ∈ s.waitingCurrent fs)
    (hlive : t.live fs task = s.live fs task) (hwaiting : ∀ x ∈ s.waiting, x ∈ t.waiting)
    (hdocuments : t.documents = s.documents) : task ∈ t.waitingCurrent fs := by
  obtain ⟨x, hx, ⟨hmatch, hlives⟩, rfl⟩ := mem_waitingCurrent.mp h
  exact mem_waitingCurrent.mpr ⟨x, hwaiting x hx, ⟨by rwa [hdocuments], by rwa [hlive]⟩, rfl⟩

theorem mem_runningCurrent_of_live (h : task ∈ s.runningCurrent fs)
    (hlive : t.live fs task = s.live fs task) (hrunning : t.running = s.running)
    (hdocuments : t.documents = s.documents) : task ∈ t.runningCurrent fs := by
  obtain ⟨r, hr, ⟨hmatch, hlives⟩, rfl⟩ := mem_runningCurrent.mp h
  rw [← hrunning] at hr
  exact mem_runningCurrent.mpr ⟨r, hr, ⟨by rwa [hdocuments], by rwa [hlive]⟩, rfl⟩

end Live

theorem mem_captured {s : Server M} {task : Task} :
    task ∈ s.captured ↔ (∃ x ∈ s.waiting, x.task = task) ∨
      ∃ r, s.running = some r ∧ r.task = task := by
  simp [captured, Option.mem_toList]

theorem mem_outdated {s : Server M} {task : Task} :
    task ∈ s.outdated ↔
      (∃ x ∈ s.waiting, s.documents.matchesGeneration x.documents = false ∧ x.task = task) ∨
        ∃ r, s.running = some r ∧ s.documents.matchesGeneration r.documents = false ∧
          r.task = task := by
  cases hr : s.running with
  | none => simp [outdated, hr, and_assoc]
  | some r => simp [outdated, hr, and_assoc, Option.filter]

theorem Awaits.mono {s t : Server M} {root : Path} (h : Awaits fs s root)
    (hhandled : (s.handling.bind (·.file)).bind (projectRootOf fs) = some root → Awaits fs t root)
    (huncaptured : ∀ task ∈ s.uncaptured fs, projectRootOf fs task.file = some root →
      task ∈ t.uncaptured fs ∨ task ∈ t.waitingCurrent fs)
    (hwaiting : ∀ task ∈ s.waitingCurrent fs, projectRootOf fs task.file = some root →
      task ∈ t.waitingCurrent fs) : Awaits fs t root := by
  rcases h with hold | hold | hold
  · exact hhandled hold
  · obtain ⟨task, hmem, hroot⟩ := mem_projects.mp hold
    rcases huncaptured task hmem hroot with hnew | hnew
    · exact .inr (.inl (mem_projects.mpr ⟨task, hnew, hroot⟩))
    · exact .inr (.inr (mem_projects.mpr ⟨task, hnew, hroot⟩))
  · obtain ⟨task, hmem, hroot⟩ := mem_projects.mp hold
    exact .inr (.inr (mem_projects.mpr ⟨task, hwaiting task hmem hroot, hroot⟩))

theorem shown_mono {s t : Server M} {root : Path} (h : s.shown fs root = true)
    (hpublished : t.published.find? (concerns fs root) = s.published.find? (concerns fs root))
    (hbuffers : buffersOf fs root (t.documents.analysisSnapshot M) =
      buffersOf fs root (s.documents.analysisSnapshot M)) : t.shown fs root = true := by
  unfold shown
  rw [hpublished, hbuffers]
  exact h

/-- What was shown last for the current buffers is the diagnostics of an analysis of them. -/
theorem upToDate_of_shown {s : Server M} (hreach : Reachable step new s) {root : Path}
    (h : s.shown fs root = true) : UpToDate fs s root := by
  unfold shown at h
  split at h
  · next r a documents sent hfind =>
    have hconcerns := List.find?_some hfind
    obtain rfl : r = root := of_decide_eq_true hconcerns
    obtain ⟨hroot, hfrom, tracker, hsends⟩ :=
      sends_of_reachable hreach (List.mem_of_find?_eq_some hfind)
    exact ⟨a, documents, sent, tracker, hfind, hsends, hroot, hfrom, of_decide_eq_true h⟩
  · cases h

/-- Clears of one project say nothing about the others. -/
theorem ClearsOnly.find {project : Option Path} {before after : List (Publish M)}
    (h : ClearsOnly fs project before after) {root : Path} (hne : project ≠ some root) :
    after.find? (concerns fs root) = before.find? (concerns fs root) := by
  rcases h with rfl | ⟨url, rfl, hurl⟩
  · rfl
  · rw [List.find?_cons_of_neg]
    simpa [concerns, hurl] using hne

/-! ## No publish is lost -/

/-- Every recompute whose buffers have moved has another of its project to come, and every
project with open buffers is shown as it is, has one to come or has one under way. -/
structure Kept (fs : Fs) (s : Server M) : Prop where
  outdated : ∀ root ∈ projects fs s.outdated, Awaits fs s root
  opened : ∀ root, buffersOf fs root (s.documents.analysisSnapshot M) ≠ [] →
    s.shown fs root = true ∨ Awaits fs s root ∨ root ∈ projects fs (s.runningCurrent fs)

theorem kept_new : (new : Server M).Kept fs := by
  refine ⟨?_, ?_⟩
  · intro root h
    cases h
  · intro root h
    exact absurd rfl h

/-- What a step that changes no buffer has to keep. -/
theorem Kept.mono {s t : Server M} (h : s.Kept fs) (hdocuments : t.documents = s.documents)
    (houtdated : ∀ task ∈ t.outdated, task ∈ s.outdated)
    (hawaits : ∀ root, Awaits fs s root → Awaits fs t root)
    (hshown : ∀ root, s.shown fs root = true → t.shown fs root = true)
    (hrunning : ∀ root ∈ projects fs (s.runningCurrent fs), t.shown fs root = true ∨
      Awaits fs t root ∨ root ∈ projects fs (t.runningCurrent fs)) : t.Kept fs := by
  refine ⟨?_, ?_⟩
  · intro root hroot
    exact hawaits root (h.outdated root (projects_mono houtdated hroot))
  · intro root hbuffers
    rw [hdocuments] at hbuffers
    rcases h.opened root hbuffers with hsame | haw | hrun
    · exact .inl (hshown root hsame)
    · exact .inr (.inl (hawaits root haw))
    · exact hrunning root hrun

section Scheduled

variable {s : Server M} {known : Option Path}

theorem needs_eq_false_iff {root : Path} : s.needs fs known root = false ↔
    root ∉ projects fs s.outdated ∧
      (buffersOf fs root (s.documents.analysisSnapshot M) = [] ∨ s.shown fs root = true ∨
        root ∈ projects fs (s.keptRunning fs known)) := by
  simp only [needs, Bool.or_eq_false_iff, decide_eq_false_iff_not, Bool.and_eq_false_iff,
    Bool.not_eq_false', List.isEmpty_iff, decide_eq_true_eq, or_assoc]

/-- A live recompute to come is replaced or kept by another. -/
theorem replaced_or_kept {task : Task}
    (h : task ∈ s.uncaptured fs ∨ task ∈ s.waitingCurrent fs) :
    task ∈ s.replaced fs known ∨ task ∈ s.kept fs known := by
  unfold replaced kept
  simp only [List.mem_append, List.mem_filter, Bool.and_eq_true, decide_eq_true_eq,
    Bool.not_eq_true', decide_eq_false_iff_not]
  rcases h with h | h
  · rcases mem_uncaptured.mp h with ⟨hmem, hnot⟩ | ⟨hmem, hlive⟩
    · by_cases hasked : task.rootEpoch.map (·.1) = known
      · exact .inl (.inl ⟨hmem, hasked, hnot⟩)
      · exact .inr (.inl ⟨hmem, hasked, hnot⟩)
    · cases hreplaces : replaces fs known task with
      | true => exact .inl (.inr ⟨.inl (.inl ⟨hmem, hlive⟩), rfl⟩)
      | false => exact .inr (.inr ⟨.inl ⟨hmem, hlive⟩, rfl⟩)
  · cases hreplaces : replaces fs known task with
    | true => exact .inl (.inr ⟨.inl (.inr h), rfl⟩)
    | false => exact .inr (.inr ⟨.inr h, rfl⟩)

theorem replaced_or_keptRunning {task : Task} (h : task ∈ s.runningCurrent fs) :
    task ∈ s.replaced fs known ∨ task ∈ s.keptRunning fs known := by
  unfold replaced keptRunning
  simp only [List.mem_append, List.mem_filter, Bool.not_eq_true']
  cases hreplaces : replaces fs known task with
  | true => exact .inl (.inr ⟨.inr h, rfl⟩)
  | false => exact .inr ⟨h, rfl⟩

variable {t : Server M} (hepoch : ∀ root, known ≠ some root →
  t.tracker.epoch root = s.tracker.epoch root)
include hepoch

/-- A task that is not replaced keeps its epoch. -/
theorem live_of_not_replaces {task : Task} (h : replaces fs known task = false) :
    t.live fs task = s.live fs task := by
  refine live_congr fun root epoch hroot hproject => hepoch root ?_
  rintro rfl
  simp [replaces, hroot, hproject] at h

theorem not_cancelled_of_other (hseq : known.isSome = true → t.editSeq = s.editSeq) {task : Task}
    (hother : task.rootEpoch.map (·.1) ≠ known) (h : s.cancelled task = false) :
    t.cancelled task = false := by
  obtain ⟨hroots, hlast⟩ := cancelled_eq_false_iff.mp h
  refine cancelled_eq_false_iff.mpr ⟨fun root epoch hroot => ?_, fun hnone seq hsame => ?_⟩
  · rw [hepoch root fun hknown => hother (by rw [hroot, hknown]; rfl)]
    exact hroots root epoch hroot
  · have hknown : known.isSome = true := by
      cases known with
      | none => exact absurd (by rw [hnone]; rfl) hother
      | some root => rfl
    rw [hseq hknown]
    exact hlast hnone seq hsame

end Scheduled

/-- A handler schedules for its own project, and for the others what its recompute replaces
is not needed or not alone. -/
theorem Kept.scheduled {s : Server M} (h : s.Kept fs) {known : Option Path} {path : Path}
    {task : Task} {tracker : DiagnosticsTracker} {editSeq : Nat} {published : List (Publish M)}
    (hhandled : s.handling.bind (·.file) = some path) (htask : task.file = path)
    (hfresh : cancelled { s with tracker, editSeq } task = false)
    (hepoch : ∀ root, known ≠ some root → tracker.epoch root = s.tracker.epoch root)
    (hseq : known.isSome = true → editSeq = s.editSeq)
    (hkept : ∀ root ∈ projects fs (s.replaced fs known), projectRootOf fs path = some root ∨
      s.needs fs known root = false ∨ root ∈ projects fs (s.kept fs known))
    (hpublished : ClearsOnly fs (projectRootOf fs path) s.published published) :
    Kept fs
      { s with
        handling := none
        tracker
        editSeq
        sleeping := s.sleeping ++ [task]
        published } := by
  generalize ht : ({ s with
    handling := none
    tracker
    editSeq
    sleeping := s.sleeping ++ [task]
    published } : Server M) = t
  have hepoch' : ∀ root, known ≠ some root → t.tracker.epoch root = s.tracker.epoch root := by
    rw [← ht]
    exact hepoch
  have hseq' : known.isSome = true → t.editSeq = s.editSeq := by
    rw [← ht]
    exact hseq
  have hown : ∀ root, projectRootOf fs path = some root → Awaits fs t root := by
    intro root hroot
    refine .inr (.inl (mem_projects.mpr ⟨task, ?_, by rw [htask, hroot]⟩))
    subst ht
    exact mem_uncaptured.mpr (.inl ⟨List.mem_append_right _ (List.mem_singleton_self _), hfresh⟩)
  have hstays : ∀ root ∈ projects fs (s.kept fs known), Awaits fs t root := by
    intro root hroot
    obtain ⟨other, hmem, hproject⟩ := mem_projects.mp hroot
    unfold kept at hmem
    simp only [List.mem_append, List.mem_filter, Bool.and_eq_true, Bool.not_eq_true',
      decide_eq_false_iff_not] at hmem
    rcases hmem with ⟨hmem, hother, hnot⟩ | ⟨⟨hmem, hlive⟩ | hmem, hreplaces⟩
    · refine .inr (.inl (mem_projects.mpr ⟨other, mem_uncaptured.mpr (.inl ⟨?_, ?_⟩), hproject⟩))
      · rw [← ht]
        exact List.mem_append_left _ hmem
      · exact not_cancelled_of_other hepoch' hseq' hother hnot
    · refine .inr (.inl (mem_projects.mpr ⟨other, mem_uncaptured.mpr (.inr ⟨?_, ?_⟩), hproject⟩))
      · rw [← ht]
        exact hmem
      · rw [live_of_not_replaces hepoch' hreplaces]
        exact hlive
    · refine .inr (.inr (mem_projects.mpr ⟨other, ?_, hproject⟩))
      exact mem_waitingCurrent_of_live hmem (live_of_not_replaces hepoch' hreplaces)
        (by rw [← ht]; exact fun _ => id) (by rw [← ht])
  have hruns : ∀ root ∈ projects fs (s.keptRunning fs known),
      root ∈ projects fs (t.runningCurrent fs) := by
    intro root hroot
    obtain ⟨other, hmem, hproject⟩ := mem_projects.mp hroot
    obtain ⟨hmem, hreplaces⟩ := List.mem_filter.mp hmem
    rw [Bool.not_eq_true'] at hreplaces
    refine mem_projects.mpr ⟨other, ?_, hproject⟩
    exact mem_runningCurrent_of_live hmem (live_of_not_replaces hepoch' hreplaces)
      (by rw [← ht]) (by rw [← ht])
  have hshown : ∀ root, projectRootOf fs path ≠ some root → s.shown fs root = true →
      t.shown fs root = true := by
    intro root hne hsame
    subst ht
    exact shown_mono hsame (hpublished.find hne) rfl
  -- What is to come for a project stays, unless the handler's recompute replaces it.
  have hawaits : ∀ root, root ∉ projects fs (s.replaced fs known) → Awaits fs s root →
      Awaits fs t root := by
    intro root hnot haw
    have hleft {other : Task} (hmem : other ∈ s.uncaptured fs ∨ other ∈ s.waitingCurrent fs)
        (hproject : projectRootOf fs other.file = some root) : Awaits fs t root := by
      rcases @replaced_or_kept M fs s known other hmem with hreplaced | hother
      · exact absurd (mem_projects.mpr ⟨other, hreplaced, hproject⟩) hnot
      · exact hstays root (mem_projects.mpr ⟨other, hother, hproject⟩)
    rcases haw with hsame | hmem | hmem
    · rw [hhandled, Option.bind_some] at hsame
      exact hown root hsame
    · obtain ⟨other, hmem, hproject⟩ := mem_projects.mp hmem
      exact hleft (.inl hmem) hproject
    · obtain ⟨other, hmem, hproject⟩ := mem_projects.mp hmem
      exact hleft (.inr hmem) hproject
  refine ⟨?_, ?_⟩
  · intro root hroot
    have hold : root ∈ projects fs s.outdated := by
      rw [← ht] at hroot
      exact hroot
    by_cases hreplaced : root ∈ projects fs (s.replaced fs known)
    · rcases hkept root hreplaced with hroot | hnot | hother
      · exact hown root hroot
      · exact absurd hold (needs_eq_false_iff.mp hnot).1
      · exact hstays root hother
    · exact hawaits root hreplaced (h.outdated root hold)
  · intro root hbuffers
    have hbuffers' : buffersOf fs root (s.documents.analysisSnapshot M) ≠ [] := by
      rw [← ht] at hbuffers
      exact hbuffers
    by_cases hproject : projectRootOf fs path = some root
    · exact .inr (.inl (hown root hproject))
    · by_cases hreplaced : root ∈ projects fs (s.replaced fs known)
      · rcases hkept root hreplaced with hroot | hnot | hother
        · exact absurd hroot hproject
        · rcases (needs_eq_false_iff.mp hnot).2 with hnone | hsame | hrun
          · exact absurd hnone hbuffers'
          · exact .inl (hshown root hproject hsame)
          · exact .inr (.inr (hruns root hrun))
        · exact .inr (.inl (hstays root hother))
      · rcases h.opened root hbuffers' with hsame | haw | hrun
        · exact .inl (hshown root hproject hsame)
        · exact .inr (.inl (hawaits root hreplaced haw))
        · obtain ⟨other, hmem, hroot⟩ := mem_projects.mp hrun
          rcases @replaced_or_keptRunning M fs s known other hmem with hgone | hother
          · exact absurd (mem_projects.mpr ⟨other, hgone, hroot⟩) hreplaced
          · exact .inr (.inr (hruns root (mem_projects.mpr ⟨other, hother, hroot⟩)))

theorem Kept.nothing {s : Server M} (h : s.Kept fs) {published : List (Publish M)}
    (hhandled : s.handling.bind (·.file) = none) (hpublished : ClearsOnly fs none s.published published) :
    Kept fs { s with handling := none, published } := by
  refine h.mono rfl (fun other hmem => hmem) ?_ ?_ ?_
  · intro root haw
    refine haw.mono ?_ (fun other hmem _ => .inl hmem) fun other hmem _ => hmem
    intro hsame
    rw [hhandled] at hsame
    cases hsame
  · intro root hsame
    exact shown_mono hsame (hpublished.find (by simp)) rfl
  · intro root hrun
    exact .inr (.inr hrun)

theorem Kept.preflight {s : Server M} (h : s.Kept fs) {i : Nat} {task : Task}
    (htask : s.sleeping[i]? = some task) : Kept fs (s.preflight i task) := by
  obtain ⟨awake, hframe⟩ := s.preflight_frame i task
  have huncaptured : ∀ other ∈ s.uncaptured fs, other ∈ (s.preflight i task).uncaptured fs := by
    intro other hmem
    unfold Server.preflight
    dsimp only
    rcases mem_uncaptured.mp hmem with ⟨hsleeping, hnot⟩ | ⟨hawake, hlive⟩
    · rcases mem_or_mem_eraseIdx htask hsleeping with rfl | hleft
      · rw [hnot]
        have hlive := @live_of_not_cancelled M fs s other hnot
        exact mem_uncaptured.mpr (.inr ⟨List.mem_append_right _ (List.mem_singleton_self _), hlive⟩)
      · split
        · exact mem_uncaptured.mpr (.inl ⟨hleft, hnot⟩)
        · exact mem_uncaptured.mpr (.inl ⟨hleft, hnot⟩)
    · split
      · exact mem_uncaptured.mpr (.inr ⟨hawake, hlive⟩)
      · exact mem_uncaptured.mpr (.inr ⟨List.mem_append_left _ hawake, hlive⟩)
  rw [hframe] at huncaptured ⊢
  refine h.mono rfl (fun other hmem => hmem) ?_ ?_ ?_
  · intro root haw
    exact haw.mono (fun hsame => .inl hsame) (fun other hmem _ => .inl (huncaptured other hmem))
      fun other hmem _ => hmem
  · intro root hsame
    exact hsame
  · intro root hrun
    exact .inr (.inr hrun)

theorem Kept.capture {s : Server M} (h : s.Kept fs) {i : Nat} {task : Task}
    (htask : s.awake[i]? = some task) : Kept fs (s.capture i task) := by
  refine h.mono rfl ?_ ?_ ?_ ?_
  · intro other hmem
    rcases mem_outdated.mp hmem with ⟨x, hx, hmoved, rfl⟩ | hrun
    · rcases List.mem_append.mp hx with hold | hnew
      · exact mem_outdated.mpr (.inl ⟨x, hold, hmoved, rfl⟩)
      · rw [List.mem_singleton] at hnew
        rw [hnew] at hmoved
        exact absurd rfl (Documents.matchesGeneration_eq_false_iff.mp hmoved)
    · exact mem_outdated.mpr (.inr hrun)
  · intro root haw
    refine haw.mono (fun hsame => .inl hsame) ?_ ?_
    · intro other hmem _
      rcases mem_uncaptured.mp hmem with hsleeping | ⟨hawake, hlive⟩
      · exact .inl (mem_uncaptured.mpr (.inl hsleeping))
      · rcases mem_or_mem_eraseIdx htask hawake with rfl | hleft
        · refine .inr (mem_waitingCurrent.mpr ⟨⟨other, s.documents.analysisSnapshot M⟩, ?_, ?_, rfl⟩)
          · exact List.mem_append_right _ (List.mem_singleton_self _)
          · exact ⟨Documents.matchesGeneration_iff.mpr rfl, hlive⟩
        · exact .inl (mem_uncaptured.mpr (.inr ⟨hleft, hlive⟩))
    · intro other hmem _
      obtain ⟨x, hx, hcurrent, rfl⟩ := mem_waitingCurrent.mp hmem
      exact mem_waitingCurrent.mpr ⟨x, List.mem_append_left _ hx, hcurrent, rfl⟩
  · intro root hsame
    exact hsame
  · intro root hrun
    exact .inr (.inr hrun)

theorem Kept.dismissed {s : Server M} (h : s.Kept fs) {i : Nat} {x : Waiting}
    (hx : s.waiting[i]? = some x) (hnone : projectRootOf fs x.task.file = none) :
    Kept fs { s with waiting := s.waiting.eraseIdx i } := by
  refine h.mono rfl ?_ ?_ ?_ ?_
  · intro other hmem
    rcases mem_outdated.mp hmem with ⟨y, hy, hmoved, rfl⟩ | hrun
    · exact mem_outdated.mpr (.inl ⟨y, List.mem_of_mem_eraseIdx hy, hmoved, rfl⟩)
    · exact mem_outdated.mpr (.inr hrun)
  · intro root haw
    refine haw.mono (fun hsame => .inl hsame) (fun other hmem _ => .inl hmem) ?_
    intro other hmem hproject
    obtain ⟨y, hy, hcurrent, rfl⟩ := mem_waitingCurrent.mp hmem
    rcases mem_or_mem_eraseIdx hx hy with rfl | hleft
    · rw [hnone] at hproject
      cases hproject
    · exact mem_waitingCurrent.mpr ⟨y, hleft, hcurrent, rfl⟩
  · intro root hsame
    exact hsame
  · intro root hrun
    exact .inr (.inr hrun)

/-- A prepared run is under way for its project; the condition looks after the outdated
recomputes that wait. -/
theorem Kept.prepared {s : Server M} (h : s.Kept fs) {i : Nat} {x : Waiting}
    {workspace : Workspace M} {run : PreparedRecompute M} (hrunning : s.running = none)
    (hx : s.waiting[i]? = some x)
    (hawaits : ∀ root ∈ projects fs (Server.outdated { s with waiting := s.waiting.eraseIdx i }),
      Awaits fs { s with waiting := s.waiting.eraseIdx i } root) :
    Kept fs
      { s with
        workspace
        waiting := s.waiting.eraseIdx i
        running := some ⟨x.task, x.documents, run, .prepared⟩ } := by
  -- What is to come is the same, but for the recompute that now runs.
  have hsplit : ∀ root, Awaits fs s root →
      Awaits fs { s with waiting := s.waiting.eraseIdx i } root ∨
        projectRootOf fs x.task.file = some root ∧
          s.documents.matchesGeneration x.documents = true ∧ s.live fs x.task = true := by
    rintro root (hsame | hmem | hmem)
    · exact .inl (.inl hsame)
    · exact .inl (.inr (.inl hmem))
    · obtain ⟨other, hother, hproject⟩ := mem_projects.mp hmem
      obtain ⟨y, hy, hcurrent, rfl⟩ := mem_waitingCurrent.mp hother
      rcases mem_or_mem_eraseIdx hx hy with rfl | hleft
      · exact .inr ⟨hproject, hcurrent⟩
      · exact .inl (.inr (.inr (mem_projects.mpr
          ⟨_, mem_waitingCurrent.mpr ⟨y, hleft, hcurrent, rfl⟩, hproject⟩)))
  refine ⟨?_, ?_⟩
  · intro root hroot
    obtain ⟨other, hmem, hproject⟩ := mem_projects.mp hroot
    rcases mem_outdated.mp hmem with hwaiting | ⟨r, hr, hmoved, rfl⟩
    · exact hawaits root (mem_projects.mpr ⟨other, mem_outdated.mpr (.inl hwaiting), hproject⟩)
    · cases hr
      have hold : root ∈ projects fs s.outdated := mem_projects.mpr
        ⟨x.task, mem_outdated.mpr (.inl ⟨x, List.mem_of_getElem? hx, hmoved, rfl⟩), hproject⟩
      rcases hsplit root (h.outdated root hold) with haw | ⟨-, hmatch, -⟩
      · exact haw
      · rw [show s.documents.matchesGeneration x.documents = false from hmoved] at hmatch
        cases hmatch
  · intro root hbuffers
    rcases h.opened root hbuffers with hsame | haw | hrun
    · exact .inl hsame
    · rcases hsplit root haw with haw | ⟨hproject, hmatch, hlive⟩
      · exact .inr (.inl haw)
      · exact .inr (.inr (mem_projects.mpr
          ⟨_, mem_runningCurrent.mpr ⟨_, rfl, ⟨hmatch, hlive⟩, rfl⟩, hproject⟩))
    · obtain ⟨other, hmem, -⟩ := mem_projects.mp hrun
      obtain ⟨r, hr, -⟩ := mem_runningCurrent.mp hmem
      rw [hrunning] at hr
      cases hr

theorem Kept.goes {s : Server M} (h : s.Kept fs) {r : Running M} {workspace : Workspace M}
    {stage : RunStage M} (hr : s.running = some r) :
    Kept fs { s with workspace, running := some { r with stage } } := by
  refine h.mono rfl ?_ (fun root haw => haw) ?_ ?_
  · intro other hmem
    rcases mem_outdated.mp hmem with hwaiting | ⟨r', hr', hmoved, rfl⟩
    · exact mem_outdated.mpr (.inl hwaiting)
    · cases hr'
      exact mem_outdated.mpr (.inr ⟨r, hr, hmoved, rfl⟩)
  · intro root hsame
    exact hsame
  · intro root hrun
    obtain ⟨other, hmem, hproject⟩ := mem_projects.mp hrun
    obtain ⟨r', hr', hcurrent, rfl⟩ := mem_runningCurrent.mp hmem
    rw [hr] at hr'
    cases hr'
    exact .inr (.inr (mem_projects.mpr
      ⟨_, mem_runningCurrent.mpr ⟨_, rfl, hcurrent, rfl⟩, hproject⟩))

/-- A run that ends without a publish was not the current one of its project. -/
theorem Kept.ended {s : Server M} (h : s.Kept fs) {r : Running M} (hr : s.running = some r)
    (hnot : s.documents.matchesGeneration r.documents = false ∨ s.live fs r.task = false) :
    Kept fs { s with running := none } := by
  refine h.mono rfl ?_ (fun root haw => haw) ?_ ?_
  · intro other hmem
    rcases mem_outdated.mp hmem with hwaiting | ⟨r', hr', -⟩
    · exact mem_outdated.mpr (.inl hwaiting)
    · cases hr'
  · intro root hsame
    exact hsame
  · intro root hrun
    obtain ⟨other, hmem, -⟩ := mem_projects.mp hrun
    obtain ⟨r', hr', ⟨hmatch, hlive⟩, rfl⟩ := mem_runningCurrent.mp hmem
    rw [hr] at hr'
    cases hr'
    rw [hmatch, hlive] at hnot
    rcases hnot with hnot | hnot <;> cases hnot

/-- A publish shows its project as it is and leaves the others as they were. -/
theorem Kept.published {s : Server M} (h : s.Kept fs) (hattributed : s.Attributed fs)
    (hcaptured : s.AllCaptured (CapturedBy M s.documents)) {r : Running M} {a : Analysis M}
    {sent : List PublishedDiagnostics} {tracker : DiagnosticsTracker} (hr : s.running = some r)
    (hmatch : s.documents.matchesGeneration r.documents = true)
    (hepoch : ∀ root, tracker.epoch root = s.tracker.epoch root) :
    Kept fs
      { s with
        tracker
        running := none
        published := .recompute r.run.root a r.documents sent :: s.published } := by
  generalize ht : ({ s with
    tracker
    running := none
    published := .recompute r.run.root a r.documents sent :: s.published } : Server M) = t
  have hdocuments : t.documents = s.documents := by rw [← ht]
  have hpublished :
      t.published = .recompute r.run.root a r.documents sent :: s.published := by rw [← ht]
  have hepochs : ∀ root, t.tracker.epoch root = s.tracker.epoch root := by
    rw [← ht]
    exact hepoch
  have hlive : ∀ task, t.live fs task = s.live fs task :=
    fun task => live_congr fun root _ _ _ => hepochs root
  have hcancelled : ∀ task, s.cancelled task = false → t.cancelled task = false := by
    intro task hnot
    obtain ⟨hroots, hlast⟩ := cancelled_eq_false_iff.mp hnot
    refine cancelled_eq_false_iff.mpr ⟨fun root epoch hroot => ?_, by rw [← ht]; exact hlast⟩
    rw [hepochs root]
    exact hroots root epoch hroot
  -- The buffers the run has captured are the current ones.
  have hown : t.shown fs r.run.root = true := by
    have hsame := (hcaptured.running r hr).2 (Documents.matchesGeneration_iff.mp hmatch).symm
    have hconcerns : concerns (M := M) fs r.run.root
        (.recompute r.run.root a r.documents sent) = true := decide_eq_true rfl
    unfold shown
    rw [hpublished, List.find?_cons_of_pos hconcerns, hdocuments, hsame]
    exact decide_eq_true rfl
  refine h.mono hdocuments ?_ ?_ ?_ ?_
  · intro other hmem
    rw [← ht] at hmem
    rcases mem_outdated.mp hmem with hwaiting | ⟨r', hr', -⟩
    · exact mem_outdated.mpr (.inl hwaiting)
    · cases hr'
  · intro root haw
    refine haw.mono ?_ ?_ ?_
    · intro hsame
      rw [← ht]
      exact .inl hsame
    · intro other hmem _
      rcases mem_uncaptured.mp hmem with ⟨hsleeping, hnot⟩ | ⟨hawake, hlives⟩
      · refine .inl (mem_uncaptured.mpr (.inl ⟨?_, hcancelled other hnot⟩))
        rw [← ht]
        exact hsleeping
      · refine .inl (mem_uncaptured.mpr (.inr ⟨?_, (hlive other).trans hlives⟩))
        rw [← ht]
        exact hawake
    · intro other hmem _
      subst ht
      exact mem_waitingCurrent_of_live hmem (hlive other) (fun _ => id) rfl
  · intro root hsame
    by_cases hroot : r.run.root = root
    · rw [← hroot]
      exact hown
    · refine shown_mono hsame ?_ (by rw [hdocuments])
      rw [hpublished, List.find?_cons_of_neg]
      simpa [concerns] using hroot
  · intro root hrun
    obtain ⟨other, hmem, hproject⟩ := mem_projects.mp hrun
    obtain ⟨r', hr', -, rfl⟩ := mem_runningCurrent.mp hmem
    rw [hr] at hr'
    cases hr'
    rw [hattributed.running r hr] at hproject
    cases hproject
    exact .inl hown

/-- A change of the buffers of one project, which its handler is to schedule for. -/
theorem Kept.event {s : Server M} (h : s.Kept fs) {op : Documents.Op} {handling : Option Handling}
    (hfree : s.publishFree = true)
    (hfile : (handling.bind (·.file)).bind (projectRootOf fs) = projectOfUrl M fs op.url)
    (hspared : s.documents.moves op = true → ∀ root ∈ projects fs s.captured,
      projectOfUrl M fs op.url = some root ∨ root ∈ projects fs (s.uncaptured fs)) :
    Kept fs { s with documents := s.documents.apply op, handling } := by
  have hhandling := handling_of_publishFree hfree
  cases hmoves : s.documents.moves op with
  | false =>
    rw [Documents.apply_of_not_moves hmoves]
    refine h.mono rfl (fun other hmem => hmem) ?_ ?_ ?_
    · intro root haw
      refine haw.mono ?_ (fun other hmem _ => .inl hmem) fun other hmem _ => hmem
      intro hsame
      rw [hhandling] at hsame
      cases hsame
    · intro root hsame
      exact hsame
    · intro root hrun
      exact .inr (.inr hrun)
  | true =>
    -- Every captured recompute is of the event's project or has one behind it.
    have hcaptured : ∀ root ∈ projects fs s.captured,
        Awaits fs { s with documents := s.documents.apply op, handling } root := by
      intro root hroot
      rcases hspared hmoves root hroot with hown | hmem
      · exact .inl (hfile.trans hown)
      · exact .inr (.inl hmem)
    refine ⟨?_, ?_⟩
    · intro root hroot
      refine hcaptured root (projects_mono (fun other hmem => ?_) hroot)
      rcases mem_outdated.mp hmem with ⟨x, hx, -, rfl⟩ | ⟨r, hr, -, rfl⟩
      · exact mem_captured.mpr (.inl ⟨x, hx, rfl⟩)
      · exact mem_captured.mpr (.inr ⟨r, hr, rfl⟩)
    · intro root hbuffers
      by_cases hown : projectOfUrl M fs op.url = some root
      · exact .inr (.inl (.inl (hfile.trans hown)))
      · have hsame := buffersOf_apply s.documents op hown
        rw [hsame] at hbuffers
        rcases h.opened root hbuffers with hup | (hsame' | hmem | hmem) | hmem
        · exact .inl (shown_mono hup rfl hsame)
        · rw [hhandling] at hsame'
          cases hsame'
        · exact .inr (.inl (.inr (.inl hmem)))
        · refine .inr (.inl (hcaptured root (projects_mono (fun other hmem => ?_) hmem)))
          obtain ⟨x, hx, -, rfl⟩ := mem_waitingCurrent.mp hmem
          exact mem_captured.mpr (.inl ⟨x, hx, rfl⟩)
        · refine .inr (.inl (hcaptured root (projects_mono (fun other hmem => ?_) hmem)))
          obtain ⟨r, hr, -, rfl⟩ := mem_runningCurrent.mp hmem
          exact mem_captured.mpr (.inr ⟨r, hr, rfl⟩)

theorem Kept.step {s t : Server M} (h : s.Kept fs) (hattributed : s.Attributed fs)
    (hcaptured : s.AllCaptured (CapturedBy M s.documents))
    (hstep : s.KeptStep fs t) : t.Kept fs := by
  cases hstep with
  | event hfree hfile _ hspared => exact h.event hfree hfile hspared
  | scheduled hhandled htask hfresh hepoch hseq hkept hpublished =>
    exact h.scheduled hhandled htask hfresh hepoch hseq hkept hpublished
  | nothing hhandled hpublished => exact h.nothing hhandled hpublished
  | preflight htask => exact h.preflight htask
  | capture htask => exact h.capture htask
  | dismissed hx hnone => exact h.dismissed hx hnone
  | prepared hrunning hx _ _ _ hawaits => exact h.prepared hrunning hx hawaits
  | goes hr _ _ _ => exact h.goes hr
  | refused hr hmoved => exact h.ended hr (.inl hmoved)
  | stale hr hstale => exact h.ended hr (.inr hstale)
  | published hr hmatch hepoch => exact h.published hattributed hcaptured hr hmatch hepoch
  | indexed =>
    exact h.mono rfl (fun other hmem => hmem) (fun root haw => haw) (fun root hsame => hsame)
      fun root hrun => .inr (.inr hrun)

theorem kept_of_reaches {s : Server M}
    (h : Reaches step (fun s action => (s.assumes fs action && s.keepsPublishes fs action) = true)
      new s) : s.Attributed fs ∧ s.Kept fs := by
  induction h with
  | refl => exact ⟨attributed_new, kept_new⟩
  | @tail s t hreaches hlast ih =>
    obtain ⟨action, hok, hstep⟩ := hlast
    obtain ⟨hattributed, hkept⟩ := ih
    rw [Bool.and_eq_true] at hok
    have hreach := Reaches.reachable hreaches
    have hcoherent := coherent_of_reachable hreach
    have hcaptured := allCaptured_of_reachable hreach
    have hkeptStep := keptStep_of_step hcoherent hattributed hok.1 hok.2 hstep
    exact ⟨hattributed.step hcaptured hkeptStep, hkept.step hattributed hcaptured hkeptStep⟩

/-- Where nothing is scheduled or in flight, the project of every open document is shown as
it is. -/
theorem Kept.shown_of_quiet {s : Server M} (h : s.Kept fs) (hquiet : s.quiet = true)
    {document : OpenDocumentForAnalysis}
    (hdocument : document ∈ (s.documents.analysisSnapshot M).openDocuments) {root : Path}
    (hroot : projectRootOf fs document.path = some root) : s.shown fs root = true := by
  simp only [quiet, Bool.and_eq_true, List.isEmpty_iff, Option.isNone_iff_eq_none] at hquiet
  obtain ⟨⟨⟨⟨hsleeping, hawake⟩, hwaiting⟩, hrunning⟩, hhandling⟩ := hquiet
  -- Nothing is to come or under way, so only being shown is left.
  have hbuffers : buffersOf fs root (s.documents.analysisSnapshot M) ≠ [] :=
    List.ne_nil_of_mem (List.mem_filter.mpr ⟨hdocument, decide_eq_true hroot⟩)
  rcases h.opened root hbuffers with hsame | (hhandled | hmem | hmem) | hmem
  · exact hsame
  · rw [hhandling] at hhandled
    cases hhandled
  · rw [uncaptured, hsleeping, hawake] at hmem
    cases hmem
  · rw [waitingCurrent, hwaiting] at hmem
    cases hmem
  · rw [runningCurrent, hrunning] at hmem
    cases hmem

/-- A commit or publish that drops its run found the buffers moved. -/
theorem moved_of_dropped {s t : Server M} {action : Action M} (hcoherent : s.Coherent)
    (h : s.Attributed fs) (haction : action = .commit ∨ ∃ fs', action = .publish fs')
    (hstep : s.step action = some t) {r : Running M} (hr : s.running = some r)
    (hdropped : t.running = none) :
    s.documents.matchesGeneration r.documents = false ∧ t = { s with running := none } := by
  cases stepTo_of_step hstep with
  | commit hr' _ =>
    rw [hr] at hr'
    cases hr'
    rcases commit_of_attributed hr hcoherent h with hrefused | ⟨_, heq⟩
    · exact hrefused
    · rw [heq] at hdropped
      cases hdropped
  | publish hr' hstage _ =>
    rw [hr] at hr'
    cases hr'
    rcases publish_of_attributed _ hr hstage hcoherent h with hrefused | ⟨-, _, heq⟩
    · exact hrefused
    · rw [heq] at hdropped
      cases hdropped
  | _ => rcases haction with haction | ⟨_, haction⟩ <;> cases haction

/-- In a run whose steps all meet the condition, whenever a commit or publish drops a
recompute because the generation has moved on, another of its project is to come with the
newer buffers; and when nothing is scheduled or in flight any more, the last diagnostics
published for each project with an open document are those of its current buffers. -/
theorem no_publish_lost {s : Server M}
    (h : Reaches step (fun s action => (s.assumes fs action && s.keepsPublishes fs action) = true)
      new s) :
    (∀ action t r, (action = .commit ∨ ∃ fs', action = .publish fs') →
      s.step action = some t → s.running = some r → t.running = none →
        ∃ root, projectRootOf fs r.task.file = some root ∧ Awaits fs t root) ∧
    (s.quiet = true → ∀ document ∈ (s.documents.analysisSnapshot M).openDocuments, ∀ root,
      projectRootOf fs document.path = some root → UpToDate fs s root) := by
  obtain ⟨hattributed, hkept⟩ := kept_of_reaches h
  have hcoherent := coherent_of_reachable (Reaches.reachable h)
  refine ⟨?_, ?_⟩
  · intro action t r haction hstep hr hdropped
    obtain ⟨hmoved, ht⟩ := moved_of_dropped hcoherent hattributed haction hstep hr hdropped
    have hroot := hattributed.running r hr
    have houtdated : r.run.root ∈ projects fs s.outdated :=
      mem_projects.mpr ⟨r.task, mem_outdated.mpr (.inr ⟨r, hr, hmoved, rfl⟩), hroot⟩
    refine ⟨r.run.root, hroot, ?_⟩
    rw [ht]
    exact hkept.outdated _ houtdated
  · intro hquiet document hdocument root hroot
    exact upToDate_of_shown (Reaches.reachable h) (hkept.shown_of_quiet hquiet hdocument hroot)

end Server

/-! ## An edit elsewhere between commit and publish -/

namespace Sample

/-- The main file of `A` is opened, and an unsaved buffer while its analysis is committed. -/
def untitledMeanwhile : List (Action Marrow.sample) :=
  opened "A" ['x'] ++ [.preflight 0, .capture 0, .prepare twins 0, .analyze twins.fs, .commit,
    .didOpen ⟨"untitled:1"⟩ ['x'] 1, .publish twins.fs]

/-- Two projects are opened and analyzed one after the other. -/
def openedInTurn : List (Action Marrow.sample) :=
  opened "A" ['x'] ++ recomputed twins ++ opened "B" ['x'] ++ recomputed twins

end Sample

namespace Server

open Sample in
theorem no_publish_lost_openedInTurn : ∃ s : Server Marrow.sample,
    Reaches step (fun s action =>
      (s.assumes twins.fs action && s.keepsPublishes twins.fs action) = true) new s ∧
      s.quiet = true ∧ UpToDate twins.fs s (projectDir "A") := by
  have hrun : (run (guarded (fun (s : Server Marrow.sample) action =>
      s.assumes twins.fs action && s.keepsPublishes twins.fs action) step) new openedInTurn).any
      (fun s => s.quiet && (s.documents.analysisSnapshot Marrow.sample).openDocuments.any
        fun document => decide (projectRootOf twins.fs document.path = some (projectDir "A"))) =
      true := by
    decide
  obtain ⟨s, hs, hgood⟩ := (Option.any_eq_true _ _).mp hrun
  rw [Bool.and_eq_true] at hgood
  obtain ⟨document, hmem, hroot⟩ := List.any_eq_true.mp hgood.2
  have hreaches := reaches_of_run hs
  exact ⟨s, hreaches, hgood.1, (no_publish_lost hreaches).2 hgood.1 document hmem _
    (of_decide_eq_true hroot)⟩

open Sample in
/-- Opening an unsaved buffer drops the publish of `A`, and nothing of `A` is to come. -/
theorem publish_lost_untitledMeanwhile : ¬ ∀ s : Server Marrow.sample,
    Reaches step (fun s action => s.assumes twins.fs action = true) new s →
      s.quiet = true → ∀ document ∈ (s.documents.analysisSnapshot Marrow.sample).openDocuments,
        ∀ root, projectRootOf twins.fs document.path = some root → UpToDate twins.fs s root := by
  intro h
  have hrun : (run (guarded (fun (s : Server Marrow.sample) action =>
      s.assumes twins.fs action) step) new untitledMeanwhile).any
      (fun s => s.quiet && s.published.isEmpty &&
        (s.documents.analysisSnapshot Marrow.sample).openDocuments.any
          fun document => decide (projectRootOf twins.fs document.path = some (projectDir "A"))) =
      true := by
    decide
  obtain ⟨s, hs, hbad⟩ := (Option.any_eq_true _ _).mp hrun
  rw [Bool.and_eq_true, Bool.and_eq_true, List.isEmpty_iff] at hbad
  obtain ⟨⟨hquiet, hnothing⟩, hopen⟩ := hbad
  obtain ⟨document, hmem, hroot⟩ := List.any_eq_true.mp hopen
  obtain ⟨a, documents, sent, tracker, hfind, -⟩ :=
    h s (reaches_of_run hs) hquiet document hmem _ (of_decide_eq_true hroot)
  rw [hnothing] at hfind
  cases hfind

end Server

end MarrowLsp
