-- SUMMARY: Which recomputes a preflight check drops, and what was scheduled in their place.
import MarrowLsp.Core.Sample
import MarrowLsp.Lsp.Provenance
import MarrowLsp.Lsp.Scheduling

/-!
# The debounce

A recompute of a known root is dropped when the root's epoch has moved, one of an
unknown root when any recompute of an unknown root was scheduled after it. The
ledger keeps what was scheduled, and which deleted configs were cleared, in order;
a dropped recompute is followed there by what replaced it.
-/
namespace MarrowLsp

open Transition

variable {M : Marrow}

/-! ## What a handler schedules -/

/-- The scope of the recompute a handler at work schedules. -/
def Handling.scope : Handling → RecomputeScope
  | .edit _ scope => scope
  | .close .. | .watch .. | .watchAgain .. => .full

/-- The file it is for, where a notification names it. -/
def Handling.file : Handling → Option Path
  | .edit path _ => some path
  | .close _ path => path
  | .watch .. | .watchAgain .. => none

/-! ## What a batch schedules -/

/-- Every recompute of a batch is for the epoch its root has after the batch, and no
epoch moves back. -/
theorem WatchedRootEffects.add_schedules (versions : DocumentVersions) (currentRoot : Option Path)
    (drain : ClearRootDrain) (effects : WatchedRootEffects) (tracker : DiagnosticsTracker)
    (root : Path) (pending : PendingWatchedRoot) :
    let after := WatchedRootEffects.add versions currentRoot drain (effects, tracker) root pending
    tracker.epoch root ≤ after.2.epoch root ∧
      ∀ schedule ∈ after.1.schedules, schedule ∈ effects.schedules ∨
        schedule.rootEpoch = some (root, after.2.epoch root) := by
  unfold WatchedRootEffects.add
  cases hclear : pending.clearRoot with
  | true =>
    refine ⟨by simp, fun schedule hmem => ?_⟩
    rcases List.mem_append.mp hmem with hold | hnew
    · exact .inl hold
    · right
      split at hnew
      · rw [Option.mem_toList, Option.map_eq_some_iff] at hnew
        obtain ⟨path, -, rfl⟩ := hnew
        simp
      · cases hnew
  | false =>
    cases hpath : pending.recomputePath with
    | none =>
      refine ⟨?_, fun schedule hmem => .inl hmem⟩
      exact Nat.le_of_eq (epoch_clearDeleted versions root root tracker _).symm
    | some path =>
      refine ⟨by simp [epoch_clearDeleted], fun schedule hmem => ?_⟩
      rcases List.mem_append.mp hmem with hold | hnew
      · exact .inl hold
      · right
        rw [List.mem_singleton] at hnew
        rw [hnew]
        rfl

theorem watchedRootEffects_schedules (tracker : DiagnosticsTracker) (versions : DocumentVersions)
    (pending : PendingWatchedRoots) (currentRoot : Option Path) (drain : ClearRootDrain) :
    let after := watchedRootEffects tracker versions pending currentRoot drain
    (∀ root, tracker.epoch root ≤ after.2.epoch root) ∧
      ∀ schedule ∈ after.1.schedules, ∃ root,
        schedule.rootEpoch = some (root, after.2.epoch root) := by
  unfold watchedRootEffects
  obtain ⟨entries, hnodup⟩ := pending
  -- Along the entries: what was scheduled before is for a root whose entry is done.
  have hgeneral : ∀ (entries : List (Sigma fun _ : Path => PendingWatchedRoot))
      (start : WatchedRootEffects × DiagnosticsTracker), entries.NodupKeys →
      (∀ schedule ∈ start.1.schedules, ∃ root, root ∉ entries.keys ∧
        schedule.rootEpoch = some (root, start.2.epoch root)) →
      let after := entries.foldl (fun before entry =>
        WatchedRootEffects.add versions currentRoot drain before entry.1 entry.2) start
      (∀ root, start.2.epoch root ≤ after.2.epoch root) ∧
        ∀ schedule ∈ after.1.schedules, ∃ root,
          schedule.rootEpoch = some (root, after.2.epoch root) := by
    intro entries
    induction entries with
    | nil =>
      intro start _ hstart
      refine ⟨fun root => Nat.le_refl _, fun schedule hmem => ?_⟩
      obtain ⟨root, -, hroot⟩ := hstart schedule hmem
      exact ⟨root, hroot⟩
    | cons first entries ih =>
      intro start hnodup hstart
      obtain ⟨r, p⟩ := first
      rw [List.nodupKeys_cons] at hnodup
      obtain ⟨hfresh, hnodup⟩ := hnodup
      obtain ⟨-, hother, -⟩ :=
        WatchedRootEffects.add_spec versions currentRoot drain start.1 start.2 r p
      obtain ⟨hle, hnew⟩ :=
        WatchedRootEffects.add_schedules versions currentRoot drain start.1 start.2 r p
      have hdone : ∀ schedule ∈
          (WatchedRootEffects.add versions currentRoot drain start r p).1.schedules,
          ∃ root, root ∉ entries.keys ∧ schedule.rootEpoch = some (root,
            (WatchedRootEffects.add versions currentRoot drain start r p).2.epoch root) := by
        intro schedule hmem
        rcases hnew schedule hmem with hold | hroot
        · obtain ⟨root, hnot, hroot⟩ := hstart schedule hold
          rw [List.keys_cons, List.mem_cons, not_or] at hnot
          refine ⟨root, hnot.2, ?_⟩
          rw [hroot, ← hother root hnot.1]
        · exact ⟨r, hfresh, hroot⟩
      obtain ⟨hmono, hrest⟩ := ih _ hnodup hdone
      refine ⟨fun root => Nat.le_trans ?_ (hmono root), hrest⟩
      by_cases hroot : root = r
      · rw [hroot]
        exact hle
      · exact Nat.le_of_eq (hother root hroot).symm
  exact hgeneral entries (.new, tracker) hnodup fun schedule hmem => by cases hmem

namespace Server

/-- The recompute a watched batch spawns. -/
def spawned (schedule : ScheduledRecompute) : Task := ⟨schedule.path, schedule.rootEpoch, none, .full⟩

theorem scheduleAll_known (s : Server M) {schedules : List ScheduledRecompute}
    (h : ∀ schedule ∈ schedules, schedule.rootEpoch.isSome = true) :
    s.scheduleAll schedules = { s with sleeping := s.sleeping ++ schedules.map spawned } := by
  induction schedules generalizing s with
  | nil => simp [scheduleAll]
  | cons first schedules ih =>
    obtain ⟨hfirst, hrest⟩ := List.forall_mem_cons.mp h
    obtain ⟨rootEpoch, hroot⟩ := Option.isSome_iff_exists.mp hfirst
    have hone : s.scheduleRecompute first.path first.rootEpoch .full =
        { s with sleeping := s.sleeping ++ [spawned first] } := by
      rw [hroot]
      simp [scheduleRecompute, spawned, hroot]
    rw [scheduleAll, List.foldl_cons, ← scheduleAll, hone, ih _ hrest]
    simp

/-! ## The ledger -/

/-- What moves a root's epoch or the edit sequence: a recompute was scheduled, or a
batch that found the analysis free saw the root's config deleted. -/
inductive Entry where
  | scheduled (task : Task)
  | configDeleted (root : Path)
  deriving DecidableEq, Repr

/-- The tasks a step spawns. -/
def newTasks (s : Server M) (action : Action M) : List Task :=
  match s.step action with
  | some t => t.sleeping.drop s.sleeping.length
  | none => []

/-- The roots whose config a step finds deleted, scheduling nothing for them. -/
def deletedConfigs (s : Server M) : Action M → List Path
  | .didChangeWatchedFiles _ false events =>
    let changes := watchedPathChanges M events
    (pendingWatchedRoots (freeEvents s.tracker
      (applyPendingWorkspaceInvalidation s.pending s.workspace) changes)).keys.filter
        (s.cancelledBy changes)
  | _ => []

/-- The ledger after a step. -/
def ledger (s : Server M) (action : Action M) (entries : List Entry) : List Entry :=
  entries ++ ((s.deletedConfigs action).map .configDeleted ++ (s.newTasks action).map .scheduled)

/-- After the task comes a recompute of its root for a later epoch, or the deletion of
the root's config. -/
def Replaced (entries : List Entry) (task : Task) (root : Path) (epoch : Nat) : Prop :=
  (∃ later epoch', later.rootEpoch = some (root, epoch') ∧ epoch < epoch' ∧
    [Entry.scheduled task, Entry.scheduled later].Sublist entries) ∨
  [Entry.scheduled task, Entry.configDeleted root].Sublist entries

/-- After the task, whose root was unknown, comes another such recompute. -/
def ReplacedUnknown (entries : List Entry) (task : Task) (seq : Nat) : Prop :=
  ∃ later seq', later.rootEpoch = none ∧ later.seq = some seq' ∧ seq < seq' ∧
    [Entry.scheduled task, Entry.scheduled later].Sublist entries

/-- Every sleeping task is in the ledger, and one that the tracker or the edit sequence
has left behind was replaced there. -/
structure Ledgered (s : Server M) (entries : List Entry) : Prop where
  sleeping : ∀ task ∈ s.sleeping, Entry.scheduled task ∈ entries
  known : ∀ task root epoch, Entry.scheduled task ∈ entries →
    task.rootEpoch = some (root, epoch) → epoch ≤ s.tracker.epoch root ∧
      (epoch < s.tracker.epoch root → Replaced entries task root epoch)
  unknown : ∀ task, Entry.scheduled task ∈ entries → task.rootEpoch = none →
    ∃ seq, task.seq = some seq ∧ seq ≤ s.editSeq ∧
      (seq < s.editSeq → ReplacedUnknown entries task seq)

theorem Replaced.append {entries more : List Entry} {task : Task} {root : Path} {epoch : Nat}
    (h : Replaced entries task root epoch) : Replaced (entries ++ more) task root epoch := by
  rcases h with ⟨later, epoch', hroot, hlt, hsub⟩ | hsub
  · exact .inl ⟨later, epoch', hroot, hlt, hsub.trans (List.sublist_append_left _ _)⟩
  · exact .inr (hsub.trans (List.sublist_append_left _ _))

theorem ReplacedUnknown.append {entries more : List Entry} {task : Task} {seq : Nat}
    (h : ReplacedUnknown entries task seq) : ReplacedUnknown (entries ++ more) task seq := by
  obtain ⟨later, seq', hroot, hseq, hlt, hsub⟩ := h
  exact ⟨later, seq', hroot, hseq, hlt, hsub.trans (List.sublist_append_left _ _)⟩

theorem pair_sublist_append {α : Type*} {front back : List α} {a b : α} (ha : a ∈ front)
    (hb : b ∈ back) : [a, b].Sublist (front ++ back) := by
  have hfront : [a].Sublist front := List.singleton_sublist.mpr ha
  have hback : [b].Sublist back := List.singleton_sublist.mpr hb
  exact hfront.append hback

/-! ## What a step spawns -/

/-- A step spawns `tasks`: each of a known root for the epoch that root has afterwards,
an epoch that moves is that of a task or of a deleted config, and at most one task has
no root. -/
structure Spawns (s t : Server M) (tasks : List Task) (deleted : List Path) : Prop where
  sleeping : t.sleeping = s.sleeping ++ tasks
  fresh : ∀ task ∈ tasks, ∀ root epoch, task.rootEpoch = some (root, epoch) →
    epoch = t.tracker.epoch root
  mono : ∀ root, s.tracker.epoch root ≤ t.tracker.epoch root
  moved : ∀ root, t.tracker.epoch root ≠ s.tracker.epoch root →
    root ∈ deleted ∨ ∃ task ∈ tasks, task.rootEpoch = some (root, t.tracker.epoch root)
  seq : (t.editSeq = s.editSeq ∧ ∀ task ∈ tasks, task.rootEpoch ≠ none) ∨
    t.editSeq = s.editSeq + 1 ∧ ∃ task, tasks = [task] ∧ task.rootEpoch = none ∧
      task.seq = some t.editSeq

theorem Spawns.newTasks {s t : Server M} {tasks : List Task} {deleted : List Path}
    {action : Action M} (h : s.Spawns t tasks deleted) (hstep : s.step action = some t) :
    s.newTasks action = tasks := by
  simp [Server.newTasks, hstep, h.sleeping]

/-- The ledger of a step that spawns. -/
theorem Ledgered.spawns {s t : Server M} {entries : List Entry} {tasks : List Task}
    {deleted : List Path} (h : s.Ledgered entries) (hspawns : s.Spawns t tasks deleted) :
    t.Ledgered (entries ++ (deleted.map .configDeleted ++ tasks.map .scheduled)) := by
  have hcases : ∀ task, Entry.scheduled task ∈
      entries ++ (deleted.map .configDeleted ++ tasks.map .scheduled) →
      Entry.scheduled task ∈ entries ∨ task ∈ tasks := by
    intro task hmem
    simpa using hmem
  have hadded : ∀ task ∈ tasks, Entry.scheduled task ∈
      deleted.map Entry.configDeleted ++ tasks.map Entry.scheduled := by
    intro task hmem
    simpa using hmem
  refine ⟨?_, ?_, ?_⟩
  · intro task hmem
    rw [hspawns.sleeping] at hmem
    rcases List.mem_append.mp hmem with hold | hnew
    · exact List.mem_append_left _ (h.sleeping task hold)
    · exact List.mem_append_right _ (hadded task hnew)
  · intro task root epoch hmem hroot
    rcases hcases task hmem with hold | hnew
    · obtain ⟨hle, hreplaced⟩ := h.known task root epoch hold hroot
      refine ⟨Nat.le_trans hle (hspawns.mono root), fun hlt => ?_⟩
      -- The task was left behind before the step, or the step has moved the epoch.
      by_cases hbefore : epoch < s.tracker.epoch root
      · exact (hreplaced hbefore).append
      · have hsame : epoch = s.tracker.epoch root := by omega
        rcases hspawns.moved root (by omega) with hdeleted | ⟨later, hlater, hepoch⟩
        · right
          refine pair_sublist_append hold (List.mem_append_left _ ?_)
          exact List.mem_map_of_mem hdeleted
        · exact .inl ⟨later, _, hepoch, hlt, pair_sublist_append hold (hadded later hlater)⟩
    · have hfresh := hspawns.fresh task hnew root epoch hroot
      exact ⟨Nat.le_of_eq hfresh, fun hlt => absurd hfresh (Nat.ne_of_lt hlt)⟩
  · intro task hmem hroot
    rcases hspawns.seq with ⟨hseq, hknown⟩ | ⟨hseq, added, rfl, haddedRoot, haddedSeq⟩
    · rcases hcases task hmem with hold | hnew
      · obtain ⟨seq, htask, hle, hreplaced⟩ := h.unknown task hold hroot
        rw [hseq]
        exact ⟨seq, htask, hle, fun hlt => (hreplaced hlt).append⟩
      · exact absurd hroot (hknown task hnew)
    · rcases hcases task hmem with hold | hnew
      · obtain ⟨seq, htask, hle, hreplaced⟩ := h.unknown task hold hroot
        refine ⟨seq, htask, by omega, fun hlt => ⟨added, _, haddedRoot, haddedSeq, hlt, ?_⟩⟩
        exact pair_sublist_append hold (hadded added (List.mem_singleton_self _))
      · rw [List.mem_singleton] at hnew
        subst hnew
        exact ⟨_, haddedSeq, Nat.le_refl _, fun hlt => absurd hlt (Nat.lt_irrefl _)⟩

/-- A step that spawns nothing and moves no epoch. -/
theorem Ledgered.quiet {s t : Server M} {entries : List Entry} (h : s.Ledgered entries)
    (hsleeping : ∀ task ∈ t.sleeping, task ∈ s.sleeping)
    (hepoch : ∀ root, t.tracker.epoch root = s.tracker.epoch root)
    (hseq : t.editSeq = s.editSeq) : t.Ledgered entries := by
  refine ⟨fun task hmem => h.sleeping task (hsleeping task hmem), ?_, ?_⟩
  · intro task root epoch hmem hroot
    rw [hepoch root]
    exact h.known task root epoch hmem hroot
  · intro task hmem hroot
    rw [hseq]
    exact h.unknown task hmem hroot

/-- One recompute of a known root, whose epoch moves. -/
theorem spawns_known {s t : Server M} {path root : Path} {scope : RecomputeScope}
    (hsleeping : t.sleeping =
      s.sleeping ++ [⟨path, some (root, t.tracker.epoch root), none, scope⟩])
    (hepoch : ∀ r, t.tracker.epoch r =
      if r = root then s.tracker.epoch root + 1 else s.tracker.epoch r)
    (hseq : t.editSeq = s.editSeq) :
    s.Spawns t [⟨path, some (root, t.tracker.epoch root), none, scope⟩] [] := by
  refine ⟨hsleeping, ?_, ?_, ?_, .inl ⟨hseq, ?_⟩⟩
  · intro task hmem r epoch hroot
    rw [List.mem_singleton] at hmem
    rw [hmem] at hroot
    cases hroot
    rfl
  · intro r
    rw [hepoch r]
    split
    · next hr =>
      rw [hr]
      exact Nat.le_succ _
    · exact Nat.le_refl _
  · intro r hmoved
    by_cases hr : r = root
    · rw [hr]
      exact .inr ⟨_, List.mem_singleton_self _, rfl⟩
    · exact absurd (by rw [hepoch r, if_neg hr]) hmoved
  · intro task hmem
    rw [List.mem_singleton] at hmem
    rw [hmem]
    simp

/-- One recompute of an unknown root. -/
theorem spawns_unknown {s t : Server M} {path : Path} {scope : RecomputeScope}
    (hsleeping : t.sleeping = s.sleeping ++ [⟨path, none, some (s.editSeq + 1), scope⟩])
    (hepoch : ∀ r, t.tracker.epoch r = s.tracker.epoch r) (hseq : t.editSeq = s.editSeq + 1) :
    s.Spawns t [⟨path, none, some (s.editSeq + 1), scope⟩] [] := by
  refine ⟨hsleeping, ?_, fun r => Nat.le_of_eq (hepoch r).symm, ?_, .inr ⟨hseq, _, rfl, rfl, ?_⟩⟩
  · intro task hmem r epoch hroot
    rw [List.mem_singleton] at hmem
    rw [hmem] at hroot
    cases hroot
  · intro r hmoved
    exact absurd (hepoch r) hmoved
  · rw [hseq]

theorem spawns_finishEdit (s : Server M) (busy : Bool) (path : Path) (scope : RecomputeScope) :
    ∃ tasks, s.Spawns (s.finishEdit busy path scope) tasks [] := by
  unfold finishEdit
  cases s.knownRoot busy path with
  | none => exact ⟨_, spawns_unknown rfl (fun r => rfl) rfl⟩
  | some root =>
    exact ⟨_, spawns_known rfl (fun r => DiagnosticsTracker.epoch_bumpRootEpoch _ root r) rfl⟩

theorem spawns_nothing {s t : Server M} {deleted : List Path} (hsleeping : t.sleeping = s.sleeping)
    (hepoch : ∀ r, t.tracker.epoch r = s.tracker.epoch r) (hseq : t.editSeq = s.editSeq) :
    s.Spawns t [] deleted := by
  refine ⟨by rw [hsleeping, List.append_nil], ?_, fun r => Nat.le_of_eq (hepoch r).symm, ?_,
    .inl ⟨hseq, ?_⟩⟩
  · intro task hmem
    cases hmem
  · intro r hmoved
    exact absurd (hepoch r) hmoved
  · intro task hmem
    cases hmem

theorem spawns_finishClose (s : Server M) (busy : Bool) (url : Url) (path : Option Path) :
    ∃ tasks, s.Spawns (s.finishClose busy url path) tasks [] := by
  unfold finishClose
  cases path with
  | none => exact ⟨_, spawns_nothing rfl (fun r => rfl) rfl⟩
  | some path =>
    rw [Option.bind_some]
    cases s.knownRoot busy path with
    | none => exact ⟨_, spawns_unknown rfl (fun r => rfl) rfl⟩
    | some root =>
      refine ⟨_, spawns_known rfl (fun r => ?_) rfl⟩
      show ((s.tracker.clearUrl root url).2.bumpRootEpoch root).epoch r = _
      simp only [DiagnosticsTracker.epoch_bumpRootEpoch, DiagnosticsTracker.epoch_clearUrl]

/-- A batch spawns its schedules, and leaves the deleted configs it found to nobody. -/
theorem spawns_carryOut {s t : Server M} {events : List WatchedProjectChange}
    {versions : DocumentVersions} {currentRoot : Option Path} {drain : ClearRootDrain}
    {deleted : List Path} (hsleeping : t.sleeping = s.sleeping) (hseq : t.editSeq = s.editSeq)
    (htracker : t.tracker = (watchedRootEffects s.tracker versions (pendingWatchedRoots events)
      currentRoot drain).2)
    (hdeleted : ∀ root ∈ events.map (·.root), root ∉ deleted → drain = .schedule ∨
      ((pendingWatchedRoots events).lookup root).any (·.clearRoot) = false) :
    ∃ tasks, s.Spawns (t.carryOut (watchedRootEffects s.tracker versions
      (pendingWatchedRoots events) currentRoot drain).1) tasks deleted := by
  obtain ⟨hmono, hschedules⟩ := watchedRootEffects_schedules s.tracker versions
    (pendingWatchedRoots events) currentRoot drain
  have hevents := fun root =>
    watchedRootEffects_events s.tracker versions events currentRoot drain root
  generalize watchedRootEffects s.tracker versions (pendingWatchedRoots events) currentRoot drain =
    result at *
  obtain ⟨published, hsend, -⟩ := t.sendClears_frame result.1.immediateClears
  -- Every schedule has a root, so the edit sequence stands still.
  have hcarry : t.carryOut result.1 =
      { t with published, sleeping := s.sleeping ++ result.1.schedules.map spawned } := by
    unfold carryOut
    rw [hsend, scheduleAll_known]
    · simp [hsleeping]
    · intro schedule hmem
      obtain ⟨root, hroot⟩ := hschedules schedule hmem
      simp [hroot]
  rw [hcarry]
  refine ⟨result.1.schedules.map spawned, rfl, ?_, ?_, ?_, .inl ⟨hseq, ?_⟩⟩
  · intro task hmem root epoch hroot
    obtain ⟨schedule, hschedule, rfl⟩ := List.mem_map.mp hmem
    obtain ⟨r, hr⟩ := hschedules schedule hschedule
    simp only [spawned, hr, Option.some.injEq, Prod.mk.injEq] at hroot
    rw [← hroot.2, ← hroot.1, htracker]
  · intro root
    rw [htracker]
    exact hmono root
  · intro root hmoved
    rw [htracker] at hmoved ⊢
    obtain ⟨huntouched, hscheduled⟩ := hevents root
    by_cases hroot : root ∈ events.map (·.root)
    · by_cases hclear : root ∈ deleted
      · exact .inl hclear
      · right
        obtain ⟨schedule, hmem, hschedule⟩ := hscheduled hroot (hdeleted root hroot hclear)
        exact ⟨spawned schedule, List.mem_map_of_mem hmem, hschedule⟩
    · exact absurd (huntouched hroot) hmoved
  · intro task hmem
    obtain ⟨schedule, hschedule, rfl⟩ := List.mem_map.mp hmem
    obtain ⟨r, hr⟩ := hschedules schedule hschedule
    simp [spawned, hr]

theorem spawns_finishWatch (s : Server M) (fs : Fs) (versions : DocumentVersions)
    (changes : List WatchedPathChange) :
    ∃ tasks, s.Spawns (s.finishWatch fs versions changes) tasks [] := by
  unfold finishWatch
  exact spawns_carryOut rfl rfl rfl fun root _ _ => .inl rfl

/-- The roots of a free batch's deleted configs. -/
theorem spawns_watchFree (s : Server M) (fs : Fs) (versions : DocumentVersions)
    (events : List (Url × FileChangeType)) :
    ∃ tasks, s.Spawns (s.watchFree versions (watchedPathChanges M events)) tasks
      (s.deletedConfigs (.didChangeWatchedFiles fs false events)) := by
  unfold watchFree deletedConfigs
  dsimp only
  generalize hws : applyPendingWorkspaceInvalidation s.pending s.workspace = ws
  split
  · next hempty =>
    rw [List.isEmpty_iff.mp hempty]
    exact ⟨[], spawns_nothing rfl (fun r => rfl) rfl⟩
  · refine spawns_carryOut rfl rfl rfl fun root _ hnot => .inr ?_
    simp only [List.mem_filter, not_and, Bool.not_eq_true] at hnot
    cases hlookup : (pendingWatchedRoots
        (freeEvents s.tracker ws (watchedPathChanges M events))).lookup root with
    | none => rfl
    | some entry =>
      have hmem := AList.lookup_isSome.mp (by rw [hlookup]; rfl)
      have hcancelled := hnot hmem
      unfold cancelledBy at hcancelled
      rwa [hws, hlookup] at hcancelled

/-! ## Runs -/

/-- What a step other than a preflight spawns. -/
theorem spawns_of_step {s t : Server M} {action : Action M} (hstep : s.step action = some t)
    (hnot : ∀ i, action ≠ .preflight i) :
    ∃ tasks, s.Spawns t tasks (s.deletedConfigs action) := by
  cases haction : action.isRun with
  | true =>
    obtain ⟨_, _, _, _, _, _, heq, hepoch, -⟩ := run_frame hstep haction
    rw [heq]
    exact ⟨_, spawns_nothing rfl hepoch rfl⟩
  | false =>
    cases stepTo_of_step hstep with
    | didOpen | didChange | didClose | unwatched | capture | bindingIndex | chooseReadSource =>
      exact ⟨_, spawns_nothing rfl (fun r => rfl) rfl⟩
    | @didChangeWatchedFiles fs busy events _ _ _ =>
      cases busy with
      | true => exact ⟨_, spawns_nothing rfl (fun r => rfl) rfl⟩
      | false => exact s.spawns_watchFree fs _ events
    | @handle fs busy handling _ _ =>
      cases handling with
      | edit path scope => exact s.spawns_finishEdit busy path scope
      | close url path => exact s.spawns_finishClose busy url path
      | watch changes versions preBits => exact ⟨_, spawns_nothing rfl (fun r => rfl) rfl⟩
      | watchAgain changes versions preBits => exact s.spawns_finishWatch fs versions changes
    | preflight htask => exact absurd rfl (hnot _)
    | prepare | analyze | commit | publish | reconcile => cases haction

/-- What sleeps after a step slept before it or has just been spawned. -/
theorem sleeping_step {s t : Server M} {action : Action M} (hstep : s.step action = some t)
    {task : Task} (h : task ∈ t.sleeping) : task ∈ s.sleeping ∨ task ∈ s.newTasks action := by
  by_cases hpreflight : ∃ i, action = .preflight i
  · obtain ⟨i, rfl⟩ := hpreflight
    cases stepTo_of_step hstep with
    | @preflight _ first _ =>
      obtain ⟨awake, hframe⟩ := s.preflight_frame i first
      rw [hframe] at h
      exact .inl (List.mem_of_mem_eraseIdx h)
  · obtain ⟨tasks, hspawns⟩ := spawns_of_step hstep fun i hi => hpreflight ⟨i, hi⟩
    rw [hspawns.newTasks hstep]
    rw [hspawns.sleeping] at h
    exact List.mem_append.mp h

theorem newTasks_eq {s t : Server M} {action : Action M} {tasks : List Task}
    (hstep : s.step action = some t) (h : t.sleeping = s.sleeping ++ tasks) :
    s.newTasks action = tasks := by
  simp [newTasks, hstep, h]

/-- A step that leaves no more asleep than there were spawns nothing. -/
theorem newTasks_eq_nil {s t : Server M} {action : Action M} (hstep : s.step action = some t)
    (h : t.sleeping.length ≤ s.sleeping.length) : s.newTasks action = [] := by
  unfold newTasks
  rw [hstep]
  exact List.drop_eq_nil_of_le h

/-- Every recompute that is scheduled or in flight. -/
def tasks (s : Server M) : List Task :=
  s.sleeping ++ s.awake ++ s.waiting.map (·.task) ++ (s.running.map (·.task)).toList

theorem mem_tasks {s : Server M} {task : Task} :
    task ∈ s.tasks ↔ task ∈ s.sleeping ∨ task ∈ s.awake ∨ (∃ x ∈ s.waiting, x.task = task) ∨
      ∃ r, s.running = some r ∧ r.task = task := by
  simp [tasks, Option.mem_toList]

/-- Whatever is scheduled or in flight after a step was so before it, or the step has
spawned it. -/
theorem mem_tasks_of_step {s t : Server M} {action : Action M} (hstep : s.step action = some t)
    {task : Task} (h : task ∈ t.tasks) : task ∈ s.tasks ∨ task ∈ s.newTasks action := by
  rw [mem_tasks] at h ⊢
  rcases h with hsleeping | hawake | ⟨x, hx, rfl⟩ | ⟨r, hr, rfl⟩
  · rcases sleeping_step hstep hsleeping with hold | hnew
    · exact .inl (.inl hold)
    · exact .inr hnew
  · rcases awake_step hstep hawake with hold | hsleeping
    · exact .inl (.inr (.inl hold))
    · exact .inl (.inl hsleeping)
  · rcases waiting_step hstep x hx with hold | ⟨hawake, -⟩
    · exact .inl (.inr (.inr (.inl ⟨x, hold, rfl⟩)))
    · exact .inl (.inr (.inl hawake))
  · cases runStep_of_step hstep hr with
    | @goes r' hr' htask => exact .inl (.inr (.inr (.inr ⟨r', hr', htask.symm⟩)))
    | @prepared w i x _ _ hx htask =>
      exact .inl (.inr (.inr (.inl ⟨x, List.mem_of_getElem? hx, htask.symm⟩)))

theorem Ledgered.step {s t : Server M} {entries : List Entry} (h : s.Ledgered entries)
    {action : Action M} (hstep : s.step action = some t) :
    t.Ledgered (s.ledger action entries) := by
  by_cases hpreflight : ∃ i, action = .preflight i
  · obtain ⟨i, rfl⟩ := hpreflight
    cases stepTo_of_step hstep with
    | @preflight _ task htask =>
      obtain ⟨awake, hframe⟩ := s.preflight_frame i task
      -- A preflight takes a task away and spawns none.
      have hnone : s.newTasks (.preflight i) = [] := by
        refine newTasks_eq_nil hstep ?_
        rw [hframe]
        exact List.length_eraseIdx_le _ _
      have hledger : s.ledger (.preflight i) entries = entries := by
        simp [ledger, deletedConfigs, hnone]
      rw [hledger, hframe]
      exact h.quiet (fun other hmem => List.mem_of_mem_eraseIdx hmem) (fun r => rfl) rfl
  · obtain ⟨tasks, hspawns⟩ := spawns_of_step hstep fun i hi => hpreflight ⟨i, hi⟩
    unfold ledger
    rw [hspawns.newTasks hstep]
    exact h.spawns hspawns

theorem ledgered_of_reaches {x : Server M × List Entry}
    (h : Reachable (recorded step ledger) (new, []) x) : x.1.Ledgered x.2 := by
  refine h.invariant (I := fun x => x.1.Ledgered x.2) ?_ ?_
  · refine ⟨?_, ?_, ?_⟩
    · intro task hmem
      cases hmem
    · intro task root epoch hmem
      cases hmem
    · intro task hmem
      cases hmem
  · intro x action y hx _ hstep
    obtain ⟨hserver, hledger⟩ := recorded_eq_some_iff.mp hstep
    rw [← hledger]
    exact hx.step hserver

/-- What a preflight check drops was replaced: a recompute of a known root by a later one
of the same root or by the deletion of its config, one of an unknown root by a later one
of an unknown root. -/
theorem replaced_of_cancelled {x : Server M × List Entry}
    (h : Reachable (recorded step ledger) (new, []) x) {i : Nat} {task : Task}
    (htask : x.1.sleeping[i]? = some task) (hdropped : x.1.cancelled task = true) :
    (∃ root epoch, task.rootEpoch = some (root, epoch) ∧ Replaced x.2 task root epoch) ∨
      task.rootEpoch = none ∧ ∃ seq, task.seq = some seq ∧ ReplacedUnknown x.2 task seq := by
  have hledgered := ledgered_of_reaches h
  have hmem := hledgered.sleeping task (List.mem_of_getElem? htask)
  cases hroot : task.rootEpoch with
  | some rootEpoch =>
    obtain ⟨root, epoch⟩ := rootEpoch
    left
    obtain ⟨hle, hreplaced⟩ := hledgered.known task root epoch hmem hroot
    refine ⟨root, epoch, rfl, hreplaced ?_⟩
    simp only [cancelled, hroot, DiagnosticsTracker.isStale, bne_iff_ne] at hdropped
    omega
  | none =>
    right
    obtain ⟨seq, hseq, hle, hreplaced⟩ := hledgered.unknown task hmem hroot
    refine ⟨rfl, seq, hseq, hreplaced ?_⟩
    simp only [cancelled, hroot, hseq, bne_iff_ne] at hdropped
    omega

end Server

/-! ## Two projects opened at once -/

namespace Sample

/-- A file of `A`, then one of `B`, opened before any project is known. -/
def openedTogether : List (Action Marrow.sample) :=
  [.didOpen (urlOf (app "A")) ['x'] 1, .handle twins.fs false,
    .didOpen (urlOf (app "B")) ['x'] 1, .handle twins.fs false]

end Sample

namespace Server

open Sample in
theorem replaced_of_cancelled_openedTogether : ∃ x : Server Marrow.sample × List Entry,
    Reachable (recorded step ledger) (new, []) x ∧ ∃ task ∈ x.1.sleeping,
      x.1.cancelled task = true ∧ ∃ seq, ReplacedUnknown x.2 task seq := by
  have hrun : (run (recorded step ledger) ((new, []) : Server Marrow.sample × List Entry)
      openedTogether).any (fun x => x.1.sleeping[0]?.any fun task =>
        x.1.cancelled task && task.rootEpoch.isNone) = true := by
    decide
  obtain ⟨x, hx, hfirst⟩ := (Option.any_eq_true _ _).mp hrun
  obtain ⟨task, htask, hdropped⟩ := (Option.any_eq_true _ _).mp hfirst
  rw [Bool.and_eq_true, Option.isNone_iff_eq_none] at hdropped
  refine ⟨x, reachable_of_run hx, task, List.mem_of_getElem? htask, hdropped.1, ?_⟩
  rcases replaced_of_cancelled (reachable_of_run hx) htask hdropped.1 with
    ⟨root, epoch, hroot, -⟩ | ⟨-, seq, -, hreplaced⟩
  · rw [hdropped.2] at hroot
    cases hroot
  · exact ⟨seq, hreplaced⟩

open Sample in
/-- The recompute of `A` is dropped, and none of `A` was scheduled after it. -/
theorem not_replaced_sameProject : ¬ ∀ x : Server Marrow.sample × List Entry,
    Reachable (recorded step ledger) (new, []) x → ∀ (i : Nat) (task : Task), x.1.sleeping[i]? = some task →
      x.1.cancelled task = true → ∃ later,
        projectRootOf twins.fs later.file = projectRootOf twins.fs task.file ∧
          [Entry.scheduled task, Entry.scheduled later].Sublist x.2 := by
  intro h
  have hrun : (run (recorded step ledger) ((new, []) : Server Marrow.sample × List Entry)
      openedTogether).any (fun x => x.1.sleeping[0]?.any fun task =>
        x.1.cancelled task &&
          decide (x.2 = [.scheduled task, .scheduled ⟨app "B", none, some 2, .full⟩]) &&
          decide (task.file = app "A")) = true := by
    decide
  obtain ⟨x, hx, hfirst⟩ := (Option.any_eq_true _ _).mp hrun
  obtain ⟨task, htask, hbad⟩ := (Option.any_eq_true _ _).mp hfirst
  simp only [Bool.and_eq_true, decide_eq_true_eq] at hbad
  obtain ⟨⟨hdropped, hledger⟩, hfile⟩ := hbad
  obtain ⟨later, hproject, hsub⟩ := h x (reachable_of_run hx) 0 task htask hdropped
  rw [hledger] at hsub
  have hlater := List.singleton_sublist.mp (List.cons_sublist_cons.mp hsub)
  rw [List.mem_singleton, Entry.scheduled.injEq] at hlater
  rw [hlater, hfile] at hproject
  exact absurd hproject (by decide)

end Server

end MarrowLsp
