-- SUMMARY: Which roots have a recompute on its way: fresh tasks, what a watched batch schedules, and that only a prepare or a deleted config takes one away.
import MarrowLsp.Lsp.Steps

/-!
# Scheduling

A task of a root is fresh while the root's epoch is the one the task was spawned with.
A root with a fresh task that no prepare has taken is being rebuilt. An edit, a close
or a busy batch that moves the epoch spawns the next fresh task with it; a batch that
finds the analysis free and a config deleted moves the epoch alone.
-/
namespace MarrowLsp

open Transition

variable {M : Marrow}

/-! ## Events and their roots -/

def WatchedProjectChange.path : WatchedProjectChange → Path
  | .projectConfig _ path _ => path
  | .analysisFile _ path _ => path

theorem startsWith_of_trackedDiagnosticChange {tracker : DiagnosticsTracker}
    {change : WatchedPathChange} {event : WatchedProjectChange}
    (h : trackedDiagnosticChange tracker change = some event) :
    event.path = change.path ∧ event.path.startsWith event.root = true := by
  unfold trackedDiagnosticChange at h
  split at h
  · next root hroot =>
    cases h
    have hpath := List.find?_some hroot
    rw [beq_iff_eq] at hpath
    refine ⟨rfl, ?_⟩
    show change.path.startsWith root = true
    rw [hpath]
    exact Path.startsWith_child root CONFIG_FILE
  · split at h
    · cases h
    · next root hroot =>
      split at h
      · cases h
        exact ⟨rfl, (DiagnosticsTracker.tracks_of_trackedRootForPath hroot).2⟩
      · cases h

theorem startsWith_of_untrackedProjectChange {fs : Fs} {tracker : DiagnosticsTracker}
    {change : WatchedPathChange} {event : WatchedProjectChange}
    (h : untrackedProjectChange fs tracker change = some event) :
    event.path = change.path ∧ event.path.startsWith event.root = true := by
  unfold untrackedProjectChange at h
  split at h
  · cases h
  · split at h
    · obtain ⟨root, hparent, rfl⟩ := Option.map_eq_some_iff.mp h
      refine ⟨rfl, ?_⟩
      show change.path.startsWith root = true
      cases hpath : change.path with
      | push p c =>
        rw [hpath] at hparent
        cases hparent
        exact Path.startsWith_push (Path.startsWith_self _)
      | empty | rootDir =>
        rw [hpath] at hparent
        cases hparent
    · split at h
      · cases h
      · next root hroot =>
        split at h
        · cases h
          exact ⟨rfl, startsWith_of_projectRootOf hroot⟩
        · cases h

/-- An event of a busy batch is about a path of the batch, below the event's root. -/
theorem startsWith_of_mem_busyWatchedProjectChanges {fs : Fs} {tracker : DiagnosticsTracker}
    {changes : List WatchedPathChange} {event : WatchedProjectChange}
    (h : event ∈ busyWatchedProjectChanges fs tracker changes) :
    event.path.startsWith event.root = true := by
  rcases List.mem_append.mp h with htracked | huntracked
  · obtain ⟨change, -, hchange⟩ := List.mem_filterMap.mp htracked
    exact (startsWith_of_trackedDiagnosticChange hchange).2
  · obtain ⟨change, -, hchange⟩ := List.mem_filterMap.mp huntracked
    exact (startsWith_of_untrackedProjectChange hchange).2

/-! ## Pending entries -/

/-- A cleared root keeps the path of the config that was deleted. -/
def PendingWatchedRoot.Located (pending : PendingWatchedRoot) : Prop :=
  pending.clearRoot = true → pending.recomputePath.isSome = true

theorem PendingWatchedRoot.isSome_recomputePath_add {pending : PendingWatchedRoot}
    (h : pending.Located) (event : WatchedProjectChange) :
    (pending.add event).recomputePath.isSome = true := by
  cases event with
  | projectConfig root path deleted => rfl
  | analysisFile root path deletedUrl =>
    unfold PendingWatchedRoot.add
    cases hclear : pending.clearRoot with
    | true =>
      have hsome := h hclear
      simpa [hclear] using hsome
    | false =>
      cases hpath : pending.recomputePath with
      | none => simp
      | some path' => simp

/-- The roots with a pending entry are those with an event, and each knows which file
to recompute. -/
theorem pendingWatchedRoots_spec (events : List WatchedProjectChange) (root : Path) :
    (root ∈ pendingWatchedRoots events ↔ root ∈ events.map (·.root)) ∧
      ∀ pending, (pendingWatchedRoots events).lookup root = some pending →
        pending.recomputePath.isSome = true := by
  induction events using List.reverseRecOn with
  | nil =>
    refine ⟨by simp [pendingWatchedRoots], fun pending h => ?_⟩
    cases h
  | append_singleton events event ih =>
    have hfold : pendingWatchedRoots (events ++ [event]) =
        (pendingWatchedRoots events).add event := by
      simp [pendingWatchedRoots]
    rw [hfold]
    unfold PendingWatchedRoots.add
    obtain ⟨hmem, hlocated⟩ := ih
    refine ⟨?_, ?_⟩
    · rw [AList.mem_insert, hmem, List.map_append, List.mem_append]
      simp [or_comm]
    · intro pending h
      by_cases hroot : root = event.root
      · subst hroot
        rw [AList.lookup_insert] at h
        cases h
        -- An entry that is to clear its root was given a file when it was made.
        apply PendingWatchedRoot.isSome_recomputePath_add
        intro hclear
        cases hlookup : (pendingWatchedRoots events).lookup event.root with
        | none =>
          rw [hlookup] at hclear
          cases hclear
        | some pending => exact hlocated pending hlookup
      · rw [AList.lookup_insert_ne hroot] at h
        exact hlocated pending h

/-! ## Effects -/

theorem epoch_clearDeleted (versions : DocumentVersions) (root r : Path)
    (tracker : DiagnosticsTracker) (urls : List Url) :
    (clearDeleted versions root tracker urls).2.epoch r = tracker.epoch r := by
  unfold clearDeleted
  refine List.foldlRecOn urls _ (motive := fun (b : List PublishedDiagnostics × DiagnosticsTracker) =>
    b.2.epoch r = tracker.epoch r) rfl ?_
  rintro ⟨clears, after⟩ h url -
  dsimp only at h ⊢
  split
  · exact h
  · rw [DiagnosticsTracker.epoch_clearUrl, h]

/-- What the entry of a root adds: schedules are kept, no other root's epoch moves, and
unless the root is cleared and not drained a recompute is scheduled for its new epoch. -/
theorem WatchedRootEffects.add_spec (versions : DocumentVersions) (currentRoot : Option Path)
    (drain : ClearRootDrain) (effects : WatchedRootEffects) (tracker : DiagnosticsTracker)
    (root : Path) (pending : PendingWatchedRoot) :
    let after := WatchedRootEffects.add versions currentRoot drain (effects, tracker) root pending
    (∀ schedule ∈ effects.schedules, schedule ∈ after.1.schedules) ∧
      (∀ r, r ≠ root → after.2.epoch r = tracker.epoch r) ∧
      (pending.recomputePath.isSome = true → drain = .schedule ∨ pending.clearRoot = false →
        ∃ schedule ∈ after.1.schedules, schedule.rootEpoch = some (root, after.2.epoch root)) := by
  unfold WatchedRootEffects.add
  cases hclear : pending.clearRoot with
  | true =>
    refine ⟨fun schedule hmem => List.mem_append_left _ hmem, fun r hr => ?_, ?_⟩
    · simp [hr]
    · intro hpath hdrain
      obtain ⟨path, hpath⟩ := Option.isSome_iff_exists.mp hpath
      have hschedule : drain = .schedule := by simpa using hdrain
      refine ⟨⟨path, some (root, (tracker.bumpRootEpoch root).epoch root)⟩, ?_, by simp⟩
      simp [hpath, hschedule]
  | false =>
    cases hpath : pending.recomputePath with
    | none =>
      refine ⟨fun schedule hmem => hmem, fun r _ => ?_, fun h => by cases h⟩
      exact epoch_clearDeleted versions root r tracker _
    | some path =>
      refine ⟨fun schedule hmem => List.mem_append_left _ hmem, fun r hr => ?_, fun _ _ => ?_⟩
      · simp [hr, epoch_clearDeleted]
      · exact ⟨_, List.mem_append_right _ (List.mem_singleton_self _), rfl⟩

theorem schedules_foldl_add (versions : DocumentVersions) (currentRoot : Option Path)
    (drain : ClearRootDrain) (entries : List (Sigma fun _ : Path => PendingWatchedRoot))
    (start : WatchedRootEffects × DiagnosticsTracker) {schedule : ScheduledRecompute}
    (h : schedule ∈ start.1.schedules) :
    schedule ∈ (entries.foldl (fun before entry =>
      WatchedRootEffects.add versions currentRoot drain before entry.1 entry.2)
        start).1.schedules := by
  refine List.foldlRecOn entries _ (motive := fun (b : WatchedRootEffects × DiagnosticsTracker) =>
    schedule ∈ b.1.schedules) h ?_
  rintro ⟨effects, tracker⟩ hmem entry -
  obtain ⟨hkept, -, -⟩ :=
    WatchedRootEffects.add_spec versions currentRoot drain effects tracker entry.1 entry.2
  exact hkept schedule hmem

/-- A batch moves the epochs of its roots alone, and schedules a recompute for the new
epoch of each, save those that are cleared and not drained. -/
theorem watchedRootEffects_spec (tracker : DiagnosticsTracker) (versions : DocumentVersions)
    (pending : PendingWatchedRoots) (currentRoot : Option Path) (drain : ClearRootDrain)
    (root : Path) :
    let after := watchedRootEffects tracker versions pending currentRoot drain
    (root ∉ pending → after.2.epoch root = tracker.epoch root) ∧
      ∀ entry, pending.lookup root = some entry → entry.recomputePath.isSome = true →
        drain = .schedule ∨ entry.clearRoot = false →
          ∃ schedule ∈ after.1.schedules, schedule.rootEpoch = some (root, after.2.epoch root) := by
  unfold watchedRootEffects
  obtain ⟨entries, hnodup⟩ := pending
  generalize hstart : (WatchedRootEffects.new, tracker) = start
  have hepoch : tracker = start.2 := by rw [← hstart]
  rw [hepoch]
  clear hstart hepoch
  show (root ∉ entries.keys → _) ∧ ∀ entry, entries.dlookup root = some entry → _
  -- Along the entries: once a root's entry is done no later one touches it.
  induction entries generalizing start with
  | nil => exact ⟨fun _ => rfl, fun entry h => by cases h⟩
  | cons first entries ih =>
    obtain ⟨r, p⟩ := first
    rw [List.nodupKeys_cons] at hnodup
    obtain ⟨hfresh, hnodup⟩ := hnodup
    obtain ⟨hkept, hother, hscheduled⟩ := WatchedRootEffects.add_spec versions currentRoot drain
      start.1 start.2 r p
    obtain ⟨huntouched, hrest⟩ :=
      ih hnodup (WatchedRootEffects.add versions currentRoot drain start r p)
    rw [List.foldl_cons]
    refine ⟨fun hnot => ?_, fun entry hlookup hpath hdrain => ?_⟩
    · rw [List.keys_cons, List.mem_cons, not_or] at hnot
      rw [huntouched hnot.2]
      exact hother root hnot.1
    · by_cases hroot : root = r
      · subst hroot
        rw [List.dlookup_cons_eq] at hlookup
        cases hlookup
        obtain ⟨schedule, hmem, hschedule⟩ := hscheduled hpath hdrain
        refine ⟨schedule, ?_, ?_⟩
        · exact schedules_foldl_add versions currentRoot drain entries _ hmem
        · rw [hschedule, huntouched hfresh]
      · rw [List.dlookup_cons_ne _ _ hroot] at hlookup
        exact hrest entry hlookup hpath hdrain

/-- The root of an event is one that a batch's effects move, and reschedule unless its
config was deleted and the batch leaves that to nobody. -/
theorem watchedRootEffects_events (tracker : DiagnosticsTracker) (versions : DocumentVersions)
    (events : List WatchedProjectChange) (currentRoot : Option Path) (drain : ClearRootDrain)
    (root : Path) :
    let after :=
      watchedRootEffects tracker versions (pendingWatchedRoots events) currentRoot drain
    (root ∉ events.map (·.root) → after.2.epoch root = tracker.epoch root) ∧
      (root ∈ events.map (·.root) → drain = .schedule ∨
          ((pendingWatchedRoots events).lookup root).any (·.clearRoot) = false →
        ∃ schedule ∈ after.1.schedules, schedule.rootEpoch = some (root, after.2.epoch root)) := by
  obtain ⟨hmem, hlocated⟩ := pendingWatchedRoots_spec events root
  obtain ⟨huntouched, hscheduled⟩ := watchedRootEffects_spec tracker versions
    (pendingWatchedRoots events) currentRoot drain root
  refine ⟨fun hnot => huntouched (mt hmem.mp hnot), fun hroot hdrain => ?_⟩
  obtain ⟨entry, hentry⟩ :=
    Option.isSome_iff_exists.mp (AList.lookup_isSome.mpr (hmem.mpr hroot))
  refine hscheduled entry hentry (hlocated entry hentry) ?_
  rwa [hentry, Option.any_some] at hdrain

namespace Server

/-! ## Fresh tasks -/

/-- The root a task is fresh for. -/
def freshRoot (tracker : DiagnosticsTracker) (task : Task) : Option Path :=
  task.rootEpoch.bind fun (root, epoch) =>
    if tracker.isStale root epoch then none else some root

theorem freshRoot_eq_some_iff {tracker : DiagnosticsTracker} {task : Task} {root : Path} :
    freshRoot tracker task = some root ↔ task.rootEpoch = some (root, tracker.epoch root) := by
  unfold freshRoot DiagnosticsTracker.isStale
  cases task.rootEpoch with
  | none => simp
  | some rootEpoch =>
    obtain ⟨r, epoch⟩ := rootEpoch
    simp only [Option.bind_some, bne_iff_ne, ne_eq, ite_not, Option.ite_none_right_eq_some,
      Option.some.injEq, Prod.mk.injEq]
    constructor
    · rintro ⟨rfl, rfl⟩
      exact ⟨rfl, rfl⟩
    · rintro ⟨rfl, rfl⟩
      exact ⟨rfl, rfl⟩

/-- The spawned tasks that no prepare has taken. -/
def unprepared (s : Server M) : List Task := s.sleeping ++ s.awake ++ s.waiting.map (·.task)

/-- The roots with a fresh task that no prepare has taken. -/
def rebuilding (s : Server M) : List Path := s.unprepared.filterMap (freshRoot s.tracker)

theorem mem_rebuilding {s : Server M} {root : Path} :
    root ∈ s.rebuilding ↔
      ∃ task ∈ s.unprepared, task.rootEpoch = some (root, s.tracker.epoch root) := by
  simp only [rebuilding, List.mem_filterMap, freshRoot_eq_some_iff]

theorem mem_unprepared {s : Server M} {task : Task} :
    task ∈ s.unprepared ↔
      task ∈ s.sleeping ∨ task ∈ s.awake ∨ ∃ x ∈ s.waiting, x.task = task := by
  simp [unprepared]

theorem rebuilding_mono {s t : Server M} {root : Path} (h : root ∈ s.rebuilding)
    (htasks : ∀ task ∈ s.unprepared, task.rootEpoch = some (root, s.tracker.epoch root) →
      task ∈ t.unprepared)
    (hepoch : t.tracker.epoch root = s.tracker.epoch root) : root ∈ t.rebuilding := by
  obtain ⟨task, hmem, htask⟩ := mem_rebuilding.mp h
  exact mem_rebuilding.mpr ⟨task, htasks task hmem htask, by rw [hepoch, htask]⟩

/-! ## Scheduling a task -/

theorem sleeping_scheduleRecompute (s : Server M) (file : Path) (rootEpoch : Option (Path × Nat))
    (scope : RecomputeScope) :
    ∃ task, (s.scheduleRecompute file rootEpoch scope).sleeping = s.sleeping ++ [task] ∧
      task.rootEpoch = rootEpoch ∧ task.scope = scope := by
  cases rootEpoch with
  | none => exact ⟨_, rfl, rfl, rfl⟩
  | some rootEpoch => exact ⟨_, rfl, rfl, rfl⟩

/-- The schedules of a batch become full recomputes, one for each. -/
theorem sleeping_scheduleAll (s : Server M) (schedules : List ScheduledRecompute) :
    ∃ tasks, (s.scheduleAll schedules).sleeping = s.sleeping ++ tasks ∧
      (∀ task ∈ tasks, task.scope = .full) ∧
      ∀ schedule ∈ schedules, ∃ task ∈ tasks, task.rootEpoch = schedule.rootEpoch := by
  induction schedules generalizing s with
  | nil =>
    refine ⟨[], (List.append_nil _).symm, ?_, ?_⟩
    · intro task hmem
      cases hmem
    · intro schedule hmem
      cases hmem
  | cons first schedules ih =>
    obtain ⟨added, hone, hroot, hscope⟩ :=
      s.sleeping_scheduleRecompute first.path first.rootEpoch .full
    obtain ⟨tasks, hrest, hscopes, hroots⟩ := ih (s.scheduleRecompute first.path first.rootEpoch .full)
    refine ⟨added :: tasks, ?_, List.forall_mem_cons.mpr ⟨hscope, hscopes⟩, ?_⟩
    · rw [scheduleAll, List.foldl_cons, ← scheduleAll, hrest, hone, List.append_assoc,
        List.singleton_append]
    · intro schedule hmem
      rcases List.mem_cons.mp hmem with rfl | hlater
      · exact ⟨added, List.mem_cons_self .., hroot⟩
      · obtain ⟨task, htask, hsame⟩ := hroots schedule hlater
        exact ⟨task, List.mem_cons_of_mem _ htask, hsame⟩

theorem sleeping_carryOut (s : Server M) (effects : WatchedRootEffects) :
    ∃ tasks, (s.carryOut effects).sleeping = s.sleeping ++ tasks ∧
      (∀ task ∈ tasks, task.scope = .full) ∧
      ∀ schedule ∈ effects.schedules, ∃ task ∈ tasks, task.rootEpoch = schedule.rootEpoch := by
  obtain ⟨_, hsend, -⟩ := s.sendClears_frame effects.immediateClears
  obtain ⟨tasks, hall, hrest⟩ :=
    (s.sendClears effects.immediateClears).sleeping_scheduleAll effects.schedules
  refine ⟨tasks, ?_, hrest⟩
  rw [carryOut, hall, hsend]

theorem exists_task_carryOut (s : Server M) {effects : WatchedRootEffects}
    {schedule : ScheduledRecompute} (h : schedule ∈ effects.schedules) :
    ∃ task ∈ (s.carryOut effects).sleeping, task.rootEpoch = schedule.rootEpoch := by
  obtain ⟨tasks, hadded, -, hroots⟩ := s.sleeping_carryOut effects
  obtain ⟨task, hmem, hroot⟩ := hroots schedule h
  refine ⟨task, ?_, hroot⟩
  rw [hadded]
  exact List.mem_append_right _ hmem

/-! ## What keeps a root's rebuild -/

/-- No task is lost, and every root whose epoch moves, save some, gets a fresh one. -/
structure Reschedules (s t : Server M) (save : Path → Bool) : Prop where
  kept : ∀ task ∈ s.unprepared, task ∈ t.unprepared
  moved : ∀ root, save root = false →
    t.tracker.epoch root = s.tracker.epoch root ∨ root ∈ t.rebuilding

theorem Reschedules.rebuilding {s t : Server M} {save : Path → Bool} (h : s.Reschedules t save)
    {root : Path} (hsave : save root = false) (hroot : root ∈ s.rebuilding) :
    root ∈ t.rebuilding := by
  rcases h.moved root hsave with hepoch | hfresh
  · exact rebuilding_mono hroot (fun task hmem _ => h.kept task hmem) hepoch
  · exact hfresh

theorem mem_unprepared_of_sleeping {s t : Server M}
    (hsleeping : ∀ task ∈ s.sleeping, task ∈ t.sleeping) (hawake : t.awake = s.awake)
    (hwaiting : t.waiting = s.waiting) : ∀ task ∈ s.unprepared, task ∈ t.unprepared := by
  intro task htask
  rw [mem_unprepared] at htask ⊢
  rw [hawake, hwaiting]
  exact htask.imp_left (hsleeping task)

/-- The end of an edit or a close: one root's epoch is moved and scheduled, or none. -/
theorem reschedules_of_added {s t : Server M} {task : Task} (save : Path → Bool)
    (hsleeping : t.sleeping = s.sleeping ++ [task]) (hawake : t.awake = s.awake)
    (hwaiting : t.waiting = s.waiting)
    (hepoch : ∀ root, t.tracker.epoch root = s.tracker.epoch root ∨
      task.rootEpoch = some (root, t.tracker.epoch root)) : s.Reschedules t save := by
  have hadded : task ∈ t.unprepared := by
    rw [mem_unprepared, hsleeping]
    exact .inl (List.mem_append_right _ (List.mem_singleton_self _))
  refine ⟨mem_unprepared_of_sleeping (fun other hmem => ?_) hawake hwaiting, fun root _ => ?_⟩
  · rw [hsleeping]
    exact List.mem_append_left _ hmem
  · rcases hepoch root with hsame | hfresh
    · exact .inl hsame
    · exact .inr (mem_rebuilding.mpr ⟨task, hadded, hfresh⟩)

theorem epoch_bumped (tracker : DiagnosticsTracker) (root r : Path) :
    (tracker.bumpRootEpoch root).epoch r = tracker.epoch r ∨
      some (root, (tracker.bumpRootEpoch root).epoch root) =
        some (r, (tracker.bumpRootEpoch root).epoch r) := by
  by_cases h : r = root
  · subst h
    exact .inr rfl
  · exact .inl (by simp [h])

theorem reschedules_finishEdit (s : Server M) (busy : Bool) (path : Path) (scope : RecomputeScope)
    (save : Path → Bool) : s.Reschedules (s.finishEdit busy path scope) save := by
  unfold finishEdit
  cases s.knownRoot busy path with
  | none => exact reschedules_of_added save rfl rfl rfl fun root => .inl rfl
  | some root => exact reschedules_of_added save rfl rfl rfl (epoch_bumped s.tracker root)

theorem reschedules_finishClose (s : Server M) (busy : Bool) (url : Url) (path : Option Path)
    (save : Path → Bool) : s.Reschedules (s.finishClose busy url path) save := by
  unfold finishClose
  cases path with
  | none => exact ⟨fun task htask => htask, fun root _ => .inl rfl⟩
  | some path =>
    rw [Option.bind_some]
    cases s.knownRoot busy path with
    | none => exact reschedules_of_added save rfl rfl rfl fun root => .inl rfl
    | some root =>
      refine reschedules_of_added save rfl rfl rfl fun r => ?_
      rcases epoch_bumped (s.tracker.clearUrl root url).2 root r with hsame | hfresh
      · rw [DiagnosticsTracker.epoch_clearUrl] at hsame
        exact .inl hsame
      · exact .inr hfresh

/-- Carrying out a batch's effects schedules for each root they move. -/
theorem reschedules_carryOut {s t : Server M} {effects : WatchedRootEffects}
    {save : Path → Bool} (hsleeping : t.sleeping = s.sleeping) (hawake : t.awake = s.awake)
    (hwaiting : t.waiting = s.waiting)
    (heffects : ∀ root, save root = false → t.tracker.epoch root = s.tracker.epoch root ∨
      ∃ schedule ∈ effects.schedules,
        schedule.rootEpoch = some (root, t.tracker.epoch root)) :
    s.Reschedules (t.carryOut effects) save := by
  obtain ⟨editSeq, sleeping, published, hframe, -⟩ := t.carryOut_frame effects
  obtain ⟨tasks, hadded, -, -⟩ := t.sleeping_carryOut effects
  have htracker : (t.carryOut effects).tracker = t.tracker := by rw [hframe]
  have hawake' : (t.carryOut effects).awake = s.awake := by rw [hframe, hawake]
  have hwaiting' : (t.carryOut effects).waiting = s.waiting := by rw [hframe, hwaiting]
  refine ⟨mem_unprepared_of_sleeping (fun task hmem => ?_) hawake' hwaiting',
    fun root hsave => ?_⟩
  · rw [hadded, hsleeping]
    exact List.mem_append_left _ hmem
  rw [htracker]
  rcases heffects root hsave with hsame | ⟨schedule, hmem, hschedule⟩
  · exact .inl hsame
  · obtain ⟨task, htask, hrootEpoch⟩ := t.exists_task_carryOut hmem
    refine .inr (mem_rebuilding.mpr ⟨task, mem_unprepared.mpr (.inl htask), ?_⟩)
    rw [hrootEpoch, hschedule, htracker]

/-- The end of a busy batch reschedules each root with an event, and keeps the others. -/
theorem reschedules_finishWatch (s : Server M) (fs : Fs) (versions : DocumentVersions)
    (changes : List WatchedPathChange) (save : Path → Bool) :
    s.Reschedules (s.finishWatch fs versions changes) save := by
  unfold finishWatch
  refine reschedules_carryOut rfl rfl rfl fun root _ => ?_
  obtain ⟨huntouched, hscheduled⟩ := watchedRootEffects_events s.tracker versions
    (busyWatchedProjectChanges fs s.tracker changes) none .schedule root
  by_cases hroot : root ∈ (busyWatchedProjectChanges fs s.tracker changes).map (·.root)
  · exact .inr (hscheduled hroot (.inl rfl))
  · exact .inl (huntouched hroot)

theorem rebuilding_finishWatch (s : Server M) (fs : Fs) (versions : DocumentVersions)
    {changes : List WatchedPathChange} {root : Path}
    (h : root ∈ (busyWatchedProjectChanges fs s.tracker changes).map (·.root)) :
    root ∈ (s.finishWatch fs versions changes).rebuilding := by
  obtain ⟨-, hscheduled⟩ := watchedRootEffects_events s.tracker versions
    (busyWatchedProjectChanges fs s.tracker changes) none .schedule root
  obtain ⟨schedule, hmem, hschedule⟩ := hscheduled h (.inl rfl)
  unfold finishWatch
  obtain ⟨task, htask, hrootEpoch⟩ := exists_task_carryOut
    { s with
      tracker := (busyEffects fs s.tracker versions changes).2
      handling := none
      pending := s.pending.or (busyEffects fs s.tracker versions changes).1.bits } hmem
  obtain ⟨_, _, _, hframe, -⟩ := carryOut_frame
    { s with
      tracker := (busyEffects fs s.tracker versions changes).2
      handling := none
      pending := s.pending.or (busyEffects fs s.tracker versions changes).1.bits }
    (busyEffects fs s.tracker versions changes).1
  refine mem_rebuilding.mpr ⟨task, mem_unprepared.mpr (.inl htask), ?_⟩
  rw [hrootEpoch, hschedule, hframe]
  rfl

/-- The root has an event in a batch that finds the analysis free, its config deleted. -/
def cancelledBy (s : Server M) (changes : List WatchedPathChange) (root : Path) : Bool :=
  ((pendingWatchedRoots (freeEvents s.tracker
    (applyPendingWorkspaceInvalidation s.pending s.workspace) changes)).lookup root).any
      (·.clearRoot)

theorem reschedules_watchFree (s : Server M) (versions : DocumentVersions)
    (changes : List WatchedPathChange) :
    s.Reschedules (s.watchFree versions changes) (s.cancelledBy changes) := by
  unfold watchFree
  dsimp only
  split
  · exact ⟨fun task htask => htask, fun root _ => .inl rfl⟩
  · refine reschedules_carryOut rfl rfl rfl fun root hsave => ?_
    obtain ⟨huntouched, hscheduled⟩ := watchedRootEffects_events s.tracker versions
      (freeEvents s.tracker (applyPendingWorkspaceInvalidation s.pending s.workspace) changes)
      ((applyPendingWorkspaceInvalidation s.pending s.workspace).project.map (·.root)) .skip root
    by_cases hroot : root ∈ (freeEvents s.tracker
        (applyPendingWorkspaceInvalidation s.pending s.workspace) changes).map (·.root)
    · exact .inr (hscheduled hroot (.inr hsave))
    · exact .inl (huntouched hroot)

/-! ## What takes it away -/

/-- The root whose rebuild a step takes up. -/
def takesUp (s : Server M) : Action M → Option Path
  | .prepare _ i => (s.waiting[i]?).bind fun x => freshRoot s.tracker x.task
  | _ => none

/-- A step that moves the root's epoch and schedules nothing for it. -/
def cancels (s : Server M) (action : Action M) (root : Path) : Bool :=
  match action with
  | .didChangeWatchedFiles _ false events => s.cancelledBy (watchedPathChanges M events) root
  | _ => false

theorem mem_or_mem_eraseIdx {α : Type*} {l : List α} {i : Nat} {a b : α} (hb : l[i]? = some b)
    (ha : a ∈ l) : a = b ∨ a ∈ l.eraseIdx i := by
  obtain ⟨j, hj⟩ := List.mem_iff_getElem?.mp ha
  by_cases h : j = i
  · subst h
    rw [hb] at hj
    exact .inl (Option.some.inj hj).symm
  · exact .inr (List.mem_eraseIdx_iff_getElem?.mpr ⟨j, h, hj⟩)

theorem rebuilding_preflight {s : Server M} {i : Nat} {task : Task} {root : Path}
    (htask : s.sleeping[i]? = some task) (h : root ∈ s.rebuilding) :
    root ∈ (s.preflight i task).rebuilding := by
  obtain ⟨awake, hframe⟩ := s.preflight_frame i task
  refine rebuilding_mono h (fun fresh hmem hfresh => ?_) (by rw [hframe])
  rw [mem_unprepared] at hmem ⊢
  unfold preflight
  dsimp only
  rcases hmem with hsleeping | hrest
  · rcases mem_or_mem_eraseIdx htask hsleeping with rfl | hleft
    · have hkept : s.cancelled fresh = false := by
        simp [cancelled, hfresh, DiagnosticsTracker.isStale]
      rw [hkept]
      exact .inr (.inl (List.mem_append_right _ (List.mem_singleton_self _)))
    · split
      · exact .inl hleft
      · exact .inl hleft
  · split
    · exact .inr hrest
    · exact .inr (hrest.imp_left (List.mem_append_left _))

theorem rebuilding_capture {s : Server M} {i : Nat} {task : Task} {root : Path}
    (htask : s.awake[i]? = some task) (h : root ∈ s.rebuilding) :
    root ∈ (s.capture i task).rebuilding := by
  refine rebuilding_mono h (fun fresh hmem _ => ?_) rfl
  rw [mem_unprepared] at hmem ⊢
  refine hmem.imp_right ?_
  rintro (hawake | ⟨x, hx, hfresh⟩)
  · rcases mem_or_mem_eraseIdx htask hawake with rfl | hleft
    · exact .inr ⟨⟨fresh, s.documents.analysisSnapshot M⟩,
        List.mem_append_right _ (List.mem_singleton_self _), rfl⟩
    · exact .inl hleft
  · exact .inr ⟨x, List.mem_append_left _ hx, hfresh⟩

theorem rebuilding_prepare {s : Server M} {w : World M} {i : Nat} {x : Waiting} {root : Path}
    (hx : s.waiting[i]? = some x) (h : root ∈ s.rebuilding)
    (hother : freshRoot s.tracker x.task ≠ some root) :
    root ∈ (s.prepare w i x).rebuilding := by
  obtain ⟨workspace, running, heq, -, -⟩ := s.prepare_cases w i x
  rw [heq]
  refine rebuilding_mono h (fun fresh hmem hfresh => ?_) rfl
  rw [mem_unprepared] at hmem ⊢
  refine hmem.imp_right (Or.imp_right ?_)
  rintro ⟨y, hy, rfl⟩
  rcases mem_or_mem_eraseIdx hx hy with rfl | hleft
  · exact absurd (freshRoot_eq_some_iff.mpr hfresh) hother
  · exact ⟨y, hleft, rfl⟩

/-- A root that is being rebuilt is so until a prepare takes its task up or its config is
deleted. -/
theorem rebuilding_step {s t : Server M} {action : Action M} (hstep : s.step action = some t)
    {root : Path} (h : root ∈ s.rebuilding) (htakes : s.takesUp action ≠ some root)
    (hcancels : s.cancels action root = false) : root ∈ t.rebuilding := by
  cases stepTo_of_step hstep with
  | didOpen | didChange | didClose | unwatched | bindingIndex | chooseReadSource => exact h
  | @didChangeWatchedFiles fs busy events =>
    cases busy with
    | true => exact h
    | false => exact (s.reschedules_watchFree _ _).rebuilding hcancels h
  | @handle fs busy handling =>
    cases handling with
    | edit path scope => exact (s.reschedules_finishEdit busy path scope fun _ => false).rebuilding rfl h
    | close url path => exact (s.reschedules_finishClose busy url path fun _ => false).rebuilding rfl h
    | watch changes versions preBits => exact h
    | watchAgain changes versions preBits =>
      exact (s.reschedules_finishWatch fs versions changes fun _ => false).rebuilding rfl h
  | preflight htask => exact rebuilding_preflight htask h
  | capture htask => exact rebuilding_capture htask h
  | @prepare w i x _ hx =>
    refine rebuilding_prepare hx h fun hfresh => htakes ?_
    simp [takesUp, hx, hfresh]
  | analyze | commit | publish | reconcile =>
    obtain ⟨_, _, _, _, _, _, heq, hepoch, hwaiting⟩ := run_frame hstep rfl
    rw [heq]
    refine rebuilding_mono h (fun _ hmem _ => ?_) (hepoch root)
    rcases hwaiting with rfl | ⟨_, _, hprepare, -⟩
    · exact hmem
    · cases hprepare

end Server

end MarrowLsp
