-- SUMMARY: Which projects a watched-file batch recomputes and which it clears.
import MarrowLsp.Lsp.Freshness
import MarrowLsp.Lsp.Scheduling

/-!
# Watched batches and their projects

A batch is turned into events, the events into pending entries and these into effects.
Here the effects are read back from the changes: which root gets a recompute, and which
is cleared.
-/
namespace MarrowLsp

open Transition

variable {M : Marrow}

/-! ## Events and effects -/

/-- The event is that the root's config was deleted. -/
def WatchedProjectChange.deletes (root : Path) : WatchedProjectChange → Bool
  | .projectConfig r _ deleted => r == root && deleted
  | .analysisFile .. => false

/-- `clear_root` runs for the root. -/
def clearsRoot (events : List WatchedProjectChange) (root : Path) : Bool :=
  ((pendingWatchedRoots events).lookup root).any (·.clearRoot)

def WatchedRootEffects.schedulesFor (effects : WatchedRootEffects) (root : Path) : Bool :=
  effects.schedules.any fun schedule => schedule.rootEpoch.any fun rootEpoch => rootEpoch.1 == root

theorem pendingWatchedRoots_append (events : List WatchedProjectChange)
    (event : WatchedProjectChange) :
    pendingWatchedRoots (events ++ [event]) = (pendingWatchedRoots events).add event := by
  unfold pendingWatchedRoots
  rw [List.foldl_append]
  rfl

theorem PendingWatchedRoot.clearRoot_add (pending : PendingWatchedRoot)
    (event : WatchedProjectChange) :
    (pending.add event).clearRoot = (pending.clearRoot || event.deletes event.root) := by
  cases event with
  | projectConfig root path deleted =>
    show (pending.clearRoot || deleted) = (pending.clearRoot || (root == root && deleted))
    rw [beq_self_eq_true, Bool.true_and]
  | analysisFile root path deletedUrl =>
    show pending.clearRoot = (pending.clearRoot || false)
    rw [Bool.or_false]

theorem WatchedProjectChange.deletes_of_ne {event : WatchedProjectChange} {root : Path}
    (h : root ≠ event.root) : event.deletes root = false := by
  cases event with
  | projectConfig r path deleted =>
    have hne : (r == root) = false := beq_eq_false_iff_ne.mpr (Ne.symm h)
    show (r == root && deleted) = false
    rw [hne, Bool.false_and]
  | analysisFile r path deletedUrl => rfl

/-- A deletion of the config among the events is never taken back. -/
theorem clearsRoot_eq (events : List WatchedProjectChange) (root : Path) :
    clearsRoot events root = events.any (·.deletes root) := by
  induction events using List.reverseRecOn with
  | nil => rfl
  | append_singleton events event ih =>
    rw [List.any_append, ← ih, List.any_cons, List.any_nil, Bool.or_false]
    unfold clearsRoot
    rw [pendingWatchedRoots_append]
    unfold PendingWatchedRoots.add
    by_cases hroot : root = event.root
    · subst hroot
      rw [AList.lookup_insert, Option.any_some, PendingWatchedRoot.clearRoot_add]
      cases (pendingWatchedRoots events).lookup event.root with
      | none => rfl
      | some pending => rfl
    · rw [AList.lookup_insert_ne hroot, WatchedProjectChange.deletes_of_ne hroot, Bool.or_false]

/-- The entry of a root schedules its recompute, unless the root is cleared and the batch
leaves the drain to nobody. -/
def PendingWatchedRoot.recomputes (drain : ClearRootDrain) (pending : PendingWatchedRoot) : Bool :=
  pending.recomputePath.isSome && (drain == .schedule || !pending.clearRoot)

theorem WatchedRootEffects.schedulesFor_add (versions : DocumentVersions)
    (currentRoot : Option Path) (drain : ClearRootDrain) (effects : WatchedRootEffects)
    (tracker : DiagnosticsTracker) (root r : Path) (pending : PendingWatchedRoot) :
    (WatchedRootEffects.add versions currentRoot drain (effects, tracker) r pending).1.schedulesFor
        root = (effects.schedulesFor root || (r == root && pending.recomputes drain)) := by
  unfold WatchedRootEffects.add WatchedRootEffects.schedulesFor PendingWatchedRoot.recomputes
  cases hclear : pending.clearRoot with
  | true =>
    cases hpath : pending.recomputePath with
    | none => cases drain <;> simp
    | some path => cases drain <;> simp
  | false =>
    cases hpath : pending.recomputePath with
    | none => simp
    | some path => simp

/-- A batch schedules a recompute of the roots with an entry that calls for it. -/
theorem schedulesFor_watchedRootEffects (tracker : DiagnosticsTracker) (versions : DocumentVersions)
    (pending : PendingWatchedRoots) (currentRoot : Option Path) (drain : ClearRootDrain)
    (root : Path) :
    (watchedRootEffects tracker versions pending currentRoot drain).1.schedulesFor root =
      (pending.lookup root).any (·.recomputes drain) := by
  -- Along the entries: scheduled before them, or by the root's own entry.
  have hfold : ∀ (entries : List (Sigma fun _ : Path => PendingWatchedRoot))
      (start : WatchedRootEffects × DiagnosticsTracker),
      (entries.foldl (fun before entry =>
        WatchedRootEffects.add versions currentRoot drain before entry.1 entry.2) start).1.schedulesFor
          root = (start.1.schedulesFor root ||
            entries.any fun entry => entry.1 == root && entry.2.recomputes drain) := by
    intro entries
    induction entries with
    | nil =>
      intro start
      rw [List.any_nil, Bool.or_false]
      rfl
    | cons entry entries ih =>
      intro start
      rw [List.foldl_cons, ih, WatchedRootEffects.schedulesFor_add, List.any_cons, Bool.or_assoc]
  unfold watchedRootEffects
  rw [hfold, Bool.eq_iff_iff, Option.any_eq_true, Bool.or_eq_true, List.any_eq_true]
  constructor
  · rintro (hstart | ⟨entry, hmem, hentry⟩)
    · cases hstart
    · rw [Bool.and_eq_true, beq_iff_eq] at hentry
      obtain ⟨rfl, hrecomputes⟩ := hentry
      exact ⟨entry.2, AList.mem_lookup_iff.mpr hmem, hrecomputes⟩
  · rintro ⟨entry, hlookup, hrecomputes⟩
    refine .inr ⟨⟨root, entry⟩, AList.mem_lookup_iff.mp hlookup, ?_⟩
    rw [Bool.and_eq_true]
    exact ⟨beq_self_eq_true root, hrecomputes⟩

/-- A batch schedules a recompute of the roots it has an event of, unless it clears them
and leaves the drain to nobody. -/
theorem schedulesFor_events (tracker : DiagnosticsTracker) (versions : DocumentVersions)
    (events : List WatchedProjectChange) (currentRoot : Option Path) (drain : ClearRootDrain)
    (root : Path) :
    (watchedRootEffects tracker versions (pendingWatchedRoots events) currentRoot
        drain).1.schedulesFor root = true ↔
      root ∈ events.map (·.root) ∧ (drain = .schedule ∨ clearsRoot events root = false) := by
  obtain ⟨hmem, hlocated⟩ := pendingWatchedRoots_spec events root
  rw [schedulesFor_watchedRootEffects, ← hmem, ← AList.lookup_isSome]
  unfold clearsRoot
  cases hlookup : (pendingWatchedRoots events).lookup root with
  | none => simp
  | some entry =>
    have hpath := hlocated entry hlookup
    unfold PendingWatchedRoot.recomputes
    simp [hpath]

/-! ## Which changes are noticed -/

theorem Path.child_inj {p q : Path} {name : String} (h : p.child name = q.child name) : p = q := by
  injection h

theorem Path.eq_child_of_parent {p q : Path} {name : String} (hname : p.fileName = some name)
    (hparent : p.parent = some q) : p = q.child name := by
  cases p with
  | empty => cases hparent
  | rootDir => cases hparent
  | push parent last =>
    cases hparent
    cases last with
    | curDir => cases hname
    | parentDir => cases hname
    | normal n =>
      cases hname
      rfl

theorem trackedRootForConfigPath_eq_some_iff {tracker : DiagnosticsTracker} {path root : Path} :
    tracker.trackedRootForConfigPath path = some root ↔
      path = root.child CONFIG_FILE ∧ tracker.Tracks root := by
  unfold DiagnosticsTracker.trackedRootForConfigPath
  constructor
  · intro h
    have hpath := List.find?_some h
    rw [beq_iff_eq] at hpath
    exact ⟨hpath, AList.mem_keys.mp (List.mem_of_find?_eq_some h)⟩
  · rintro ⟨rfl, htracks⟩
    cases hfind : tracker.roots.keys.find? fun r => root.child CONFIG_FILE == r.child CONFIG_FILE with
    | none =>
      have hnot := List.find?_eq_none.mp hfind root (AList.mem_keys.mpr htracks)
      exact absurd (beq_self_eq_true _) hnot
    | some r =>
      have hpath := List.find?_some hfind
      rw [beq_iff_eq] at hpath
      rw [Path.child_inj hpath]

/-- The tracker files a change under the root: as its config, or as a file of the
deepest root it knows. -/
def TrackerNotices (tracker : DiagnosticsTracker) (root : Path) (change : WatchedPathChange) :
    Prop :=
  change.path = root.child CONFIG_FILE ∧ tracker.Tracks root ∨
    tracker.trackedRootForConfigPath change.path = none ∧
      tracker.trackedRootForPath change.path = some root ∧
      trackedRootAnalysisChange root change = true

/-- No tracked root is above a change, and the nearest `marrow.json` is the root's. -/
def DiskNotices (fs : Fs) (tracker : DiagnosticsTracker) (root : Path)
    (change : WatchedPathChange) : Prop :=
  tracker.trackedRootForConfigPath change.path = none ∧
    tracker.trackedRootForPath change.path = none ∧
    (change.path = root.child CONFIG_FILE ∨
      change.path.fileName ≠ some CONFIG_FILE ∧ nearestProjectRoot fs change.path = some root ∧
        trackedRootAnalysisChange root change = true)

/-- The change concerns the workspace's project, which is at the root. -/
def ProjectNotices (ws : Workspace M) (root : Path) (change : WatchedPathChange) : Prop :=
  ∃ project, ws.project = some project ∧ project.root = root ∧
    (change.path = root.child CONFIG_FILE ∨ change.path = root.child COMMITTED_LOCK_FILE ∨
      project.storeFile = some change.path ∨ project.analyzesFile change.path = true ∨
      snapshotHasFile ws.latest change.path = true)

/-- The change deletes the root's config. -/
def DeletesConfig (root : Path) (change : WatchedPathChange) : Prop :=
  change.path = root.child CONFIG_FILE ∧ change.typ = .DELETED

theorem deletes_projectConfig {r path root : Path} {deleted : Bool} :
    (WatchedProjectChange.projectConfig r path deleted).deletes root = true ↔
      r = root ∧ deleted = true := by
  show (r == root && deleted) = true ↔ _
  rw [Bool.and_eq_true, beq_iff_eq]

/-- A change is filed as a tracked root's config, as a file of the deepest tracked root, or
not at all. -/
theorem trackedDiagnosticChange_cases (tracker : DiagnosticsTracker) (change : WatchedPathChange) :
    (∃ r, change.path = r.child CONFIG_FILE ∧ tracker.Tracks r ∧
      trackedDiagnosticChange tracker change =
        some (.projectConfig r change.path (change.typ == .DELETED))) ∨
    tracker.trackedRootForConfigPath change.path = none ∧
      ((∃ r url, tracker.trackedRootForPath change.path = some r ∧
        trackedRootAnalysisChange r change = true ∧
        trackedDiagnosticChange tracker change = some (.analysisFile r change.path url)) ∨
      trackedDiagnosticChange tracker change = none ∧
        ∀ r, tracker.trackedRootForPath change.path = some r →
          trackedRootAnalysisChange r change = false) := by
  unfold trackedDiagnosticChange
  cases hconfig : tracker.trackedRootForConfigPath change.path with
  | some r =>
    obtain ⟨hpath, htracks⟩ := trackedRootForConfigPath_eq_some_iff.mp hconfig
    exact .inl ⟨r, hpath, htracks, rfl⟩
  | none =>
    refine .inr ⟨rfl, ?_⟩
    cases hfile : tracker.trackedRootForPath change.path with
    | none => exact .inr ⟨rfl, nofun⟩
    | some r =>
      cases hanalysis : trackedRootAnalysisChange r change with
      | true =>
        left
        simp only [hanalysis, if_true]
        exact ⟨r, _, rfl, hanalysis, rfl⟩
      | false =>
        refine .inr ⟨?_, ?_⟩
        · simp only [hanalysis, Bool.false_eq_true, if_false]
        · intro r' hr'
          cases hr'
          exact hanalysis

theorem not_tracks_of_config {tracker : DiagnosticsTracker} {path root : Path}
    (hconfig : tracker.trackedRootForConfigPath path = none) (hpath : path = root.child CONFIG_FILE) :
    ¬ tracker.Tracks root := by
  intro htracks
  rw [trackedRootForConfigPath_eq_some_iff.mpr ⟨hpath, htracks⟩] at hconfig
  cases hconfig

theorem trackedDiagnosticChange_root {tracker : DiagnosticsTracker} {root : Path}
    {change : WatchedPathChange} :
    (∃ event, trackedDiagnosticChange tracker change = some event ∧ event.root = root) ↔
      TrackerNotices tracker root change := by
  obtain ⟨r, hpath, htracks, heq⟩ | ⟨hconfig, ⟨r, url, hr, hanalysis, heq⟩ | ⟨heq, hnone⟩⟩ :=
    trackedDiagnosticChange_cases tracker change
  · rw [heq]
    constructor
    · rintro ⟨_, hevent, rfl⟩
      cases hevent
      exact .inl ⟨hpath, htracks⟩
    · rintro (⟨h, -⟩ | ⟨h, -⟩)
      · exact ⟨_, rfl, Path.child_inj (hpath.symm.trans h)⟩
      · exact absurd htracks (not_tracks_of_config h hpath)
  · rw [heq]
    constructor
    · rintro ⟨_, hevent, rfl⟩
      cases hevent
      exact .inr ⟨hconfig, hr, hanalysis⟩
    · rintro (⟨h, htracks⟩ | ⟨-, h, -⟩)
      · exact absurd htracks (not_tracks_of_config hconfig h)
      · exact ⟨_, rfl, Option.some.inj (hr.symm.trans h)⟩
  · rw [heq]
    constructor
    · rintro ⟨_, hevent, -⟩
      cases hevent
    · rintro (⟨h, htracks⟩ | ⟨-, h, hanalysis⟩)
      · exact absurd htracks (not_tracks_of_config hconfig h)
      · rw [hnone root h] at hanalysis
        cases hanalysis

theorem trackedDiagnosticChange_deletes {tracker : DiagnosticsTracker} {root : Path}
    {change : WatchedPathChange} :
    (∃ event, trackedDiagnosticChange tracker change = some event ∧ event.deletes root = true) ↔
      DeletesConfig root change ∧ tracker.Tracks root := by
  obtain ⟨r, hpath, htracks, heq⟩ | ⟨hconfig, ⟨r, url, -, -, heq⟩ | ⟨heq, -⟩⟩ :=
    trackedDiagnosticChange_cases tracker change
  · rw [heq]
    constructor
    · rintro ⟨_, hevent, hdeletes⟩
      cases hevent
      obtain ⟨rfl, hdeleted⟩ := deletes_projectConfig.mp hdeletes
      exact ⟨⟨hpath, eq_of_beq hdeleted⟩, htracks⟩
    · rintro ⟨⟨h, hdeleted⟩, -⟩
      refine ⟨_, rfl, deletes_projectConfig.mpr ⟨Path.child_inj (hpath.symm.trans h), ?_⟩⟩
      rw [hdeleted]
      rfl
  · rw [heq]
    constructor
    · rintro ⟨_, hevent, hdeletes⟩
      cases hevent
      cases hdeletes
    · rintro ⟨⟨h, -⟩, htracks⟩
      exact absurd htracks (not_tracks_of_config hconfig h)
  · rw [heq]
    constructor
    · rintro ⟨_, hevent, -⟩
      cases hevent
    · rintro ⟨⟨h, -⟩, htracks⟩
      exact absurd htracks (not_tracks_of_config hconfig h)

/-- A change under no tracked root is filed by its own name or the nearest config. -/
theorem untrackedProjectChange_cases (fs : Fs) (tracker : DiagnosticsTracker)
    (change : WatchedPathChange) :
    (untrackedProjectChange fs tracker change = none ∧
      ¬ (tracker.trackedRootForConfigPath change.path = none ∧
        tracker.trackedRootForPath change.path = none)) ∨
    tracker.trackedRootForConfigPath change.path = none ∧
      tracker.trackedRootForPath change.path = none ∧
      ((∃ r, change.path = r.child CONFIG_FILE ∧ untrackedProjectChange fs tracker change =
          some (.projectConfig r change.path (change.typ == .DELETED))) ∨
        change.path.fileName ≠ some CONFIG_FILE ∧
          ((∃ r, nearestProjectRoot fs change.path = some r ∧
            trackedRootAnalysisChange r change = true ∧
            untrackedProjectChange fs tracker change = some (.analysisFile r change.path none)) ∨
          untrackedProjectChange fs tracker change = none ∧
            ∀ r, nearestProjectRoot fs change.path = some r →
              trackedRootAnalysisChange r change = false)) := by
  unfold untrackedProjectChange
  cases hconfig : tracker.trackedRootForConfigPath change.path with
  | some r =>
    left
    exact ⟨rfl, fun h => by cases h.1⟩
  | none =>
    cases hfile : tracker.trackedRootForPath change.path with
    | some r =>
      left
      exact ⟨rfl, fun h => by cases h.2⟩
    | none =>
      refine .inr ⟨rfl, rfl, ?_⟩
      simp only [Option.isSome_none, Bool.or_self, Bool.false_eq_true, if_false]
      by_cases hname : change.path.fileName = some CONFIG_FILE
      · left
        simp only [hname, beq_self_eq_true, if_true]
        cases hparent : change.path.parent with
        | none =>
          -- a path with a file name has a parent
          cases hpath : change.path with
          | empty => rw [hpath] at hname; cases hname
          | rootDir => rw [hpath] at hname; cases hname
          | push parent last => rw [hpath] at hparent; cases hparent
        | some r => exact ⟨r, Path.eq_child_of_parent hname hparent, rfl⟩
      · refine .inr ⟨hname, ?_⟩
        have hbeq : (change.path.fileName == some CONFIG_FILE) = false := beq_eq_false_iff_ne.mpr hname
        simp only [hbeq, Bool.false_eq_true, if_false]
        cases hnearest : nearestProjectRoot fs change.path with
        | none => exact .inr ⟨rfl, nofun⟩
        | some r =>
          cases hanalysis : trackedRootAnalysisChange r change with
          | true =>
            refine .inl ⟨r, rfl, hanalysis, ?_⟩
            simp only [hanalysis, if_true]
          | false =>
            refine .inr ⟨?_, ?_⟩
            · simp only [hanalysis, Bool.false_eq_true, if_false]
            · intro r' hr'
              cases hr'
              exact hanalysis

theorem untrackedProjectChange_root {fs : Fs} {tracker : DiagnosticsTracker} {root : Path}
    {change : WatchedPathChange} :
    (∃ event, untrackedProjectChange fs tracker change = some event ∧ event.root = root) ↔
      DiskNotices fs tracker root change := by
  obtain ⟨heq, hnot⟩ | ⟨hconfig, hfile, ⟨r, hpath, heq⟩ | ⟨hname,
      ⟨r, hnearest, hanalysis, heq⟩ | ⟨heq, hnone⟩⟩⟩ := untrackedProjectChange_cases fs tracker change
  · rw [heq]
    constructor
    · rintro ⟨_, hevent, -⟩
      cases hevent
    · rintro ⟨hconfig, hfile, -⟩
      exact absurd ⟨hconfig, hfile⟩ hnot
  · rw [heq]
    constructor
    · rintro ⟨_, hevent, rfl⟩
      cases hevent
      exact ⟨hconfig, hfile, .inl hpath⟩
    · rintro ⟨-, -, h | ⟨h, -⟩⟩
      · exact ⟨_, rfl, Path.child_inj (hpath.symm.trans h)⟩
      · rw [hpath] at h
        exact absurd rfl h
  · rw [heq]
    constructor
    · rintro ⟨_, hevent, rfl⟩
      cases hevent
      exact ⟨hconfig, hfile, .inr ⟨hname, hnearest, hanalysis⟩⟩
    · rintro ⟨-, -, h | ⟨-, h, -⟩⟩
      · rw [h] at hname
        exact absurd rfl hname
      · exact ⟨_, rfl, Option.some.inj (hnearest.symm.trans h)⟩
  · rw [heq]
    constructor
    · rintro ⟨_, hevent, -⟩
      cases hevent
    · rintro ⟨-, -, h | ⟨-, h, hanalysis⟩⟩
      · rw [h] at hname
        exact absurd rfl hname
      · rw [hnone root h] at hanalysis
        cases hanalysis

theorem untrackedProjectChange_deletes {fs : Fs} {tracker : DiagnosticsTracker} {root : Path}
    {change : WatchedPathChange} :
    (∃ event, untrackedProjectChange fs tracker change = some event ∧ event.deletes root = true) ↔
      DeletesConfig root change ∧ tracker.trackedRootForConfigPath change.path = none ∧
        tracker.trackedRootForPath change.path = none := by
  obtain ⟨heq, hnot⟩ | ⟨hconfig, hfile, ⟨r, hpath, heq⟩ | ⟨hname,
      ⟨r, -, -, heq⟩ | ⟨heq, -⟩⟩⟩ := untrackedProjectChange_cases fs tracker change
  · rw [heq]
    constructor
    · rintro ⟨_, hevent, -⟩
      cases hevent
    · rintro ⟨-, h⟩
      exact absurd h hnot
  · rw [heq]
    constructor
    · rintro ⟨_, hevent, hdeletes⟩
      cases hevent
      obtain ⟨rfl, hdeleted⟩ := deletes_projectConfig.mp hdeletes
      exact ⟨⟨hpath, eq_of_beq hdeleted⟩, hconfig, hfile⟩
    · rintro ⟨⟨h, hdeleted⟩, -⟩
      refine ⟨_, rfl, deletes_projectConfig.mpr ⟨Path.child_inj (hpath.symm.trans h), ?_⟩⟩
      rw [hdeleted]
      rfl
  · rw [heq]
    constructor
    · rintro ⟨_, hevent, hdeletes⟩
      cases hevent
      cases hdeletes
    · rintro ⟨⟨h, -⟩, -⟩
      rw [h] at hname
      exact absurd rfl hname
  · rw [heq]
    constructor
    · rintro ⟨_, hevent, -⟩
      cases hevent
    · rintro ⟨⟨h, -⟩, -⟩
      rw [h] at hname
      exact absurd rfl hname

/-- The first change of the root's config that a batch lists. -/
def firstConfigChange (changes : List WatchedPathChange) (root : Path) :
    Option WatchedPathChange :=
  changes.find? fun change => change.path == root.child CONFIG_FILE

theorem exists_find? {α : Type*} {l : List α} {a : α} (p : α → Bool) (hmem : a ∈ l)
    (hp : p a = true) : ∃ b, l.find? p = some b :=
  Option.isSome_iff_exists.mp (List.find?_isSome.mpr ⟨a, hmem, hp⟩)

theorem watchedProjectChanges_roots {ws : Workspace M} {changes : List WatchedPathChange}
    {root : Path} :
    root ∈ (watchedProjectChanges ws changes).map (·.root) ↔
      ∃ change ∈ changes, ProjectNotices ws root change := by
  unfold watchedProjectChanges ProjectNotices
  cases hproject : ws.project with
  | none => simp
  | some project =>
    simp only
    constructor
    · intro h
      -- A change of the config is all that is reported, where there is one.
      split at h
      · next change hfind =>
        rw [List.map_singleton, List.mem_singleton] at h
        have hpath := List.find?_some hfind
        rw [beq_iff_eq] at hpath
        exact ⟨change, List.mem_of_find?_eq_some hfind, project, rfl, h.symm, .inl (h ▸ hpath)⟩
      · simp only [List.map_append, List.mem_append, List.mem_map, Option.mem_toList,
          Option.map_eq_some_iff] at h
        obtain (⟨_, ⟨change, hfind, rfl⟩, hroot⟩ | ⟨_, ⟨change, hfind, rfl⟩, hroot⟩) |
          ⟨_, ⟨change, hfind, rfl⟩, hroot⟩ := h
        · have hpath := List.find?_some hfind
          rw [beq_iff_eq] at hpath
          have hroot : project.root = root := hroot
          exact ⟨change, List.mem_of_find?_eq_some hfind, project, rfl, hroot,
            .inr (.inl (hroot ▸ hpath))⟩
        · obtain ⟨storePath, hstore, hfind⟩ := Option.bind_eq_some_iff.mp hfind
          have hpath := List.find?_some hfind
          rw [beq_iff_eq] at hpath
          exact ⟨change, List.mem_of_find?_eq_some hfind, project, rfl, hroot,
            .inr (.inr (.inl (hpath ▸ hstore)))⟩
        · have hpath := List.find?_some hfind
          rw [Bool.or_eq_true] at hpath
          exact ⟨change, List.mem_of_find?_eq_some hfind, project, rfl, hroot,
            .inr (.inr (.inr hpath))⟩
    · rintro ⟨change, hmem, p, hp, rfl, hpath⟩
      cases hp
      split
      · exact List.mem_singleton_self _
      · next hnone =>
        simp only [List.map_append, List.mem_append, List.mem_map, Option.mem_toList,
          Option.map_eq_some_iff]
        obtain hpath | hpath | hpath | hpath := hpath
        · -- The search for the config has failed, so the change is not of the config.
          have hnot := List.find?_eq_none.mp hnone change hmem
          rw [hpath] at hnot
          exact absurd (beq_self_eq_true _) hnot
        · obtain ⟨found, hfind⟩ := exists_find?
            (fun c => c.path == project.root.child COMMITTED_LOCK_FILE) hmem (beq_iff_eq.mpr hpath)
          exact .inl (.inl ⟨_, ⟨found, hfind, rfl⟩, rfl⟩)
        · obtain ⟨found, hfind⟩ := exists_find? (fun c => c.path == change.path) hmem
            (beq_self_eq_true _)
          refine .inl (.inr ⟨_, ⟨found, ?_, rfl⟩, rfl⟩)
          rw [hpath]
          exact hfind
        · obtain ⟨found, hfind⟩ := exists_find?
            (fun c => project.analyzesFile c.path || snapshotHasFile ws.latest c.path) hmem
            ((Bool.or_eq_true _ _).mpr hpath)
          exact .inr ⟨_, ⟨found, hfind, rfl⟩, rfl⟩

theorem watchedProjectChanges_deletes {ws : Workspace M} {changes : List WatchedPathChange}
    {root : Path} :
    (∃ event ∈ watchedProjectChanges ws changes, event.deletes root = true) ↔
      (∃ project, ws.project = some project ∧ project.root = root) ∧
        ∃ change, firstConfigChange changes root = some change ∧ change.typ = .DELETED := by
  unfold watchedProjectChanges firstConfigChange
  cases hproject : ws.project with
  | none => simp
  | some project =>
    simp only
    constructor
    · rintro ⟨event, hmem, hdeletes⟩
      split at hmem
      · next change hfind =>
        rw [List.mem_singleton] at hmem
        rw [hmem] at hdeletes
        obtain ⟨rfl, hdeleted⟩ := deletes_projectConfig.mp hdeletes
        exact ⟨⟨project, rfl, rfl⟩, change, hfind, eq_of_beq hdeleted⟩
      · simp only [List.mem_append, Option.mem_toList, Option.map_eq_some_iff] at hmem
        obtain (⟨_, -, rfl⟩ | ⟨_, -, rfl⟩) | ⟨_, -, rfl⟩ := hmem
        · cases hdeletes
        · cases hdeletes
        · cases hdeletes
    · rintro ⟨⟨p, hp, rfl⟩, change, hfind, hdeleted⟩
      cases hp
      rw [hfind]
      refine ⟨_, List.mem_singleton_self _, deletes_projectConfig.mpr ⟨rfl, ?_⟩⟩
      rw [hdeleted]
      rfl

/-! ## Batches -/

/-- A watched batch and what it finds: the file system, whether the analysis lock is
taken, and the state it reads. -/
structure Batch (M : Marrow) where
  fs : Fs
  busy : Bool
  tracker : DiagnosticsTracker
  workspace : Workspace M
  documents : DocumentAnalysisSnapshot
  changes : List WatchedPathChange

namespace Batch

def events (b : Batch M) : List WatchedProjectChange :=
  if b.busy then busyWatchedProjectChanges b.fs b.tracker b.changes
  else Server.freeEvents b.tracker b.workspace b.changes

def effects (b : Batch M) : WatchedRootEffects :=
  if b.busy then
    (Server.busyEffects b.fs b.tracker (openDocumentVersions b.documents) b.changes).1
  else (Server.freeEffects b.tracker b.workspace (openDocumentVersions b.documents) b.changes).1

/-- The project at the root owns an open document or has tracked diagnostics. -/
def Live (b : Batch M) (root : Path) : Prop :=
  b.tracker.Tracks root ∨
    ∃ document ∈ b.documents.openDocuments, projectRootOf b.fs document.path = some root

/-- A change of the project's config, committed lock, native store or of a file it analyzes
or has analyzed. -/
def Touches (b : Batch M) (project : Project M) (change : WatchedPathChange) : Prop :=
  change.path = project.root.child CONFIG_FILE ∨
    change.path = project.root.child COMMITTED_LOCK_FILE ∨
    project.storeFile = some change.path ∨ project.analyzesFile change.path = true ∨
    ∃ a, b.workspace.latest = some a ∧ a.prepared.root = project.root ∧
      a.containsFile change.path = true

/-- The last change of the root's config deletes it. -/
def Deleted (b : Batch M) (root : Path) : Prop :=
  ∃ change, (b.changes.filter fun change => change.path == root.child CONFIG_FILE).getLast? =
    some change ∧ change.typ = .DELETED

/-- What a batch owes a root: a recompute unless its config ends deleted, and a clear of
the whole only then. -/
structure Follows (b : Batch M) (root : Path) : Prop where
  recomputed : ¬ b.Deleted root → b.effects.schedulesFor root = true
  cleared : clearsRoot b.events root = true → b.Deleted root

/-- A change counts for the root. -/
def Notices (b : Batch M) (root : Path) (change : WatchedPathChange) : Prop :=
  TrackerNotices b.tracker root change ∨
    if b.busy then DiskNotices b.fs b.tracker root change
    else ProjectNotices b.workspace root change

/-- A deletion of the root's config counts, whatever comes after it: any for a tracked
root and, with the lock taken, for one under no tracked root; the first change of the
config for the workspace's project. -/
def TakesDeletion (b : Batch M) (root : Path) : Prop :=
  (∃ change ∈ b.changes, DeletesConfig root change ∧ b.tracker.Tracks root) ∨
    if b.busy then
      ∃ change ∈ b.changes, DeletesConfig root change ∧
        b.tracker.trackedRootForConfigPath change.path = none ∧
        b.tracker.trackedRootForPath change.path = none
    else (∃ project, b.workspace.project = some project ∧ project.root = root) ∧
      ∃ change, firstConfigChange b.changes root = some change ∧ change.typ = .DELETED

theorem exists_mem_filterMap {α : Type*} {l : List α} {f : α → Option WatchedProjectChange}
    {p : WatchedProjectChange → Prop} : (∃ event ∈ l.filterMap f, p event) ↔
      ∃ a ∈ l, ∃ event, f a = some event ∧ p event := by
  simp only [List.mem_filterMap]
  constructor
  · rintro ⟨event, ⟨a, hmem, ha⟩, hp⟩
    exact ⟨a, hmem, event, ha, hp⟩
  · rintro ⟨a, hmem, event, ha, hp⟩
    exact ⟨event, ⟨a, hmem, ha⟩, hp⟩

variable {b : Batch M} {root : Path}

theorem tracked_roots : root ∈ (watchedTrackedDiagnosticChanges b.tracker b.changes).map (·.root) ↔
    ∃ change ∈ b.changes, TrackerNotices b.tracker root change := by
  unfold watchedTrackedDiagnosticChanges
  rw [List.mem_map, exists_mem_filterMap]
  simp only [trackedDiagnosticChange_root]

theorem tracked_deletes :
    (∃ event ∈ watchedTrackedDiagnosticChanges b.tracker b.changes, event.deletes root = true) ↔
      ∃ change ∈ b.changes, DeletesConfig root change ∧ b.tracker.Tracks root := by
  unfold watchedTrackedDiagnosticChanges
  rw [exists_mem_filterMap]
  simp only [trackedDiagnosticChange_deletes]

/-- The roots of a batch's events are those that a change counts for. -/
theorem events_roots : root ∈ b.events.map (·.root) ↔ ∃ change ∈ b.changes, b.Notices root change := by
  unfold events Notices
  cases b.busy with
  | true =>
    simp only [if_true, busyWatchedProjectChanges, List.map_append, List.mem_append, tracked_roots]
    unfold watchedUntrackedProjectChanges
    rw [List.mem_map, exists_mem_filterMap]
    simp only [untrackedProjectChange_root, and_or_left, exists_or]
  | false =>
    simp only [Bool.false_eq_true, if_false, Server.freeEvents, List.map_append, List.mem_append,
      tracked_roots, watchedProjectChanges_roots, and_or_left, exists_or]
    exact or_comm

theorem clearsRoot_events : clearsRoot b.events root = true ↔ b.TakesDeletion root := by
  rw [clearsRoot_eq, List.any_eq_true]
  unfold events TakesDeletion
  cases b.busy with
  | true =>
    simp only [if_true, busyWatchedProjectChanges, List.mem_append, or_and_right, exists_or,
      tracked_deletes]
    unfold watchedUntrackedProjectChanges
    rw [exists_mem_filterMap]
    simp only [untrackedProjectChange_deletes]
  | false =>
    simp only [Bool.false_eq_true, if_false, Server.freeEvents, List.mem_append, or_and_right,
      exists_or, tracked_deletes, watchedProjectChanges_deletes]
    exact or_comm

theorem schedulesFor_effects : b.effects.schedulesFor root = true ↔
    root ∈ b.events.map (·.root) ∧ (b.busy = true ∨ clearsRoot b.events root = false) := by
  unfold effects events
  cases b.busy with
  | true =>
    simp only [if_true, Server.busyEffects]
    rw [schedulesFor_events]
    simp
  | false =>
    simp only [Bool.false_eq_true, if_false, Server.freeEffects]
    rw [schedulesFor_events]
    simp

/-- A batch does what it owes a root exactly when the root's config ends deleted, or a
change counts for the root and no deletion of its config does. -/
theorem follows_iff_notices : b.Follows root ↔
    b.Deleted root ∨ (∃ change ∈ b.changes, b.Notices root change) ∧ ¬ b.TakesDeletion root := by
  rw [← events_roots, ← clearsRoot_events]
  constructor
  · intro h
    by_cases hdeleted : b.Deleted root
    · exact .inl hdeleted
    · exact .inr ⟨(schedulesFor_effects.mp (h.recomputed hdeleted)).1, mt h.cleared hdeleted⟩
  · rintro (hdeleted | ⟨hroot, hclears⟩)
    · exact ⟨fun hnot => absurd hdeleted hnot, fun _ => hdeleted⟩
    · refine ⟨fun _ => schedulesFor_effects.mpr ⟨hroot, .inr ?_⟩, fun h => absurd h hclears⟩
      exact Bool.eq_false_of_not_eq_true hclears

/-- The live projects that a batch touches are all given what it owes them exactly when
each of them meets the condition. -/
theorem follows_iff (b : Batch M) (project : Project M) :
    (b.Live project.root → (∃ change ∈ b.changes, b.Touches project change) →
        b.Follows project.root) ↔
      (b.Live project.root → (∃ change ∈ b.changes, b.Touches project change) →
        b.Deleted project.root ∨
          (∃ change ∈ b.changes, b.Notices project.root change) ∧
            ¬ b.TakesDeletion project.root) := by
  rw [follows_iff_notices]

/-- With the lock free every change that touches the workspace's project counts for it. -/
theorem notices_of_current {project : Project M} {change : WatchedPathChange}
    (hfree : b.busy = false) (hproject : b.workspace.project = some project)
    (h : b.Touches project change) : b.Notices project.root change := by
  unfold Notices
  rw [hfree]
  refine .inr ⟨project, hproject, rfl, ?_⟩
  obtain h | h | h | h | ⟨a, ha, -, h⟩ := h
  · exact .inl h
  · exact .inr (.inl h)
  · exact .inr (.inr (.inl h))
  · exact .inr (.inr (.inr (.inl h)))
  · refine .inr (.inr (.inr (.inr ?_)))
    unfold snapshotHasFile
    rw [ha]
    exact h

end Batch

namespace Server

/-- The batch that a watched notification makes of the server's state. -/
def batch (s : Server M) (fs : Fs) (busy : Bool) (changes : List WatchedPathChange) : Batch M where
  fs
  busy
  tracker := s.tracker
  workspace := applyPendingWorkspaceInvalidation s.pending s.workspace
  documents := s.documents.analysisSnapshot M
  changes

/-- The server once a notification's batch is handled. -/
def afterBatch (s : Server M) (fs : Fs) (busy : Bool) (changes : List WatchedPathChange) :
    Server M :=
  if busy then s.finishWatch fs (openDocumentVersions (s.documents.analysisSnapshot M)) changes
  else s.watchFree (openDocumentVersions (s.documents.analysisSnapshot M)) changes

theorem sleeping_finishWatch (s : Server M) (fs : Fs) (versions : DocumentVersions)
    (changes : List WatchedPathChange) {schedule : ScheduledRecompute}
    (h : schedule ∈ (busyEffects fs s.tracker versions changes).1.schedules) :
    ∃ task ∈ (s.finishWatch fs versions changes).sleeping, task.rootEpoch = schedule.rootEpoch := by
  exact exists_task_carryOut _ h

theorem sleeping_watchFree (s : Server M) (versions : DocumentVersions)
    (changes : List WatchedPathChange) {schedule : ScheduledRecompute}
    (h : schedule ∈ (freeEffects s.tracker (applyPendingWorkspaceInvalidation s.pending s.workspace)
      versions changes).1.schedules) :
    ∃ task ∈ (s.watchFree versions changes).sleeping, task.rootEpoch = schedule.rootEpoch := by
  unfold watchFree
  dsimp only
  split
  · next hempty =>
    -- a batch without events has no effects
    rw [List.isEmpty_iff] at hempty
    unfold freeEffects at h
    rw [hempty] at h
    cases h
  · exact exists_task_carryOut _ h

/-- What the batch schedules is a task of the server. -/
theorem exists_task_of_batch (s : Server M) {fs : Fs} {busy : Bool}
    {changes : List WatchedPathChange} {root : Path}
    (h : (s.batch fs busy changes).effects.schedulesFor root = true) :
    ∃ task ∈ (s.afterBatch fs busy changes).sleeping, ∃ epoch, task.rootEpoch = some (root, epoch) := by
  unfold WatchedRootEffects.schedulesFor at h
  obtain ⟨schedule, hmem, hroot⟩ := List.any_eq_true.mp h
  obtain ⟨⟨r, epoch⟩, hschedule, hr⟩ := (Option.any_eq_true _ _).mp hroot
  rw [beq_iff_eq] at hr
  subst hr
  cases busy with
  | true =>
    obtain ⟨task, htask, hrootEpoch⟩ := s.sleeping_finishWatch fs _ changes hmem
    exact ⟨task, htask, epoch, hrootEpoch.trans hschedule⟩
  | false =>
    obtain ⟨task, htask, hrootEpoch⟩ := s.sleeping_watchFree _ changes hmem
    exact ⟨task, htask, epoch, hrootEpoch.trans hschedule⟩

end Server

namespace Sample

def config (name : String) : Path := (projectDir name).child CONFIG_FILE

/-- The config of `A` is deleted and created again. -/
def recreated : List WatchedPathChange :=
  [⟨urlOf (config "A"), config "A", .DELETED⟩, ⟨urlOf (config "A"), config "A", .CREATED⟩]

/-- The project `A` with a config that does not parse. -/
def unparsed : World Marrow.sample := world [(config "A", []), (app "A", ['x'])]

/-- A buffer of `A` is opened while its config does not parse, and its recompute fails. -/
def openedUnparsed : List (Action Marrow.sample) :=
  opened "A" ['x'] ++ [.preflight 0, .capture 0, .prepare unparsed 0]

def repaired : List WatchedPathChange := [⟨urlOf (config "A"), config "A", .CHANGED⟩]

def projectA : Project Marrow.sample := ⟨projectDir "A", (⟨['m'], true⟩ : Config)⟩

end Sample

open Sample in
theorem Batch.exists_not_follows {actions : List (Action Marrow.sample)}
    {changes : List WatchedPathChange} (hconfig : ∃ change ∈ changes, change.path = config "A")
    (hlast : ∀ change, (changes.filter fun change => change.path == config "A").getLast? =
      some change → change.typ ≠ .DELETED)
    (hrun : (run Server.step (Server.new : Server Marrow.sample) actions).any (fun s =>
      decide (∃ document ∈ (s.documents.analysisSnapshot Marrow.sample).openDocuments,
        projectRootOf twins.fs document.path = some (projectDir "A")) &&
      !(s.batch twins.fs false changes).effects.schedulesFor (projectDir "A")) = true) :
    ∃ s : Server Marrow.sample, run Server.step Server.new actions = some s ∧
      (s.batch twins.fs false changes).Live projectA.root ∧
      (∃ change ∈ changes, (s.batch twins.fs false changes).Touches projectA change) ∧
      ¬ (s.batch twins.fs false changes).Follows projectA.root := by
  obtain ⟨s, hs, hbad⟩ := (Option.any_eq_true _ _).mp hrun
  rw [Bool.and_eq_true, decide_eq_true_eq, Bool.not_eq_true'] at hbad
  obtain ⟨change, hmem, hpath⟩ := hconfig
  refine ⟨s, hs, .inr hbad.1, ⟨change, hmem, .inl hpath⟩, ?_⟩
  intro h
  have hscheduled := h.recomputed (fun ⟨change, hchange, hdeleted⟩ => hlast change hchange hdeleted)
  rw [show projectA.root = projectDir "A" from rfl, hbad.2] at hscheduled
  cases hscheduled

open Sample in
/-- A project whose config is deleted and created again is cleared and not recomputed, and
one whose config is repaired is not noticed. -/
theorem Batch.not_follows :
    (∃ s : Server Marrow.sample,
      run Server.step Server.new (opened "A" ['x'] ++ recomputed twins) = some s ∧
      (s.batch twins.fs false recreated).Live projectA.root ∧
      (∃ change ∈ recreated, (s.batch twins.fs false recreated).Touches projectA change) ∧
      ¬ (s.batch twins.fs false recreated).Follows projectA.root) ∧
    ∃ s : Server Marrow.sample, run Server.step Server.new openedUnparsed = some s ∧
      (s.batch twins.fs false repaired).Live projectA.root ∧
      (∃ change ∈ repaired, (s.batch twins.fs false repaired).Touches projectA change) ∧
      ¬ (s.batch twins.fs false repaired).Follows projectA.root := by
  constructor
  · refine exists_not_follows ⟨_, List.mem_cons_self, rfl⟩ ?_ (by decide)
    intro change hlast
    cases hlast
    decide
  · refine exists_not_follows ⟨_, List.mem_cons_self, rfl⟩ ?_ (by decide)
    intro change hlast
    cases hlast
    decide

end MarrowLsp
