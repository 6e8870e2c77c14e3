-- SUMMARY: The diagnostics tracker of the language server: an epoch and the URLs with published problems per project root (backend.rs).
import MarrowLsp.Core.Diagnostics
import MarrowLsp.Core.Workspace

/-!
# The diagnostics tracker

Each root counts the recomputes asked of it, so that a recompute asked before
the last one is known to be stale, and remembers the URLs whose last published
list is not empty, so that a later run can clear them.
-/
namespace MarrowLsp

variable {M : Marrow}

structure RootDiagnostics where
  epoch : Nat
  nonEmptyUrls : List Url
  deriving DecidableEq, Repr

/-- `RootDiagnostics::default`. -/
def RootDiagnostics.new : RootDiagnostics := ⟨0, []⟩

structure DiagnosticsTracker where
  roots : AList fun _ : Path => RootDiagnostics

def sortedUrls (urls : List Url) : List Url :=
  urls.insertionSort fun left right => left.asStr ≤ right.asStr

/-- Which tracked URLs a publish may reconcile: all of them, or only those of the
files a source-only run analyzed. -/
inductive ReconcileScope where
  | whole
  | sourceOnly (analyzed : List Url)
  deriving DecidableEq, Repr

namespace ReconcileScope

/-- `ReconcileScope::source_only`. -/
def ofSnapshot (M : Marrow) (snapshot : M.Snapshot) : ReconcileScope :=
  .sourceOnly (snapshot.files.filterMap fun file => M.fromFilePath file.path)

def covers : ReconcileScope → Url → Bool
  | .whole, _ => true
  | .sourceOnly analyzed, url => analyzed.contains url

end ReconcileScope

namespace DiagnosticsTracker

def new : DiagnosticsTracker := ⟨∅⟩

/-- The diagnostics kept for a root, those of a new root when it has none. -/
def rootDiagnostics (tracker : DiagnosticsTracker) (root : Path) : RootDiagnostics :=
  (tracker.roots.lookup root).getD .new

def epoch (tracker : DiagnosticsTracker) (root : Path) : Nat :=
  (tracker.rootDiagnostics root).epoch

/-- `bump_root_epoch`, without the epoch it returns. -/
def bumpRootEpoch (tracker : DiagnosticsTracker) (root : Path) : DiagnosticsTracker :=
  let diagnostics := tracker.rootDiagnostics root
  ⟨tracker.roots.insert root { diagnostics with epoch := diagnostics.epoch + 1 }⟩

def isStale (tracker : DiagnosticsTracker) (root : Path) (epoch : Nat) : Bool :=
  tracker.epoch root != epoch

/-- The URLs that were tracked for a root, now cleared. -/
def clearRoot (tracker : DiagnosticsTracker) (root : Path) : List Url × DiagnosticsTracker :=
  match tracker.roots.lookup root with
  | none => ([], tracker)
  | some diagnostics =>
    (sortedUrls diagnostics.nonEmptyUrls,
      ⟨tracker.roots.insert root { diagnostics with nonEmptyUrls := [] }⟩)

/-- Forget one URL; whether it was tracked. -/
def clearUrl (tracker : DiagnosticsTracker) (root : Path) (url : Url) :
    Bool × DiagnosticsTracker :=
  match tracker.roots.lookup root with
  | none => (false, tracker)
  | some diagnostics =>
    (diagnostics.nonEmptyUrls.contains url,
      ⟨tracker.roots.insert root
        { diagnostics with nonEmptyUrls := diagnostics.nonEmptyUrls.erase url }⟩)

/-- The tracked URLs a run outside its scope leaves as they are. -/
def carriedForward (tracker : DiagnosticsTracker) (root : Path) (scope : ReconcileScope) :
    List Url :=
  (tracker.rootDiagnostics root).nonEmptyUrls.filter fun url => !scope.covers url

/-- Give every tracked URL in scope an entry, so that publishing clears it. -/
def withCleared (tracker : DiagnosticsTracker) (root : Path) (scope : ReconcileScope)
    (diagnostics : DiagnosticsByUrl) : DiagnosticsByUrl :=
  ((tracker.rootDiagnostics root).nonEmptyUrls.filter scope.covers).foldl
    (fun result url => if url ∈ result then result else result.insert url []) diagnostics

/-- `reconcile_success`: what to publish and the tracker after, or `none` when the
epoch is stale. -/
def reconcileSuccess (tracker : DiagnosticsTracker) (root : Path) (epoch : Nat)
    (scope : ReconcileScope) (diagnostics : DiagnosticsByUrl) :
    Option (DiagnosticsByUrl × DiagnosticsTracker) :=
  if tracker.isStale root epoch then none
  else
    let diagnostics := tracker.withCleared root scope diagnostics
    let nonEmpty := (diagnostics.entries.filter fun entry => !entry.2.isEmpty).map (·.1)
    some (diagnostics,
      ⟨tracker.roots.insert root
        { tracker.rootDiagnostics root with
          nonEmptyUrls := nonEmpty ∪ tracker.carriedForward root scope }⟩)

/-- Of two roots the deeper, the later of equals. -/
def deeper (best : Option Path) (root : Path) : Option Path :=
  match best with
  | none => some root
  | some b => if b.depth ≤ root.depth then some root else some b

/-- The deepest tracked root that holds a path. -/
def trackedRootForPath (tracker : DiagnosticsTracker) (path : Path) : Option Path :=
  (tracker.roots.keys.filter fun root => path.startsWith root).foldl deeper none

def trackedRootForUrl (tracker : DiagnosticsTracker) (url : Url) : Option Path :=
  (tracker.roots.entries.find? fun entry => entry.2.nonEmptyUrls.contains url).map (·.1)

def trackedRootForConfigPath (tracker : DiagnosticsTracker) (path : Path) : Option Path :=
  tracker.roots.keys.find? fun root => path == root.child CONFIG_FILE

/-! ## Epochs and tracked roots -/

theorem rootDiagnostics_insert (tracker : DiagnosticsTracker) (root r : Path)
    (diagnostics : RootDiagnostics) :
    (⟨tracker.roots.insert root diagnostics⟩ : DiagnosticsTracker).rootDiagnostics r =
      if r = root then diagnostics else tracker.rootDiagnostics r := by
  unfold rootDiagnostics
  by_cases h : r = root
  · subst h
    simp [AList.lookup_insert]
  · simp [AList.lookup_insert_ne h, h]

@[simp] theorem epoch_bumpRootEpoch (tracker : DiagnosticsTracker) (root r : Path) :
    (tracker.bumpRootEpoch root).epoch r =
      if r = root then tracker.epoch root + 1 else tracker.epoch r := by
  unfold bumpRootEpoch epoch
  rw [rootDiagnostics_insert]
  split <;> rfl

/-- Clearing a URL moves no epoch. -/
@[simp] theorem epoch_clearUrl (tracker : DiagnosticsTracker) (root r : Path) (url : Url) :
    (tracker.clearUrl root url).2.epoch r = tracker.epoch r := by
  unfold clearUrl
  cases h : tracker.roots.lookup root with
  | none => rfl
  | some diagnostics =>
    unfold epoch
    rw [rootDiagnostics_insert]
    split
    · next hr =>
      subst hr
      simp [rootDiagnostics, h]
    · rfl

@[simp] theorem epoch_clearRoot (tracker : DiagnosticsTracker) (root r : Path) :
    (tracker.clearRoot root).2.epoch r = tracker.epoch r := by
  unfold clearRoot
  cases h : tracker.roots.lookup root with
  | none => rfl
  | some diagnostics =>
    unfold epoch
    rw [rootDiagnostics_insert]
    split
    · next hr =>
      subst hr
      simp [rootDiagnostics, h]
    · rfl

/-- A successful reconcile was not stale and moves no epoch. -/
theorem epoch_of_reconcileSuccess {tracker after : DiagnosticsTracker} {root : Path} {epoch : Nat}
    {scope : ReconcileScope} {diagnostics published : DiagnosticsByUrl}
    (h : tracker.reconcileSuccess root epoch scope diagnostics = some (published, after)) :
    tracker.epoch root = epoch ∧ ∀ r, after.epoch r = tracker.epoch r := by
  unfold reconcileSuccess at h
  split at h
  · cases h
  · next hstale =>
    simp only [Option.some.injEq, Prod.mk.injEq] at h
    obtain ⟨-, rfl⟩ := h
    refine ⟨by simpa [isStale] using hstale, fun r => ?_⟩
    unfold DiagnosticsTracker.epoch
    rw [rootDiagnostics_insert]
    split
    · next hr => rw [hr]
    · rfl

theorem reconcileSuccess_eq_none_iff {tracker : DiagnosticsTracker} {root : Path} {epoch : Nat}
    {scope : ReconcileScope} {diagnostics : DiagnosticsByUrl} :
    tracker.reconcileSuccess root epoch scope diagnostics = none ↔ tracker.epoch root ≠ epoch := by
  unfold reconcileSuccess isStale
  split
  · next h => simpa using h
  · next h => simpa using h

/-- A root is tracked: it was bumped or reconciled once. -/
def Tracks (tracker : DiagnosticsTracker) (root : Path) : Prop := root ∈ tracker.roots

theorem deeper_foldl (roots : List Path) (best : Option Path) {root : Path}
    (h : roots.foldl deeper best = some root) : best = some root ∨ root ∈ roots := by
  induction roots generalizing best with
  | nil => exact .inl h
  | cons r roots ih =>
    rcases ih _ h with hbest | hmem
    · unfold deeper at hbest
      split at hbest
      · cases hbest
        exact .inr (List.mem_cons_self ..)
      · split at hbest
        · cases hbest
          exact .inr (List.mem_cons_self ..)
        · exact .inl hbest
    · exact .inr (List.mem_cons_of_mem _ hmem)

theorem tracks_of_trackedRootForPath {tracker : DiagnosticsTracker} {path root : Path}
    (h : tracker.trackedRootForPath path = some root) :
    tracker.Tracks root ∧ path.startsWith root = true := by
  rcases deeper_foldl _ _ h with hnone | hmem
  · cases hnone
  · obtain ⟨hkeys, hpath⟩ := List.mem_filter.mp hmem
    exact ⟨AList.mem_keys.mp hkeys, hpath⟩

/-! ## Other roots -/

theorem lookup_bumpRootEpoch {tracker : DiagnosticsTracker} {root r : Path} (h : r ≠ root) :
    (tracker.bumpRootEpoch root).roots.lookup r = tracker.roots.lookup r :=
  AList.lookup_insert_ne h

theorem lookup_clearRoot {tracker : DiagnosticsTracker} {root r : Path} (h : r ≠ root) :
    (tracker.clearRoot root).2.roots.lookup r = tracker.roots.lookup r := by
  unfold clearRoot
  split
  · rfl
  · exact AList.lookup_insert_ne h

theorem lookup_clearUrl {tracker : DiagnosticsTracker} {root r : Path} {url : Url} (h : r ≠ root) :
    (tracker.clearUrl root url).2.roots.lookup r = tracker.roots.lookup r := by
  unfold clearUrl
  split
  · rfl
  · exact AList.lookup_insert_ne h

theorem lookup_of_reconcileSuccess {tracker after : DiagnosticsTracker} {root r : Path}
    {epoch : Nat} {scope : ReconcileScope} {diagnostics published : DiagnosticsByUrl}
    (hreconcile : tracker.reconcileSuccess root epoch scope diagnostics = some (published, after))
    (h : r ≠ root) : after.roots.lookup r = tracker.roots.lookup r := by
  unfold reconcileSuccess at hreconcile
  split at hreconcile
  · cases hreconcile
  · cases hreconcile
    exact AList.lookup_insert_ne h

/-! ## What a reconcile leaves tracked -/

/-- Problems of this root were last published at this URL. -/
def TracksUrl (tracker : DiagnosticsTracker) (root : Path) (url : Url) : Prop :=
  url ∈ (tracker.rootDiagnostics root).nonEmptyUrls

instance (tracker : DiagnosticsTracker) (root : Path) (url : Url) :
    Decidable (tracker.TracksUrl root url) :=
  inferInstanceAs (Decidable (url ∈ (tracker.rootDiagnostics root).nonEmptyUrls))

@[simp] theorem tracksUrl_bumpRootEpoch {tracker : DiagnosticsTracker} {root r : Path}
    {url : Url} : (tracker.bumpRootEpoch root).TracksUrl r url ↔ tracker.TracksUrl r url := by
  unfold bumpRootEpoch TracksUrl
  rw [rootDiagnostics_insert]
  split
  · next hr => rw [hr]
  · rfl

theorem tracksUrl_clearRoot {tracker : DiagnosticsTracker} {root r : Path} {url : Url} :
    (tracker.clearRoot root).2.TracksUrl r url ↔ r ≠ root ∧ tracker.TracksUrl r url := by
  unfold clearRoot
  cases h : tracker.roots.lookup root with
  | none =>
    refine ⟨fun hurl => ⟨?_, hurl⟩, And.right⟩
    rintro rfl
    simp [TracksUrl, rootDiagnostics, h, RootDiagnostics.new] at hurl
  | some diagnostics =>
    unfold TracksUrl
    rw [rootDiagnostics_insert]
    by_cases hr : r = root
    · simp [hr]
    · simp [hr]

/-- What was tracked for a root is what clearing it gives. -/
theorem mem_clearRoot {tracker : DiagnosticsTracker} {root : Path} {url : Url} :
    url ∈ (tracker.clearRoot root).1 ↔ tracker.TracksUrl root url := by
  unfold clearRoot TracksUrl rootDiagnostics
  cases h : tracker.roots.lookup root with
  | none => simp [RootDiagnostics.new]
  | some diagnostics => simp [sortedUrls]

theorem clearUrl_fst {tracker : DiagnosticsTracker} {root : Path} {url : Url} :
    (tracker.clearUrl root url).1 = true ↔ tracker.TracksUrl root url := by
  unfold clearUrl TracksUrl rootDiagnostics
  cases h : tracker.roots.lookup root with
  | none => simp [RootDiagnostics.new]
  | some diagnostics => simp

/-- No root keeps a URL twice: the URLs of a root are a set. -/
def Distinct (tracker : DiagnosticsTracker) : Prop :=
  ∀ root, (tracker.rootDiagnostics root).nonEmptyUrls.Nodup

theorem distinct_new : new.Distinct := fun _ => List.nodup_nil

theorem Distinct.insert {tracker : DiagnosticsTracker} (h : tracker.Distinct) (root : Path)
    {diagnostics : RootDiagnostics} (hurls : diagnostics.nonEmptyUrls.Nodup) :
    (⟨tracker.roots.insert root diagnostics⟩ : DiagnosticsTracker).Distinct := by
  intro r
  rw [rootDiagnostics_insert]
  split
  · exact hurls
  · exact h r

theorem Distinct.bumpRootEpoch {tracker : DiagnosticsTracker} (h : tracker.Distinct)
    (root : Path) : (tracker.bumpRootEpoch root).Distinct := h.insert root (h root)

theorem Distinct.clearRoot {tracker : DiagnosticsTracker} (h : tracker.Distinct) (root : Path) :
    (tracker.clearRoot root).2.Distinct := by
  unfold DiagnosticsTracker.clearRoot
  split
  · exact h
  · exact h.insert root List.nodup_nil

theorem Distinct.clearUrl {tracker : DiagnosticsTracker} (h : tracker.Distinct) (root : Path)
    (url : Url) : (tracker.clearUrl root url).2.Distinct := by
  have hroot := h root
  unfold DiagnosticsTracker.clearUrl
  unfold rootDiagnostics at hroot
  cases hlookup : tracker.roots.lookup root with
  | none => exact h
  | some diagnostics =>
    rw [hlookup] at hroot
    exact h.insert root (hroot.erase url)

theorem Distinct.reconcileSuccess {tracker after : DiagnosticsTracker} (h : tracker.Distinct)
    {root : Path} {epoch : Nat} {scope : ReconcileScope} {diagnostics published : DiagnosticsByUrl}
    (hreconcile : tracker.reconcileSuccess root epoch scope diagnostics = some (published, after)) :
    after.Distinct := by
  unfold DiagnosticsTracker.reconcileSuccess at hreconcile
  split at hreconcile
  · cases hreconcile
  · cases hreconcile
    exact h.insert root (List.Nodup.union _ ((h root).filter _))

theorem tracksUrl_clearUrl {tracker : DiagnosticsTracker} (h : tracker.Distinct) {root r : Path}
    {url u : Url} : (tracker.clearUrl root url).2.TracksUrl r u ↔
      ¬ (r = root ∧ u = url) ∧ tracker.TracksUrl r u := by
  have hroot := h root
  unfold clearUrl
  unfold rootDiagnostics at hroot
  cases hlookup : tracker.roots.lookup root with
  | none =>
    refine ⟨fun hu => ⟨?_, hu⟩, And.right⟩
    rintro ⟨rfl, -⟩
    simp [TracksUrl, rootDiagnostics, hlookup, RootDiagnostics.new] at hu
  | some diagnostics =>
    rw [hlookup] at hroot
    unfold TracksUrl
    rw [rootDiagnostics_insert]
    by_cases hr : r = root
    · subst hr
      simp only [if_true, true_and, rootDiagnostics, hlookup, Option.getD_some]
      exact hroot.mem_erase_iff
    · simp [hr]

theorem lookup_foldl_cleared (urls : List Url) (diagnostics : DiagnosticsByUrl) (url : Url) :
    (urls.foldl (fun result url => if url ∈ result then result else result.insert url [])
        diagnostics).lookup url =
      (diagnostics.lookup url).or (if url ∈ urls then some [] else none) := by
  induction urls generalizing diagnostics with
  | nil => simp
  | cons first urls ih =>
    rw [List.foldl_cons, ih]
    by_cases hmem : first ∈ diagnostics
    · obtain ⟨list, hlist⟩ := AList.lookup_isSome.mpr hmem |> Option.isSome_iff_exists.mp
      by_cases hu : url = first
      · subst hu
        simp [hmem, hlist]
      · simp [hmem, hu]
    · by_cases hu : url = first
      · subst hu
        simp [hmem, AList.lookup_eq_none.mpr hmem]
      · simp [hmem, hu, AList.lookup_insert_ne hu]

/-- The list at a URL after the clears: what was there, or nothing for a tracked URL in scope. -/
theorem lookup_withCleared {tracker : DiagnosticsTracker} {root : Path} {scope : ReconcileScope}
    {diagnostics : DiagnosticsByUrl} (url : Url) :
    (tracker.withCleared root scope diagnostics).lookup url = (diagnostics.lookup url).or
      (if tracker.TracksUrl root url ∧ scope.covers url = true then some [] else none) := by
  rw [withCleared, lookup_foldl_cleared]
  simp only [List.mem_filter]
  rfl

theorem mem_withCleared {tracker : DiagnosticsTracker} {root : Path} {scope : ReconcileScope}
    {diagnostics : DiagnosticsByUrl} {url : Url} :
    url ∈ tracker.withCleared root scope diagnostics ↔
      (tracker.TracksUrl root url ∧ scope.covers url = true) ∨ url ∈ diagnostics := by
  rw [← AList.lookup_isSome, lookup_withCleared, Option.isSome_or, Bool.or_eq_true,
    AList.lookup_isSome, or_comm]
  refine or_congr_left ?_
  by_cases h : tracker.TracksUrl root url ∧ scope.covers url = true
  · simp [h]
  · simp [h]

/-- A reconcile publishes what it was given and a clear of every tracked URL in its scope;
it tracks what it publishes problems for, and the tracked URLs outside the scope. -/
theorem reconcileSuccess_spec {tracker after : DiagnosticsTracker} {root : Path} {epoch : Nat}
    {scope : ReconcileScope} {diagnostics published : DiagnosticsByUrl}
    (h : tracker.reconcileSuccess root epoch scope diagnostics = some (published, after)) :
    published = tracker.withCleared root scope diagnostics ∧
      ∀ url, after.TracksUrl root url ↔
        (∃ entry ∈ published.entries, entry.1 = url ∧ entry.2 ≠ []) ∨
          tracker.TracksUrl root url ∧ scope.covers url = false := by
  unfold reconcileSuccess at h
  split at h
  · cases h
  · simp only [Option.some.injEq, Prod.mk.injEq] at h
    obtain ⟨rfl, rfl⟩ := h
    refine ⟨rfl, fun url => ?_⟩
    unfold TracksUrl
    rw [rootDiagnostics_insert, if_pos rfl]
    simp [carriedForward, and_assoc, and_comm]

end DiagnosticsTracker

/-- `known_root_for_path`: the root of the resolved project or the deepest tracked
root that holds a path. The workspace is `none` while it is locked. -/
def knownRootForPath (workspace : Option (Workspace M)) (tracker : DiagnosticsTracker)
    (path : Path) : Option Path :=
  ((workspace.bind (·.project)).filter fun project => path.startsWith project.root).map (·.root)
    |>.or (tracker.trackedRootForPath path)

end MarrowLsp
