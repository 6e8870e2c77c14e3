-- SUMMARY: The store watchers of the editor extension beside the requests that name their targets: no watcher leaks, and when the watchers follow the server's answers (extension.ts, dataViewRefresh.ts).
import MarrowLsp.Lib.Lists
import MarrowLsp.Lib.Transition
import Mathlib.Order.Nat

/-!
# Watch targets

The registry asks the server which files to watch. Requests overlap and come back in any
order; a sequence number drops every answer that a later request has overtaken, also
when that later request fails.
-/
namespace MarrowLsp

namespace Editor

open Transition

/-! ## The registry -/

/-- A file system watcher, told apart by when it was created. -/
structure FileSystemWatcher where
  id : Nat
  fsPath : String
  deriving DecidableEq, Repr

/-- The watchers the editor created, and those it was told to dispose of. -/
structure WatcherHost where
  created : List FileSystemWatcher
  disposals : List FileSystemWatcher

namespace WatcherHost

def watchTarget (host : WatcherHost) (fsPath : String) : FileSystemWatcher × WatcherHost :=
  let watcher := ⟨host.created.length, fsPath⟩
  (watcher, { host with created := host.created ++ [watcher] })

/-- One watcher a path, in order. -/
def watchTargets (host : WatcherHost) : List String → List FileSystemWatcher × WatcherHost
  | [] => ([], host)
  | fsPath :: fsPaths =>
    let (watcher, host) := host.watchTarget fsPath
    let (watchers, host) := host.watchTargets fsPaths
    (watcher :: watchers, host)

def disposeWatchers (host : WatcherHost) (watchers : List FileSystemWatcher) : WatcherHost :=
  { host with disposals := host.disposals ++ watchers }

end WatcherHost

def sameWatchTargets (previous next : List String) : Bool :=
  Lists.everySame (· == ·) previous next

structure SavedDataWatchTargetRegistry where
  watchers : List FileSystemWatcher
  watchedPaths : List String
  refreshSeq : Nat
  disposed : Bool

namespace SavedDataWatchTargetRegistry

def new : SavedDataWatchTargetRegistry := ⟨[], [], 0, false⟩

/-- `refresh` up to its request: the sequence number it holds on to. -/
def beginRefresh (registry : SavedDataWatchTargetRegistry) : Nat × SavedDataWatchTargetRegistry :=
  let seq := registry.refreshSeq + 1
  (seq, { registry with refreshSeq := seq })

-- `isAbsolute` is `path.isAbsolute`.
variable (isAbsolute : String → Bool)

def watchTargetFsPath (target : String) : Option String :=
  if isAbsolute target then some target else none

/-- The paths of an answer that can be watched. -/
def absolutePaths (paths : List String) : List String :=
  paths.filter fun target => (watchTargetFsPath isAbsolute target).isSome

/-- `refresh` once its request has an answer, `none` where the request failed. -/
def resumeRefresh (registry : SavedDataWatchTargetRegistry) (host : WatcherHost) (seq : Nat)
    (result : Option (List String)) : SavedDataWatchTargetRegistry × WatcherHost :=
  match result with
  | none => (registry, host)
  | some paths =>
    if registry.disposed || seq != registry.refreshSeq then (registry, host)
    else
      let nextPaths := absolutePaths isAbsolute paths
      if sameWatchTargets registry.watchedPaths nextPaths then (registry, host)
      else
        let (nextWatchers, host) := host.watchTargets nextPaths
        -- Creating the watchers has changed neither, so this guard never holds.
        if registry.disposed || seq != registry.refreshSeq then
          (registry, host.disposeWatchers nextWatchers)
        else
          ({ registry with watchers := nextWatchers, watchedPaths := nextPaths },
            host.disposeWatchers registry.watchers)

def dispose (registry : SavedDataWatchTargetRegistry) (host : WatcherHost) :
    SavedDataWatchTargetRegistry × WatcherHost :=
  (⟨[], [], registry.refreshSeq + 1, true⟩, host.disposeWatchers registry.watchers)

end SavedDataWatchTargetRegistry

open SavedDataWatchTargetRegistry

/-! ## Refreshes in flight -/

/-- A refresh that waits for its answer: its place among the refreshes, and the number it
took from the registry. -/
structure Refresh where
  order : Nat
  seq : Nat
  deriving DecidableEq, Repr

/-- An answer that came back; `overtaken` where a later refresh had been issued by then. -/
structure WatchAnswer where
  order : Nat
  paths : List String
  overtaken : Bool
  deriving DecidableEq, Repr

/-- The registry with its watchers, the refreshes it waits for and the answers so far,
the latest to arrive first. -/
structure WatchSession where
  registry : SavedDataWatchTargetRegistry
  host : WatcherHost
  issued : Nat
  inFlight : List Refresh
  answers : List WatchAnswer

inductive WatchEvent where
  | refresh
  | settle (refresh : Refresh) (result : Option (List String))
  | dispose
  deriving DecidableEq, Repr

namespace WatchSession

def new : WatchSession := ⟨.new, ⟨[], []⟩, 0, [], []⟩

/-- The answers with that of a refresh that settles. -/
def answered (s : WatchSession) (refresh : Refresh) (result : Option (List String)) :
    List WatchAnswer :=
  match result with
  | some paths => ⟨refresh.order, paths, refresh.order != s.issued⟩ :: s.answers
  | none => s.answers

def step (isAbsolute : String → Bool) (s : WatchSession) : WatchEvent → Option WatchSession
  | .refresh =>
    let (seq, registry) := s.registry.beginRefresh
    some { s with
      registry := registry
      issued := s.issued + 1
      inFlight := ⟨s.issued + 1, seq⟩ :: s.inFlight }
  | .settle refresh result =>
    if refresh ∈ s.inFlight then
      let (registry, host) := s.registry.resumeRefresh isAbsolute s.host refresh.seq result
      some { s with
        registry := registry
        host := host
        inFlight := s.inFlight.erase refresh
        answers := s.answered refresh result }
    else none
  | .dispose =>
    let (registry, host) := s.registry.dispose s.host
    some { s with registry := registry, host := host }

end WatchSession

/-- The answer to the latest-issued refresh that has one. -/
def IsLatest (answers : List WatchAnswer) (answer : WatchAnswer) : Prop :=
  answer ∈ answers ∧ ∀ other ∈ answers, other.order ≤ answer.order

/-- The paths of the last answer that arrived before any later refresh was issued. -/
def timelyPaths (answers : List WatchAnswer) : List String :=
  ((answers.find? fun answer => !answer.overtaken).map (·.paths)).getD []

/-- What the store watchers promise. -/
structure Watches (isAbsolute : String → Bool) (s : WatchSession) : Prop where
  accounted : ∀ watcher ∈ s.host.created,
    (watcher ∈ s.registry.watchers ∧ watcher ∉ s.host.disposals) ∨
      (watcher ∉ s.registry.watchers ∧ s.host.disposals.count watcher = 1)
  paired : s.registry.watchers.map (·.fsPath) = s.registry.watchedPaths
  released : s.registry.disposed = true → s.registry.watchers = []
  latest : s.registry.disposed = false → s.inFlight = [] →
    (∀ answer, IsLatest s.answers answer →
      s.registry.watchedPaths = absolutePaths isAbsolute answer.paths) ∧
    (s.answers = [] → s.registry.watchedPaths = [])

/-- The answer to the latest-issued refresh, if a later refresh overtook it, names the
paths that the last timely answer named. -/
def Heeded (isAbsolute : String → Bool) (s : WatchSession) : Prop :=
  s.registry.disposed = false → s.inFlight = [] →
    ∀ answer, IsLatest s.answers answer → answer.overtaken = true →
      absolutePaths isAbsolute answer.paths = absolutePaths isAbsolute (timelyPaths s.answers)

/-! ## What the registry does -/

theorem sameWatchTargets_iff {previous next : List String} :
    sameWatchTargets previous next = true ↔ previous = next :=
  Lists.everySame_iff fun _ _ => beq_iff_eq

namespace WatcherHost

theorem watchTargets_paths (host : WatcherHost) (fsPaths : List String) :
    (host.watchTargets fsPaths).1.map (·.fsPath) = fsPaths := by
  induction fsPaths generalizing host with
  | nil => rfl
  | cons fsPath fsPaths ih => simp [watchTargets, watchTarget, ih]

theorem watchTargets_created (host : WatcherHost) (fsPaths : List String) :
    (host.watchTargets fsPaths).2.created = host.created ++ (host.watchTargets fsPaths).1 := by
  induction fsPaths generalizing host with
  | nil => simp [watchTargets]
  | cons fsPath fsPaths ih => simp [watchTargets, watchTarget, ih]

theorem watchTargets_disposals (host : WatcherHost) (fsPaths : List String) :
    (host.watchTargets fsPaths).2.disposals = host.disposals := by
  induction fsPaths generalizing host with
  | nil => rfl
  | cons fsPath fsPaths ih => simp [watchTargets, watchTarget, ih]

/-- Watchers carry their place among those created. -/
def Numbered (host : WatcherHost) : Prop :=
  host.created.map (·.id) = List.range host.created.length

theorem Numbered.watchTarget {host : WatcherHost} (h : host.Numbered) (fsPath : String) :
    (host.watchTarget fsPath).2.Numbered := by
  unfold Numbered at h ⊢
  simp [WatcherHost.watchTarget, h, List.range_succ]

theorem Numbered.watchTargets {host : WatcherHost} (h : host.Numbered) (fsPaths : List String) :
    (host.watchTargets fsPaths).2.Numbered := by
  induction fsPaths generalizing host with
  | nil => exact h
  | cons fsPath fsPaths ih => exact ih (h.watchTarget fsPath)

theorem Numbered.nodup {host : WatcherHost} (h : host.Numbered) : host.created.Nodup := by
  have hids : (host.created.map (·.id)).Nodup := by
    rw [h]
    exact List.nodup_range
  exact List.Nodup.of_map _ hids

end WatcherHost

/-- What `resumeRefresh` does: nothing, unless the answer is still wanted; then either
the targets are the ones watched, or new watchers take the place of the old. -/
theorem resumeRefresh_cases (isAbsolute : String → Bool) (registry : SavedDataWatchTargetRegistry)
    (host : WatcherHost) (seq : Nat) (result : Option (List String)) :
    (registry.resumeRefresh isAbsolute host seq result = (registry, host) ∧
      ∀ paths, result = some paths → registry.disposed = false → seq = registry.refreshSeq →
        registry.watchedPaths = absolutePaths isAbsolute paths) ∨
    ∃ paths, result = some paths ∧ registry.disposed = false ∧ seq = registry.refreshSeq ∧
      registry.resumeRefresh isAbsolute host seq result =
        ({ registry with
            watchers := (host.watchTargets (absolutePaths isAbsolute paths)).1
            watchedPaths := absolutePaths isAbsolute paths },
          (host.watchTargets (absolutePaths isAbsolute paths)).2.disposeWatchers
            registry.watchers) := by
  cases result with
  | none => exact .inl ⟨rfl, fun paths h => by cases h⟩
  | some paths =>
    by_cases hwanted : registry.disposed = false ∧ seq = registry.refreshSeq
    · obtain ⟨hlive, hseq⟩ := hwanted
      by_cases hsame :
          sameWatchTargets registry.watchedPaths (absolutePaths isAbsolute paths) = true
      · refine .inl ⟨by simp [resumeRefresh, hsame], ?_⟩
        rintro _ ⟨⟩ - -
        exact sameWatchTargets_iff.mp hsame
      · exact .inr ⟨paths, rfl, hlive, hseq, by simp [resumeRefresh, hlive, hseq, hsame]⟩
    · refine .inl ⟨?_, fun _ _ hlive hseq => absurd ⟨hlive, hseq⟩ hwanted⟩
      have hguard : (registry.disposed || seq != registry.refreshSeq) = true := by
        rw [Bool.or_eq_true, bne_iff_ne]
        by_contra hnot
        rw [not_or, Bool.not_eq_true, not_not] at hnot
        exact hwanted hnot
      simp [resumeRefresh, hguard]

/-! ## What every session keeps -/

namespace WatchSession

/-- Every watcher created is live or disposed of, and the registry watches the paths of
the last timely answer. -/
structure Consistent (isAbsolute : String → Bool) (s : WatchSession) : Prop where
  numbered : s.host.Numbered
  accounted : (s.registry.watchers ++ s.host.disposals).Perm s.host.created
  paired : s.registry.watchers.map (·.fsPath) = s.registry.watchedPaths
  released : s.registry.disposed = true → s.registry.watchers = []
  sequenced : s.registry.disposed = false → s.registry.refreshSeq = s.issued
  stamped : s.registry.disposed = false → ∀ refresh ∈ s.inFlight, refresh.seq = refresh.order
  applied : s.registry.disposed = false →
    s.registry.watchedPaths = absolutePaths isAbsolute (timelyPaths s.answers)

/-- A timely answer is to a later refresh than any answer before it. -/
structure Ordered (s : WatchSession) : Prop where
  issued : ∀ refresh ∈ s.inFlight, refresh.order ≤ s.issued
  distinct : (s.inFlight.map (·.order)).Nodup
  answered : ∀ answer ∈ s.answers, answer.order ≤ s.issued ∧
    ∀ refresh ∈ s.inFlight, refresh.order ≠ answer.order
  overtakes : s.answers.Pairwise fun newer older =>
    newer.overtaken = false → older.order < newer.order

variable {isAbsolute : String → Bool} {s t : WatchSession}

theorem consistent_new : Consistent isAbsolute new := by
  refine ⟨rfl, .refl _, rfl, ?_, ?_, ?_, ?_⟩
  · intro h
    cases h
  · intro _
    rfl
  · intro _ refresh hrefresh
    cases hrefresh
  · intro _
    rfl

theorem ordered_new : Ordered new := by
  refine ⟨?_, List.nodup_nil, ?_, .nil⟩
  · intro refresh hrefresh
    cases hrefresh
  · intro answer hanswer
    cases hanswer

theorem Ordered.refresh (h : Ordered s) (seq : Nat) {registry : SavedDataWatchTargetRegistry} :
    Ordered { s with
      registry := registry
      issued := s.issued + 1
      inFlight := ⟨s.issued + 1, seq⟩ :: s.inFlight } := by
  refine ⟨?_, ?_, ?_, h.overtakes⟩
  · intro refresh hrefresh
    rcases List.mem_cons.mp hrefresh with rfl | hrefresh
    · exact Nat.le_refl _
    · exact (h.issued refresh hrefresh).trans (Nat.le_succ _)
  · refine List.nodup_cons.mpr ⟨?_, h.distinct⟩
    intro hmem
    obtain ⟨refresh, hrefresh, horder⟩ := List.mem_map.mp hmem
    have hle := h.issued refresh hrefresh
    dsimp only at horder
    omega
  · intro answer hanswer
    obtain ⟨hle, hne⟩ := h.answered answer hanswer
    refine ⟨hle.trans (Nat.le_succ _), ?_⟩
    intro refresh hrefresh
    rcases List.mem_cons.mp hrefresh with rfl | hrefresh
    · dsimp only
      omega
    · exact hne refresh hrefresh

theorem Ordered.settle (h : Ordered s) {refresh : Refresh} (hmem : refresh ∈ s.inFlight)
    (result : Option (List String)) {registry : SavedDataWatchTargetRegistry}
    {host : WatcherHost} :
    Ordered { s with
      registry := registry
      host := host
      inFlight := s.inFlight.erase refresh
      answers := s.answered refresh result } := by
  have hgone : ∀ other ∈ s.inFlight.erase refresh, other.order ≠ refresh.order := by
    intro other hother horder
    have hnodup : s.inFlight.Nodup := List.Nodup.of_map _ h.distinct
    have hsame := List.inj_on_of_nodup_map h.distinct (List.mem_of_mem_erase hother) hmem horder
    exact (hnodup.mem_erase_iff.mp hother).1 hsame
  refine ⟨?_, ?_, ?_, ?_⟩
  · intro other hother
    exact h.issued other (List.mem_of_mem_erase hother)
  · exact h.distinct.sublist (List.erase_sublist.map _)
  · have hold : ∀ answer ∈ s.answers, answer.order ≤ s.issued ∧
        ∀ other ∈ s.inFlight.erase refresh, other.order ≠ answer.order := by
      intro answer hanswer
      obtain ⟨hle, hne⟩ := h.answered answer hanswer
      exact ⟨hle, fun other hother => hne other (List.mem_of_mem_erase hother)⟩
    cases result with
    | none => exact hold
    | some paths =>
      intro answer hanswer
      rcases List.mem_cons.mp hanswer with rfl | hanswer
      · exact ⟨h.issued refresh hmem, hgone⟩
      · exact hold answer hanswer
  · cases result with
    | none => exact h.overtakes
    | some paths =>
      refine List.pairwise_cons.mpr ⟨?_, h.overtakes⟩
      intro older holder htimely
      -- A timely answer is to the last refresh issued, which had no answer before.
      obtain ⟨hle, hne⟩ := h.answered older holder
      have hissued : refresh.order = s.issued := by simpa using htimely
      have hother := hne refresh hmem
      dsimp only
      omega

theorem ordered_step {event : WatchEvent} (h : Ordered s) (hs : s.step isAbsolute event = some t) :
    Ordered t := by
  cases event with
  | refresh =>
    cases hs
    exact h.refresh _
  | settle refresh result =>
    simp only [step] at hs
    split at hs
    · next hmem =>
      cases hs
      exact h.settle hmem result
    · cases hs
  | dispose =>
    cases hs
    exact ⟨h.issued, h.distinct, h.answered, h.overtakes⟩

/-- A late answer is not what the registry waits for, and a timely one is. -/
theorem timelyPaths_answered (refresh : Refresh) (paths : List String) :
    timelyPaths (s.answered refresh (some paths)) =
      if refresh.order = s.issued then paths else timelyPaths s.answers := by
  unfold timelyPaths
  by_cases h : refresh.order = s.issued
  · simp [answered, h]
  · simp [answered, h]

theorem Consistent.settle (h : Consistent isAbsolute s) {refresh : Refresh}
    (hmem : refresh ∈ s.inFlight) (result : Option (List String)) :
    Consistent isAbsolute { s with
      registry := (s.registry.resumeRefresh isAbsolute s.host refresh.seq result).1
      host := (s.registry.resumeRefresh isAbsolute s.host refresh.seq result).2
      inFlight := s.inFlight.erase refresh
      answers := s.answered refresh result } := by
  have hstamped : s.registry.disposed = false →
      ∀ other ∈ s.inFlight.erase refresh, other.seq = other.order :=
    fun hlive other hother => h.stamped hlive other (List.mem_of_mem_erase hother)
  obtain ⟨hsame, hwatched⟩ | ⟨paths, rfl, hlive, hseq, hnew⟩ :=
    resumeRefresh_cases isAbsolute s.registry s.host refresh.seq result
  · rw [hsame]
    refine ⟨h.numbered, h.accounted, h.paired, h.released, h.sequenced, hstamped, ?_⟩
    intro hlive
    cases result with
    | none => exact h.applied hlive
    | some paths =>
      dsimp only
      rw [timelyPaths_answered]
      split
      · next horder =>
        refine hwatched paths rfl hlive ?_
        rw [h.stamped hlive refresh hmem, horder, h.sequenced hlive]
      · exact h.applied hlive
  · rw [hnew]
    have horder : refresh.order = s.issued := by
      rw [← h.stamped hlive refresh hmem, hseq, h.sequenced hlive]
    refine ⟨h.numbered.watchTargets _, ?_, ?_, ?_, h.sequenced, hstamped, ?_⟩
    · simp only [WatcherHost.disposeWatchers, WatcherHost.watchTargets_disposals,
        WatcherHost.watchTargets_created]
      refine List.perm_append_comm.trans (List.Perm.append_right _ ?_)
      exact List.perm_append_comm.trans h.accounted
    · exact WatcherHost.watchTargets_paths _ _
    · intro hdisposed
      cases hlive.symm.trans hdisposed
    · intro _
      dsimp only
      rw [timelyPaths_answered, if_pos horder]

theorem consistent_step {event : WatchEvent} (h : Consistent isAbsolute s)
    (hs : s.step isAbsolute event = some t) : Consistent isAbsolute t := by
  cases event with
  | refresh =>
    cases hs
    refine ⟨h.numbered, h.accounted, h.paired, h.released, ?_, ?_, h.applied⟩
    · intro hlive
      exact congrArg (· + 1) (h.sequenced hlive)
    · intro hlive refresh hrefresh
      rcases List.mem_cons.mp hrefresh with rfl | hrefresh
      · exact congrArg (· + 1) (h.sequenced hlive)
      · exact h.stamped hlive refresh hrefresh
  | settle refresh result =>
    simp only [step] at hs
    split at hs
    · next hmem =>
      cases hs
      exact h.settle hmem result
    · cases hs
  | dispose =>
    cases hs
    refine ⟨h.numbered, ?_, rfl, fun _ => rfl, ?_, ?_, ?_⟩
    · have hswap : (s.host.disposals ++ s.registry.watchers).Perm s.host.created :=
        List.perm_append_comm.trans h.accounted
      exact hswap
    · intro hlive
      cases hlive
    · intro hlive
      cases hlive
    · intro hlive
      cases hlive

theorem consistent_of_reachable (h : Reachable (step isAbsolute) new t) : Consistent isAbsolute t :=
  h.invariant consistent_new fun _ _ _ hs _ hstep => consistent_step hs hstep

theorem ordered_of_reachable (h : Reachable (step isAbsolute) new t) : Ordered t :=
  h.invariant ordered_new fun _ _ _ hs _ hstep => ordered_step hs hstep

/-- A watcher created is live, or was disposed of once. -/
theorem Consistent.live_or_disposed (h : Consistent isAbsolute s) {watcher : FileSystemWatcher}
    (hmem : watcher ∈ s.host.created) :
    (watcher ∈ s.registry.watchers ∧ watcher ∉ s.host.disposals) ∨
      (watcher ∉ s.registry.watchers ∧ s.host.disposals.count watcher = 1) := by
  have hcount : s.registry.watchers.count watcher + s.host.disposals.count watcher = 1 := by
    rw [← List.count_append, h.accounted.count_eq]
    exact List.count_eq_one_of_mem h.numbered.nodup hmem
  by_cases hlive : watcher ∈ s.registry.watchers
  · refine .inl ⟨hlive, ?_⟩
    have hpos := List.count_pos_iff.mpr hlive
    exact List.count_eq_zero.mp (by omega)
  · refine .inr ⟨hlive, ?_⟩
    rw [List.count_eq_zero.mpr hlive, Nat.zero_add] at hcount
    exact hcount

/-- Where the latest-issued refresh was answered in time, its answer is the last timely one. -/
theorem Ordered.timelyPaths_eq (h : Ordered s) {answer : WatchAnswer}
    (hlatest : IsLatest s.answers answer) (htimely : answer.overtaken = false) :
    timelyPaths s.answers = answer.paths := by
  obtain ⟨hmem, hmax⟩ := hlatest
  have hovertakes := h.overtakes
  unfold timelyPaths
  generalize s.answers = answers at hmem hmax hovertakes ⊢
  induction answers with
  | nil => cases hmem
  | cons newest answers ih =>
    obtain ⟨hnewest, hrest⟩ := List.pairwise_cons.mp hovertakes
    rcases List.mem_cons.mp hmem with rfl | hmem
    · simp [htimely]
    · cases hlate : newest.overtaken with
      | true =>
        rw [List.find?_cons_of_neg (by simp [hlate])]
        exact ih hmem (fun other hother => hmax other (List.mem_cons_of_mem _ hother)) hrest
      | false =>
        have hlt := hnewest answer hmem hlate
        have hle := hmax newest (List.mem_cons_self ..)
        omega

/-- In every state a session reaches, the watchers keep their promises exactly when no
late answer that mattered was dropped. -/
theorem watches_iff (h : Reachable (step isAbsolute) new s) :
    Watches isAbsolute s ↔ Heeded isAbsolute s := by
  have hconsistent := consistent_of_reachable h
  have hordered := ordered_of_reachable h
  constructor
  · intro hwatches hlive hidle answer hlatest _
    rw [← hconsistent.applied hlive, (hwatches.latest hlive hidle).1 answer hlatest]
  · intro hheeded
    refine ⟨fun _ => hconsistent.live_or_disposed, hconsistent.paired, hconsistent.released, ?_⟩
    intro hlive hidle
    rw [hconsistent.applied hlive]
    refine ⟨?_, ?_⟩
    · intro answer hlatest
      cases hlate : answer.overtaken with
      | true => exact (hheeded hlive hidle answer hlatest hlate).symm
      | false => rw [hordered.timelyPaths_eq hlatest hlate]
    · intro hnone
      rw [hnone]
      rfl

/-! ## A good answer dropped -/

/-- `path.isAbsolute` on POSIX. -/
def isAbsolutePosix (path : String) : Bool := path.toList.head? == some '/'

def afterTimely : List WatchEvent :=
  [.refresh, .settle ⟨1, 1⟩ (some ["/p/store", "data"]), .refresh, .settle ⟨2, 2⟩ none]

def afterOvertaken : List WatchEvent :=
  [.refresh, .refresh, .settle ⟨1, 1⟩ (some ["/p/store"]), .settle ⟨2, 2⟩ none]

/-- A refresh that fails after the answer leaves its watcher. -/
theorem watches_afterTimely :
    ∃ s, run (step isAbsolutePosix) new afterTimely = some s ∧ Watches isAbsolutePosix s ∧
      s.registry.watchedPaths = ["/p/store"] := by
  have hrun := @reachable_of_run _ _ (step isAbsolutePosix) new _ afterTimely rfl
  refine ⟨_, rfl, (watches_iff hrun).mpr ?_, rfl⟩
  rintro - - answer ⟨hmem, -⟩ hlate
  rcases List.mem_singleton.mp hmem with rfl
  cases hlate

/-- A refresh issued before the answer arrives loses it, and then fails. -/
theorem not_watches_afterOvertaken :
    ∃ s, run (step isAbsolutePosix) new afterOvertaken = some s ∧ ¬ Watches isAbsolutePosix s := by
  refine ⟨_, rfl, ?_⟩
  intro h
  have hlatest := (h.latest rfl rfl).1 ⟨1, ["/p/store"], true⟩
    ⟨List.mem_singleton.mpr rfl, fun _ hother => (List.mem_singleton.mp hother).symm ▸ Nat.le_refl 1⟩
  cases hlatest

end WatchSession

end Editor

end MarrowLsp
