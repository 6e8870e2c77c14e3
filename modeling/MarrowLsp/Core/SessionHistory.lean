-- SUMMARY: The saved-data session cache against the histories of the stores it reads.
import MarrowLsp.Core.SessionCache
import MarrowLsp.Core.Sample
import MarrowLsp.Lib.Transition
import MarrowLsp.Lib.Versioned

/-!
# Saved-data histories

One cache serves the data views of every project. Each project has a store of its own,
which is written while reads of any project come and go. A read takes the change
detector of the store first and opens the store later, and writes may land in between.
-/
namespace MarrowLsp

open Transition Versioned

variable {M : Marrow}

/-! ## Uncached reads -/

/-- A session of the project as it is on disk, if its program is the given one. -/
def freshSession (w : World M) (project : Project M) (program : M.Program) :
    Option M.ReadSession := do
  let snapshot ← openSavedDataSnapshot w project
  let session ← w.openReadOnly snapshot
  sessionMatching session program

def freshRoots (w : World M) (project : Project M) (program : M.Program) : SavedRootsResult M :=
  savedRoots (freshSession w project program)

theorem openSurface_of_openSavedDataSnapshot {w : World M} {project : Project M}
    {snapshot : M.SurfaceSnapshot} (h : openSavedDataSnapshot w project = some snapshot) :
    w.openSurface project.root = some snapshot := by
  unfold openSavedDataSnapshot at h
  split at h
  · exact h
  · cases h
  · cases h

theorem sessionMatching_eq_some {session matching : M.ReadSession} {program : M.Program}
    (h : sessionMatching session program = some matching) :
    matching = session ∧ M.admitsCheckedProgram session program = true := by
  unfold sessionMatching at h
  split at h
  · next hadmits =>
    cases h
    exact ⟨rfl, hadmits⟩
  · cases h

theorem savedRoots_eq (session : M.ReadSession) :
    (∃ stamped, M.savedDataRoots session = some stamped ∧
      savedRoots (some session) = ⟨true, some stamped⟩) ∨
      M.savedDataRoots session = none ∧ savedRoots (some session) = ⟨false, none⟩ := by
  unfold savedRoots
  simp only [Option.bind_some]
  cases M.savedDataRoots session with
  | none => exact .inr ⟨rfl, rfl⟩
  | some stamped => exact .inl ⟨stamped, rfl, rfl⟩

/-! ## Misses and hits -/

namespace SavedDataSessionCache

/-- A refresh finds no session, or caches the roots of the session it opens. -/
theorem refresh_cases (c : SavedDataSessionCache M) (w : World M) (project : Project M)
    (program : M.Program) (generation : SessionGeneration) (storeStat : Option StoreFileStat) :
    freshSession w project program = none ∧
        c.refresh w project program generation storeStat = (none, c) ∨
      ∃ snapshot session, openSavedDataSnapshot w project = some snapshot ∧
        w.openReadOnly snapshot = some session ∧
        M.admitsCheckedProgram session program = true ∧
        freshSession w project program = some session ∧
        c.refresh w project program generation storeStat =
          (some ⟨generation, storeStat, snapshot, MarrowLsp.savedRoots (some session)⟩,
            ⟨some ⟨generation, storeStat, snapshot, MarrowLsp.savedRoots (some session)⟩⟩) := by
  unfold refresh freshSession
  cases hsnapshot : openSavedDataSnapshot w project with
  | none => exact .inl ⟨rfl, rfl⟩
  | some snapshot =>
    cases hopen : w.openReadOnly snapshot with
    | none =>
      left
      simp [hopen]
    | some session =>
      cases hmatching : sessionMatching session program with
      | none =>
        left
        simp [hopen, hmatching]
      | some matching =>
        right
        obtain ⟨rfl, hadmits⟩ := sessionMatching_eq_some hmatching
        refine ⟨snapshot, matching, rfl, hopen, hadmits, ?_, ?_⟩
        · simp [hopen, hmatching]
        · simp [hopen, hmatching]

theorem isCurrent_iff (c : SavedDataSessionCache M) (generation : SessionGeneration)
    (storeStat : Option StoreFileStat) :
    c.isCurrent generation storeStat = true ↔ ∃ cached, c.cached = some cached ∧
      cached.generation = generation ∧ storeStat.isSome = true ∧ cached.storeStat = storeStat := by
  unfold isCurrent
  rw [Option.any_eq_true]
  constructor
  · rintro ⟨cached, hcached, hsame⟩
    simp only [Bool.and_eq_true, beq_iff_eq] at hsame
    exact ⟨cached, hcached, hsame.1.1, hsame.1.2, hsame.2⟩
  · rintro ⟨cached, hcached, hgeneration, hsome, hstat⟩
    refine ⟨cached, hcached, ?_⟩
    simp only [Bool.and_eq_true, beq_iff_eq]
    exact ⟨⟨hgeneration, hsome⟩, hstat⟩

/-- A hit answers what is cached. -/
theorem savedRoots_of_current {c : SavedDataSessionCache M} {w : World M} {project : Project M}
    {program : M.Program} {cached : CachedSession M} (hcached : c.cached = some cached)
    (hcurrent : c.isCurrent (.ofProgram program) (nativeStoreStat w.fs project) = true) :
    c.savedRoots w project program = (cached.roots, c) := by
  unfold savedRoots
  simp only [hcached, hcurrent]

theorem readSession_of_current {c : SavedDataSessionCache M} {w : World M} {project : Project M}
    {program : M.Program} {cached : CachedSession M} (hcached : c.cached = some cached)
    (hcurrent : c.isCurrent (.ofProgram program) (nativeStoreStat w.fs project) = true) :
    c.readSession w project program =
      ((w.openReadOnly cached.snapshot).bind fun session => sessionMatching session program, c) := by
  unfold readSession
  simp only [hcached, hcurrent, if_true]

/-- A miss answers nothing when it finds no session, and otherwise answers and caches what
it finds. -/
theorem stale_cases {c : SavedDataSessionCache M} {w : World M} {project : Project M}
    {program : M.Program}
    (hstale : c.isCurrent (.ofProgram program) (nativeStoreStat w.fs project) = false) :
    freshSession w project program = none ∧
        c.savedRoots w project program = (⟨false, none⟩, c) ∧
        c.readSession w project program = (none, c) ∨
      ∃ snapshot session, openSavedDataSnapshot w project = some snapshot ∧
        w.openReadOnly snapshot = some session ∧
        M.admitsCheckedProgram session program = true ∧
        freshSession w project program = some session ∧
        c.savedRoots w project program = (MarrowLsp.savedRoots (some session),
          ⟨some ⟨.ofProgram program, nativeStoreStat w.fs project, snapshot,
            MarrowLsp.savedRoots (some session)⟩⟩) ∧
        c.readSession w project program = (some session,
          ⟨some ⟨.ofProgram program, nativeStoreStat w.fs project, snapshot,
            MarrowLsp.savedRoots (some session)⟩⟩) := by
  unfold savedRoots readSession
  simp only [hstale, Bool.false_eq_true, if_false]
  obtain ⟨hnone, heq⟩ | ⟨snapshot, session, hsnapshot, hopen, hadmits, hfresh, heq⟩ :=
    c.refresh_cases w project program (.ofProgram program) (nativeStoreStat w.fs project)
  · left
    refine ⟨hnone, ?_, ?_⟩
    · cases c.cached <;> simp [heq, MarrowLsp.savedRoots]
    · simp [heq]
  · right
    refine ⟨snapshot, session, hsnapshot, hopen, hadmits, hfresh, ?_, ?_⟩
    · cases c.cached <;> simp [heq]
    · simp [heq, hopen, sessionMatching, hadmits]

end SavedDataSessionCache

/-! ## Histories -/

/-- What the Marrow crates say of saved data. A snapshot is of the project at a root, as
its program was checked; a session reads a snapshot's store in one state. -/
structure SavedData (M : Marrow) where
  rootOf : M.SurfaceSnapshot → Path
  generationOf : M.SurfaceSnapshot → SessionGeneration
  snapshotOf : M.ReadSession → M.SurfaceSnapshot
  stateOf : M.ReadSession → Nat
  rootsAt : M.SurfaceSnapshot → Nat → M.StampedRoots
  admits_generation : ∀ session program, M.admitsCheckedProgram session program = true →
    generationOf (snapshotOf session) = .ofProgram program
  roots_eq : ∀ session stamped, M.savedDataRoots session = some stamped →
    stamped = rootsAt (snapshotOf session) (stateOf session)
  /-- The digests of a program determine what was checked, and so the roots. -/
  digests_determine : ∀ s s', rootOf s = rootOf s' → generationOf s = generationOf s' →
    ∀ n, rootsAt s n = rootsAt s' n

/-- The answers of a world in which the store of each project has been written a number
of times. -/
structure SavedData.Answers (D : SavedData M) (w : World M) (writes : Path → Nat) : Prop where
  surface : ∀ root snapshot, w.openSurface root = some snapshot → D.rootOf snapshot = root
  session : ∀ snapshot session, w.openReadOnly snapshot = some session →
    D.snapshotOf session = snapshot ∧ D.stateOf session = writes (D.rootOf snapshot)

structure SessionHistory (M : Marrow) where
  /-- How often the store of the project at a root was written. -/
  writes : Path → Nat
  /-- The change detectors read so far, each with the root it is of. -/
  seen : List (Sighting (Path × StoreFileStat))
  cache : SavedDataSessionCache M

inductive DataAction (M : Marrow) where
  | write (root : Path)
  | savedRoots (w : World M) (project : Project M) (program : M.Program) (between : List Path)
  | readSession (w : World M) (project : Project M) (program : M.Program) (between : List Path)

/-- The stores after each of `roots` has been written. -/
def written (writes : Path → Nat) (roots : List Path) (root : Path) : Nat :=
  writes root + roots.count root

namespace SessionHistory

def new : SessionHistory M := ⟨fun _ => 0, [], SavedDataSessionCache.new⟩

/-- The change detector that a read of the project takes. -/
def sighting (h : SessionHistory M) (w : World M) (project : Project M) :
    Sighting (Path × StoreFileStat) :=
  ⟨h.writes project.root, (nativeStoreStat w.fs project).map fun stat => (project.root, stat)⟩

/-- A read, during which the stores of the projects at `between` are written before its
session opens. -/
def read (h : SessionHistory M) (w : World M) (project : Project M) (between : List Path)
    (cache : SavedDataSessionCache M) : SessionHistory M where
  writes := written h.writes between
  seen := h.sighting w project :: h.seen
  cache

def step (h : SessionHistory M) : DataAction M → Option (SessionHistory M)
  | .write root => some { h with writes := written h.writes [root] }
  | .savedRoots w project program between =>
    some (h.read w project between (h.cache.savedRoots w project program).2)
  | .readSession w project program between =>
    some (h.read w project between (h.cache.readSession w project program).2)

/-- A read's hit is on a snapshot of its own project, and the roots of the session that a
miss opens can be read. -/
def Meets (D : SavedData M) (c : SavedDataSessionCache M) (w : World M) (project : Project M)
    (program : M.Program) : Prop :=
  (c.isCurrent (.ofProgram program) (nativeStoreStat w.fs project) = true →
    ∀ cached, c.cached = some cached → D.rootOf cached.snapshot = project.root) ∧
  (c.isCurrent (.ofProgram program) (nativeStoreStat w.fs project) = false →
    ∀ session, freshSession w project program = some session →
      (M.savedDataRoots session).isSome = true)

/-- Marrow answers a read as `D` says, and the read meets the condition. -/
def ReadMeets (D : SavedData M) (h : SessionHistory M) (w : World M) (project : Project M)
    (program : M.Program) (between : List Path) : Prop :=
  D.Answers w (written h.writes between) ∧ Meets D h.cache w project program

def StepMeets (D : SavedData M) (h : SessionHistory M) : DataAction M → Prop
  | .write _ => True
  | .savedRoots w project program between => h.ReadMeets D w project program between
  | .readSession w project program between => h.ReadMeets D w project program between

end SessionHistory

/-- What a read answers from the cache is what it would find without one. -/
structure Transparent (D : SavedData M) (h : SessionHistory M) (w : World M) (project : Project M)
    (program : M.Program) (between : List Path) : Prop where
  /-- Available roots are those of every snapshot of the project for the program, in a state
  of the store no older than the read. -/
  available : (h.cache.savedRoots w project program).1.available = true →
    ∃ stamped n, (h.cache.savedRoots w project program).1.stamped = some stamped ∧
      h.writes project.root ≤ n ∧ n ≤ written h.writes between project.root ∧
      (∃ snapshot, D.rootOf snapshot = project.root ∧
        D.generationOf snapshot = .ofProgram program) ∧
      ∀ snapshot, D.rootOf snapshot = project.root → D.generationOf snapshot = .ofProgram program →
        stamped = D.rootsAt snapshot n
  unavailable : (h.cache.savedRoots w project program).1.available = false →
    (freshRoots w project program).available = false
  session : ∀ session, (h.cache.readSession w project program).1 = some session →
    D.rootOf (D.snapshotOf session) = project.root ∧ M.admitsCheckedProgram session program = true
  /-- A refresh that could not read the roots leaves the cache as it was. -/
  unread : h.cache.isCurrent (.ofProgram program) (nativeStoreStat w.fs project) = false →
    (freshRoots w project program).available = false →
    (h.cache.savedRoots w project program).2 = h.cache ∧
      (h.cache.readSession w project program).2 = h.cache

/-! ## The cache against the history -/

variable {D : SavedData M} {seen : List (Sighting (Path × StoreFileStat))} {writes : Path → Nat}

theorem le_written (writes : Path → Nat) (roots : List Path) (root : Path) :
    writes root ≤ written writes roots root := Nat.le_add_right _ _

/-- The cached roots were read by a session of the cached snapshot, no earlier than the
cached change detector. -/
structure Kept (D : SavedData M) (seen : List (Sighting (Path × StoreFileStat)))
    (writes : Path → Nat) (cached : CachedSession M) : Prop where
  generation : D.generationOf cached.snapshot = cached.generation
  read : ∃ n, cached.roots = ⟨true, some (D.rootsAt cached.snapshot n)⟩ ∧
    n ≤ writes (D.rootOf cached.snapshot) ∧
    Dates seen (cached.storeStat.map fun stat => (D.rootOf cached.snapshot, stat)) n

theorem Kept.mono {more : List (Sighting (Path × StoreFileStat))} {later : Path → Nat}
    {cached : CachedSession M} (h : Kept D seen writes cached) (hsub : ∀ a ∈ seen, a ∈ more)
    (hle : ∀ root, writes root ≤ later root) : Kept D more later cached where
  generation := h.generation
  read := by
    obtain ⟨n, hroots, hn, hdates⟩ := h.read
    exact ⟨n, hroots, Nat.le_trans hn (hle _), hdates.mono hsub (Nat.le_refl n)⟩

def SessionHistory.Coherent (D : SavedData M) (h : SessionHistory M) : Prop :=
  ∀ cached, h.cache.cached = some cached → Kept D h.seen h.writes cached

section

variable {h : SessionHistory M} {w : World M} {project : Project M} {program : M.Program}
  {between : List Path}

/-- What a session that a miss opens reads is kept with what the cache will hold. -/
theorem kept_of_read {snapshot : M.SurfaceSnapshot} {session : M.ReadSession}
    (hanswers : D.Answers w (written h.writes between))
    (hsnapshot : openSavedDataSnapshot w project = some snapshot)
    (hopen : w.openReadOnly snapshot = some session)
    (hadmits : M.admitsCheckedProgram session program = true)
    (hreadable : (M.savedDataRoots session).isSome = true) :
    D.rootOf snapshot = project.root ∧ D.generationOf snapshot = .ofProgram program ∧
      savedRoots (some session) =
        ⟨true, some (D.rootsAt snapshot (written h.writes between project.root))⟩ ∧
      Kept D (h.sighting w project :: h.seen) (written h.writes between)
        ⟨.ofProgram program, nativeStoreStat w.fs project, snapshot, savedRoots (some session)⟩ := by
  have hroot : D.rootOf snapshot = project.root :=
    hanswers.surface _ _ (openSurface_of_openSavedDataSnapshot hsnapshot)
  obtain ⟨hof, hstate⟩ := hanswers.session snapshot session hopen
  have hgeneration := D.admits_generation session program hadmits
  rw [hof] at hgeneration
  have hroots : savedRoots (some session) =
      ⟨true, some (D.rootsAt snapshot (written h.writes between project.root))⟩ := by
    obtain ⟨stamped, hstamped, heq⟩ | ⟨hnone, -⟩ := savedRoots_eq session
    · rw [heq, D.roots_eq session stamped hstamped, hof, hstate, hroot]
    · rw [hnone] at hreadable
      cases hreadable
  refine ⟨hroot, hgeneration, hroots, hgeneration, written h.writes between project.root, hroots, ?_, ?_⟩
  · show _ ≤ written h.writes between (D.rootOf snapshot)
    rw [hroot]
  · show Dates _ ((nativeStoreStat w.fs project).map fun stat => (D.rootOf snapshot, stat)) _
    rw [hroot]
    exact @dates_of_mem _ _ (h.sighting w project) _ List.mem_cons_self (le_written _ _ _)

/-- A hit on a snapshot of the project finds its store in the state the cached roots were
read in. -/
theorem Kept.state_of_current {cached : CachedSession M} (hkept : Kept D h.seen h.writes cached)
    (hfaithful : Faithful (h.sighting w project :: h.seen))
    (hroot : D.rootOf cached.snapshot = project.root)
    (hsome : (nativeStoreStat w.fs project).isSome = true)
    (hstat : cached.storeStat = nativeStoreStat w.fs project) :
    cached.roots = ⟨true, some (D.rootsAt cached.snapshot (h.writes project.root))⟩ := by
  obtain ⟨n, hroots, hn, hdates⟩ := hkept.read
  rw [hroot] at hn hdates
  have hversion : n = h.writes project.root := by
    refine @version_eq_of_unchanged _ _ _ _ (h.sighting w project) hfaithful
      (hdates.mono (fun a => List.mem_cons_of_mem _) (Nat.le_refl n)) List.mem_cons_self hn ?_ ?_
    · show ((nativeStoreStat w.fs project).map _).isSome = true
      rw [Option.isSome_map]
      exact hsome
    · show (nativeStoreStat w.fs project).map _ = cached.storeStat.map _
      rw [hstat]
  rw [hroots, hversion]

/-- What both reads leave in the cache. -/
theorem coherent_read {cache : SavedDataSessionCache M} (hc : h.Coherent D)
    (hmeets : h.ReadMeets D w project program between)
    (hcache : cache = (h.cache.savedRoots w project program).2 ∨
      cache = (h.cache.readSession w project program).2) :
    (h.read w project between cache).Coherent D := by
  have hold : ∀ cached, h.cache.cached = some cached →
      Kept D (h.sighting w project :: h.seen) (written h.writes between) cached :=
    fun cached hcached => (hc cached hcached).mono (fun a => List.mem_cons_of_mem _)
      (le_written h.writes between)
  obtain ⟨hanswers, -, hreadable⟩ := hmeets
  intro cached hcached
  change cache.cached = some cached at hcached
  cases hcurrent : h.cache.isCurrent (.ofProgram program) (nativeStoreStat w.fs project) with
  | true =>
    obtain ⟨entry, hentry, -⟩ := (h.cache.isCurrent_iff _ _).mp hcurrent
    -- A hit leaves the cache alone, whichever of the two reads it is.
    have hkept : cache = h.cache := by
      obtain heq | heq := hcache
      · rw [heq, SavedDataSessionCache.savedRoots_of_current hentry hcurrent]
      · rw [heq, SavedDataSessionCache.readSession_of_current hentry hcurrent]
    rw [hkept] at hcached
    exact hold cached hcached
  | false =>
    obtain ⟨-, hroots, hread⟩ |
        ⟨snapshot, session, hsnapshot, hopen, hadmits, hfresh, hroots, hread⟩ :=
      SavedDataSessionCache.stale_cases hcurrent
    · -- A miss that opens no session leaves it alone too.
      rw [hroots, hread, or_self] at hcache
      rw [hcache] at hcached
      exact hold cached hcached
    · rw [hroots, hread, or_self] at hcache
      rw [hcache] at hcached
      cases hcached
      exact (kept_of_read hanswers hsnapshot hopen hadmits (hreadable hcurrent session hfresh)).2.2.2

theorem SessionHistory.coherent_new : (SessionHistory.new : SessionHistory M).Coherent D := by
  intro cached hcached
  cases hcached

theorem SessionHistory.Coherent.step {action : DataAction M} {h' : SessionHistory M}
    (hc : h.Coherent D) (hmeets : h.StepMeets D action) (hstep : h.step action = some h') :
    h'.Coherent D := by
  cases action with
  | write root =>
    cases hstep
    exact fun cached hcached => (hc cached hcached).mono (fun _ => id) (le_written h.writes [root])
  | savedRoots w project program between =>
    cases hstep
    exact coherent_read hc hmeets (.inl rfl)
  | readSession w project program between =>
    cases hstep
    exact coherent_read hc hmeets (.inr rfl)

/-! ## Reads are transparent -/

/-- A hit is transparent when the cached snapshot is of the project. -/
theorem transparent_of_current (hc : h.Coherent D)
    (hmeets : h.ReadMeets D w project program between)
    (hfaithful : Faithful (h.sighting w project :: h.seen))
    (hcurrent : h.cache.isCurrent (.ofProgram program) (nativeStoreStat w.fs project) = true) :
    Transparent D h w project program between := by
  obtain ⟨hanswers, hown, -⟩ := hmeets
  obtain ⟨cached, hcached, hgeneration, hsome, hstat⟩ := (h.cache.isCurrent_iff _ _).mp hcurrent
  have hroot := hown hcurrent cached hcached
  -- The cached digests are the program's, and the file has not changed since.
  have hof : D.generationOf cached.snapshot = .ofProgram program :=
    (hc cached hcached).generation.trans hgeneration
  have hroots := (hc cached hcached).state_of_current hfaithful hroot hsome hstat
  have hanswer : (h.cache.savedRoots w project program).1 =
      ⟨true, some (D.rootsAt cached.snapshot (h.writes project.root))⟩ := by
    rw [SavedDataSessionCache.savedRoots_of_current hcached hcurrent, hroots]
  refine ⟨?_, ?_, ?_, ?_⟩
  · intro _
    refine ⟨_, h.writes project.root, by rw [hanswer], Nat.le_refl _, le_written _ _ _,
      ⟨cached.snapshot, hroot, hof⟩, ?_⟩
    intro snapshot hroot' hof'
    exact D.digests_determine _ _ (hroot.trans hroot'.symm) (hof.trans hof'.symm) _
  · intro hunavailable
    rw [hanswer] at hunavailable
    cases hunavailable
  · intro session hsession
    rw [SavedDataSessionCache.readSession_of_current hcached hcurrent] at hsession
    obtain ⟨opened, hopen, hmatching⟩ := Option.bind_eq_some_iff.mp hsession
    obtain ⟨rfl, hadmits⟩ := sessionMatching_eq_some hmatching
    refine ⟨?_, hadmits⟩
    rw [(hanswers.session _ _ hopen).1]
    exact hroot
  · intro hstale
    rw [hcurrent] at hstale
    cases hstale

/-- A miss is transparent when the roots can be read. -/
theorem transparent_of_stale (hmeets : h.ReadMeets D w project program between)
    (hstale : h.cache.isCurrent (.ofProgram program) (nativeStoreStat w.fs project) = false) :
    Transparent D h w project program between := by
  obtain ⟨hanswers, -, hreadable⟩ := hmeets
  obtain ⟨hfresh, hroots, hread⟩ |
      ⟨snapshot, session, hsnapshot, hopen, hadmits, hfresh, hroots, hread⟩ :=
    SavedDataSessionCache.stale_cases hstale
  · -- No session opens or matches: a fresh read is unavailable as well.
    have hunavailable : freshRoots w project program = ⟨false, none⟩ := by
      unfold freshRoots
      rw [hfresh]
      rfl
    refine ⟨?_, ?_, ?_, ?_⟩
    · intro havailable
      rw [hroots] at havailable
      cases havailable
    · intro _
      rw [hunavailable]
    · intro session hsession
      rw [hread] at hsession
      cases hsession
    · intro _ _
      rw [hroots, hread]
      exact ⟨rfl, rfl⟩
  · obtain ⟨hroot, hof, hanswer, -⟩ :=
      kept_of_read hanswers hsnapshot hopen hadmits (hreadable hstale session hfresh)
    have havailable : freshRoots w project program = savedRoots (some session) := by
      unfold freshRoots
      rw [hfresh]
    refine ⟨?_, ?_, ?_, ?_⟩
    · intro _
      refine ⟨_, written h.writes between project.root, by rw [hroots, hanswer],
        le_written _ _ _, Nat.le_refl _, ⟨snapshot, hroot, hof⟩, ?_⟩
      intro snapshot' hroot' hof'
      exact D.digests_determine _ _ (hroot.trans hroot'.symm) (hof.trans hof'.symm) _
    · intro hunavailable
      rw [hroots, hanswer] at hunavailable
      cases hunavailable
    · intro session' hsession
      rw [hread] at hsession
      cases hsession
      refine ⟨?_, hadmits⟩
      rw [(hanswers.session _ _ hopen).1]
      exact hroot
    · intro _ hunread
      rw [havailable, hanswer] at hunread
      cases hunread

end

/-- In a history whose reads meet the condition every read is transparent. -/
theorem SavedDataSessionCache.transparent_of_meets {D : SavedData M} {h : SessionHistory M}
    {w : World M} {project : Project M} {program : M.Program} {between : List Path}
    (hreach : Reaches SessionHistory.step (SessionHistory.StepMeets D) SessionHistory.new h)
    (hmeets : h.ReadMeets D w project program between)
    (hfaithful : Faithful (h.sighting w project :: h.seen)) :
    Transparent D h w project program between := by
  have hc : h.Coherent D := hreach.invariant (I := SessionHistory.Coherent D) SessionHistory.coherent_new
    fun _ _ _ hc hmeets hstep => hc.step hmeets hstep
  cases hcurrent : h.cache.isCurrent (.ofProgram program) (nativeStoreStat w.fs project) with
  | true => exact transparent_of_current hc hmeets hfaithful hcurrent
  | false => exact transparent_of_stale hmeets hcurrent

namespace Sample

/-- A session of the project at a root, on the state its store was opened in. -/
structure DataSession where
  root : Path
  digest : Nat
  state : Nat
  readable : Bool

/-- The sample Marrow with sessions that admit a program by its digest, so that they do not
tell byte-identical copies apart, and whose roots may fail to be read. -/
def dataMarrow : Marrow :=
  { Marrow.sample with
    SurfaceSnapshot := Path × Nat
    ReadSession := DataSession
    StampedRoots := Path × Nat
    admitsCheckedProgram := fun session program => decide (session.digest = program.length)
    savedDataRoots := fun session =>
      if session.readable then some (session.root, session.state) else none }

def savedData : SavedData dataMarrow where
  rootOf := Prod.fst
  generationOf snapshot := ⟨toString snapshot.2, ""⟩
  snapshotOf session := (DataSession.root session, DataSession.digest session)
  stateOf := DataSession.state
  rootsAt snapshot n := (snapshot.1, n)
  admits_generation session program hadmits := by
    have hdigest : DataSession.digest session = List.length program := of_decide_eq_true hadmits
    show (⟨toString (DataSession.digest session), ""⟩ : SessionGeneration) =
      ⟨toString (List.length program), ""⟩
    rw [hdigest]
  roots_eq session stamped h := by
    change (if DataSession.readable session then
      some (DataSession.root session, DataSession.state session) else none) = some stamped at h
    split at h
    · cases h
      rfl
    · cases h
  digests_determine s s' hroot _ n := by
    change (s.1, n) = (s'.1, n)
    rw [show s.1 = s'.1 from hroot]

/-- A world in which the store of `A` has been written `n` times and every file has one
change detector; other stores are locked. -/
def dataWorld (n : Nat) (readable : Bool) : World dataMarrow where
  fs := { fsOf [] with stat := fun _ => some ⟨n, 8⟩ }
  openStore _ := none
  openSurface root := some (root, 1)
  openReadOnly snapshot :=
    if Prod.fst snapshot = projectDir "A" then
      some (⟨Prod.fst snapshot, Prod.snd snapshot, n, readable⟩ : DataSession)
    else none

def dataProject (name : String) : Project dataMarrow :=
  ⟨projectDir name, (⟨['n'], true⟩ : Config)⟩

def dataProgram : dataMarrow.Program := [app "A"]

theorem dataWorld_answers {n : Nat} {writes : Path → Nat} (readable : Bool)
    (hn : writes (projectDir "A") = n) : savedData.Answers (dataWorld n readable) writes where
  surface root snapshot h := by
    cases h
    rfl
  session snapshot session h := by
    change (if Prod.fst snapshot = projectDir "A" then
      some (⟨Prod.fst snapshot, Prod.snd snapshot, n, readable⟩ : DataSession) else none) =
        some session at h
    split at h
    · next hroot =>
      cases h
      refine ⟨rfl, ?_⟩
      show n = writes (Prod.fst snapshot)
      rw [hroot, hn]
    · cases h

/-- The history after one read of the roots of `A`. -/
def afterRead (readable : Bool) : SessionHistory dataMarrow :=
  SessionHistory.new.read (dataWorld 0 readable) (dataProject "A") []
    (SavedDataSessionCache.new.savedRoots (dataWorld 0 readable) (dataProject "A") dataProgram).2

end Sample

theorem Sample.dataWorld_meets {n : Nat} {c : SavedDataSessionCache Sample.dataMarrow}
    (hroot : ∀ cached, c.cached = some cached → Prod.fst cached.snapshot = Sample.projectDir "A") :
    SessionHistory.Meets Sample.savedData c (Sample.dataWorld n true) (Sample.dataProject "A")
      Sample.dataProgram := by
  refine ⟨fun _ => hroot, ?_⟩
  intro _ session hsession
  have hfresh : freshSession (Sample.dataWorld n true) (Sample.dataProject "A") Sample.dataProgram =
      some (⟨Sample.projectDir "A", 1, n, true⟩ : Sample.DataSession) := rfl
  rw [hfresh] at hsession
  cases hsession
  rfl

open Sample in
theorem SavedDataSessionCache.transparent_of_meets_hit :
    Transparent savedData (afterRead true) (dataWorld 0 true) (dataProject "A") dataProgram [] := by
  have hfirst : SessionHistory.new.StepMeets savedData
      (.savedRoots (dataWorld 0 true) (dataProject "A") dataProgram []) := by
    refine ⟨dataWorld_answers true rfl, dataWorld_meets ?_⟩
    intro cached hcached
    cases hcached
  have hreach : Reaches SessionHistory.step (SessionHistory.StepMeets savedData)
      SessionHistory.new (afterRead true) := Reaches.refl.snoc hfirst rfl
  refine transparent_of_meets hreach ⟨dataWorld_answers true rfl, dataWorld_meets ?_⟩ (by decide)
  intro cached hcached
  cases hcached
  rfl

open Sample in
/-- A failure to read the roots once is answered again from the cache, and a project's copy
is answered with a session of the project. -/
theorem SavedDataSessionCache.not_transparent :
    (run SessionHistory.step SessionHistory.new
        [.savedRoots (dataWorld 0 false) (dataProject "A") dataProgram []] = some (afterRead false) ∧
      savedData.Answers (dataWorld 0 false) (written (fun _ => 0) []) ∧
      savedData.Answers (dataWorld 0 true) (written (afterRead false).writes []) ∧
      Faithful ((afterRead false).sighting (dataWorld 0 true) (dataProject "A") ::
        (afterRead false).seen) ∧
      ¬ Transparent savedData (afterRead false) (dataWorld 0 true) (dataProject "A")
        dataProgram []) ∧
    (run SessionHistory.step SessionHistory.new
        [.savedRoots (dataWorld 0 true) (dataProject "A") dataProgram []] = some (afterRead true) ∧
      savedData.Answers (dataWorld 0 true) (written (fun _ => 0) []) ∧
      savedData.Answers (dataWorld 0 true) (written (afterRead true).writes []) ∧
      Faithful ((afterRead true).sighting (dataWorld 0 true) (dataProject "B") ::
        (afterRead true).seen) ∧
      ¬ Transparent savedData (afterRead true) (dataWorld 0 true) (dataProject "B")
        dataProgram []) := by
  refine ⟨⟨rfl, dataWorld_answers false rfl, dataWorld_answers true rfl, by decide, ?_⟩,
    rfl, dataWorld_answers true rfl, dataWorld_answers true rfl, by decide, ?_⟩
  · intro h
    have hfresh := h.unavailable (by decide)
    revert hfresh
    decide
  · intro h
    have hown := h.session ⟨projectDir "A", 1, 0, true⟩ rfl
    exact absurd hown.1 (by decide)

end MarrowLsp
