-- SUMMARY: The catalog binding cache against the history of the store it binds from.
import MarrowLsp.Core.CatalogBinding
import MarrowLsp.Core.Sample
import MarrowLsp.Lib.Transition
import MarrowLsp.Lib.Versioned

/-!
# Catalog histories

The store of one project is written while binds come and go, and a bind looks at it
three times: whether its file exists, its change detector, and its contents under one
open handle. A write may land between any two of these. The history counts the
writes; the cache is held against what the store held after each.
-/
namespace MarrowLsp

open Transition Versioned

variable {M : Marrow}

/-! ## What a bind does -/

/-- The binding that goes with an accepted catalog: the committed lock is read for it
when there is none. -/
def adopted (fs : Fs) (root : Path) (accepted : Option M.Catalog) :
    Except M.IoError (CatalogBinding M) :=
  (lockForAdoption fs root accepted).map fun lock => ⟨accepted, lock⟩

/-- The commit identity is read from a view of the store. -/
def Identifies (view : M.StoreView) (identity : StoreCommitIdentity M) : Prop :=
  ∃ uid commit, M.storeUid view = .ok uid ∧ M.commitMetadata view = .ok commit ∧
    identity = StoreCommitIdentity.fromCommit identity.path uid commit

/-- A read of the view fails. -/
def ReadFails (root : Path) (view : M.StoreView) (e : M.IoError) : Prop :=
  M.pin view = .error e ∨ M.storeUid view = .error e ∨ M.commitMetadata view = .error e ∨
    M.acceptedCatalog view root = .error e

theorem probeView_cases (view : M.StoreView) (root path : Path)
    (key : Option (StoreCommitIdentity M)) (stat : Option StoreFileStat) :
    (∃ e, probeView view root path key stat = .error e ∧ ReadFails root view e) ∨
      ∃ identity, Identifies view identity ∧
        ((key = some identity ∧ probeView view root path key stat = .ok (.cached stat)) ∨
          ∃ accepted, M.acceptedCatalog view root = .ok accepted ∧
            probeView view root path key stat = .ok (.fresh identity accepted stat)) := by
  unfold probeView
  cases hpin : M.pin view with
  | error e => exact .inl ⟨e, rfl, .inl hpin⟩
  | ok _ =>
    cases huid : M.storeUid view with
    | error e => exact .inl ⟨e, rfl, .inr (.inl huid)⟩
    | ok uid =>
      cases hcommit : M.commitMetadata view with
      | error e => exact .inl ⟨e, rfl, .inr (.inr (.inl hcommit))⟩
      | ok commit =>
        by_cases hkey : key = some (StoreCommitIdentity.fromCommit path uid commit)
        · right
          refine ⟨.fromCommit path uid commit, ⟨uid, commit, huid, hcommit, rfl⟩, .inl ⟨hkey, ?_⟩⟩
          simp [hkey, bind, Except.bind, pure, Except.pure]
        · cases haccepted : M.acceptedCatalog view root with
          | error e =>
            refine .inl ⟨e, ?_, .inr (.inr (.inr haccepted))⟩
            simp [hkey, bind, Except.bind]
          | ok accepted =>
            right
            refine ⟨.fromCommit path uid commit, ⟨uid, commit, huid, hcommit, rfl⟩, .inr ⟨accepted, rfl, ?_⟩⟩
            simp [hkey, bind, Except.bind, pure, Except.pure]

theorem currentBinding_eq (c : CatalogBindingCache M) (fs : Fs) (root : Path) :
    c.currentBinding fs root = adopted fs root c.accepted := by
  unfold CatalogBindingCache.currentBinding adopted
  cases lockForAdoption fs root c.accepted with
  | error e => rfl
  | ok lock => rfl

/-- A bind fails in its probe, finds the store unavailable, or answers from the cache its
probe leaves. -/
theorem CatalogBindingCache.bind_cases (c : CatalogBindingCache M) (w : World M) (root : Path)
    (config : M.Config) :
    (∃ e, (probeStore w root config c.key c.stat).1 = .error e ∧
      (c.bind w root config).result = .error e ∧ (c.bind w root config).cache = c) ∨
    ((probeStore w root config c.key c.stat).1 = .ok .unavailable ∧
      (c.bind w root config).cache = c ∧
      (c.bind w root config).result =
        adopted w.fs root (if c.bound then c.accepted else none)) ∨
    ∃ probe, (probeStore w root config c.key c.stat).1 = .ok probe ∧ probe ≠ .unavailable ∧
      (c.bind w root config).cache = c.afterProbe probe ∧
      (c.bind w root config).result = adopted w.fs root (c.afterProbe probe).accepted := by
  unfold CatalogBindingCache.bind
  obtain ⟨probed, opens⟩ := probeStore w root config c.key c.stat
  cases probed with
  | error e => exact .inl ⟨e, rfl, rfl, rfl⟩
  | ok probe =>
    right
    cases probe with
    | unavailable =>
      left
      -- A store that cannot be opened keeps the last binding, or is a first run.
      cases hbound : c.bound with
      | false =>
        refine ⟨rfl, rfl, ?_⟩
        show CatalogBindingCache.bindUncached w.fs root = adopted w.fs root none
        unfold CatalogBindingCache.bindUncached adopted
        cases lockForAdoption (M := M) w.fs root none with
        | error e => rfl
        | ok lock => rfl
      | true => exact ⟨rfl, rfl, currentBinding_eq c w.fs root⟩
    | absent => exact .inr ⟨_, rfl, nofun, rfl, currentBinding_eq _ w.fs root⟩
    | unchanged => exact .inr ⟨_, rfl, nofun, rfl, currentBinding_eq _ w.fs root⟩
    | cached stat => exact .inr ⟨_, rfl, nofun, rfl, currentBinding_eq _ w.fs root⟩
    | fresh identity accepted stat =>
      exact .inr ⟨_, rfl, nofun, rfl, currentBinding_eq _ w.fs root⟩

/-! ## Histories -/

/-- The store at one moment: the writes it has seen so far, and what the operating
system answers of its file. A store that is not openable is held by a writer, or its
file cannot be opened. -/
structure Moment where
  writes : Nat
  stat : Option StoreFileStat
  openable : Bool
  deriving DecidableEq, Repr

/-- A project, and what its store file holds after each number of writes. Every commit,
creation and deletion of the file is a write. -/
structure StoredProject (M : Marrow) where
  root : Path
  config : M.Config
  committed : Nat → Option M.StoreView

namespace StoredProject

variable (p : StoredProject M)

def storePath : Option Path :=
  match M.nativeStorePath p.root p.config with
  | .ok path => path
  | .error _ => none

def contents (n : Nat) : Option M.StoreView := p.storePath.bind fun _ => p.committed n

/-- The catalog that a store in its `n`th state accepts. -/
def Holds (n : Nat) (accepted : Option M.Catalog) : Prop :=
  match p.contents n with
  | none => accepted = none
  | some view => M.acceptedCatalog view p.root = .ok accepted

/-- No two states of the store have the same commit identity. A state is told by the writes
before it, so two that hold the same content are two. -/
def Distinguished : Prop :=
  ∀ n n' view view' identity, p.contents n = some view → p.contents n' = some view' →
    Identifies view identity → Identifies view' identity → n = n'

def sighting (m : Moment) : Sighting StoreFileStat :=
  ⟨m.writes, if (p.contents m.writes).isSome then m.stat else none⟩

def openedAt (m : Moment) : Option M.StoreView :=
  if m.openable then p.contents m.writes else none

/-- The world of a bind that looks for the store file, reads its change detector and
opens it at three moments. -/
def worldAt (w : World M) (atExists atStat atOpen : Moment) : World M :=
  { w with
    fs := { w.fs with
      pathExists := fun path =>
        if some path = p.storePath then (p.contents atExists.writes).isSome
        else w.fs.pathExists path
      stat := fun path =>
        if some path = p.storePath then (p.sighting atStat).stat else w.fs.stat path }
    openStore := fun path =>
      if some path = p.storePath then p.openedAt atOpen else w.openStore path }

end StoredProject

structure History (M : Marrow) where
  now : Moment
  /-- The change detectors read so far. -/
  seen : List (Sighting StoreFileStat)
  cache : CatalogBindingCache M
  /-- The catalog last bound, if a bind has succeeded. -/
  confirmed : Option (Option M.Catalog)

inductive StoreAction (M : Marrow) where
  /-- Store events come until the store is at another moment. -/
  | elapse (next : Moment)
  | bind (w : World M) (atStat atOpen : Moment)

/-- The catalog last bound, after a bind. One that failed on the committed lock only had
found that no catalog is accepted. -/
def confirm (confirmed : Option (Option M.Catalog)) (probe : Except M.IoError (StoreProbe M)) :
    Except M.IoError (CatalogBinding M) → Option (Option M.Catalog)
  | .ok binding => some binding.accepted
  | .error _ => if probe.isOk then some none else confirmed

namespace History

def new (now : Moment) : History M := ⟨now, [], CatalogBindingCache.new, none⟩

def bindAt (p : StoredProject M) (h : History M) (w : World M) (atStat atOpen : Moment) :
    CatalogBindingCache.Bind M :=
  h.cache.bind (p.worldAt w h.now atStat atOpen) p.root p.config

def step (p : StoredProject M) (h : History M) : StoreAction M → Option (History M)
  | .elapse next => if h.now.writes ≤ next.writes then some { h with now := next } else none
  | .bind w atStat atOpen =>
    if h.now.writes ≤ atStat.writes ∧ atStat.writes ≤ atOpen.writes then
      let probe := probeStore (p.worldAt w h.now atStat atOpen) p.root p.config h.cache.key
        h.cache.stat
      let bound := bindAt p h w atStat atOpen
      some
        { now := atOpen
          seen := p.sighting atStat :: h.seen
          cache := bound.cache
          confirmed := confirm h.confirmed probe.1 bound.result }
    else none

end History

/-! ## What a probe finds -/

/-- What a probe finds of the store at its three moments. -/
inductive Probed (p : StoredProject M) (atExists atStat atOpen : Moment)
    (key : Option (StoreCommitIdentity M)) (stat : Option StoreFileStat) :
    Except M.IoError (StoreProbe M) → Prop
  | misconfigured (e : M.IoError) :
    M.nativeStorePath p.root p.config = .error e → Probed p atExists atStat atOpen key stat (.error e)
  | absent : p.contents atExists.writes = none → Probed p atExists atStat atOpen key stat (.ok .absent)
  | unchanged :
    key.isSome = true → (p.sighting atStat).stat.isSome = true → (p.sighting atStat).stat = stat →
    Probed p atExists atStat atOpen key stat (.ok .unchanged)
  | unavailable :
    p.contents atExists.writes ≠ none → p.openedAt atOpen = none →
    Probed p atExists atStat atOpen key stat (.ok .unavailable)
  | unreadable (view : M.StoreView) (e : M.IoError) :
    p.openedAt atOpen = some view → ReadFails p.root view e →
    Probed p atExists atStat atOpen key stat (.error e)
  | cached (view : M.StoreView) (identity : StoreCommitIdentity M) :
    p.openedAt atOpen = some view → Identifies view identity → key = some identity →
    Probed p atExists atStat atOpen key stat (.ok (.cached (p.sighting atStat).stat))
  | fresh (view : M.StoreView) (identity : StoreCommitIdentity M)
      (accepted : Option M.Catalog) :
    p.openedAt atOpen = some view → Identifies view identity →
    M.acceptedCatalog view p.root = .ok accepted →
    Probed p atExists atStat atOpen key stat (.ok (.fresh identity accepted (p.sighting atStat).stat))

theorem probed_probeStore (p : StoredProject M) (w : World M) (atExists atStat atOpen : Moment)
    (key : Option (StoreCommitIdentity M)) (stat : Option StoreFileStat) :
    Probed p atExists atStat atOpen key stat
      (probeStore (p.worldAt w atExists atStat atOpen) p.root p.config key stat).1 := by
  unfold probeStore
  cases hnative : M.nativeStorePath p.root p.config with
  | error e => exact .misconfigured e hnative
  | ok found =>
    have hpath : p.storePath = found := by
      unfold StoredProject.storePath
      rw [hnative]
    cases found with
    | none =>
      apply Probed.absent
      unfold StoredProject.contents
      rw [hpath]
      rfl
    | some path =>
      -- The store's file answers at the moment each question is asked.
      have hexists : (p.worldAt w atExists atStat atOpen).fs.pathExists path =
          (p.contents atExists.writes).isSome := if_pos hpath.symm
      have hstat : (p.worldAt w atExists atStat atOpen).fs.stat path = (p.sighting atStat).stat :=
        if_pos hpath.symm
      have hopen : (p.worldAt w atExists atStat atOpen).openStore path = p.openedAt atOpen :=
        if_pos hpath.symm
      simp only [hexists, hstat, hopen]
      cases hpresent : p.contents atExists.writes with
      | none => exact .absent hpresent
      | some _ =>
        simp only [Option.isSome_some, Bool.not_true, Bool.false_eq_true, if_false]
        split
        · next hskip =>
          simp only [Bool.and_eq_true, decide_eq_true_eq] at hskip
          exact .unchanged hskip.1.1 hskip.1.2 hskip.2
        · cases hview : p.openedAt atOpen with
          | none =>
            refine .unavailable ?_ hview
            rw [hpresent]
            exact nofun
          | some view =>
            show Probed p atExists atStat atOpen key stat
              (probeView view p.root path key (p.sighting atStat).stat)
            obtain ⟨e, heq, hfails⟩ | ⟨identity, hidentity, ⟨hkey, heq⟩ | ⟨accepted, hok, heq⟩⟩ :=
              probeView_cases view p.root path key (p.sighting atStat).stat
            · rw [heq]
              exact .unreadable view e hview hfails
            · rw [heq]
              exact .cached view identity hview hidentity hkey
            · rw [heq]
              exact .fresh view identity accepted hview hidentity hok

/-! ## The cache against the history -/

/-- What the cache holds was read from the store: in the state its identity names, and
no earlier than its change detector. -/
structure Keyed (p : StoredProject M) (seen : List (Sighting StoreFileStat)) (latest : Nat)
    (c : CatalogBindingCache M) : Prop where
  unbound : c.bound = false → c.key = none
  absent : c.key = none → c.accepted = none
  dated : ∀ identity, c.key = some identity → ∃ n view, n ≤ latest ∧
    p.contents n = some view ∧ Identifies view identity ∧
    M.acceptedCatalog view p.root = .ok c.accepted ∧ Dates seen c.stat n

theorem StoredProject.contents_of_openedAt {p : StoredProject M} {m : Moment} {view : M.StoreView}
    (h : p.openedAt m = some view) : p.contents m.writes = some view := by
  unfold StoredProject.openedAt at h
  split at h
  · exact h
  · cases h

theorem StoredProject.holds_some {p : StoredProject M} {n : Nat} {view : M.StoreView}
    {accepted : Option M.Catalog} (hview : p.contents n = some view)
    (hok : M.acceptedCatalog view p.root = .ok accepted) : p.Holds n accepted := by
  unfold StoredProject.Holds
  rw [hview]
  exact hok

theorem StoredProject.holds_none {p : StoredProject M} {n : Nat} (hnone : p.contents n = none) :
    p.Holds n none := by
  unfold StoredProject.Holds
  rw [hnone]

variable {p : StoredProject M} {seen : List (Sighting StoreFileStat)} {c : CatalogBindingCache M}
  {atExists atStat atOpen : Moment}

theorem Keyed.mono {more : List (Sighting StoreFileStat)} {latest later : Nat}
    (h : Keyed p seen latest c) (hsub : ∀ a ∈ seen, a ∈ more) (hle : latest ≤ later) :
    Keyed p more later c where
  unbound := h.unbound
  absent := h.absent
  dated identity hkey := by
    obtain ⟨n, view, hn, hview, hidentity, hok, hdates⟩ := h.dated identity hkey
    exact ⟨n, view, Nat.le_trans hn hle, hview, hidentity, hok,
      hdates.mono hsub (Nat.le_refl n)⟩

theorem keyed_new {latest : Nat} : Keyed p seen latest CatalogBindingCache.new where
  unbound _ := rfl
  absent _ := rfl
  dated _ hkey := by cases hkey

/-- A probe that can tell leaves a cache keyed by the history, and its catalog is that of
a state the store was in meanwhile. -/
theorem Keyed.afterProbe {probe : StoreProbe M} (h : Keyed p seen atExists.writes c)
    (hdistinguished : p.Distinguished) (hfaithful : Faithful (p.sighting atStat :: seen))
    (hstat : atExists.writes ≤ atStat.writes) (hopen : atStat.writes ≤ atOpen.writes)
    (hprobed : Probed p atExists atStat atOpen c.key c.stat (.ok probe))
    (havailable : probe ≠ .unavailable) :
    Keyed p (p.sighting atStat :: seen) atOpen.writes (c.afterProbe probe) ∧
      ∃ n, atExists.writes ≤ n ∧ n ≤ atOpen.writes ∧ p.Holds n (c.afterProbe probe).accepted := by
  have hsub : ∀ a ∈ seen, a ∈ p.sighting atStat :: seen := fun a => List.mem_cons_of_mem _
  have hkept : Keyed p (p.sighting atStat :: seen) atOpen.writes c :=
    h.mono hsub (Nat.le_trans hstat hopen)
  have hnow : p.sighting atStat ∈ p.sighting atStat :: seen := List.mem_cons_self
  cases hprobed with
  | unavailable => exact absurd rfl havailable
  | absent hnone =>
    show Keyed p _ _ (if c.bound && c.key.isNone then c else c.adopt none none none) ∧ ∃ n, _ ∧ _ ∧
      p.Holds n (if c.bound && c.key.isNone then c else c.adopt none none none).accepted
    split
    · next hbound =>
      simp only [Bool.and_eq_true, Option.isNone_iff_eq_none] at hbound
      refine ⟨hkept, atExists.writes, Nat.le_refl _, Nat.le_trans hstat hopen, ?_⟩
      rw [h.absent hbound.2]
      exact StoredProject.holds_none hnone
    · refine ⟨⟨nofun, fun _ => rfl, nofun⟩, atExists.writes, Nat.le_refl _,
        Nat.le_trans hstat hopen, ?_⟩
      exact StoredProject.holds_none hnone
  | unchanged hkey hsome hsame =>
    obtain ⟨identity, hidentity⟩ := Option.isSome_iff_exists.mp hkey
    obtain ⟨n, view, hn, hview, -, hok, hdates⟩ := h.dated identity hidentity
    -- the detector is that of the state the catalog was read in, so it is still that state
    have hversion : n = atStat.writes :=
      version_eq_of_unchanged hfaithful (hdates.mono hsub (Nat.le_refl n)) hnow
        (Nat.le_trans hn hstat) hsome hsame
    subst hversion
    exact ⟨hkept, atStat.writes, hstat, hopen, StoredProject.holds_some hview hok⟩
  | cached view identity hopened hidentity hkey =>
    have hcontents := StoredProject.contents_of_openedAt hopened
    obtain ⟨n, view', -, hview, hidentity', hok, -⟩ := h.dated identity hkey
    have hversion : n = atOpen.writes :=
      hdistinguished n atOpen.writes view' view identity hview hcontents hidentity' hidentity
    subst hversion
    refine ⟨⟨hkept.unbound, hkept.absent, ?_⟩, atOpen.writes, Nat.le_trans hstat hopen,
      Nat.le_refl _, StoredProject.holds_some hview hok⟩
    intro identity' hkey'
    have hsame : identity' = identity := Option.some.inj (hkey'.symm.trans hkey)
    subst hsame
    exact ⟨atOpen.writes, view', Nat.le_refl _, hview, hidentity', hok, dates_of_mem hnow hopen⟩
  | fresh view identity accepted hopened hidentity hok =>
    have hcontents := StoredProject.contents_of_openedAt hopened
    refine ⟨⟨nofun, nofun, ?_⟩, atOpen.writes, Nat.le_trans hstat hopen, Nat.le_refl _,
      StoredProject.holds_some hcontents hok⟩
    intro identity' hkey'
    cases hkey'
    exact ⟨atOpen.writes, view, Nat.le_refl _, hcontents, hidentity, hok,
      dates_of_mem hnow hopen⟩

/-! ## Binds refine uncached binds -/

theorem adopted_some (fs : Fs) (root : Path) (catalog : M.Catalog) :
    adopted fs root (some catalog) = .ok ⟨some catalog, none⟩ := rfl

theorem adopted_none (fs : Fs) (root : Path) :
    adopted (M := M) fs root none = (M.readCommittedLock fs root).map fun lock => ⟨none, lock⟩ := rfl

theorem confirm_adopted (confirmed : Option (Option M.Catalog)) (probe : StoreProbe M) (fs : Fs)
    (root : Path) (accepted : Option M.Catalog) :
    confirm confirmed (.ok probe) (adopted fs root accepted) = some accepted := by
  cases accepted with
  | some catalog => rfl
  | none =>
    rw [adopted_none]
    cases M.readCommittedLock fs root with
    | error e => rfl
    | ok lock => rfl

/-- A binding of an accepted catalog comes with no lock, and one of none with the lock
that was read. -/
theorem lock_of_adopted {fs : Fs} {root : Path} {accepted : Option M.Catalog}
    {binding : CatalogBinding M} (h : adopted fs root accepted = .ok binding) :
    if binding.accepted.isSome then binding.lock = none
    else M.readCommittedLock fs root = .ok binding.lock := by
  cases accepted with
  | some catalog =>
    rw [adopted_some] at h
    cases h
    rfl
  | none =>
    rw [adopted_none] at h
    cases hlock : M.readCommittedLock fs root with
    | error e =>
      rw [hlock] at h
      cases h
    | ok lock =>
      rw [hlock] at h
      cases h
      rfl

theorem accepted_none_of_error {fs : Fs} {root : Path} {accepted : Option M.Catalog} {e : M.IoError}
    (h : adopted fs root accepted = .error e) :
    M.readCommittedLock fs root = .error e ∧ accepted = none := by
  cases accepted with
  | some catalog =>
    rw [adopted_some] at h
    cases h
  | none =>
    rw [adopted_none] at h
    cases hlock : M.readCommittedLock fs root with
    | error e' =>
      rw [hlock] at h
      cases h
      exact ⟨rfl, rfl⟩
    | ok lock =>
      rw [hlock] at h
      cases h

/-- What a bind returns and leaves in the cache, against the store's history. -/
structure Refines (p : StoredProject M) (h : History M) (atOpen : Moment) (fs : Fs)
    (bound : CatalogBindingCache.Bind M) : Prop where
  /-- One that sees no store file or can open the store answers for a state no older
  than its start, unless a read fails. -/
  readable : p.contents h.now.writes = none ∨ p.openedAt atOpen ≠ none →
    (∃ n accepted, h.now.writes ≤ n ∧ n ≤ atOpen.writes ∧ p.Holds n accepted ∧
      bound.result = adopted fs p.root accepted) ∨
    ∃ e, bound.result = .error e ∧ bound.cache = h.cache ∧
      (M.nativeStorePath p.root p.config = .error e ∨
        ∃ view, p.openedAt atOpen = some view ∧ ReadFails p.root view e)
  /-- One that finds the store present and unopenable answers with the catalog last bound. -/
  unopenable : p.contents h.now.writes ≠ none → p.openedAt atOpen = none →
    bound.result = adopted fs p.root (h.confirmed.getD none) ∧ bound.cache = h.cache
  failed : ∀ e, bound.result = .error e →
    bound.cache = h.cache ∨ M.readCommittedLock fs p.root = .error e ∧ bound.cache.accepted = none
  lock : ∀ binding, bound.result = .ok binding →
    if binding.accepted.isSome then binding.lock = none
    else M.readCommittedLock fs p.root = .ok binding.lock

/-- The cache is keyed by the history and holds the catalog last bound. -/
structure Coherent (p : StoredProject M) (h : History M) : Prop where
  keyed : Keyed p h.seen h.now.writes h.cache
  confirmed : h.cache.accepted = h.confirmed.getD none

theorem contents_of_misconfigured {e : M.IoError}
    (h : M.nativeStorePath p.root p.config = .error e) (n : Nat) : p.contents n = none := by
  unfold StoredProject.contents StoredProject.storePath
  rw [h]
  rfl

section

variable {h : History M} {w : World M}

theorem refines_of_error {e : M.IoError} {fs : Fs} {bound : CatalogBindingCache.Bind M}
    (hprobed : Probed p h.now atStat atOpen h.cache.key h.cache.stat (.error e))
    (hresult : bound.result = .error e) (hcache : bound.cache = h.cache) :
    Refines p h atOpen fs bound where
  readable _ := by
    right
    refine ⟨e, hresult, hcache, ?_⟩
    cases hprobed with
    | misconfigured _ hnative => exact .inl hnative
    | unreadable view _ hopened hfails => exact .inr ⟨view, hopened, hfails⟩
  unopenable hpresent hclosed := by
    exfalso
    cases hprobed with
    | misconfigured _ hnative => exact hpresent (contents_of_misconfigured hnative _)
    | unreadable view _ hopened _ => cases hclosed.symm.trans hopened
  failed _ _ := .inl hcache
  lock binding hok := by
    rw [hresult] at hok
    cases hok

theorem refines_of_unavailable {fs : Fs} {bound : CatalogBindingCache.Bind M} (hc : Coherent p h)
    (hprobed : Probed p h.now atStat atOpen h.cache.key h.cache.stat (.ok .unavailable))
    (hresult : bound.result = adopted fs p.root h.cache.accepted) (hcache : bound.cache = h.cache) :
    Refines p h atOpen fs bound := by
  cases hprobed with
  | unavailable hpresent hclosed =>
    refine ⟨?_, ?_, fun _ _ => .inl hcache, ?_⟩
    · rintro (hnone | hopened)
      · exact absurd hnone hpresent
      · exact absurd hclosed hopened
    · intro _ _
      rw [← hc.confirmed]
      exact ⟨hresult, hcache⟩
    · intro binding hok
      exact lock_of_adopted (hresult.symm.trans hok)

theorem refines_of_probe {probe : StoreProbe M} {fs : Fs} {bound : CatalogBindingCache.Bind M}
    (hc : Coherent p h)
    (hprobed : Probed p h.now atStat atOpen h.cache.key h.cache.stat (.ok probe))
    (havailable : probe ≠ .unavailable) (hcache : bound.cache = h.cache.afterProbe probe)
    (hresult : bound.result = adopted fs p.root bound.cache.accepted)
    (hholds : ∃ n, h.now.writes ≤ n ∧ n ≤ atOpen.writes ∧ p.Holds n bound.cache.accepted) :
    Refines p h atOpen fs bound where
  readable _ := by
    left
    obtain ⟨n, hstart, hend, hn⟩ := hholds
    exact ⟨n, bound.cache.accepted, hstart, hend, hn, hresult⟩
  unopenable hpresent hclosed := by
    cases hprobed with
    | absent hnone => exact absurd hnone hpresent
    | unchanged =>
      have hkept : bound.cache = h.cache := hcache
      rw [hkept, hc.confirmed] at hresult
      exact ⟨hresult, hkept⟩
    | unavailable => exact absurd rfl havailable
    | cached _ _ hopened => cases hclosed.symm.trans hopened
    | fresh _ _ _ hopened => cases hclosed.symm.trans hopened
  failed e herror := .inr (accepted_none_of_error (hresult.symm.trans herror))
  lock binding hok := lock_of_adopted (hresult.symm.trans hok)

/-- A bind of a coherent cache refines the uncached one and leaves a coherent cache. -/
theorem Coherent.bind (hc : Coherent p h) (hdistinguished : p.Distinguished)
    (hfaithful : Faithful (p.sighting atStat :: h.seen)) (hstat : h.now.writes ≤ atStat.writes)
    (hopen : atStat.writes ≤ atOpen.writes) :
    Refines p h atOpen (p.worldAt w h.now atStat atOpen).fs (h.bindAt p w atStat atOpen) ∧
      Keyed p (p.sighting atStat :: h.seen) atOpen.writes (h.bindAt p w atStat atOpen).cache ∧
      (h.bindAt p w atStat atOpen).cache.accepted =
        (confirm h.confirmed (probeStore (p.worldAt w h.now atStat atOpen) p.root p.config
          h.cache.key h.cache.stat).1 (h.bindAt p w atStat atOpen).result).getD none := by
  have hprobed := probed_probeStore p w h.now atStat atOpen h.cache.key h.cache.stat
  have hkept : Keyed p (p.sighting atStat :: h.seen) atOpen.writes h.cache :=
    hc.keyed.mono (fun a => List.mem_cons_of_mem _) (Nat.le_trans hstat hopen)
  unfold History.bindAt
  obtain ⟨e, hprobe, hresult, hcache⟩ | ⟨hprobe, hcache, hresult⟩ |
      ⟨probe, hprobe, havailable, hcache, hresult⟩ :=
    h.cache.bind_cases (p.worldAt w h.now atStat atOpen) p.root p.config
  · rw [hprobe] at hprobed ⊢
    refine ⟨refines_of_error hprobed hresult hcache, ?_, ?_⟩
    · rw [hcache]
      exact hkept
    · rw [hresult, hcache]
      exact hc.confirmed
  · rw [hprobe] at hprobed ⊢
    -- a cache that was never bound holds no catalog either
    have hserved : (if h.cache.bound then h.cache.accepted else none) = h.cache.accepted := by
      split
      · rfl
      · next hbound =>
        rw [hc.keyed.absent (hc.keyed.unbound (Bool.eq_false_of_not_eq_true hbound))]
    rw [hserved] at hresult
    refine ⟨refines_of_unavailable hc hprobed hresult hcache, ?_, ?_⟩
    · rw [hcache]
      exact hkept
    · rw [hresult, hcache, confirm_adopted]
      rfl
  · rw [hprobe] at hprobed ⊢
    obtain ⟨hkeyed, hholds⟩ :=
      hc.keyed.afterProbe hdistinguished hfaithful hstat hopen hprobed havailable
    rw [← hcache] at hkeyed hholds hresult
    refine ⟨refines_of_probe hc hprobed havailable hcache hresult hholds, hkeyed, ?_⟩
    rw [hresult, confirm_adopted]
    rfl

theorem coherent_history_new (now : Moment) : Coherent p (History.new now) :=
  ⟨keyed_new, rfl⟩

theorem History.step_elapse {next : Moment} {h' : History M}
    (hstep : h.step p (.elapse next) = some h') :
    h.now.writes ≤ next.writes ∧ h' = { h with now := next } := by
  simp only [History.step, Option.ite_none_right_eq_some, Option.some.injEq] at hstep
  exact ⟨hstep.1, hstep.2.symm⟩

theorem History.step_bind {h' : History M} (hstep : h.step p (.bind w atStat atOpen) = some h') :
    h.now.writes ≤ atStat.writes ∧ atStat.writes ≤ atOpen.writes ∧ h' =
      { now := atOpen
        seen := p.sighting atStat :: h.seen
        cache := (h.bindAt p w atStat atOpen).cache
        confirmed := confirm h.confirmed (probeStore (p.worldAt w h.now atStat atOpen) p.root
          p.config h.cache.key h.cache.stat).1 (h.bindAt p w atStat atOpen).result } := by
  simp only [History.step, Option.ite_none_right_eq_some, Option.some.injEq] at hstep
  exact ⟨hstep.1.1, hstep.1.2, hstep.2.symm⟩

theorem Coherent.step {action : StoreAction M} {h' : History M} (hc : Coherent p h)
    (hdistinguished : p.Distinguished) (hfaithful : Faithful h'.seen)
    (hstep : h.step p action = some h') : Coherent p h' := by
  cases action with
  | elapse next =>
    obtain ⟨hle, rfl⟩ := History.step_elapse hstep
    exact ⟨hc.keyed.mono (fun _ => id) hle, hc.confirmed⟩
  | bind w atStat atOpen =>
    obtain ⟨hstat, hopen, rfl⟩ := History.step_bind hstep
    obtain ⟨-, hkeyed, hconfirmed⟩ := @Coherent.bind _ _ _ _ _ w hc hdistinguished hfaithful hstat hopen
    exact ⟨hkeyed, hconfirmed⟩

theorem History.seen_of_step {action : StoreAction M} {h' : History M}
    (hstep : h.step p action = some h') : ∀ a ∈ h.seen, a ∈ h'.seen := by
  cases action with
  | elapse next =>
    obtain ⟨-, rfl⟩ := History.step_elapse hstep
    exact fun _ => id
  | bind w atStat atOpen =>
    obtain ⟨-, -, rfl⟩ := History.step_bind hstep
    exact fun _ => List.mem_cons_of_mem _

theorem coherent_of_reachable {now : Moment} (hdistinguished : p.Distinguished)
    (hreach : Reachable (History.step p) (History.new now) h) (hfaithful : Faithful h.seen) :
    Coherent p h := by
  refine hreach.invariant (I := fun h => Faithful h.seen → Coherent p h)
    (fun _ => coherent_history_new now) ?_ hfaithful
  intro h a h' ih _ hstep hfaithful'
  exact (ih (hfaithful'.mono (History.seen_of_step hstep))).step hdistinguished hfaithful' hstep

/-- A bind refines an uncached one in every history of the store. -/
theorem CatalogBindingCache.bind_refines {now : Moment} {h' : History M}
    (hdistinguished : p.Distinguished)
    (hreach : Reachable (History.step p) (History.new now) h)
    (hstep : h.step p (.bind w atStat atOpen) = some h') (hfaithful : Faithful h'.seen) :
    Refines p h atOpen (p.worldAt w h.now atStat atOpen).fs (h.bindAt p w atStat atOpen) := by
  have hc : Coherent p h := coherent_of_reachable hdistinguished hreach
    (hfaithful.mono (History.seen_of_step hstep))
  obtain ⟨hstat, hopen, rfl⟩ := History.step_bind hstep
  exact (hc.bind hdistinguished hfaithful hstat hopen).1

end

namespace Sample

/-- A project whose store is created, and committed to from then on. -/
def growing : StoredProject Marrow.sample where
  root := projectDir "A"
  config := (⟨['n'], true⟩ : Config)
  committed n := if n = 0 then none else some (⟨n, n⟩ : StoreView)

def storeless : Moment := ⟨0, none, true⟩
def created : Moment := ⟨1, some ⟨1, 8⟩, true⟩
def committedTwice : Moment := ⟨2, some ⟨2, 8⟩, true⟩

/-- A bind before the store is there, then one that a commit comes into. -/
def growingBinds : List (StoreAction Marrow.sample) :=
  [.bind (world []) storeless storeless, .elapse created, .bind (world []) created committedTwice,
    .elapse committedTwice]

theorem growing_distinguished : growing.Distinguished := by
  have hcommit : ∀ n view, growing.contents n = some view → StoreView.commitId view = n := by
    intro n view h
    change (if n = 0 then none else some (⟨n, n⟩ : StoreView)) = some view at h
    split at h
    · cases h
    · cases h
      rfl
  intro n n' view view' identity hview hview' ⟨_, commit, _, hread, hidentity⟩
    ⟨_, commit', _, hread', hidentity'⟩
  have hid : identity.commitId = some n := by
    cases hread
    rw [hidentity, ← hcommit n view hview]
    rfl
  have hid' : identity.commitId = some n' := by
    cases hread'
    rw [hidentity', ← hcommit n' view' hview']
    rfl
  exact Option.some.inj (hid.symm.trans hid')

end Sample

open Sample in
theorem CatalogBindingCache.bind_refines_growing :
    ∃ h h', run (History.step growing) (History.new storeless) growingBinds = some h ∧
      h.step growing (.bind (world []) committedTwice committedTwice) = some h' ∧
      Refines growing h committedTwice
        (growing.worldAt (world []) h.now committedTwice committedTwice).fs
        (h.bindAt growing (world []) committedTwice committedTwice) := by
  have hrun : (run (History.step growing) (History.new storeless) growingBinds).any (fun h =>
      (h.step growing (.bind (world []) committedTwice committedTwice)).any fun h' =>
        decide (Faithful h'.seen)) = true := by decide
  obtain ⟨h, hh, hnext⟩ := (Option.any_eq_true _ _).mp hrun
  obtain ⟨h', hstep, hfaithful⟩ := (Option.any_eq_true _ _).mp hnext
  exact ⟨h, h', hh, hstep, bind_refines growing_distinguished (reachable_of_run hh) hstep
    (of_decide_eq_true hfaithful)⟩

namespace Sample

/-- The sample Marrow over a committed lock that cannot be read. -/
def corruptLock : Marrow :=
  { Marrow.sample with readCommittedLock := fun _ _ => .error "corrupt lock" }

/-- A project whose store is created and deleted. -/
def deleted : StoredProject corruptLock where
  root := projectDir "A"
  config := (⟨['n'], true⟩ : Config)
  committed n := if n = 1 then some (⟨1, 1⟩ : StoreView) else none

def corruptWorld : World corruptLock := ⟨fsOf [], fun _ => none, fun _ => none, fun _ => none⟩

def afterDelete : Moment := ⟨2, none, true⟩

end Sample

theorem Sample.deleted_distinguished : Sample.deleted.Distinguished := by
  have honly : ∀ n view, Sample.deleted.contents n = some view → n = 1 := by
    intro n view h
    change (if n = 1 then some (⟨1, 1⟩ : Sample.StoreView) else none) = some view at h
    split at h
    · assumption
    · cases h
  intro n n' view view' identity hview hview' _ _
  rw [honly n view hview, honly n' view' hview']

open Sample in
/-- A bind that finds the store deleted and cannot read the lock fails, and drops the
accepted catalog from the cache. -/
theorem CatalogBindingCache.not_error_keeps_cache :
    deleted.Distinguished ∧
    ∃ h h', run (History.step deleted) (History.new created)
        [.bind corruptWorld created created, .elapse afterDelete] = some h ∧
      h.step deleted (.bind corruptWorld afterDelete afterDelete) = some h' ∧
      Faithful h'.seen ∧
      (h.bindAt deleted corruptWorld afterDelete afterDelete).result.isOk = false ∧
      (h.bindAt deleted corruptWorld afterDelete afterDelete).cache ≠ h.cache := by
  have hrun : (run (History.step deleted) (History.new created)
      [.bind corruptWorld created created, .elapse afterDelete]).any (fun h =>
        (h.step deleted (.bind corruptWorld afterDelete afterDelete)).any (fun h' =>
          decide (Faithful h'.seen)) &&
        !(h.bindAt deleted corruptWorld afterDelete afterDelete).result.isOk &&
        h.cache.key.isSome &&
        (h.bindAt deleted corruptWorld afterDelete afterDelete).cache.key.isNone) = true := by
    decide
  obtain ⟨h, hh, hnext⟩ := (Option.any_eq_true _ _).mp hrun
  simp only [Bool.and_eq_true, Bool.not_eq_true'] at hnext
  obtain ⟨⟨⟨hstep, hresult⟩, hkey⟩, hdropped⟩ := hnext
  obtain ⟨h', hstep, hfaithful⟩ := (Option.any_eq_true _ _).mp hstep
  refine ⟨deleted_distinguished, h, h', hh, hstep, of_decide_eq_true hfaithful, hresult, ?_⟩
  intro hcache
  rw [hcache, Option.isNone_iff_eq_none] at hdropped
  rw [hdropped] at hkey
  cases hkey

end MarrowLsp
