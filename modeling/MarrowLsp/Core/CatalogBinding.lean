-- SUMMARY: Binding a project's accepted catalog from its native store, cached by the store's commit identity (catalog_binding.rs).
import MarrowLsp.Core.Marrow

/-!
# Catalog binding

`CatalogBindingCache.bind` probes the native store and keeps the accepted
catalog it last read. Every attempt to open the store is recorded in `opens`,
the paths given to `ReadOnlyStoreView::open` in order; nothing else in this
module touches the store's contents.
-/
namespace MarrowLsp

/-- The accepted catalog and the first-run lock to drive a source check. -/
structure CatalogBinding (M : Marrow) where
  accepted : Option M.Catalog
  lock : Option M.Lock

/-- A store's committed state, by its path and its own commit fact. -/
structure StoreCommitIdentity (M : Marrow) where
  path : Path
  storeUid : Option M.StoreUid
  commitId : Option Nat
  catalogEpoch : Option Nat
  deriving DecidableEq

variable {M : Marrow}

def StoreCommitIdentity.fromCommit (path : Path) (uid : Option M.StoreUid)
    (commit : Option CommitMetadata) : StoreCommitIdentity M where
  path
  storeUid := uid
  commitId := commit.map (·.commitId)
  catalogEpoch := commit.map (·.catalogEpoch)

/-- The outcome of probing the store against the cache. -/
inductive StoreProbe (M : Marrow) where
  | absent
  | unavailable
  | unchanged
  | cached (stat : Option StoreFileStat)
  | fresh (identity : StoreCommitIdentity M) (accepted : Option M.Catalog)
      (stat : Option StoreFileStat)

/-- The committed lock, read only when no accepted catalog is bound. -/
def lockForAdoption (fs : Fs) (root : Path) (accepted : Option M.Catalog) :
    Except M.IoError (Option M.Lock) :=
  if accepted.isSome then .ok none else M.readCommittedLock fs root

/-- What is read under one open handle: the identity, and the accepted catalog
when the identity is not the cached one. -/
def probeView (view : M.StoreView) (root path : Path) (cachedKey : Option (StoreCommitIdentity M))
    (stat : Option StoreFileStat) : Except M.IoError (StoreProbe M) := do
  M.pin view
  let uid ← M.storeUid view
  let commit ← M.commitMetadata view
  let identity := StoreCommitIdentity.fromCommit path uid commit
  if cachedKey = some identity then
    return .cached stat
  let accepted ← M.acceptedCatalog view root
  return .fresh identity accepted stat

/-- `probe_store`, with the paths it tried to open. -/
def probeStore (w : World M) (root : Path) (config : M.Config)
    (cachedKey : Option (StoreCommitIdentity M)) (cachedStat : Option StoreFileStat) :
    Except M.IoError (StoreProbe M) × List Path :=
  match M.nativeStorePath root config with
  | .error e => (.error e, [])
  | .ok none => (.ok .absent, [])
  | .ok (some path) =>
    if !w.fs.pathExists path then (.ok .absent, [])
    else
      let stat := w.fs.stat path
      if cachedKey.isSome && stat.isSome && decide (stat = cachedStat) then (.ok .unchanged, [])
      else
        match w.openStore path with
        | none => (.ok .unavailable, [path])
        | some view => (probeView view root path cachedKey stat, [path])

/-- The accepted catalog last bound, and what it was read at. -/
structure CatalogBindingCache (M : Marrow) where
  key : Option (StoreCommitIdentity M)
  accepted : Option M.Catalog
  stat : Option StoreFileStat
  bound : Bool

namespace CatalogBindingCache

def new : CatalogBindingCache M := ⟨none, none, none, false⟩

def adopt (_ : CatalogBindingCache M) (key : Option (StoreCommitIdentity M))
    (accepted : Option M.Catalog) (stat : Option StoreFileStat) : CatalogBindingCache M :=
  ⟨key, accepted, stat, true⟩

def currentBinding (c : CatalogBindingCache M) (fs : Fs) (root : Path) :
    Except M.IoError (CatalogBinding M) := do
  let lock ← lockForAdoption fs root c.accepted
  return ⟨c.accepted, lock⟩

def bindUncached (fs : Fs) (root : Path) : Except M.IoError (CatalogBinding M) := do
  let lock ← lockForAdoption (M := M) fs root none
  return ⟨none, lock⟩

/-- The cache after a probe that did not fail. -/
def afterProbe (c : CatalogBindingCache M) : StoreProbe M → CatalogBindingCache M
  | .unchanged => c
  | .cached stat => { c with stat }
  | .fresh identity accepted stat => c.adopt (some identity) accepted stat
  | .absent => if c.bound && c.key.isNone then c else c.adopt none none none
  | .unavailable => c

/-- What one `bind` returns, leaves in the cache, and tried to open. -/
structure Bind (M : Marrow) where
  result : Except M.IoError (CatalogBinding M)
  cache : CatalogBindingCache M
  opens : List Path

/-- `CatalogBindingCache::bind`. -/
def bind (c : CatalogBindingCache M) (w : World M) (root : Path) (config : M.Config) : Bind M :=
  match probeStore w root config c.key c.stat with
  | (.error e, opens) => ⟨.error e, c, opens⟩
  | (.ok probe, opens) =>
    match probe, c.bound with
    | .unavailable, false => ⟨bindUncached w.fs root, c, opens⟩
    | probe, _ =>
      let cache := c.afterProbe probe
      ⟨cache.currentBinding w.fs root, cache, opens⟩

end CatalogBindingCache

/-! ## What a bind returns -/

/-- The accepted catalog of a probe by a cache that holds none. -/
def StoreProbe.accepted : StoreProbe M → Option M.Catalog
  | .fresh _ accepted _ => accepted
  | _ => none

/-- The accepted catalog that the first bind of a cache takes from the store. -/
def storeCatalog (w : World M) (root : Path) (config : M.Config) :
    Except M.IoError (Option M.Catalog) :=
  (probeStore w root config none none).1.map StoreProbe.accepted

namespace CatalogBindingCache

/-- The lock of a binding is the one its accepted catalog asks for. -/
theorem lockForAdoption_of_bind {c : CatalogBindingCache M} {w : World M} {root : Path}
    {config : M.Config} {binding : CatalogBinding M}
    (h : (c.bind w root config).result = .ok binding) :
    lockForAdoption w.fs root binding.accepted = .ok binding.lock := by
  have hlock : ∀ accepted, (do
      let lock ← lockForAdoption w.fs root accepted
      return ⟨accepted, lock⟩ : Except M.IoError (CatalogBinding M)) = .ok binding →
        lockForAdoption w.fs root binding.accepted = .ok binding.lock := by
    intro accepted hbound
    cases hread : lockForAdoption w.fs root accepted with
    | error e =>
      rw [hread] at hbound
      cases hbound
    | ok lock =>
      rw [hread] at hbound
      cases hbound
      exact hread
  unfold CatalogBindingCache.bind at h
  generalize probeStore w root config c.key c.stat = probed at h
  obtain ⟨_ | probe, opens⟩ := probed
  · cases h
  · cases probe with
    | unavailable =>
      cases hbound : c.bound with
      | false =>
        rw [hbound] at h
        exact hlock none h
      | true =>
        rw [hbound] at h
        exact hlock _ h
    | absent | unchanged | cached | fresh => exact hlock _ h

/-- A first bind returns the store's accepted catalog and the lock that goes with it. -/
theorem bind_new_of_storeCatalog {w : World M} {root : Path} {config : M.Config}
    {accepted : Option M.Catalog} {lock : Option M.Lock}
    (hstore : storeCatalog w root config = .ok accepted)
    (hlock : lockForAdoption w.fs root accepted = .ok lock) :
    ((new : CatalogBindingCache M).bind w root config).result = .ok ⟨accepted, lock⟩ := by
  have hbound : ∀ accepted, lockForAdoption w.fs root accepted = .ok lock →
      (do
        let lock ← lockForAdoption w.fs root accepted
        return ⟨accepted, lock⟩ : Except M.IoError (CatalogBinding M)) = .ok ⟨accepted, lock⟩ := by
    intro accepted hread
    rw [hread]
    rfl
  unfold storeCatalog at hstore
  unfold CatalogBindingCache.bind
  rw [show (new : CatalogBindingCache M).key = none from rfl,
    show (new : CatalogBindingCache M).stat = none from rfl]
  generalize probeStore (M := M) w root config none none = probed at hstore ⊢
  obtain ⟨_ | probe, opens⟩ := probed
  · cases hstore
  · cases probe with
    | unavailable | absent | unchanged | cached | fresh =>
      cases hstore
      exact hbound _ hlock

end CatalogBindingCache

/-! ## When a bind opens the store -/

/-- The project has a native store file that the cache cannot answer for from
its change detector alone. -/
def mustOpen (w : World M) (root : Path) (config : M.Config) (c : CatalogBindingCache M) : Bool :=
  match M.nativeStorePath root config with
  | .ok (some path) =>
    w.fs.pathExists path &&
      !(c.key.isSome && (w.fs.stat path).isSome && decide (w.fs.stat path = c.stat))
  | _ => false

theorem probeStore_opens (w : World M) (root : Path) (config : M.Config)
    (c : CatalogBindingCache M) :
    (probeStore w root config c.key c.stat).2 ≠ [] ↔ mustOpen w root config c = true := by
  unfold probeStore mustOpen
  cases M.nativeStorePath root config with
  | error e => simp
  | ok path =>
    cases path with
    | none => simp
    | some path =>
      by_cases hexists : w.fs.pathExists path = true
      · by_cases hskip : (c.key.isSome && (w.fs.stat path).isSome &&
            decide (w.fs.stat path = c.stat)) = true
        · simp [hexists, hskip]
        · simp [hexists, hskip]
          split <;> simp
      · simp [hexists]

theorem CatalogBindingCache.bind_opens (c : CatalogBindingCache M) (w : World M) (root : Path)
    (config : M.Config) :
    (c.bind w root config).opens = (probeStore w root config c.key c.stat).2 := by
  unfold CatalogBindingCache.bind
  rcases probeStore w root config c.key c.stat with ⟨_ | probe, opens⟩
  · rfl
  · cases probe <;> cases c.bound <;> rfl

end MarrowLsp
