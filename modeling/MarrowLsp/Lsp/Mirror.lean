-- SUMMARY: The diagnostics tracker beside what the client shows: which problems each root has published, and when the tracker mirrors them (backend.rs).
import MarrowLsp.Lib.Transition
import MarrowLsp.Core.Sample
import MarrowLsp.Lsp.Watch

/-!
# The tracker and the client

A panel of problems is the tracker together with the client it publishes to. The client
keeps the last list it received for each URL; beside it stands the root whose reconcile sent
that list. A tracker mirrors the client when the URLs it tracks for a root are the
URLs that show problems of that root.
-/
namespace MarrowLsp

open Transition DiagnosticsTracker

variable {M : Marrow}

/-- What the client shows at a URL, and the root whose run it is from. -/
structure Shown where
  origin : Option Path
  diagnostics : List Diagnostic
  deriving DecidableEq, Repr

abbrev Client := Url → Shown

namespace Client

def new : Client := fun _ => ⟨none, []⟩

/-- Receive notifications in order. -/
def receive (client : Client) (origin : Option Path) (messages : List PublishedDiagnostics) :
    Client :=
  messages.foldl
    (fun client message => Function.update client message.url ⟨origin, message.diagnostics⟩) client

/-- The client shows problems a run of this root reported. -/
def Shows (client : Client) (root : Path) (url : Url) : Prop :=
  (client url).origin = some root ∧ (client url).diagnostics ≠ []

theorem receive_of_notMem {client : Client} {origin : Option Path}
    {messages : List PublishedDiagnostics} {url : Url}
    (h : ∀ message ∈ messages, message.url ≠ url) :
    client.receive origin messages url = client url := by
  induction messages generalizing client with
  | nil => rfl
  | cons message messages ih =>
    rw [receive, List.foldl_cons, ← receive, ih fun m hm => h m (List.mem_cons_of_mem _ hm)]
    exact Function.update_of_ne (Ne.symm (h message (List.mem_cons_self ..))) _ _

/-- What several notifications for one URL agree on is shown. -/
theorem receive_of_mem {client : Client} {origin : Option Path}
    {messages : List PublishedDiagnostics} {url : Url} {diagnostics : List Diagnostic}
    (hmem : ∃ message ∈ messages, message.url = url)
    (h : ∀ message ∈ messages, message.url = url → message.diagnostics = diagnostics) :
    client.receive origin messages url = ⟨origin, diagnostics⟩ := by
  induction messages generalizing client with
  | nil => simp at hmem
  | cons message messages ih =>
    rw [receive, List.foldl_cons, ← receive]
    by_cases hlater : ∃ m ∈ messages, m.url = url
    · exact ih hlater fun m hm => h m (List.mem_cons_of_mem _ hm)
    · have hnot : ∀ m ∈ messages, m.url ≠ url := fun m hm heq => hlater ⟨m, hm, heq⟩
      obtain ⟨m, hm, heq⟩ := hmem
      obtain rfl : m = message := by
        rcases List.mem_cons.mp hm with rfl | hm
        · rfl
        · exact (hnot m hm heq).elim
      rw [receive_of_notMem hnot, ← heq, Function.update_self, h m hm heq]

theorem receive_append (client : Client) (origin : Option Path)
    (messages messages' : List PublishedDiagnostics) :
    client.receive origin (messages ++ messages') =
      (client.receive origin messages).receive origin messages' :=
  List.foldl_append

/-- Every URL of a diagnostics map shows its list. -/
theorem receive_entries (client : Client) (origin : Option Path) (diagnostics : DiagnosticsByUrl)
    (version : Url → Option Int) (url : Url) :
    client.receive origin (diagnostics.entries.map fun entry => ⟨entry.1, entry.2, version entry.1⟩)
        url = ((diagnostics.lookup url).map (⟨origin, ·⟩)).getD (client url) := by
  cases hlookup : diagnostics.lookup url with
  | none =>
    refine receive_of_notMem fun message hmessage heq => ?_
    obtain ⟨⟨u, list⟩, hentry, rfl⟩ := List.mem_map.mp hmessage
    have hmem : diagnostics.lookup u = some list := AList.mem_lookup_iff.mpr hentry
    simp only at heq
    rw [← heq, hmem] at hlookup
    cases hlookup
  | some list =>
    have hentry : (⟨url, list⟩ : Sigma fun _ : Url => List Diagnostic) ∈ diagnostics.entries :=
      AList.mem_lookup_iff.mp hlookup
    refine receive_of_mem ⟨_, List.mem_map.mpr ⟨_, hentry, rfl⟩, rfl⟩ fun message hmessage heq => ?_
    obtain ⟨⟨u, list'⟩, hentry', rfl⟩ := List.mem_map.mp hmessage
    have hmem : diagnostics.lookup u = some list' := AList.mem_lookup_iff.mpr hentry'
    simp only at heq
    rw [heq, hlookup] at hmem
    exact (Option.some.inj hmem).symm

/-- Clears leave nothing at their URLs. -/
theorem receive_clears (client : Client) (versions : DocumentVersions) (urls : List Url)
    (url : Url) : client.receive none (urls.map fun url => clearPublish url versions) url =
      if url ∈ urls then ⟨none, []⟩ else client url := by
  split
  · next hmem =>
    refine receive_of_mem ⟨_, List.mem_map.mpr ⟨url, hmem, rfl⟩, rfl⟩ fun message hmessage _ => ?_
    obtain ⟨u, -, rfl⟩ := List.mem_map.mp hmessage
    rfl
  · next hmem =>
    refine receive_of_notMem fun message hmessage heq => ?_
    obtain ⟨u, hu, rfl⟩ := List.mem_map.mp hmessage
    exact hmem (heq ▸ hu)

end Client

structure Panel where
  tracker : DiagnosticsTracker
  client : Client

/-- What moves a panel: the operations of the tracker and the two handlers that
combine them, each with what it publishes. -/
inductive PanelEvent (M : Marrow) where
  | bumpRootEpoch (root : Path)
  | clearRoot (root : Path)
  | clearUrl (root : Path) (url : Url)
  | reconcileSuccess (root : Path) (epoch : Nat) (scope : ReconcileScope)
      (diagnostics : DiagnosticsByUrl)
  | didClose (workspace : Option (Workspace M)) (url : Url)
  | watchedFiles (versions : DocumentVersions) (pending : PendingWatchedRoots)
      (currentRoot : Option Path) (drain : ClearRootDrain)

/-- The root a close clears under. -/
def closeRoot (workspace : Option (Workspace M)) (tracker : DiagnosticsTracker) (url : Url) :
    Option Path :=
  (M.toFilePath url).bind (knownRootForPath workspace tracker)

namespace Panel

def new : Panel := ⟨DiagnosticsTracker.new, Client.new⟩

/-- Clear one URL of a root, at the client only if it was tracked. -/
def clearUrl (s : Panel) (root : Path) (url : Url) : Panel :=
  let (tracked, tracker) := s.tracker.clearUrl root url
  ⟨tracker, if tracked then s.client.receive none [⟨url, [], none⟩] else s.client⟩

def clearRoot (s : Panel) (root : Path) : Panel :=
  let (cleared, tracker) := s.tracker.clearRoot root
  ⟨tracker, s.client.receive none (cleared.map fun url => ⟨url, [], none⟩)⟩

def bumpRootEpoch (s : Panel) (root : Path) : Panel := ⟨s.tracker.bumpRootEpoch root, s.client⟩

def reconcileSuccess (s : Panel) (root : Path) (epoch : Nat) (scope : ReconcileScope)
    (diagnostics : DiagnosticsByUrl) : Panel :=
  match s.tracker.reconcileSuccess root epoch scope diagnostics with
  | none => s
  | some (published, tracker) =>
    ⟨tracker, s.client.receive (some root)
      (published.entries.map fun entry => ⟨entry.1, entry.2, none⟩)⟩

/-- The end of `did_close`. -/
def didClose (s : Panel) (workspace : Option (Workspace M)) (url : Url) : Panel :=
  ⟨match closeRoot workspace s.tracker url with
    | none => s.tracker
    | some root => ((s.tracker.clearUrl root url).2).bumpRootEpoch root,
   s.client.receive none [⟨url, [], none⟩]⟩

def watchedFiles (s : Panel) (versions : DocumentVersions) (pending : PendingWatchedRoots)
    (currentRoot : Option Path) (drain : ClearRootDrain) : Panel :=
  let (effects, tracker) := watchedRootEffects s.tracker versions pending currentRoot drain
  ⟨tracker, s.client.receive none effects.immediateClears⟩

def step (s : Panel) : PanelEvent M → Panel
  | .bumpRootEpoch root => s.bumpRootEpoch root
  | .clearRoot root => s.clearRoot root
  | .clearUrl root url => s.clearUrl root url
  | .reconcileSuccess root epoch scope diagnostics =>
    s.reconcileSuccess root epoch scope diagnostics
  | .didClose workspace url => s.didClose workspace url
  | .watchedFiles versions pending currentRoot drain =>
    s.watchedFiles versions pending currentRoot drain

def run (s : Panel) (events : List (PanelEvent M)) : Panel := events.foldl step s

/-- The tracked URLs of each root are those that show its problems. -/
def Mirrors (s : Panel) : Prop :=
  ∀ root url, s.tracker.TracksUrl root url ↔ s.client.Shows root url

/-- The client shows, of this root, a run's diagnostics and nothing else. -/
def ShowsExactly (s : Panel) (root : Path) (diagnostics : DiagnosticsByUrl) : Prop :=
  ∀ url, (∀ list, diagnostics.lookup url = some list → s.client url = ⟨some root, list⟩) ∧
    (diagnostics.lookup url = none → ¬ s.client.Shows root url)

end Panel

/-- The roots an event is for. -/
def PanelEvent.Concerns (s : Panel) (root : Path) : PanelEvent M → Prop
  | .bumpRootEpoch r => r = root
  | .clearRoot r => r = root
  | .clearUrl r _ => r = root
  | .reconcileSuccess r _ _ _ => r = root
  | .didClose workspace url => closeRoot workspace s.tracker url = some root
  | .watchedFiles _ pending _ _ => root ∈ pending

/-- What a reconcile leaves, by its scope; a stale one leaves all as it was. -/
def PanelEvent.Settles (s t : Panel) : PanelEvent M → Prop
  | .reconcileSuccess root epoch .whole diagnostics =>
    if s.tracker.epoch root = epoch then t.ShowsExactly root diagnostics else t = s
  | .reconcileSuccess root epoch (.sourceOnly analyzed) diagnostics =>
    if s.tracker.epoch root = epoch then
      ∀ url, url ∉ analyzed → url ∉ diagnostics →
        t.client url = s.client url ∧ (t.tracker.TracksUrl root url ↔ s.tracker.TracksUrl root url)
    else t = s
  | _ => True

/-- An event sends nothing to a URL that another root tracks, and no empty list to one
that its own root goes on tracking. -/
def PanelEvent.Respects (s : Panel) : PanelEvent M → Prop
  | .reconcileSuccess root epoch scope diagnostics =>
    s.tracker.epoch root = epoch → ∀ url list, diagnostics.lookup url = some list →
      ∀ r, s.tracker.TracksUrl r url → r = root ∧ (scope.covers url = false → list ≠ [])
  | .didClose workspace url =>
    ∀ r, s.tracker.TracksUrl r url → closeRoot workspace s.tracker url = some r
  | _ => True

namespace Panel

/-! ## One operation -/

theorem Mirrors.root_eq {s : Panel} (h : s.Mirrors) {root r : Path} {url : Url}
    (hroot : s.tracker.TracksUrl root url) (hr : s.tracker.TracksUrl r url) : r = root :=
  Option.some.inj (((h r url).mp hr).1.symm.trans ((h root url).mp hroot).1)

theorem clearRoot_client (s : Panel) (root : Path) (url : Url) :
    (s.clearRoot root).client url =
      if url ∈ (s.tracker.clearRoot root).1 then ⟨none, []⟩ else s.client url :=
  Client.receive_clears s.client ∅ (s.tracker.clearRoot root).1 url

theorem receive_clear (client : Client) (url u : Url) :
    client.receive none [⟨url, [], none⟩] u = if u = url then ⟨none, []⟩ else client u := by
  simpa [clearPublish, versionOf] using client.receive_clears ∅ [url] u

theorem clearUrl_client (s : Panel) (root : Path) (url u : Url) :
    (s.clearUrl root url).client u =
      if u = url ∧ (s.tracker.clearUrl root url).1 = true then ⟨none, []⟩ else s.client u := by
  show (if (s.tracker.clearUrl root url).1 = true then
    s.client.receive none [⟨url, [], none⟩] else s.client) u = _
  by_cases htracked : (s.tracker.clearUrl root url).1 = true
  · rw [if_pos htracked, receive_clear]
    simp [htracked]
  · simp [htracked]

theorem didClose_client (s : Panel) (workspace : Option (Workspace M)) (url u : Url) :
    (s.didClose workspace url).client u = if u = url then ⟨none, []⟩ else s.client u :=
  receive_clear s.client url u

theorem mirrors_bumpRootEpoch {s : Panel} (h : s.Mirrors) (root : Path) :
    (s.bumpRootEpoch root).Mirrors := fun r url =>
  (tracksUrl_bumpRootEpoch).trans (h r url)

theorem mirrors_clearRoot {s : Panel} (h : s.Mirrors) (root : Path) :
    (s.clearRoot root).Mirrors := by
  intro r url
  show (s.tracker.clearRoot root).2.TracksUrl r url ↔ _
  unfold Client.Shows
  rw [tracksUrl_clearRoot, clearRoot_client]
  split
  · next hmem =>
    rw [mem_clearRoot] at hmem
    refine iff_of_false ?_ fun hshown => hshown.2 rfl
    rintro ⟨hne, hr⟩
    exact hne (h.root_eq hmem hr)
  · next hmem =>
    rw [mem_clearRoot] at hmem
    refine ⟨fun hr => (h r url).mp hr.2, fun hshown => ⟨?_, (h r url).mpr hshown⟩⟩
    rintro rfl
    exact hmem ((h r url).mpr hshown)

theorem mirrors_clearUrl {s : Panel} (hdistinct : s.tracker.Distinct) (h : s.Mirrors)
    (root : Path) (url : Url) : (s.clearUrl root url).Mirrors := by
  intro r u
  show (s.tracker.clearUrl root url).2.TracksUrl r u ↔ _
  unfold Client.Shows
  rw [tracksUrl_clearUrl hdistinct, clearUrl_client]
  split
  · next hcleared =>
    obtain ⟨rfl, htracked⟩ := hcleared
    rw [clearUrl_fst] at htracked
    refine iff_of_false ?_ fun hshown => hshown.2 rfl
    rintro ⟨hne, hr⟩
    exact hne ⟨h.root_eq htracked hr, rfl⟩
  · next hkept =>
    rw [clearUrl_fst] at hkept
    refine ⟨fun hr => (h r u).mp hr.2, fun hshown => ⟨?_, (h r u).mpr hshown⟩⟩
    rintro ⟨rfl, rfl⟩
    exact hkept ⟨rfl, (h _ _).mpr hshown⟩

theorem didClose_tracksUrl {s : Panel} (hdistinct : s.tracker.Distinct)
    {workspace : Option (Workspace M)} {url u : Url} {r : Path} :
    (s.didClose workspace url).tracker.TracksUrl r u ↔
      ¬ (closeRoot workspace s.tracker url = some r ∧ u = url) ∧ s.tracker.TracksUrl r u := by
  unfold didClose
  cases closeRoot workspace s.tracker url with
  | none => simp
  | some root => simp [tracksUrl_clearUrl hdistinct, eq_comm]

/-- A close keeps the mirror exactly when no other root tracks its URL. -/
theorem mirrors_didClose_iff {s : Panel} (hdistinct : s.tracker.Distinct) (h : s.Mirrors)
    (workspace : Option (Workspace M)) (url : Url) :
    (s.didClose workspace url).Mirrors ↔
      ∀ r, s.tracker.TracksUrl r url → closeRoot workspace s.tracker url = some r := by
  unfold Mirrors Client.Shows
  simp only [didClose_tracksUrl hdistinct, didClose_client]
  constructor
  · intro hmirrors r hr
    by_contra hne
    have hshown := (hmirrors r url).mp ⟨fun hclosed => hne hclosed.1, hr⟩
    rw [if_pos rfl] at hshown
    exact hshown.2 rfl
  · intro hclosed r u
    split
    · next hu =>
      subst hu
      refine iff_of_false ?_ fun hshown => hshown.2 rfl
      rintro ⟨hne, hr⟩
      exact hne ⟨hclosed r hr, rfl⟩
    · next hu =>
      rw [and_iff_right fun hclosed => hu hclosed.2]
      exact h r u

section Reconcile

variable {s : Panel} {root : Path} {epoch : Nat} {scope : ReconcileScope}
  {diagnostics : DiagnosticsByUrl}

theorem reconcileSuccess_of_stale (hepoch : s.tracker.epoch root ≠ epoch) :
    s.reconcileSuccess root epoch scope diagnostics = s := by
  unfold reconcileSuccess
  rw [reconcileSuccess_eq_none_iff.mpr hepoch]

theorem reconcileSuccess_of_current (hepoch : s.tracker.epoch root = epoch) :
    ∃ after, s.tracker.reconcileSuccess root epoch scope diagnostics =
        some (s.tracker.withCleared root scope diagnostics, after) ∧
      s.reconcileSuccess root epoch scope diagnostics =
        ⟨after, s.client.receive (some root)
          ((s.tracker.withCleared root scope diagnostics).entries.map fun entry =>
            ⟨entry.1, entry.2, none⟩)⟩ := by
  cases hreconcile : s.tracker.reconcileSuccess root epoch scope diagnostics with
  | none => exact (reconcileSuccess_eq_none_iff.mp hreconcile hepoch).elim
  | some result =>
    obtain ⟨published, after⟩ := result
    obtain ⟨rfl, -⟩ := reconcileSuccess_spec hreconcile
    exact ⟨after, rfl, by rw [reconcileSuccess, hreconcile]⟩

/-- What a run's publish makes a URL show: its list, a clear of a tracked URL in scope,
or what it showed. -/
theorem reconcileSuccess_client (hepoch : s.tracker.epoch root = epoch) (url : Url) :
    (s.reconcileSuccess root epoch scope diagnostics).client url =
      (((diagnostics.lookup url).or
        (if s.tracker.TracksUrl root url ∧ scope.covers url = true then some [] else none)).map
          (⟨some root, ·⟩)).getD (s.client url) := by
  obtain ⟨after, -, hafter⟩ :=
    @reconcileSuccess_of_current s root epoch scope diagnostics hepoch
  rw [hafter, ← lookup_withCleared]
  exact Client.receive_entries _ _ _ (fun _ => none) url

theorem reconcileSuccess_tracksUrl (hepoch : s.tracker.epoch root = epoch) {r : Path} {url : Url} :
    (s.reconcileSuccess root epoch scope diagnostics).tracker.TracksUrl r url ↔
      if r = root then
        (∃ list, diagnostics.lookup url = some list ∧ list ≠ []) ∨
          s.tracker.TracksUrl root url ∧ scope.covers url = false
      else s.tracker.TracksUrl r url := by
  obtain ⟨after, hreconcile, hafter⟩ :=
    @reconcileSuccess_of_current s root epoch scope diagnostics hepoch
  rw [hafter]
  split
  · next hr =>
    subst hr
    rw [(reconcileSuccess_spec hreconcile).2 url]
    refine or_congr_left ?_
    constructor
    · rintro ⟨⟨u, list⟩, hentry, rfl, hlist⟩
      have hlookup := @lookup_withCleared s.tracker r scope diagnostics u
      rw [AList.mem_lookup_iff.mpr hentry] at hlookup
      rcases Option.or_eq_some_iff.mp hlookup.symm with hown | ⟨-, hclear⟩
      · exact ⟨list, hown, hlist⟩
      · split at hclear
        · exact (hlist (Option.some.inj hclear).symm).elim
        · cases hclear
    · rintro ⟨list, hlookup, hlist⟩
      refine ⟨⟨url, list⟩, AList.mem_lookup_iff.mp ?_, rfl, hlist⟩
      show (s.tracker.withCleared r scope diagnostics).lookup url = some list
      rw [lookup_withCleared, hlookup]
      rfl
  · next hr =>
    unfold TracksUrl rootDiagnostics
    rw [lookup_of_reconcileSuccess hreconcile hr]

/-- A current reconcile keeps the mirror exactly when it reports at no URL of another
root, and no empty list at a URL of its own outside its scope. -/
theorem mirrors_reconcileSuccess_iff (h : s.Mirrors) (hepoch : s.tracker.epoch root = epoch) :
    (s.reconcileSuccess root epoch scope diagnostics).Mirrors ↔
      ∀ url list, diagnostics.lookup url = some list →
        ∀ r, s.tracker.TracksUrl r url → r = root ∧ (scope.covers url = false → list ≠ []) := by
  constructor
  · intro hmirrors url list hlookup r hr
    have hshown := @reconcileSuccess_client s root epoch scope diagnostics hepoch url
    rw [hlookup, Option.some_or, Option.map_some, Option.getD_some] at hshown
    have hroot : r = root := by
      by_contra hne
      have hafter := (hmirrors r url).mp (by
        rw [reconcileSuccess_tracksUrl hepoch, if_neg hne]
        exact hr)
      rw [Client.Shows, hshown] at hafter
      exact hne (Option.some.inj hafter.1).symm
    refine ⟨hroot, fun hscope hempty => ?_⟩
    have hafter := (hmirrors root url).mp (by
      rw [reconcileSuccess_tracksUrl hepoch, if_pos rfl]
      exact .inr ⟨hroot ▸ hr, hscope⟩)
    rw [Client.Shows, hshown] at hafter
    exact hafter.2 hempty
  · intro hrespects r url
    rw [reconcileSuccess_tracksUrl hepoch, Client.Shows, reconcileSuccess_client hepoch]
    cases hlookup : diagnostics.lookup url with
    | some list =>
      simp only [Option.some_or, Option.map_some, Option.getD_some, Option.some.injEq]
      split
      · next hr =>
        subst hr
        refine ⟨?_, fun hshown => .inl ⟨list, rfl, hshown.2⟩⟩
        rintro (⟨own, hown, hne⟩ | ⟨htracked, hscope⟩)
        · exact ⟨rfl, hown ▸ hne⟩
        · exact ⟨rfl, (hrespects url list hlookup r htracked).2 hscope⟩
      · next hr =>
        refine iff_of_false ?_ fun hshown => hr hshown.1.symm
        intro htracked
        exact hr (hrespects url list hlookup r htracked).1
    | none =>
      simp only [Option.none_or, reduceCtorEq, false_and, exists_false, false_or]
      by_cases hcleared : s.tracker.TracksUrl root url ∧ scope.covers url = true
      · -- A tracked URL in scope is cleared and no root tracks it any more.
        rw [if_pos hcleared, Option.map_some, Option.getD_some]
        refine iff_of_false ?_ fun hshown => hshown.2 rfl
        split
        · simp [hcleared.2]
        · next hr => exact fun htracked => hr (h.root_eq hcleared.1 htracked)
      · rw [if_neg hcleared, Option.map_none, Option.getD_none]
        refine Iff.trans ?_ (h r url)
        split
        · next hr =>
          subst hr
          refine ⟨And.left, fun htracked => ⟨htracked, ?_⟩⟩
          simpa [htracked] using hcleared
        · rfl

/-- After a full run the client shows its root the run's diagnostics alone. -/
theorem showsExactly_of_whole (h : s.Mirrors) (hepoch : s.tracker.epoch root = epoch) :
    (s.reconcileSuccess root epoch .whole diagnostics).ShowsExactly root diagnostics := by
  intro url
  have hshown := @reconcileSuccess_client s root epoch .whole diagnostics hepoch url
  refine ⟨fun list hlookup => ?_, fun hlookup hshows => ?_⟩
  · rw [hshown, hlookup]
    rfl
  · rw [hlookup, Option.none_or] at hshown
    by_cases htracked : s.tracker.TracksUrl root url
    · rw [if_pos ⟨htracked, rfl⟩, Option.map_some, Option.getD_some] at hshown
      exact hshows.2 (by rw [hshown])
    · rw [if_neg fun hcleared => htracked hcleared.1, Option.map_none, Option.getD_none] at hshown
      refine htracked ((h root url).mpr ?_)
      rw [Client.Shows, ← hshown]
      exact hshows

/-- A source-only run leaves alone what it neither analyzed nor reported. -/
theorem reconcileSuccess_sourceOnly {analyzed : List Url} {url : Url}
    (hepoch : s.tracker.epoch root = epoch) (hanalyzed : url ∉ analyzed)
    (hreported : url ∉ diagnostics) :
    let t := s.reconcileSuccess root epoch (.sourceOnly analyzed) diagnostics
    t.client url = s.client url ∧
      (t.tracker.TracksUrl root url ↔ s.tracker.TracksUrl root url) := by
  have hlookup := AList.lookup_eq_none.mpr hreported
  have hscope : (ReconcileScope.sourceOnly analyzed).covers url = false := by
    simpa [ReconcileScope.covers] using hanalyzed
  refine ⟨?_, ?_⟩
  · rw [reconcileSuccess_client hepoch, hlookup, hscope]
    simp
  · rw [reconcileSuccess_tracksUrl hepoch, if_pos rfl, hlookup, hscope]
    simp

end Reconcile

/-! ## A watched batch as single operations -/

/-- What a watched batch does for one root. -/
def watchedOps (M : Marrow) (versions : DocumentVersions) (root : Path)
    (pending : PendingWatchedRoot) : List (PanelEvent M) :=
  if pending.clearRoot then [.bumpRootEpoch root, .clearRoot root]
  else
    ((sortedUrls pending.deletedUrls).filter (· ∉ versions)).map (.clearUrl root) ++
      if pending.recomputePath.isSome then [.bumpRootEpoch root] else []

@[simp] theorem run_nil (s : Panel) : s.run ([] : List (PanelEvent M)) = s := rfl

@[simp] theorem run_cons (s : Panel) (e : PanelEvent M) (events : List (PanelEvent M)) :
    s.run (e :: events) = (s.step e).run events := rfl

theorem run_append (s : Panel) (events events' : List (PanelEvent M)) :
    s.run (events ++ events') = (s.run events).run events' := List.foldl_append

theorem run_clearDeleted (M : Marrow) (versions : DocumentVersions) (root : Path) (client : Client)
    (urls : List Url) (clears : List PublishedDiagnostics) (tracker : DiagnosticsTracker) :
    let result := urls.foldl (fun (clears, tracker) url =>
      if url ∈ versions then (clears, tracker)
      else
        let (tracked, tracker) := tracker.clearUrl root url
        (if tracked then clears ++ [clearPublish url versions] else clears, tracker))
      (clears, tracker)
    (⟨tracker, client.receive none clears⟩ : Panel).run
        ((urls.filter (· ∉ versions)).map (PanelEvent.clearUrl (M := M) root)) =
      ⟨result.2, client.receive none result.1⟩ := by
  induction urls generalizing clears tracker with
  | nil => rfl
  | cons url urls ih =>
    by_cases hopen : url ∈ versions
    · simpa [hopen] using ih clears tracker
    · have hstep : (⟨tracker, client.receive none clears⟩ : Panel).clearUrl root url =
          ⟨(tracker.clearUrl root url).2, client.receive none
            (if (tracker.clearUrl root url).1 then clears ++ [clearPublish url versions]
              else clears)⟩ := by
        show (⟨_, if (tracker.clearUrl root url).1 = true then _ else _⟩ : Panel) = _
        by_cases htracked : (tracker.clearUrl root url).1 = true
        · rw [if_pos htracked, if_pos htracked, Client.receive_append]
          rfl
        · rw [if_neg htracked, if_neg htracked]
          rfl
      have hrest := ih (if (tracker.clearUrl root url).1 then
        clears ++ [clearPublish url versions] else clears) (tracker.clearUrl root url).2
      simp only [List.foldl_cons, hopen, if_false, not_false_eq_true, decide_true,
        List.filter_cons_of_pos, List.map_cons, run_cons, step]
      rw [hstep]
      exact hrest

/-- One root's part of a batch, after any earlier part of it. -/
theorem run_watchedOps (M : Marrow) (versions : DocumentVersions) (currentRoot : Option Path)
    (drain : ClearRootDrain) (client : Client) (before : WatchedRootEffects × DiagnosticsTracker)
    (root : Path) (pending : PendingWatchedRoot) :
    let result := WatchedRootEffects.add versions currentRoot drain before root pending
    (⟨before.2, client.receive none before.1.immediateClears⟩ : Panel).run
        (watchedOps M versions root pending) =
      ⟨result.2, client.receive none result.1.immediateClears⟩ := by
  obtain ⟨effects, tracker⟩ := before
  unfold watchedOps WatchedRootEffects.add
  by_cases hclear : pending.clearRoot = true
  · simp only [hclear, if_true, run_cons, run_nil, step, bumpRootEpoch, clearRoot,
      Client.receive_append]
    simp [Client.receive, List.foldl_map, clearPublish]
  · have hdeleted := run_clearDeleted M versions root (client.receive none effects.immediateClears)
      (sortedUrls pending.deletedUrls) [] tracker
    simp only [hclear, if_false, run_append, Bool.false_eq_true]
    rw [show client.receive none effects.immediateClears =
      (client.receive none effects.immediateClears).receive none [] from rfl, hdeleted]
    cases pending.recomputePath with
    | none => simp [clearDeleted, Client.receive_append]
    | some path => simp [clearDeleted, Client.receive_append, step, bumpRootEpoch]

/-- A watched batch is the operations of its roots, one after the other. -/
theorem watchedFiles_eq_run (M : Marrow) (s : Panel) (versions : DocumentVersions)
    (pending : PendingWatchedRoots) (currentRoot : Option Path) (drain : ClearRootDrain) :
    s.watchedFiles versions pending currentRoot drain =
      s.run (pending.entries.flatMap fun entry => watchedOps M versions entry.1 entry.2) := by
  have hall : ∀ (entries : List (Sigma fun _ : Path => PendingWatchedRoot))
      (before : WatchedRootEffects × DiagnosticsTracker),
      let result := entries.foldl (fun before entry =>
        WatchedRootEffects.add versions currentRoot drain before entry.1 entry.2) before
      (⟨before.2, s.client.receive none before.1.immediateClears⟩ : Panel).run
          (entries.flatMap fun entry => watchedOps M versions entry.1 entry.2) =
        ⟨result.2, s.client.receive none result.1.immediateClears⟩ := by
    intro entries
    induction entries with
    | nil => exact fun _ => rfl
    | cons entry entries ih =>
      intro before
      rw [List.flatMap_cons, run_append, run_watchedOps M versions currentRoot drain]
      exact ih _
  exact (hall pending.entries (.new, s.tracker)).symm

/-! ## Steps -/

/-- An operation for one root that clears what it untracks. -/
inductive Clearing (root : Path) : PanelEvent M → Prop where
  | bump : Clearing root (.bumpRootEpoch root)
  | clearRoot : Clearing root (.clearRoot root)
  | clearUrl (url : Url) : Clearing root (.clearUrl root url)

theorem clearing_of_mem_watchedOps {versions : DocumentVersions} {root : Path}
    {pending : PendingWatchedRoot} {e : PanelEvent M} (h : e ∈ watchedOps M versions root pending) :
    Clearing root e := by
  unfold watchedOps at h
  split at h
  · rcases List.mem_cons.mp h with rfl | h
    · exact .bump
    · obtain rfl := List.mem_singleton.mp h
      exact .clearRoot
  · rcases List.mem_append.mp h with h | h
    · obtain ⟨url, -, rfl⟩ := List.mem_map.mp h
      exact .clearUrl url
    · split at h
      · obtain rfl := List.mem_singleton.mp h
        exact .bump
      · cases h

theorem Clearing.distinct {s : Panel} {root : Path} {e : PanelEvent M} (he : Clearing root e)
    (h : s.tracker.Distinct) : (s.step e).tracker.Distinct := by
  cases he with
  | bump => exact h.bumpRootEpoch root
  | clearRoot => exact h.clearRoot root
  | clearUrl url => exact h.clearUrl root url

theorem Clearing.mirrors {s : Panel} {root : Path} {e : PanelEvent M} (he : Clearing root e)
    (hdistinct : s.tracker.Distinct) (h : s.Mirrors) : (s.step e).Mirrors := by
  cases he with
  | bump => exact mirrors_bumpRootEpoch h root
  | clearRoot => exact mirrors_clearRoot h root
  | clearUrl url => exact mirrors_clearUrl hdistinct h root url

theorem Clearing.lookup {s : Panel} {root r : Path} {e : PanelEvent M} (he : Clearing root e)
    (hr : r ≠ root) : (s.step e).tracker.roots.lookup r = s.tracker.roots.lookup r := by
  cases he with
  | bump => exact lookup_bumpRootEpoch hr
  | clearRoot => exact lookup_clearRoot hr
  | clearUrl url => exact lookup_clearUrl hr

/-- What every operation of a list keeps, the whole list keeps. -/
theorem run_induction {P : Panel → Prop} {events : List (PanelEvent M)} {s : Panel}
    (hstep : ∀ e ∈ events, ∀ s, P s → P (s.step e)) (hs : P s) : P (s.run events) := by
  induction events generalizing s with
  | nil => exact hs
  | cons e events ih =>
    refine ih (fun e he => hstep e (List.mem_cons_of_mem _ he)) ?_
    exact hstep e (List.mem_cons_self ..) s hs

theorem distinct_step {s : Panel} (h : s.tracker.Distinct) (e : PanelEvent M) :
    (s.step e).tracker.Distinct := by
  cases e with
  | bumpRootEpoch root => exact h.bumpRootEpoch root
  | clearRoot root => exact h.clearRoot root
  | clearUrl root url => exact h.clearUrl root url
  | reconcileSuccess root epoch scope diagnostics =>
    by_cases hepoch : s.tracker.epoch root = epoch
    · obtain ⟨after, hreconcile, hafter⟩ :=
        @reconcileSuccess_of_current s root epoch scope diagnostics hepoch
      rw [step, hafter]
      exact h.reconcileSuccess hreconcile
    · rw [step, reconcileSuccess_of_stale hepoch]
      exact h
  | didClose workspace url =>
    show DiagnosticsTracker.Distinct (Panel.didClose s workspace url).tracker
    unfold didClose
    cases closeRoot workspace s.tracker url with
    | none => exact h
    | some root => exact (h.clearUrl root url).bumpRootEpoch root
  | watchedFiles versions pending currentRoot drain =>
    rw [step, watchedFiles_eq_run M]
    refine run_induction (P := fun s => s.tracker.Distinct) (fun e he s hs => ?_) h
    obtain ⟨entry, -, hop⟩ := List.mem_flatMap.mp he
    exact (clearing_of_mem_watchedOps hop).distinct hs

/-- One event keeps the mirror exactly when it respects the other roots. -/
theorem mirrors_step_iff {s : Panel} (hdistinct : s.tracker.Distinct) (h : s.Mirrors)
    (e : PanelEvent M) : (s.step e).Mirrors ↔ e.Respects s := by
  cases e with
  | bumpRootEpoch root => exact iff_of_true (mirrors_bumpRootEpoch h root) trivial
  | clearRoot root => exact iff_of_true (mirrors_clearRoot h root) trivial
  | clearUrl root url => exact iff_of_true (mirrors_clearUrl hdistinct h root url) trivial
  | reconcileSuccess root epoch scope diagnostics =>
    by_cases hepoch : s.tracker.epoch root = epoch
    · refine (mirrors_reconcileSuccess_iff h hepoch).trans ?_
      simp only [PanelEvent.Respects, hepoch, forall_const]
    · rw [step, reconcileSuccess_of_stale hepoch]
      exact iff_of_true h fun hcurrent => (hepoch hcurrent).elim
  | didClose workspace url => exact mirrors_didClose_iff hdistinct h workspace url
  | watchedFiles versions pending currentRoot drain =>
    refine iff_of_true ?_ trivial
    rw [step, watchedFiles_eq_run M]
    refine (run_induction (P := fun s => s.tracker.Distinct ∧ s.Mirrors) (fun e he s hs => ?_)
      ⟨hdistinct, h⟩).2
    obtain ⟨entry, -, hop⟩ := List.mem_flatMap.mp he
    exact ⟨(clearing_of_mem_watchedOps hop).distinct hs.1,
      (clearing_of_mem_watchedOps hop).mirrors hs.1 hs.2⟩

/-- An event touches the entries of no root it is not for. -/
theorem lookup_step {s : Panel} {e : PanelEvent M} {r : Path} (h : ¬ e.Concerns s r) :
    (s.step e).tracker.roots.lookup r = s.tracker.roots.lookup r := by
  cases e with
  | bumpRootEpoch root => exact lookup_bumpRootEpoch (Ne.symm h)
  | clearRoot root => exact lookup_clearRoot (Ne.symm h)
  | clearUrl root url => exact lookup_clearUrl (Ne.symm h)
  | reconcileSuccess root epoch scope diagnostics =>
    by_cases hepoch : s.tracker.epoch root = epoch
    · obtain ⟨after, hreconcile, hafter⟩ :=
        @reconcileSuccess_of_current s root epoch scope diagnostics hepoch
      rw [step, hafter]
      exact lookup_of_reconcileSuccess hreconcile (Ne.symm h)
    · rw [step, reconcileSuccess_of_stale hepoch]
  | didClose workspace url =>
    show (Panel.didClose s workspace url).tracker.roots.lookup r = _
    unfold PanelEvent.Concerns at h
    unfold didClose
    cases hroot : closeRoot workspace s.tracker url with
    | none => rfl
    | some root =>
      have hne : r ≠ root := by
        rintro rfl
        exact h hroot
      exact (lookup_bumpRootEpoch hne).trans (lookup_clearUrl hne)
  | watchedFiles versions pending currentRoot drain =>
    rw [step, watchedFiles_eq_run M]
    refine run_induction (P := fun t => t.tracker.roots.lookup r = s.tracker.roots.lookup r)
      (fun e he t ht => ?_) rfl
    obtain ⟨entry, hentry, hop⟩ := List.mem_flatMap.mp he
    refine ((clearing_of_mem_watchedOps hop).lookup ?_).trans ht
    rintro rfl
    exact h (AList.mem_keys.mpr (List.mem_map.mpr ⟨entry, hentry, rfl⟩))

theorem settles_step {s : Panel} (h : s.Mirrors) (e : PanelEvent M) : e.Settles s (s.step e) := by
  cases e with
  | reconcileSuccess root epoch scope diagnostics =>
    cases scope with
    | whole =>
      simp only [PanelEvent.Settles]
      split
      · next hepoch => exact showsExactly_of_whole h hepoch
      · next hepoch => exact reconcileSuccess_of_stale hepoch
    | sourceOnly analyzed =>
      simp only [PanelEvent.Settles]
      split
      · next hepoch =>
        intro url hanalyzed hreported
        exact reconcileSuccess_sourceOnly hepoch hanalyzed hreported
      · next hepoch => exact reconcileSuccess_of_stale hepoch
  | _ => trivial

theorem mirrors_new : new.Mirrors := by
  intro root url
  refine iff_of_false ?_ fun hshown => hshown.2 rfl
  simp [TracksUrl, new, DiagnosticsTracker.new, rootDiagnostics, RootDiagnostics.new]

/-! ## No ghosts -/

/-- Every problem the client shows is tracked for the root that reported it, so a later
run of that root can clear it. -/
def NoGhosts (s : Panel) : Prop :=
  ∀ root url, s.client.Shows root url → s.tracker.TracksUrl root url

theorem Clearing.noGhosts {s : Panel} {root : Path} {e : PanelEvent M} (he : Clearing root e)
    (hdistinct : s.tracker.Distinct) (h : s.NoGhosts) : (s.step e).NoGhosts := by
  intro r u hshown
  cases he with
  | bump => exact tracksUrl_bumpRootEpoch.mpr (h r u hshown)
  | clearRoot =>
    unfold Client.Shows at hshown
    rw [step, clearRoot_client] at hshown
    split at hshown
    · exact (hshown.2 rfl).elim
    · next hmem =>
      rw [mem_clearRoot] at hmem
      refine tracksUrl_clearRoot.mpr ⟨?_, h r u hshown⟩
      rintro rfl
      exact hmem (h _ u hshown)
  | clearUrl url =>
    unfold Client.Shows at hshown
    rw [step, clearUrl_client] at hshown
    split at hshown
    · exact (hshown.2 rfl).elim
    · next hkept =>
      rw [clearUrl_fst] at hkept
      refine (tracksUrl_clearUrl hdistinct).mpr ⟨?_, h r u hshown⟩
      rintro ⟨rfl, rfl⟩
      exact hkept ⟨rfl, h _ _ hshown⟩

/-- No event leaves a ghost behind, whatever it is and whichever root it is for. -/
theorem noGhosts_step {s : Panel} (hdistinct : s.tracker.Distinct) (h : s.NoGhosts)
    (e : PanelEvent M) : (s.step e).NoGhosts := by
  cases e with
  | bumpRootEpoch root => exact (Clearing.bump (M := M)).noGhosts hdistinct h
  | clearRoot root => exact (Clearing.clearRoot (M := M)).noGhosts hdistinct h
  | clearUrl root url => exact (Clearing.clearUrl (M := M) url).noGhosts hdistinct h
  | reconcileSuccess root epoch scope diagnostics =>
    by_cases hepoch : s.tracker.epoch root = epoch
    · intro r url hshown
      show (s.reconcileSuccess root epoch scope diagnostics).tracker.TracksUrl r url
      unfold Client.Shows at hshown
      rw [step, reconcileSuccess_client hepoch] at hshown
      rw [reconcileSuccess_tracksUrl hepoch]
      cases hlookup : diagnostics.lookup url with
      | some list =>
        rw [hlookup, Option.some_or, Option.map_some, Option.getD_some] at hshown
        rw [if_pos (Option.some.inj hshown.1).symm]
        exact .inl ⟨list, rfl, hshown.2⟩
      | none =>
        rw [hlookup, Option.none_or] at hshown
        by_cases hcleared : s.tracker.TracksUrl root url ∧ scope.covers url = true
        · rw [if_pos hcleared] at hshown
          exact (hshown.2 rfl).elim
        · rw [if_neg hcleared] at hshown
          have htracked := h r url hshown
          split
          · next hr =>
            subst hr
            exact .inr ⟨htracked, by simpa [htracked] using hcleared⟩
          · exact htracked
    · rw [step, reconcileSuccess_of_stale hepoch]
      exact h
  | didClose workspace url =>
    intro r u hshown
    unfold Client.Shows at hshown
    rw [step, didClose_client] at hshown
    split at hshown
    · exact (hshown.2 rfl).elim
    · next hu =>
      exact (didClose_tracksUrl hdistinct).mpr ⟨fun hclosed => hu hclosed.2, h r u hshown⟩
  | watchedFiles versions pending currentRoot drain =>
    rw [step, watchedFiles_eq_run M]
    refine (run_induction (P := fun s => s.tracker.Distinct ∧ s.NoGhosts) (fun e he s hs => ?_)
      ⟨hdistinct, h⟩).2
    obtain ⟨entry, -, hop⟩ := List.mem_flatMap.mp he
    exact ⟨(clearing_of_mem_watchedOps hop).distinct hs.1,
      (clearing_of_mem_watchedOps hop).noGhosts hs.1 hs.2⟩

theorem noGhosts_run {s : Panel} (hdistinct : s.tracker.Distinct) (h : s.NoGhosts)
    (events : List (PanelEvent M)) :
    (s.run events).tracker.Distinct ∧ (s.run events).NoGhosts :=
  run_induction (P := fun s => s.tracker.Distinct ∧ s.NoGhosts)
    (fun e _ _ hs => ⟨distinct_step hs.1 e, noGhosts_step hs.1 hs.2 e⟩) ⟨hdistinct, h⟩

/-! ## Runs -/

/-- What an event promises of the state it leaves: the mirror, what a reconcile settles,
and the entries of the roots it is not for. -/
def Promises (s : Panel) (e : PanelEvent M) (t : Panel) : Prop :=
  t.Mirrors ∧ e.Settles s t ∧
    ∀ root, ¬ e.Concerns s root → t.tracker.roots.lookup root = s.tracker.roots.lookup root

/-- A run keeps every promise at every step exactly when its events respect the URLs
that other roots track. -/
theorem promises_run_iff (events : List (PanelEvent M)) :
    AllSteps (fun s e => some (Panel.step s e)) Promises new events ↔
      AllSteps (fun s e => some (Panel.step s e)) (fun s e _ => e.Respects s) new events := by
  refine allSteps_congr (I := fun s => s.tracker.Distinct ∧ s.Mirrors) ?_ ?_ events
    ⟨distinct_new, mirrors_new⟩
  · rintro s e t ⟨hdistinct, -⟩ hstep hpromises
    obtain rfl := Option.some.inj hstep
    exact ⟨distinct_step hdistinct e, hpromises.1⟩
  · rintro s e t ⟨hdistinct, h⟩ hstep
    obtain rfl := Option.some.inj hstep
    constructor
    · intro hpromises
      exact (mirrors_step_iff hdistinct h e).mp hpromises.1
    · intro hrespects
      exact ⟨(mirrors_step_iff hdistinct h e).mpr hrespects, settles_step h e,
        fun root hroot => lookup_step hroot⟩

/-! ## A close under the wrong root -/

def inner : Path := (Sample.projectDir "A").child "B"

def innerFile : Path := (inner.child "src").child "app.mw"

/-- A project with another one in its `B` directory. -/
def nested : World Marrow.sample :=
  Sample.world
    [((Sample.projectDir "A").child CONFIG_FILE, ['m']), (Sample.app "A", ['x']),
      (inner.child CONFIG_FILE, ['m']), (innerFile, ['!'])]

/-- The inner project's problem is published, the outer project is resolved for another
buffer, and the inner file is closed: the close finds the outer root. -/
def closeNested : List (PanelEvent Marrow.sample) :=
  let documents := Documents.new.openWithVersion (Sample.urlOf (Sample.app "A")) ['x'] (some 1)
  let outer := Workspace.new.prepareRecompute nested (Sample.app "A")
    (documents.analysisSnapshot Marrow.sample) .full
  let problem := ⟨⟨⟨0, 0⟩, ⟨0, 1⟩⟩, .ERROR, "parse.error", SOURCE, "unexpected character"⟩
  [.bumpRootEpoch inner,
    .reconcileSuccess inner 1 .whole (AList.singleton (Sample.urlOf innerFile) [problem]),
    .didClose (some outer.workspace) (Sample.urlOf innerFile)]

/-- After it the inner root still tracks a URL at which nothing is shown. -/
theorem not_promises_closeNested :
    ¬ AllSteps (fun s e => some (Panel.step s e)) Promises new closeNested := by
  intro h
  have hmirrors : (new.run closeNested).Mirrors := ((((h _ rfl).2 _ rfl).2 _ rfl).1).1
  have hshown := (hmirrors inner (Sample.urlOf innerFile)).mp (by decide)
  exact hshown.2 (by decide)

end Panel

end MarrowLsp
