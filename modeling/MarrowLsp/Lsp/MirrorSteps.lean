-- SUMMARY: The server's steps as events of its panel of problems, so that what panels keep holds of every reachable server.
import MarrowLsp.Lsp.Mirror
import MarrowLsp.Lsp.Steps

/-!
# The server's panel

The tracker of a server and the client that has received everything it sent form a
panel. Each step of the server moves it by a list of the panel's events, most steps
by none.
-/
namespace MarrowLsp

open Transition

variable {M : Marrow}

/-- The client after everything sent so far, the newest first. -/
def Client.ofPublished : List (Publish M) → Client
  | [] => Client.new
  | .recompute root _ _ messages :: earlier => (ofPublished earlier).receive (some root) messages
  | .clear messages :: earlier => (ofPublished earlier).receive none messages

namespace Server

def panel (s : Server M) : Panel := ⟨s.tracker, Client.ofPublished s.published⟩

/-- A handler that closes a buffer carries the path of its URL. -/
def ClosesOwnPath (s : Server M) : Prop :=
  ∀ url path, s.handling = some (.close url path) → path = M.toFilePath url

theorem receive_messages (client : Client) (origin : Option Path)
    (documents : DocumentAnalysisSnapshot) (diagnostics : DiagnosticsByUrl) :
    client.receive origin (messages documents diagnostics) =
      client.receive origin (diagnostics.entries.map fun entry => ⟨entry.1, entry.2, none⟩) := by
  simp [Client.receive, messages, List.foldl_map]

theorem panel_scheduleRecompute (s : Server M) (file : Path) (rootEpoch : Option (Path × Nat))
    (scope : RecomputeScope) : (s.scheduleRecompute file rootEpoch scope).panel = s.panel := by
  obtain ⟨_, _, hframe⟩ := s.scheduleRecompute_frame file rootEpoch scope
  rw [hframe]
  rfl

theorem panel_sendClears (s : Server M) (clears : List PublishedDiagnostics) :
    (s.sendClears clears).panel = ⟨s.tracker, s.panel.client.receive none clears⟩ := by
  unfold sendClears
  cases clears with
  | nil => rfl
  | cons clear clears => rfl

theorem panel_carryOut (s : Server M) (effects : WatchedRootEffects) :
    (s.carryOut effects).panel =
      ⟨s.tracker, s.panel.client.receive none effects.immediateClears⟩ := by
  obtain ⟨_, _, hframe⟩ :=
    (s.sendClears effects.immediateClears).scheduleAll_frame effects.schedules
  rw [carryOut, hframe]
  exact s.panel_sendClears effects.immediateClears

theorem panel_finishEdit (s : Server M) (busy : Bool) (path : Path) (scope : RecomputeScope) :
    ∃ events : List (PanelEvent M), (s.finishEdit busy path scope).panel = s.panel.run events := by
  unfold finishEdit
  cases s.knownRoot busy path with
  | none => exact ⟨[], panel_scheduleRecompute { s with handling := none } path none scope⟩
  | some root =>
    refine ⟨[.bumpRootEpoch root], ?_⟩
    exact panel_scheduleRecompute
      { s with handling := none, tracker := s.tracker.bumpRootEpoch root } path
      (some (root, (s.tracker.bumpRootEpoch root).epoch root)) scope

theorem panel_finishClose (s : Server M) (busy : Bool) (url : Url) :
    (s.finishClose busy url (M.toFilePath url)).panel =
      s.panel.didClose (if busy then none else some s.workspace) url := by
  unfold finishClose Panel.didClose closeRoot knownRoot
  cases M.toFilePath url with
  | none => exact panel_sendClears _ _
  | some path =>
    simp only [Option.bind_some, panel]
    cases knownRootForPath (if busy then none else some s.workspace) s.tracker path with
    | none => exact (panel_scheduleRecompute ..).trans (panel_sendClears _ _)
    | some root => exact (panel_scheduleRecompute ..).trans (panel_sendClears _ _)

theorem panel_watchFree (s : Server M) (versions : DocumentVersions)
    (changes : List WatchedPathChange) : ∃ events : List (PanelEvent M),
      (s.watchFree versions changes).panel = s.panel.run events := by
  unfold watchFree
  dsimp only
  split
  · exact ⟨[], rfl⟩
  · exact ⟨[.watchedFiles versions _ _ .skip], panel_carryOut _ _⟩

theorem panel_reconcile (s : Server M) (r : Running M) (root : Path) (scope : ReconcileScope)
    (a : Analysis M) (diagnostics : DiagnosticsByUrl) : ∃ events : List (PanelEvent M),
      (s.reconcile r root scope a diagnostics).panel = s.panel.run events := by
  unfold reconcile
  split
  · exact ⟨[], rfl⟩
  · cases hreconcile :
      s.tracker.reconcileSuccess root (s.publishEpoch r.task root) scope diagnostics with
    | none => exact ⟨[], rfl⟩
    | some result =>
      obtain ⟨published, tracker⟩ := result
      refine ⟨[.reconcileSuccess root (s.publishEpoch r.task root) scope diagnostics], ?_⟩
      rw [Panel.run_cons, Panel.run_nil, Panel.step, Panel.reconcileSuccess]
      simp only [panel, hreconcile, Client.ofPublished, receive_messages]

theorem panel_handle {s : Server M} (hclose : s.ClosesOwnPath) (fs : Fs) (busy : Bool)
    {handling : Handling} (hhandling : s.handling = some handling) :
    ∃ events : List (PanelEvent M), (s.handle fs busy handling).panel = s.panel.run events := by
  cases handling with
  | edit path scope => exact s.panel_finishEdit busy path scope
  | close url path =>
    obtain rfl := hclose url path hhandling
    exact ⟨[.didClose (if busy then none else some s.workspace) url], s.panel_finishClose busy url⟩
  | watch changes versions preBits => exact ⟨[], rfl⟩
  | watchAgain changes versions preBits =>
    exact ⟨[.watchedFiles versions _ none .schedule], panel_carryOut _ _⟩

/-- Each step of the server is a list of its panel's events. -/
theorem exists_events_of_step {s t : Server M} {action : Action M} (hclose : s.ClosesOwnPath)
    (h : s.step action = some t) :
    ∃ events : List (PanelEvent M), t.panel = s.panel.run events := by
  cases stepTo_of_step h with
  | didOpen => exact ⟨[], rfl⟩
  | didChange => exact ⟨[], rfl⟩
  | didClose => exact ⟨[], rfl⟩
  | unwatched => exact ⟨[], rfl⟩
  | @didChangeWatchedFiles fs busy events =>
    unfold didChangeWatchedFiles
    split
    · exact ⟨[], rfl⟩
    · exact s.panel_watchFree _ _
  | handle hhandling => exact panel_handle hclose _ _ hhandling
  | preflight =>
    unfold preflight
    split
    · exact ⟨[], rfl⟩
    · exact ⟨[], rfl⟩
  | capture => exact ⟨[], rfl⟩
  | prepare =>
    unfold prepare
    dsimp only
    split
    · exact ⟨[], rfl⟩
    · exact ⟨[], rfl⟩
  | analyze =>
    unfold analyze
    split
    · exact ⟨[], rfl⟩
    · exact ⟨[], rfl⟩
  | commit =>
    unfold commit
    split
    · exact ⟨[], rfl⟩
    · exact ⟨[], rfl⟩
  | publish =>
    unfold publish
    split
    · exact ⟨[], rfl⟩
    · split
      · exact ⟨[], rfl⟩
      · split
        · exact ⟨[], rfl⟩
        · exact ⟨[], rfl⟩
  | reconcile => exact s.panel_reconcile _ _ _ _ _
  | bindingIndex => exact ⟨[], rfl⟩
  | chooseReadSource => exact ⟨[], rfl⟩

/-- A close starts with `did_close`, and every other step keeps the one at work or ends it. -/
theorem closesOwnPath_step {s t : Server M} {action : Action M} (h : s.ClosesOwnPath)
    (hstep : s.step action = some t) : t.ClosesOwnPath := by
  intro url path hhandling
  cases hrun : action.isRun with
  | true =>
    obtain ⟨_, _, _, _, _, _, rfl, -, -⟩ := run_frame hstep hrun
    exact h url path hhandling
  | false =>
    cases stepTo_of_step hstep with
    | didOpen | didChange =>
      obtain ⟨_, -, heq⟩ := Option.map_eq_some_iff.mp hhandling
      cases heq
    | didClose =>
      cases hhandling
      rfl
    | @didChangeWatchedFiles fs busy events =>
      cases busy with
      | true => cases hhandling
      | false =>
        obtain ⟨_, _, _, _, _, heq, -⟩ := s.watchFree_frame
          (openDocumentVersions (s.documents.analysisSnapshot M)) (watchedPathChanges M events)
        change (s.watchFree _ _).handling = _ at hhandling
        rw [heq] at hhandling
        exact h url path hhandling
    | @handle fs busy handling =>
      cases handling with
      | edit path' scope =>
        obtain ⟨_, _, _, heq⟩ := s.finishEdit_frame busy path' scope
        change (s.finishEdit _ _ _).handling = _ at hhandling
        rw [heq] at hhandling
        cases hhandling
      | close url' path' =>
        obtain ⟨_, _, _, _, heq, -⟩ := s.finishClose_frame busy url' path'
        change (s.finishClose _ _ _).handling = _ at hhandling
        rw [heq] at hhandling
        cases hhandling
      | watch => cases hhandling
      | watchAgain changes versions =>
        obtain ⟨_, _, _, _, _, heq, -, -⟩ := s.finishWatch_frame fs versions changes
        change (s.finishWatch _ _ _).handling = _ at hhandling
        rw [heq] at hhandling
        cases hhandling
    | preflight =>
      obtain ⟨_, heq⟩ := s.preflight_frame _ _
      rw [heq] at hhandling
      exact h url path hhandling
    | unwatched | capture | bindingIndex | chooseReadSource => exact h url path hhandling
    | prepare | analyze | commit | publish | reconcile => cases hrun

/-- On every reachable server a problem the client shows is tracked for the root whose run
reported it. -/
theorem noGhosts_of_reachable {s : Server M} (h : Reachable step new s) : s.panel.NoGhosts := by
  refine (h.invariant_of (J := ClosesOwnPath)
    (I := fun s => s.panel.tracker.Distinct ∧ s.panel.NoGhosts) ?_ ?_ ?_ ?_).2
  · intro url path hhandling
    cases hhandling
  · intro s a t hclose _ hstep
    exact closesOwnPath_step hclose hstep
  · exact ⟨DiagnosticsTracker.distinct_new, fun root url hshown => (hshown.2 rfl).elim⟩
  · rintro s a t hclose ⟨hdistinct, hghosts⟩ _ hstep
    obtain ⟨events, hevents⟩ := exists_events_of_step hclose hstep
    rw [hevents]
    exact Panel.noGhosts_run hdistinct hghosts events

end Server

end MarrowLsp
