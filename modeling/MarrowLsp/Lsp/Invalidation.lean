-- SUMMARY: Pending invalidations: who will drain them, which projects are owed a rebuild, and when a watched batch leaves one without a recompute.
import MarrowLsp.Lsp.Scheduling
import MarrowLsp.Lsp.Freshness

/-!
# Pending invalidations

A batch that finds the analysis busy raises pending bits by the names of its paths and
schedules recomputes by the tracker and the file system. The two need not agree. The
record kept beside the server says which paths the raised bits are for and which
projects are owed a rebuild, so that both can be compared with the tasks there are.
-/
namespace MarrowLsp

open Transition

variable {M : Marrow}

/-! ## The record of a run -/

/-- What the run so far owes. -/
structure Account where
  /-- The paths of the batch in progress that raise bits. -/
  batch : List Path
  /-- The paths behind the bits that are pending. -/
  raised : List Path
  /-- The roots whose rebuild no prepare has taken up: of the events of a busy batch and
  of every run that was under way when bits were raised. -/
  due : List Path
  deriving DecidableEq, Repr

def Account.new : Account := ⟨[], [], []⟩

/-- The steps of a recompute that look at the pending bits. -/
def Action.drains : Action M → Bool
  | .prepare .. | .commit | .publish _ | .reconcile => true
  | _ => false

/-- The bits are drained: a run under way when they were raised is lost. -/
def Account.drained (account : Account) (s : Server M) : Account :=
  if s.pending.isPending then
    { account with
      raised := []
      due := account.due ++ (s.running.map (·.run.root)).toList }
  else account

/-- The paths of a batch that raise bits before the tracker is asked. -/
def raisingPaths (fs : Fs) (changes : List WatchedPathChange) : List Path :=
  (changes.filter fun change => (preInvalidationBits fs change).isPending).map (·.path)

namespace Server

/-- The record after a step. -/
def note (s : Server M) (action : Action M) (account : Account) : Account :=
  match action with
  | .didChangeWatchedFiles fs busy events =>
    let changes := watchedPathChanges M events
    if changes.isEmpty then account
    else if busy then
      let batch := raisingPaths fs changes
      { account with batch, raised := account.raised ++ batch }
    else account.drained s
  | .handle fs _ =>
    match s.handling with
    | some (.watch ..) => { account with raised := account.raised ++ account.batch }
    | some (.watchAgain changes _ _) =>
      let events := busyWatchedProjectChanges fs s.tracker changes
      { account with
        raised := account.raised ++ events.map (·.path)
        due := account.due ++ events.map (·.root) }
    | _ => account
  | .prepare .. =>
    let account := account.drained s
    { account with due := account.due.filter fun root => s.takesUp action != some root }
  | .commit | .publish _ | .reconcile => account.drained s
  | _ => account

/-- A busy batch is part way: its recomputes are still to be scheduled. -/
def settling (s : Server M) : Bool :=
  match s.handling with
  | some (.watch ..) | some (.watchAgain ..) => true
  | _ => false

/-- Nothing is scheduled or in flight. -/
def quiescent (s : Server M) : Bool :=
  s.unprepared.isEmpty && s.running.isNone && s.handling.isNone

/-- Save while a batch is part way: pending bits have a recompute that will drain them
and rebuild a project that holds the path, for each path behind them; so does the project
of a run they will make fail, and every project that is owed a rebuild. -/
structure HasDrainer (s : Server M) (account : Account) : Prop where
  drainer : s.pending.isPending = true → s.settling = true ∨ account.raised ≠ [] ∧
    ∀ path ∈ account.raised, ∃ root ∈ s.rebuilding, path.startsWith root = true
  inFlight : s.pending.isPending = true → ∀ r, s.running = some r →
    s.settling = true ∨ r.run.root ∈ s.rebuilding
  due : ∀ root ∈ account.due, s.settling = true ∨ root ∈ s.rebuilding

/-- The roots a busy batch leaves with a recompute: those of its events, and those that
had one. -/
def served (s : Server M) (fs : Fs) (changes : List WatchedPathChange) : List Path :=
  (busyWatchedProjectChanges fs s.tracker changes).map (·.root) ++ s.rebuilding

/-- When a busy batch ends, each path that raised a bit lies in a project that it leaves
with a recompute, and so is each project that is owed a rebuild; and no batch that finds
the analysis free deletes the config of such a project. -/
def meets (x : Server M × Account) (action : Action M) : Bool :=
  match action with
  | .didChangeWatchedFiles _ false _ =>
    (x.2.drained x.1).due.all fun root => !x.1.cancels action root
  | .handle fs _ =>
    match x.1.handling with
    | some (.watchAgain changes _ _) =>
      let roots := x.1.served fs changes
      let pending := x.1.pending.isPending ||
        !(busyWatchedProjectChanges fs x.1.tracker changes).isEmpty
      (x.2.raised.all fun path => roots.any fun root => path.startsWith root) &&
        (x.2.due.all fun root => roots.contains root) &&
        (!pending || x.1.running.all fun r => roots.contains r.run.root)
    | _ => true
  | _ => true

/-! ## Bits and paths -/

theorem raisingPaths_ne_nil {fs : Fs} {changes : List WatchedPathChange}
    (h : (busyWatchedPreInvalidationBits fs changes).isPending = true) :
    raisingPaths fs changes ≠ [] := by
  have hraising : ∃ change ∈ changes, (preInvalidationBits fs change).isPending = true := by
    revert h
    unfold busyWatchedPreInvalidationBits
    refine List.foldlRecOn changes _
      (motive := fun bits : PendingInvalidation => bits.isPending = true → _) ?_ ?_
    · intro h
      cases h
    · intro bits ih change hmem h
      rw [PendingInvalidation.isPending_or, Bool.or_eq_true] at h
      rcases h with hbits | hchange
      · exact ih hbits
      · exact ⟨change, hmem, hchange⟩
  obtain ⟨change, hmem, hchange⟩ := hraising
  exact List.ne_nil_of_mem (List.mem_map.mpr ⟨change, List.mem_filter.mpr ⟨hmem, hchange⟩, rfl⟩)

/-- A busy batch without events raises no further bits. -/
theorem busyEffects_bits {fs : Fs} {tracker : DiagnosticsTracker} {versions : DocumentVersions}
    {changes : List WatchedPathChange}
    (h : (busyEffects fs tracker versions changes).1.bits.isPending = true) :
    busyWatchedProjectChanges fs tracker changes ≠ [] := by
  intro hnil
  unfold busyEffects at h
  rw [hnil] at h
  cases h

/-- Pending bits have a path behind them. -/
structure Recorded (s : Server M) (account : Account) : Prop where
  raised : s.pending.isPending = true → account.raised ≠ []
  batch : ∀ changes versions preBits, s.handling = some (.watch changes versions preBits) →
    preBits.isPending = true → account.batch ≠ []

/-- More bits come with the paths that raise them. -/
theorem Recorded.raised_or {s : Server M} {account : Account} (h : s.Recorded account)
    {bits : PendingInvalidation} {paths : List Path} (hbits : bits.isPending = true → paths ≠ [])
    (hpending : (s.pending.or bits).isPending = true) : account.raised ++ paths ≠ [] := by
  rw [PendingInvalidation.isPending_or, Bool.or_eq_true] at hpending
  rcases hpending with hold | hnew
  · exact List.append_ne_nil_of_left_ne_nil (h.raised hold) _
  · exact List.append_ne_nil_of_right_ne_nil _ (hbits hnew)

theorem Recorded.of_pending_none {s : Server M} {account : Account} (hpending : s.pending = .none)
    (hbatch : ∀ changes versions preBits, s.handling = some (.watch changes versions preBits) →
      preBits.isPending = true → account.batch ≠ []) : s.Recorded account := by
  refine ⟨fun h => ?_, hbatch⟩
  rw [hpending] at h
  cases h

@[simp] theorem batch_drained (s : Server M) (account : Account) :
    (account.drained s).batch = account.batch := by
  unfold Account.drained
  split
  · rfl
  · rfl

/-- The steps of a recompute that look at the pending bits leave none. -/
theorem pending_of_drains {s t : Server M} {action : Action M} (hstep : s.step action = some t)
    (hdrains : action.drains = true) : t.pending = .none ∧ t.handling = s.handling := by
  cases stepTo_of_step hstep with
  | @prepare w i x _ _ =>
    obtain ⟨_, _, heq, -, -⟩ := s.prepare_cases w i x
    rw [heq]
    exact ⟨rfl, rfl⟩
  | @commit r a _ _ =>
    rcases s.commit_cases r a with ⟨-, heq⟩ | ⟨hpending, ⟨-, heq⟩ | ⟨_, -, -, heq⟩⟩ <;> rw [heq]
    · exact ⟨rfl, rfl⟩
    · exact ⟨PendingInvalidation.eq_none_of_isPending hpending, rfl⟩
    · exact ⟨PendingInvalidation.eq_none_of_isPending hpending, rfl⟩
  | @publish fs r _ _ _ =>
    rcases s.publish_cases fs r with
      ⟨-, heq⟩ | ⟨hpending, ⟨-, heq⟩ | ⟨-, ⟨-, heq⟩ | ⟨_, _, -, -, heq⟩⟩⟩ <;> rw [heq]
    · exact ⟨rfl, rfl⟩
    · exact ⟨PendingInvalidation.eq_none_of_isPending hpending, rfl⟩
    · exact ⟨PendingInvalidation.eq_none_of_isPending hpending, rfl⟩
    · exact ⟨PendingInvalidation.eq_none_of_isPending hpending, rfl⟩
  | @reconcile r root scope a diagnostics _ _ =>
    rcases s.reconcile_cases r root scope a diagnostics with
      ⟨-, heq⟩ | ⟨hpending, ⟨-, heq⟩ | ⟨_, _, -, heq⟩⟩ <;> rw [heq]
    · exact ⟨rfl, rfl⟩
    · exact ⟨PendingInvalidation.eq_none_of_isPending hpending, rfl⟩
    · exact ⟨PendingInvalidation.eq_none_of_isPending hpending, rfl⟩
  | _ => cases hdrains

theorem recorded_step {s t : Server M} {account : Account} {action : Action M}
    (h : s.Recorded account) (hstep : s.step action = some t) :
    t.Recorded (s.note action account) := by
  cases stepTo_of_step hstep with
  | didOpen | didChange =>
    refine ⟨h.raised, fun changes versions preBits hhandling => ?_⟩
    obtain ⟨_, -, hne⟩ := Option.map_eq_some_iff.mp hhandling
    cases hne
  | didClose =>
    refine ⟨h.raised, fun changes versions preBits hhandling => ?_⟩
    cases hhandling
  | unwatched hchanges =>
    simp only [note, hchanges, List.isEmpty_nil, if_true]
    exact h
  | @didChangeWatchedFiles fs busy events hchanges hfree _ =>
    have hne : (watchedPathChanges M events).isEmpty = false := by simpa using hchanges
    cases busy with
    | true =>
      -- A busy batch raises its bits along with the paths that raise them.
      simp only [note, hne, Bool.false_eq_true, if_false, if_true]
      refine ⟨h.raised_or raisingPaths_ne_nil, ?_⟩
      rintro changes versions preBits ⟨⟩ hbits
      exact raisingPaths_ne_nil hbits
    | false =>
      -- A batch that finds the analysis free applies the bits at once.
      obtain ⟨_, _, _, _, _, heq, -, -⟩ :=
        s.watchFree_frame (openDocumentVersions (s.documents.analysisSnapshot M))
          (watchedPathChanges M events)
      change (s.watchFree _ _).Recorded _
      rw [heq]
      refine .of_pending_none rfl fun changes versions preBits hwatch => ?_
      change s.handling = _ at hwatch
      rw [handling_of_publishFree hfree] at hwatch
      cases hwatch
  | @handle fs busy handling hhandling _ =>
    cases handling with
    | edit path scope =>
      obtain ⟨_, _, _, heq⟩ := s.finishEdit_frame busy path scope
      simp only [note, hhandling, handle, heq]
      exact ⟨h.raised, fun _ _ _ hwatch => by cases hwatch⟩
    | close url path =>
      obtain ⟨_, _, _, _, heq, -⟩ := s.finishClose_frame busy url path
      simp only [note, hhandling, handle, heq]
      exact ⟨h.raised, fun _ _ _ hwatch => by cases hwatch⟩
    | watch changes versions preBits =>
      simp only [note, hhandling, handle]
      exact ⟨h.raised_or (h.batch _ _ _ hhandling), fun _ _ _ hwatch => by cases hwatch⟩
    | watchAgain changes versions preBits =>
      obtain ⟨_, _, _, _, _, heq, hbits, -⟩ := s.finishWatch_frame fs versions changes
      simp only [note, hhandling, handle, heq]
      refine ⟨?_, fun _ _ _ hwatch => by cases hwatch⟩
      rw [hbits]
      exact h.raised_or fun hnew => by simpa using busyEffects_bits hnew
  | capture | bindingIndex | chooseReadSource => exact ⟨h.raised, h.batch⟩
  | preflight =>
    obtain ⟨_, heq⟩ := s.preflight_frame _ _
    rw [heq]
    exact ⟨h.raised, h.batch⟩
  | @analyze fs r _ _ =>
    rcases s.analyze_cases fs r with ⟨e, -, heq⟩ | ⟨a, -, heq⟩ <;> rw [heq]
    · exact ⟨h.raised, h.batch⟩
    · exact ⟨h.raised, h.batch⟩
  -- A run that finds a bit pending applies it and gives up.
  | prepare | commit | publish | reconcile =>
    obtain ⟨hpending, hhandling⟩ := pending_of_drains hstep rfl
    refine .of_pending_none hpending ?_
    rw [hhandling]
    simp only [note, batch_drained]
    exact h.batch

/-! ## One step -/

namespace HasDrainer

variable {s t : Server M} {account : Account} {action : Action M}

theorem of_settling (h : s.settling = true) : s.HasDrainer account :=
  ⟨fun _ => .inl h, fun _ _ _ => .inl h, fun _ _ => .inl h⟩

theorem of_pending_none (hpending : s.pending = .none)
    (hdue : ∀ root ∈ account.due, s.settling = true ∨ root ∈ s.rebuilding) :
    s.HasDrainer account := by
  refine ⟨fun h => ?_, fun h => ?_, hdue⟩
  · rw [hpending] at h
    cases h
  · rw [hpending] at h
    cases h

/-- Draining the bits adds the run they were raised under, which is being rebuilt. -/
theorem due_drained (h : s.HasDrainer account) (hsettling : s.settling = false) {root : Path}
    (hroot : root ∈ (account.drained s).due) : root ∈ s.rebuilding := by
  have hold : root ∈ account.due → root ∈ s.rebuilding := by
    intro hmem
    rcases h.due root hmem with htrue | hrebuilding
    · rw [hsettling] at htrue
      cases htrue
    · exact hrebuilding
  unfold Account.drained at hroot
  split at hroot
  · next hpending =>
    rcases List.mem_append.mp hroot with hmem | hrun
    · exact hold hmem
    · obtain ⟨r, hr, rfl⟩ := Option.map_eq_some_iff.mp (Option.mem_toList.mp hrun)
      rcases h.inFlight hpending r hr with htrue | hrebuilding
      · rw [hsettling] at htrue
        cases htrue
      · exact hrebuilding
  · exact hold hroot

/-- A step that raises and drains nothing, takes up no rebuild and cancels none. -/
theorem kept (h : s.HasDrainer account) (hstep : s.step action = some t)
    (hpending : t.pending = s.pending) (hsettling : t.settling = s.settling)
    (hprepare : action.isRun = true → ∃ fs, action = .analyze fs)
    (htakes : s.takesUp action = none) (hcancels : ∀ root, s.cancels action root = false) :
    t.HasDrainer account := by
  have hrebuilding : ∀ root, root ∈ s.rebuilding → root ∈ t.rebuilding := by
    intro root hroot
    exact rebuilding_step hstep hroot (by simp [htakes]) (hcancels root)
  refine ⟨fun htrue => ?_, fun htrue r hr => ?_, fun root hroot => ?_⟩
  · rw [hsettling]
    refine (h.drainer (hpending ▸ htrue)).imp_right ?_
    rintro ⟨hne, hraised⟩
    refine ⟨hne, fun path hpath => ?_⟩
    obtain ⟨root, hroot, hbelow⟩ := hraised path hpath
    exact ⟨root, hrebuilding root hroot, hbelow⟩
  · rw [hsettling]
    rcases run_of_step hstep hr with ⟨r', hr', hrun⟩ | ⟨-, w, i, haction⟩
    · rw [← hrun]
      exact (h.inFlight (hpending ▸ htrue) r' hr').imp_right (hrebuilding _)
    · obtain ⟨fs, hanalyze⟩ := hprepare (by rw [haction]; rfl)
      rw [haction] at hanalyze
      cases hanalyze
  · rw [hsettling]
    exact (h.due root hroot).imp_right (hrebuilding root)

/-- A step of a recompute that looks at the bits. -/
theorem drains {account' : Account} (h : s.HasDrainer account) (hstep : s.step action = some t)
    (hdrains : action.drains = true) (hcancels : ∀ root, s.cancels action root = false)
    (hdue : ∀ root ∈ account'.due,
      root ∈ (account.drained s).due ∧ s.takesUp action ≠ some root) : t.HasDrainer account' := by
  obtain ⟨hpending, hhandling⟩ := pending_of_drains hstep hdrains
  have hsame : t.settling = s.settling := by
    unfold settling
    rw [hhandling]
  refine .of_pending_none hpending fun root hroot => ?_
  obtain ⟨hmem, htakes⟩ := hdue root hroot
  rw [hsame]
  cases hsettling : s.settling with
  | true => exact .inl rfl
  | false =>
    exact .inr (rebuilding_step hstep (h.due_drained hsettling hmem) htakes (hcancels root))

/-- The end of a busy batch, where the classifications of its paths meet. -/
theorem finishWatch {fs : Fs} {busy : Bool} {versions : DocumentVersions}
    {changes : List WatchedPathChange} {preBits : PendingInvalidation}
    (hrecorded : s.Recorded account)
    (hhandling : s.handling = some (.watchAgain changes versions preBits))
    (hmeets : meets (s, account) (.handle fs busy : Action M) = true) :
    (s.finishWatch fs versions changes).HasDrainer (s.note (.handle fs busy) account) := by
  simp only [meets, hhandling, Bool.and_eq_true, List.all_eq_true, List.any_eq_true,
    List.contains_iff_mem, Bool.or_eq_true, Bool.not_eq_true'] at hmeets
  obtain ⟨⟨hraised, hdue⟩, hrunning⟩ := hmeets
  have hserved : ∀ root ∈ s.served fs changes,
      root ∈ (s.finishWatch fs versions changes).rebuilding := by
    intro root hroot
    rcases List.mem_append.mp hroot with hevent | hold
    · exact rebuilding_finishWatch s fs versions hevent
    · exact (s.reschedules_finishWatch fs versions changes fun _ => false).rebuilding rfl hold
  obtain ⟨_, _, _, _, _, heq, hbits, -⟩ := s.finishWatch_frame fs versions changes
  have hpending : (s.finishWatch fs versions changes).pending.isPending = true →
      s.pending.isPending = true ∨ busyWatchedProjectChanges fs s.tracker changes ≠ [] := by
    rw [heq]
    dsimp only
    rw [hbits, PendingInvalidation.isPending_or, Bool.or_eq_true]
    exact Or.imp_right busyEffects_bits
  -- Three obligations: the pending bits, the run that holds the lock and the rebuilds owed.
  simp only [note, hhandling]
  refine ⟨fun htrue => .inr ⟨?_, fun path hpath => ?_⟩, fun htrue r hr => .inr ?_,
    fun root hroot => .inr ?_⟩
  · -- A bit is pending from before, or from the batch's second classification.
    rcases hpending htrue with hold | hevents
    · exact List.append_ne_nil_of_left_ne_nil (hrecorded.raised hold) _
    · exact List.append_ne_nil_of_right_ne_nil _ (by simpa using hevents)
  · rcases List.mem_append.mp hpath with hold | hevent
    · obtain ⟨root, hroot, hbelow⟩ := hraised path hold
      exact ⟨root, hserved root hroot, hbelow⟩
    · obtain ⟨event, hmem, rfl⟩ := List.mem_map.mp hevent
      refine ⟨event.root, rebuilding_finishWatch s fs versions (List.mem_map_of_mem hmem), ?_⟩
      exact startsWith_of_mem_busyWatchedProjectChanges hmem
  · have hr' : s.running = some r := by
      rw [heq] at hr
      exact hr
    apply hserved
    rcases hrunning with hnot | hall
    · rw [Bool.or_eq_false_iff, Bool.not_eq_false', List.isEmpty_iff] at hnot
      rcases hpending htrue with hold | hevents
      · rw [hnot.1] at hold
        cases hold
      · exact absurd hnot.2 hevents
    · rw [hr', Option.all_some, List.contains_iff_mem] at hall
      exact hall
  · rcases List.mem_append.mp hroot with hold | hevent
    · exact hserved root (hdue root hold)
    · exact rebuilding_finishWatch s fs versions hevent

end HasDrainer

theorem hasDrainer_step {s t : Server M} {account : Account} {action : Action M}
    (hrecorded : s.Recorded account) (h : s.HasDrainer account)
    (hmeets : meets (s, account) action = true) (hstep : s.step action = some t) :
    t.HasDrainer (s.note action account) := by
  have hto := stepTo_of_step hstep
  cases hto with
  | @didOpen url text version hfree =>
    refine h.kept hstep rfl ?_ (fun hrun => by cases hrun) rfl fun _ => rfl
    unfold settling didOpen
    rw [handling_of_publishFree hfree]
    cases M.toFilePath url <;> rfl
  | @didChange url text version hfree =>
    refine h.kept hstep rfl ?_ (fun hrun => by cases hrun) rfl fun _ => rfl
    unfold settling didChange
    rw [handling_of_publishFree hfree]
    cases M.toFilePath url <;> rfl
  | @didClose url hfree =>
    refine h.kept hstep rfl ?_ (fun hrun => by cases hrun) rfl fun _ => rfl
    unfold settling didClose
    rw [handling_of_publishFree hfree]
  | unwatched hchanges =>
    simp only [note, hchanges, List.isEmpty_nil, if_true]
    exact h
  | @didChangeWatchedFiles fs busy events hchanges hfree _ =>
    cases busy with
    | true => exact .of_settling rfl
    | false =>
      -- No handler is at work here, so what is owed is in the tasks already.
      have hne : (watchedPathChanges M events).isEmpty = false := by simpa using hchanges
      have hsettling : s.settling = false := by
        unfold settling
        rw [handling_of_publishFree hfree]
      obtain ⟨_, _, _, _, _, heq, -, -⟩ :=
        s.watchFree_frame (openDocumentVersions (s.documents.analysisSnapshot M))
          (watchedPathChanges M events)
      have hpending : (s.didChangeWatchedFiles fs false (watchedPathChanges M events)).pending =
          .none := by
        change (s.watchFree _ _).pending = _
        rw [heq]
      simp only [note, hne, Bool.false_eq_true, if_false]
      simp only [meets, List.all_eq_true, Bool.not_eq_true'] at hmeets
      refine .of_pending_none hpending fun root hroot => .inr ?_
      exact rebuilding_step hstep (h.due_drained hsettling hroot) (by simp [takesUp])
        (hmeets root hroot)
  | @handle fs busy handling hhandling _ =>
    cases handling with
    | edit path scope =>
      obtain ⟨_, _, _, heq⟩ := s.finishEdit_frame busy path scope
      simp only [note, hhandling]
      refine h.kept hstep ?_ ?_ (fun hrun => by cases hrun) rfl fun _ => rfl
      · simp only [handle, heq]
      · simp only [handle, heq, settling, hhandling]
    | close url path =>
      obtain ⟨_, _, _, _, heq, -⟩ := s.finishClose_frame busy url path
      simp only [note, hhandling]
      refine h.kept hstep ?_ ?_ (fun hrun => by cases hrun) rfl fun _ => rfl
      · simp only [handle, heq]
      · simp only [handle, heq, settling, hhandling]
    | watch changes versions preBits => exact .of_settling rfl
    | watchAgain changes versions preBits => exact .finishWatch hrecorded hhandling hmeets
  | capture | bindingIndex | chooseReadSource =>
    exact h.kept hstep rfl rfl (fun hrun => by cases hrun) rfl fun _ => rfl
  | preflight =>
    obtain ⟨_, heq⟩ := s.preflight_frame _ _
    refine h.kept hstep ?_ ?_ (fun hrun => by cases hrun) rfl fun _ => rfl
    · rw [heq]
    · rw [heq]
      rfl
  | @analyze fs r _ _ =>
    refine h.kept hstep ?_ ?_ (fun _ => ⟨fs, rfl⟩) rfl fun _ => rfl
    · rcases s.analyze_cases fs r with ⟨e, -, heq⟩ | ⟨a, -, heq⟩ <;> rw [heq]
    · rcases s.analyze_cases fs r with ⟨e, -, heq⟩ | ⟨a, -, heq⟩ <;> rw [heq] <;> rfl
  | @prepare w i x _ _ =>
    refine h.drains hstep rfl (fun _ => rfl) fun root hroot => ?_
    obtain ⟨hmem, htakes⟩ := List.mem_filter.mp hroot
    exact ⟨hmem, by simpa using htakes⟩
  | commit | publish | reconcile =>
    exact h.drains hstep rfl (fun _ => rfl) fun root hroot => ⟨hroot, by simp [takesUp]⟩

/-- In every run whose steps meet the condition, each state has its drainers; so with
nothing scheduled or in flight no bit is pending and no project is owed a rebuild. -/
theorem hasDrainer_of_reaches {x : Server M × Account}
    (h : Reaches (recorded step note) (fun x action => meets x action = true)
      (new, .new) x) :
    x.1.HasDrainer x.2 ∧
      (x.1.quiescent = true → x.1.pending = .none ∧ x.2.due = []) := by
  have hinv : x.1.Recorded x.2 ∧ x.1.HasDrainer x.2 := by
    refine h.invariant (I := fun x => x.1.Recorded x.2 ∧ x.1.HasDrainer x.2) ⟨?_, ?_⟩ ?_
    · exact .of_pending_none rfl fun _ _ _ hwatch => by cases hwatch
    · exact .of_pending_none rfl fun _ hroot => by cases hroot
    · rintro x action y ⟨hrecorded, hdrainer⟩ hmeets hstep
      obtain ⟨hserver, hnote⟩ := recorded_eq_some_iff.mp hstep
      rw [← hnote]
      exact ⟨recorded_step hrecorded hserver, hasDrainer_step hrecorded hdrainer hmeets hserver⟩
  refine ⟨hinv.2, fun hquiescent => ?_⟩
  simp only [quiescent, Bool.and_eq_true, List.isEmpty_iff, Option.isNone_iff_eq_none] at hquiescent
  obtain ⟨⟨htasks, -⟩, hhandling⟩ := hquiescent
  -- With no task and no handler left, neither disjunct can hold.
  have hrebuilding : x.1.rebuilding = [] := by
    unfold rebuilding
    rw [htasks]
    rfl
  have hsettling : x.1.settling = false := by
    unfold settling
    rw [hhandling]
  constructor
  · apply PendingInvalidation.eq_none_of_isPending
    rw [← Bool.not_eq_true]
    intro hpending
    rcases hinv.2.drainer hpending with hsettle | ⟨hne, hraised⟩
    · rw [hsettling] at hsettle
      cases hsettle
    · obtain ⟨path, hpath⟩ := List.exists_mem_of_ne_nil _ hne
      obtain ⟨root, hroot, -⟩ := hraised path hpath
      rw [hrebuilding] at hroot
      cases hroot
  · apply List.eq_nil_iff_forall_not_mem.mpr
    intro root hdue
    rcases hinv.2.due root hdue with hsettle | hroot
    · rw [hsettling] at hsettle
      cases hsettle
    · rw [hrebuilding] at hroot
      cases hroot

end Server

/-! ## A config below a tracked root -/

namespace Sample

/-- A second edit of the tracked project `A` has been analyzed and committed. -/
def committedAgain : List (Action Marrow.sample) :=
  opened "A" ['x'] ++ recomputed twins ++
    [.didChange (urlOf (app "A")) ['x', 'y'] 2, .handle twins.fs false, .preflight 0, .capture 0,
      .prepare twins 0, .analyze twins.fs, .commit]

/-- A batch of one changed path that finds the analysis busy. -/
def busyChange (path : Path) : List (Action Marrow.sample) :=
  [.didChangeWatchedFiles twins.fs true [(urlOf path, .CHANGED)], .handle twins.fs true,
    .handle twins.fs true]

/-- The source of `A` changes on disk while the commit holds the lock. -/
def sourceChanged : List (Action Marrow.sample) := committedAgain ++ busyChange (app "A")

/-- A `marrow.json` below the root of `A` changes, and the publish gives up. -/
def nestedConfig : List (Action Marrow.sample) :=
  committedAgain ++ busyChange (((projectDir "A").child "sub").child CONFIG_FILE) ++
    [.publish twins.fs]

end Sample

namespace Server

open Sample in
theorem hasDrainer_of_reaches_sourceChanged : ∃ x : Server Marrow.sample × Account,
    x.1.pending.isPending = true ∧ x.1.HasDrainer x.2 ∧
      ∃ root ∈ x.1.rebuilding, (app "A").startsWith root = true := by
  have hrun : (run (guarded meets (recorded step note))
      ((new, .new) : Server Marrow.sample × Account) sourceChanged).any (fun x =>
        x.1.pending.isPending && !x.1.settling && x.2.raised.contains (app "A")) = true := by
    decide
  obtain ⟨x, hx, hgood⟩ := (Option.any_eq_true _ _).mp hrun
  rw [Bool.and_eq_true, Bool.and_eq_true, Bool.not_eq_true', List.contains_iff_mem] at hgood
  obtain ⟨⟨hpending, hsettling⟩, hraised⟩ := hgood
  obtain ⟨hdrainer, -⟩ := hasDrainer_of_reaches (reaches_of_run hx)
  refine ⟨x, hpending, hdrainer, ?_⟩
  rcases hdrainer.drainer hpending with hsettle | ⟨-, hall⟩
  · rw [hsettling] at hsettle
    cases hsettle
  · exact hall _ hraised

open Sample in
/-- The bits are raised by the name of the path and no recompute is scheduled for it: the
publish drains them, gives its run up, and nothing is left to analyze `A` again. -/
theorem not_hasDrainer_nestedConfig : ¬ ∀ x : Server Marrow.sample × Account,
    Reachable (recorded step note) (new, .new) x → x.1.HasDrainer x.2 := by
  intro h
  have hrun : (run (recorded step note) ((new, .new) : Server Marrow.sample × Account)
      nestedConfig).any (fun x => x.1.quiescent && x.2.due.contains (projectDir "A") &&
        x.1.rebuilding.isEmpty && !x.1.settling && x.1.workspace.latest.isNone) = true := by
    decide
  obtain ⟨x, hx, hbad⟩ := (Option.any_eq_true _ _).mp hrun
  simp only [Bool.and_eq_true, List.contains_iff_mem, Bool.not_eq_true', List.isEmpty_iff] at hbad
  obtain ⟨⟨⟨⟨-, hdue⟩, hrebuilding⟩, hsettling⟩, -⟩ := hbad
  rcases (h x (reachable_of_run hx)).due _ hdue with hsettle | hroot
  · rw [hsettling] at hsettle
    cases hsettle
  · rw [hrebuilding] at hroot
    cases hroot

end Server

end MarrowLsp
