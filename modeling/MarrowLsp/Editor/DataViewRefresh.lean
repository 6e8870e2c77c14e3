-- SUMMARY: The debounced refresh of the saved-data view: one timer at a time, no trigger lost, and when a disposed refresher still refreshes the tree (dataViewRefresh.ts, extension.ts).
import MarrowLsp.Lib.Transition

/-!
# Refreshing the saved-data view

Triggers start a timer, unless one is pending; the timer starts a run, which first waits for
the watch targets and then, where the inspector is visible, refreshes the tree. Runs may
overlap, and a run in the middle of its wait does not hear of anything that happens then.
-/
namespace MarrowLsp

namespace Editor

open Transition

/-! ## The refresher and its targets -/

/-- What is asked of the refresher, and what it asks of its targets. -/
inductive RefreshCall where
  | schedule
  | dispose
  | refreshWatchTargets
  | refreshTree
  deriving DecidableEq, Repr

/-- Whether the call is one the refresher makes. -/
def RefreshCall.isTarget : RefreshCall → Bool
  | .schedule => false
  | .dispose => false
  | .refreshWatchTargets => true
  | .refreshTree => true

structure DataViewRefresher where
  timer : Option Nat
  disposed : Bool

/-- The refresher with the timers of the runtime that are still to fire, the runs that wait
for the watch targets, the inspector, and all calls so far. -/
structure RefreshSession where
  refresher : DataViewRefresher
  timers : List Nat
  nextTimer : Nat
  runs : List Nat
  nextRun : Nat
  isInspectorVisible : Bool
  calls : List RefreshCall

inductive RefreshEvent where
  | schedule
  | fire (timer : Nat)
  | fulfil (run : Nat)
  | changeVisibility (visible : Bool)
  | dispose
  deriving DecidableEq, Repr

namespace RefreshSession

def new (isInspectorVisible : Bool) : RefreshSession :=
  ⟨⟨none, false⟩, [], 0, [], 0, isInspectorVisible, []⟩

def call (s : RefreshSession) (call : RefreshCall) : RefreshSession :=
  { s with calls := s.calls ++ [call] }

def setTimeout (s : RefreshSession) : RefreshSession :=
  { s with
    refresher := { s.refresher with timer := some s.nextTimer }
    timers := s.timers ++ [s.nextTimer]
    nextTimer := s.nextTimer + 1 }

def schedule (s : RefreshSession) : RefreshSession :=
  let s := s.call .schedule
  if s.refresher.disposed || s.refresher.timer.isSome then s else s.setTimeout

/-- `run` up to its `await`. -/
def beginRun (s : RefreshSession) : RefreshSession :=
  if s.refresher.disposed then s
  else
    let s := s.call .refreshWatchTargets
    { s with runs := s.runs ++ [s.nextRun], nextRun := s.nextRun + 1 }

/-- The callback of a timer. -/
def fire (s : RefreshSession) (timer : Nat) : RefreshSession :=
  { s with
    refresher := { s.refresher with timer := none }
    timers := s.timers.erase timer }.beginRun

/-- `run` after its `await`. -/
def resumeRun (s : RefreshSession) (run : Nat) : RefreshSession :=
  let s := { s with runs := s.runs.erase run }
  if s.isInspectorVisible then s.call .refreshTree else s

/-- The inspector, with the listener of the extension. -/
def changeVisibility (s : RefreshSession) (visible : Bool) : RefreshSession :=
  let s := { s with isInspectorVisible := visible }
  if visible then s.schedule else s

def clearTimeout (s : RefreshSession) : RefreshSession :=
  match s.refresher.timer with
  | none => s
  | some timer =>
    { s with
      refresher := { s.refresher with timer := none }
      timers := s.timers.erase timer }

def dispose (s : RefreshSession) : RefreshSession :=
  let s := s.call .dispose
  { s with refresher := { s.refresher with disposed := true } }.clearTimeout

def step (s : RefreshSession) : RefreshEvent → Option RefreshSession
  | .schedule => some s.schedule
  | .fire timer => if timer ∈ s.timers then some (s.fire timer) else none
  | .fulfil run => if run ∈ s.runs then some (s.resumeRun run) else none
  | .changeVisibility visible =>
    if visible = s.isInspectorVisible then none else some (s.changeVisibility visible)
  | .dispose => some s.dispose

end RefreshSession

/-! ## What is asked of a refresher -/

/-- The tree was refreshed after the last trigger. -/
def Refreshed (calls : List RefreshCall) : Prop :=
  ∀ before after, calls = before ++ .schedule :: after → .schedule ∉ after → .refreshTree ∈ after

/-- No target is called after the disposal. -/
def QuietAfterDispose (calls : List RefreshCall) : Prop :=
  ∀ before after, calls = before ++ .dispose :: after → ∀ call ∈ after, call.isTarget = false

/-- No trigger is lost and disposal is respected. -/
structure RefreshKept (s : RefreshSession) : Prop where
  oneTimer : s.timers.length ≤ 1
  refreshed : s.refresher.disposed = false → s.timers = [] → s.runs = [] →
    s.isInspectorVisible = true → Refreshed s.calls
  stopped : s.refresher.disposed = true → s.timers = []
  quiet : QuietAfterDispose s.calls

/-- A run comes back to a refresher that was disposed meanwhile, under a visible inspector. -/
def ResumesDisposed (s : RefreshSession) (event : RefreshEvent) : Prop :=
  (∃ run, event = .fulfil run) ∧ s.refresher.disposed = true ∧ s.isInspectorVisible = true

/-! ## Calls -/

theorem refreshed_nil : Refreshed [] := by
  rintro before after heq
  simp at heq

theorem refreshed_refreshTree (calls : List RefreshCall) : Refreshed (calls ++ [.refreshTree]) := by
  intro before after heq hlast
  rcases List.eq_nil_or_concat after with rfl | ⟨front, last, rfl⟩
  · have h := List.append_inj_right' heq rfl
    cases h
  · rw [List.concat_eq_append, ← List.cons_append, ← List.append_assoc] at heq
    have h := List.append_inj_right' heq rfl
    cases h
    simp

theorem quiet_nil : QuietAfterDispose [] := by
  rintro before after heq
  simp at heq

/-- One more call is quiet unless it is one to a target after the disposal. -/
theorem quiet_snoc_iff {calls : List RefreshCall} {call : RefreshCall} :
    QuietAfterDispose (calls ++ [call]) ↔
      QuietAfterDispose calls ∧ (.dispose ∈ calls → call.isTarget = false) := by
  constructor
  · intro h
    constructor
    · rintro before after rfl c hc
      apply h before (after ++ [call]) (by simp)
      exact List.mem_append_left _ hc
    · intro hmem
      obtain ⟨before, after, rfl⟩ := List.append_of_mem hmem
      exact h before (after ++ [call]) (by simp) call (by simp)
  · rintro ⟨hcalls, hcall⟩ before after heq c hc
    rcases List.eq_nil_or_concat after with rfl | ⟨front, last, rfl⟩
    · cases hc
    · rw [List.concat_eq_append, ← List.cons_append, ← List.append_assoc] at heq
      obtain ⟨rfl, h⟩ := List.append_inj' heq rfl
      cases h
      rw [List.concat_eq_append, List.mem_append, List.mem_singleton] at hc
      rcases hc with hc | rfl
      · exact hcalls before front rfl c hc
      · exact hcall (by simp)

/-! ## Every step -/

/-- What holds of the refresher whatever happens. -/
structure RefreshInv (s : RefreshSession) : Prop where
  timers : s.timers = s.refresher.timer.toList
  stopped : s.refresher.disposed = true → s.refresher.timer = none
  disposed_iff : s.refresher.disposed = true ↔ .dispose ∈ s.calls
  refreshed : s.refresher.disposed = false → s.refresher.timer = none → s.runs = [] →
    s.isInspectorVisible = true → Refreshed s.calls

namespace RefreshInv

variable {s : RefreshSession}

theorem new (visible : Bool) : RefreshInv (.new visible) where
  timers := rfl
  stopped := fun _ => rfl
  disposed_iff := by simp [RefreshSession.new]
  refreshed := fun _ _ _ _ => refreshed_nil

theorem kept (h : RefreshInv s) (hquiet : QuietAfterDispose s.calls) : RefreshKept s where
  oneTimer := by
    rw [h.timers]
    cases s.refresher.timer <;> simp
  refreshed := by
    intro hlive htimers hruns hvisible
    rw [h.timers, Option.toList_eq_nil_iff] at htimers
    exact h.refreshed hlive htimers hruns hvisible
  stopped := by
    intro hdisposed
    rw [h.timers, h.stopped hdisposed]
    rfl
  quiet := hquiet

/-- Disposed, triggers do nothing; else a timer is pending then. -/
theorem schedule (htimers : s.timers = s.refresher.timer.toList)
    (hstopped : s.refresher.disposed = true → s.refresher.timer = none)
    (hdisposed : s.refresher.disposed = true ↔ .dispose ∈ s.calls) : RefreshInv s.schedule := by
  unfold RefreshSession.schedule
  cases hoff : s.refresher.disposed with
  | true =>
    simp only [RefreshSession.call, hoff, Bool.true_or, if_true]
    refine ⟨htimers, fun _ => hstopped hoff, ?_, ?_⟩
    · simpa [hoff] using hdisposed
    · intro hlive
      rw [hoff] at hlive
      cases hlive
  | false =>
    cases htimer : s.refresher.timer with
    | some timer =>
      simp only [RefreshSession.call, hoff, htimer, Option.isSome_some, Bool.or_true, if_true]
      refine ⟨by rw [htimers], ?_, by simpa [hoff] using hdisposed, ?_⟩
      · intro h
        rw [hoff] at h
        cases h
      · intro _ h
        rw [htimer] at h
        cases h
    | none =>
      simp only [RefreshSession.call, RefreshSession.setTimeout, hoff, htimer, Option.isSome_none,
        Bool.or_self, Bool.false_eq_true, if_false]
      refine ⟨?_, ?_, by simpa [hoff] using hdisposed, ?_⟩
      · rw [htimers, htimer]
        rfl
      · intro h
        cases h
      · intro _ h
        cases h

/-- A timer that fires is the one that the refresher waits for, and it is not disposed. -/
theorem live_of_mem (h : RefreshInv s) {timer : Nat} (hmem : timer ∈ s.timers) :
    s.refresher.timer = some timer ∧ s.refresher.disposed = false := by
  rw [h.timers, Option.mem_toList] at hmem
  refine ⟨hmem, ?_⟩
  cases hdisposed : s.refresher.disposed with
  | false => rfl
  | true =>
    rw [h.stopped hdisposed] at hmem
    cases hmem

theorem fire (h : RefreshInv s) {timer : Nat} (hmem : timer ∈ s.timers) :
    RefreshInv (s.fire timer) := by
  obtain ⟨htimer, hlive⟩ := h.live_of_mem hmem
  have hdisposed := h.disposed_iff
  unfold RefreshSession.fire RefreshSession.beginRun
  simp only [RefreshSession.call, hlive, Bool.false_eq_true, if_false]
  refine ⟨?_, fun _ => rfl, by simpa [hlive] using hdisposed, ?_⟩
  · rw [h.timers, htimer]
    simp
  · intro _ _ hruns
    simp at hruns

theorem resumeRun (h : RefreshInv s) (run : Nat) : RefreshInv (s.resumeRun run) := by
  unfold RefreshSession.resumeRun
  cases hvisible : s.isInspectorVisible with
  | true =>
    simp only [RefreshSession.call, if_true]
    refine ⟨h.timers, h.stopped, by simpa using h.disposed_iff, ?_⟩
    intro _ _ _ _
    exact refreshed_refreshTree s.calls
  | false =>
    simp only [Bool.false_eq_true, if_false]
    refine ⟨h.timers, h.stopped, h.disposed_iff, ?_⟩
    intro _ _ _ hvisible
    cases hvisible

theorem changeVisibility (h : RefreshInv s) (visible : Bool) :
    RefreshInv (s.changeVisibility visible) := by
  unfold RefreshSession.changeVisibility
  cases visible with
  | true =>
    rw [if_pos rfl]
    exact schedule h.timers h.stopped h.disposed_iff
  | false =>
    rw [if_neg Bool.false_ne_true]
    refine ⟨h.timers, h.stopped, h.disposed_iff, ?_⟩
    intro _ _ _ hvisible
    cases hvisible

theorem dispose (h : RefreshInv s) : RefreshInv s.dispose := by
  unfold RefreshSession.dispose RefreshSession.clearTimeout
  cases htimer : s.refresher.timer with
  | none =>
    simp only [RefreshSession.call, htimer]
    refine ⟨?_, fun _ => rfl, by simp, fun hlive => by cases hlive⟩
    rw [h.timers, htimer]
  | some timer =>
    simp only [RefreshSession.call, htimer]
    refine ⟨?_, fun _ => rfl, by simp, fun hlive => by cases hlive⟩
    rw [h.timers, htimer]
    simp

theorem step {t : RefreshSession} {event : RefreshEvent} (h : RefreshInv s)
    (hstep : s.step event = some t) : RefreshInv t := by
  cases event with
  | schedule =>
    cases hstep
    exact schedule h.timers h.stopped h.disposed_iff
  | fire timer =>
    obtain ⟨hmem, heq⟩ := Option.ite_none_right_eq_some.mp hstep
    cases heq
    exact h.fire hmem
  | fulfil run =>
    obtain ⟨-, heq⟩ := Option.ite_none_right_eq_some.mp hstep
    cases heq
    exact h.resumeRun run
  | changeVisibility visible =>
    obtain ⟨-, heq⟩ := Option.ite_none_left_eq_some.mp hstep
    cases heq
    exact h.changeVisibility visible
  | dispose =>
    cases hstep
    exact h.dispose

end RefreshInv

/-! ## What a step calls -/

section Calls

variable {s t : RefreshSession}

theorem calls_schedule (s : RefreshSession) : s.schedule.calls = s.calls ++ [.schedule] := by
  unfold RefreshSession.schedule
  dsimp only
  split <;> rfl

theorem calls_fire (h : RefreshInv s) {timer : Nat} (hmem : timer ∈ s.timers) :
    (s.fire timer).calls = s.calls ++ [.refreshWatchTargets] := by
  obtain ⟨-, hlive⟩ := h.live_of_mem hmem
  unfold RefreshSession.fire RefreshSession.beginRun
  simp only [RefreshSession.call, hlive, Bool.false_eq_true, if_false]

theorem calls_resumeRun (s : RefreshSession) (run : Nat) : (s.resumeRun run).calls =
    if s.isInspectorVisible then s.calls ++ [.refreshTree] else s.calls := by
  unfold RefreshSession.resumeRun
  dsimp only
  split <;> rfl

theorem calls_changeVisibility (s : RefreshSession) (visible : Bool) :
    (s.changeVisibility visible).calls = if visible then s.calls ++ [.schedule] else s.calls := by
  cases visible with
  | true => exact calls_schedule _
  | false => rfl

theorem calls_dispose (s : RefreshSession) : s.dispose.calls = s.calls ++ [.dispose] := by
  unfold RefreshSession.dispose RefreshSession.clearTimeout
  dsimp only
  split <;> rfl

/-- The only step that is not quiet after the disposal is a run that resumes. -/
theorem quiet_step_iff {event : RefreshEvent} (h : RefreshInv s) (hquiet : QuietAfterDispose s.calls)
    (hstep : s.step event = some t) :
    QuietAfterDispose t.calls ↔ ¬ ResumesDisposed s event := by
  cases event with
  | schedule =>
    cases hstep
    rw [calls_schedule, quiet_snoc_iff]
    exact iff_of_true ⟨hquiet, fun _ => rfl⟩ (by rintro ⟨⟨_, hevent⟩, -⟩; cases hevent)
  | fire timer =>
    obtain ⟨hmem, heq⟩ := Option.ite_none_right_eq_some.mp hstep
    cases heq
    rw [calls_fire h hmem, quiet_snoc_iff, ← h.disposed_iff, (h.live_of_mem hmem).2]
    exact iff_of_true ⟨hquiet, fun hdisposed => by cases hdisposed⟩
      (by rintro ⟨⟨_, hevent⟩, -⟩; cases hevent)
  | fulfil run =>
    obtain ⟨-, heq⟩ := Option.ite_none_right_eq_some.mp hstep
    cases heq
    rw [calls_resumeRun]
    cases hvisible : s.isInspectorVisible with
    | true =>
      rw [if_pos rfl, quiet_snoc_iff, ← h.disposed_iff]
      constructor
      · rintro ⟨-, hcall⟩ ⟨-, hdisposed, -⟩
        cases hcall hdisposed
      · intro hnot
        exact ⟨hquiet, fun hdisposed => absurd ⟨⟨run, rfl⟩, hdisposed, hvisible⟩ hnot⟩
    | false =>
      rw [if_neg Bool.false_ne_true]
      refine iff_of_true hquiet ?_
      rintro ⟨-, -, hvisible'⟩
      rw [hvisible] at hvisible'
      cases hvisible'
  | changeVisibility visible =>
    obtain ⟨-, heq⟩ := Option.ite_none_left_eq_some.mp hstep
    cases heq
    rw [calls_changeVisibility]
    refine iff_of_true ?_ (by rintro ⟨⟨_, hevent⟩, -⟩; cases hevent)
    cases visible with
    | true => exact quiet_snoc_iff.mpr ⟨hquiet, fun _ => rfl⟩
    | false => exact hquiet
  | dispose =>
    cases hstep
    rw [calls_dispose, quiet_snoc_iff]
    exact iff_of_true ⟨hquiet, fun _ => rfl⟩ (by rintro ⟨⟨_, hevent⟩, -⟩; cases hevent)

end Calls

/-! ## Whole runs -/

/-- Along a run of events no trigger is lost and disposal is respected exactly where no run
resumes under a visible inspector after the disposal. -/
theorem refreshKept_iff_not_resumesDisposed (visible : Bool) (events : List RefreshEvent) :
    AllSteps RefreshSession.step (fun _ _ t => RefreshKept t) (.new visible) events ↔
      AllSteps RefreshSession.step (fun s event _ => ¬ ResumesDisposed s event) (.new visible)
        events := by
  apply @allSteps_congr _ _ RefreshSession.step _ _ _ fun s =>
    RefreshInv s ∧ QuietAfterDispose s.calls
  · rintro s event t ⟨h, -⟩ hstep hkept
    exact ⟨h.step hstep, hkept.quiet⟩
  · rintro s event t ⟨h, hquiet⟩ hstep
    rw [← quiet_step_iff h hquiet hstep]
    exact ⟨fun hkept => hkept.quiet, (h.step hstep).kept⟩
  · exact ⟨.new visible, quiet_nil⟩

/-- The refresher is disposed while a run waits for the watch targets. -/
theorem not_refreshKept_disposed : ¬ AllSteps RefreshSession.step (fun _ _ t => RefreshKept t)
    (.new true) [.schedule, .fire 0, .dispose, .fulfil 0] := by
  intro h
  have hlast := (((h _ rfl).2 _ rfl).2 _ rfl).2 _ rfl
  have hcall := hlast.1.quiet [.schedule, .refreshWatchTargets] [.refreshTree] rfl .refreshTree
    List.mem_cons_self
  cases hcall

end Editor

end MarrowLsp
