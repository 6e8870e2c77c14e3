-- SUMMARY: Steps over, into and out of the calls of the debugged program: which statements run before the step ends, for every call tree and every interleaving (step.rs, session.rs).
import MarrowLsp.Dap.Stops
import MarrowLsp.Lib.CallTree

/-!
# Stepping

The runtime visits the statements of a program with calls, each at the depth of its
activation. What the client asked for at a stop says which of them are skipped.
-/
namespace MarrowLsp

namespace Dap

open Transition CallTree Session

variable {H : DebugHost}

/-- What a step skips, from a stop in the innermost activation of a stack. -/
def Session.StepKind.skips {α : Type*} (kind : StepKind) (base : Nat) : List (Rest α) → List (α × Nat)
  | [] => []
  | r :: rs =>
    match kind with
    | .over => r.calls (base + rs.length)
    | .into => []
    | .out => r.visits (base + rs.length) ++ callerCalls base rs

theorem takeWhile_targets {α : Type*} (kind : StepKind) (base : Nat) (r : Rest α)
    (rs : List (Rest α)) :
    (unwind base (r :: rs)).takeWhile
        (fun x => !(kind.mode (base + rs.length)).targets x.2) = kind.skips base (r :: rs) := by
  match kind with
  | .over =>
    rw [StepKind.skips, ← takeWhile_over]
    congr 1
    funext x
    rw [StepKind.mode, Resume.targets, ← decide_not, Bool.decide_congr Nat.not_le]
  | .into =>
    cases h : unwind base (r :: rs) with
    | nil => rfl
    | cons x l => rfl
  | .out =>
    rw [StepKind.skips, ← takeWhile_out]
    congr 1
    funext x
    rw [StepKind.mode, Resume.targets, ← decide_not, Bool.decide_congr Nat.not_lt]

/-- A statement with its depth. -/
def Visit.placed (visit : Visit H) : Statement H × Nat :=
  (visit.statement, visit.statement.frame.depth)

/-- Where a step that was asked for at a stop ends: among the statements to come, past those
it skips. -/
structure StepEnds {α : Type*} (skipped passed : List α) (reason : Option StopReason)
    (paused : Bool) : Prop where
  within : passed <+: skipped
  /-- Before it the run stops for a pause or a breakpoint only. -/
  early : reason = some .step → passed = skipped
  /-- There the run stops, for the step unless it was to pause as well. -/
  ends : passed = skipped → reason = some (if paused then .pause else .step)

theorem prefix_takeWhile {α : Type*} {p : α → Bool} {l t : List α} {a : α} (h : l ++ [a] <+: t)
    (hl : ∀ b ∈ l, p b = true) :
    l <+: t.takeWhile p ∧ (p a = false ↔ l = t.takeWhile p) := by
  obtain ⟨rest, rfl⟩ := h
  rw [List.append_assoc, List.takeWhile_append_of_pos hl]
  refine ⟨List.prefix_append _ _, ?_⟩
  cases hp : p a with
  | true => simp [List.takeWhile_cons_of_pos, hp]
  | false => simp [List.takeWhile_cons_of_neg, hp]

variable {stopOnEntry : Bool} {armed : ArmedBreakpoints H} {modes : List Resume}
  {visit issued : Visit H} {past between : List (Visit H)}

/-- A statement that the run passes is no target. -/
theorem targets_of_quiet {mode : Resume}
    (h : dueReason stopOnEntry armed mode visit past = none) :
    mode.targets visit.statement.frame.depth = false := by
  have hnone := List.find?_eq_none.mp h .step (by simp)
  simpa [applies] using hnone

/-- Past the first stop, in a mode that asks for a step. -/
theorem dueReason_of_step (stopOnEntry : Bool) (armed : ArmedBreakpoints H) (visit : Visit H)
    (kind : StepKind) (depth : Nat) (hpast : past ≠ []) :
    (dueReason stopOnEntry armed (kind.mode depth) visit past = some .step →
      (kind.mode depth).targets visit.statement.frame.depth = true) ∧
    ((kind.mode depth).targets visit.statement.frame.depth = true →
      dueReason stopOnEntry armed (kind.mode depth) visit past =
        some (if visit.paused then .pause else .step)) := by
  have hmode : (kind.mode depth == .pause) = false := by
    cases kind <;> rfl
  have hentry : past.isEmpty = false := by
    cases past with
    | nil => exact absurd rfl hpast
    | cons => rfl
  refine ⟨fun hdue => applies_of_dueReason hdue, fun htarget => ?_⟩
  cases hpaused : visit.paused with
  | true => simp [dueReason, applies, hentry, hpaused]
  | false => simp [dueReason, applies, hentry, hpaused, hmode, htarget]

/-- A run that is not terminated and whose client asked for a step at the statement `issued`:
whatever the program calls, and whatever breakpoints are set and pauses asked for meanwhile,
the statements it passes are those the step skips or the first of them, and it stops for the
step where all of them have been passed, and nowhere else. -/
theorem steps_by_calls {run : RunThread H} {trace : Trace H}
    (h : Reachable (recorded RunThread.hooked Trace.note) (.start stopOnEntry armed, .start)
      (run, trace))
    {kind : StepKind} {base : Nat} {r : Rest (Statement H)} {rs : List (Rest (Statement H))}
    (hvisits : visit :: (between ++ issued :: past) <:+ trace.visits)
    (hquiet : ∀ other ∈ between, other.stop = none)
    (hmode : modeAfter trace.modes (issued :: past) = kind.mode issued.statement.frame.depth)
    (hdepth : issued.statement.frame.depth = base + rs.length)
    (hprogram : (visit :: between).reverse.map Visit.placed <+: unwind base (r :: rs)) :
    StepEnds (kind.skips base (r :: rs)) (between.reverse.map Visit.placed)
      (visit.stop.map (·.reason)) visit.paused := by
  have haccounted := (stopInv_of_reachable h).accounted
  have hdue := (quiet_iff haccounted ((List.suffix_cons visit _).trans hvisits)).mp hquiet
  have hvisit := (haccounted _ _ hvisits).stop
  rw [hdepth] at hmode
  rw [modeAfter_of_quiet trace.modes _ hquiet, hmode] at hvisit
  have hreason : visit.stop.map (·.reason) = dueReason stopOnEntry armed
      (kind.mode (base + rs.length)) visit (between ++ issued :: past) := by
    rw [hvisit, Option.map_map]
    exact Option.map_id'
  have hpassed : ∀ x ∈ between.reverse.map Visit.placed,
      (!(kind.mode (base + rs.length)).targets x.2) = true := by
    intro x hx
    obtain ⟨other, hother, rfl⟩ := List.mem_map.mp hx
    obtain ⟨newer, older, rfl⟩ := List.append_of_mem (List.mem_reverse.mp hother)
    have hnone := hdue other older (List.suffix_append newer _)
    rw [hmode] at hnone
    rw [Bool.not_eq_true']
    exact targets_of_quiet hnone
  rw [List.reverse_cons, List.map_append, List.map_singleton] at hprogram
  obtain ⟨hfront, hends⟩ := prefix_takeWhile hprogram hpassed
  rw [takeWhile_targets] at hfront hends
  have hpast : between ++ issued :: past ≠ [] := by simp
  obtain ⟨hstep, htarget⟩ :=
    dueReason_of_step stopOnEntry armed visit kind (base + rs.length) hpast
  rw [hreason]
  refine ⟨hfront, fun hsome => hends.mp ?_, fun heq => htarget ?_⟩
  · rw [Bool.not_eq_false']
    exact hstep hsome
  · simpa [Visit.placed] using hends.mpr heq

namespace Sample

/-- A step over a statement that calls, from the entry stop. -/
def steppedOver : List (HookStep host) :=
  let visit (line depth : Nat) : List (HookStep host) :=
    [.run (.statement (statement fileA line depth)), .run .drain, .run .report]
  visit 1 0 ++ [.run .announce, .take, .resume (.over 0), .run .receive] ++ visit 2 1 ++
    visit 3 1 ++ visit 2 0 ++ [.run .announce]

end Sample

open Sample in
theorem steps_by_calls_steppedOver : ∃ run trace visit between issued,
    Transition.run (recorded RunThread.hooked Trace.note) (.start true .empty, .start)
      steppedOver = some (run, trace) ∧
    trace.visits = visit :: (between ++ [issued]) ∧ between.length = 2 ∧
    StepEnds [(statement fileA 2 1, 1), (statement fileA 3 1, 1)]
      (between.reverse.map Visit.placed) (visit.stop.map (·.reason)) visit.paused := by
  have hrun : Transition.run (recorded RunThread.hooked Trace.note)
      (.start true .empty, .start) steppedOver = some _ := rfl
  exact ⟨_, _, ⟨_, _, _, _, _⟩, [⟨_, _, _, _, _⟩, ⟨_, _, _, _, _⟩], ⟨_, _, _, _, _⟩, hrun, rfl, rfl,
    @steps_by_calls _ _ _ _ _ [] _ _ _ (reachable_of_run hrun) .over 0
      (.call (statement fileA 2 1) (.statement (statement fileA 3 1) .done)
        (.statement (statement fileA 2 0) .done))
      [] (List.suffix_refl _) (by simp) rfl rfl ⟨[], rfl⟩⟩

end Dap

end MarrowLsp
