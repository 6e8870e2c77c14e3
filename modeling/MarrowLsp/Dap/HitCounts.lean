-- SUMMARY: Hit counts of the debug adapter across edits: what an edit of a live run keeps armed, and when the counts of the breakpoints it keeps survive the swap.
import MarrowLsp.Dap.ArmedSteps
import MarrowLsp.Dap.Sample

/-!
# Hit counts

The hit counts live in the run thread's copy of the armed set; an edit makes a new set, with
every count at zero, and the next statement takes the newest one. What a count should be is
recorded beside the run: the qualifying executions since the breakpoint was last set.
-/
namespace MarrowLsp

namespace Dap

open Transition

variable {H : DebugHost}

/-- The largest hit count, at which the counting stops. -/
def maxHits : Nat := 2 ^ 64 - 1

/-! ## The record -/

/-- Of each armed breakpoint, by file and as it was armed, the qualifying executions since it
was set. -/
abbrev HitRecord (H : DebugHost) := Path → ArmedBreakpoint H → Nat

/-- A breakpoint that the session no longer arms starts over. -/
def HitRecord.restrict (since : HitRecord H) (armed : ArmedBreakpoints H) : HitRecord H :=
  fun file p => if p ∈ armed file then since file p else 0

/-- A statement counts for the breakpoints armed in its file that it qualifies for. -/
def HitRecord.count (since : HitRecord H) (armed : ArmedBreakpoints H) (statement : Statement H) :
    HitRecord H :=
  fun file p =>
    if statement.frame.file = some file ∧ p ∈ armed file ∧
        p.qualifies statement.frame statement.span.line = true then since file p + 1
    else since file p

/-- The statement that the hook has let through, its breakpoints not evaluated. -/
def RunThread.admitted (run : RunThread H) : Option (Statement H) :=
  match run.pc with
  | .admitted statement => some statement
  | _ => none

def Adapter.noteHits (a : Adapter H) (label : AdapterStep H) (since : HitRecord H) : HitRecord H :=
  match label with
  | .request request world => since.restrict (a.session.handle world request).1.armedBreakpoints
  | .run .drain =>
    match a.run.bind (·.admitted) with
    | some statement => since.count a.session.armedBreakpoints statement
    | none => since
  | _ => since

/-! ## The law -/

/-- The set that the run thread evaluates at its statement, all swaps drained: armed as last
requested, with every hit since a breakpoint was set counted, and no other. -/
structure ArmedAsSet (s : Session H) (since : HitRecord H) (run : RunThread H)
    (statement : Statement H) : Prop where
  armed : ∀ file p, p ∈ run.drainBreakpointSwaps.breakpoints.plain file ↔ s.Implies file p
  counted : ∀ file, ∀ q ∈ run.drainBreakpointSwaps.breakpoints file,
    q.hits = min (since file q.plain) maxHits
  kept : ∀ file, ∀ p ∈ run.breakpoints file, ∀ q ∈ run.drainBreakpointSwaps.breakpoints file,
    q.plain = p.plain → since file p.plain ≠ 0 → q.hits = p.hits
  /-- This is the execution that a hit condition asks for. -/
  fires : ∀ file, statement.frame.file = some file →
    ∀ q ∈ run.drainBreakpointSwaps.breakpoints file,
      (q.evaluate statement.frame statement.span.line).2.isSome = true ↔
        q.qualifies statement.frame statement.span.line = true ∧
          ∀ target, q.hitTarget = some target → since file q.plain + 1 = target.val

/-- What an edit of a live run, and the drain of the edits, have to do. -/
structure EditKept (y : Adapter H × HitRecord H) (label : AdapterStep H)
    (z : Adapter H × HitRecord H) : Prop where
  edit : ∀ request world source requested, label = .request request world →
    y.1.session.running.isSome = true → y.1.session.Edits request source requested →
      y.1.session.EditsOnly z.1.session source requested
  drain : label = .run .drain → ∀ run statement, y.1.run = some run →
    run.admitted = some statement → ArmedAsSet y.1.session y.2 run statement

/-- No breakpoint that every waiting edit keeps armed has been hit; and with none waiting, none
whose hit condition is the largest count has reached it at a statement that qualifies. -/
structure RunThread.Undisturbed (run : RunThread H) (statement : Statement H) : Prop where
  unhit : run.breakpointSwaps ≠ [] → ∀ file, ∀ p ∈ run.breakpoints file,
    (∀ swap ∈ run.breakpointSwaps, p.plain ∈ swap file) → p.hits = 0
  below : run.breakpointSwaps = [] → ∀ file, statement.frame.file = some file →
    ∀ p ∈ run.breakpoints file, p.qualifies statement.frame statement.span.line = true →
      p.hitTarget.map Fin.val = some maxHits → p.hits ≠ maxHits

/-- The run thread is undisturbed where it drains the edits. -/
def Adapter.Undisturbed (a : Adapter H) (label : AdapterStep H) : Prop :=
  label = .run .drain → ∀ run statement, a.run = some run → run.admitted = some statement →
    run.Undisturbed statement

/-! ## Evaluating the armed set -/

namespace ArmedBreakpoint

@[simp] theorem plain_plain (p : ArmedBreakpoint H) : p.plain.plain = p.plain := rfl

@[simp] theorem qualifies_plain (p : ArmedBreakpoint H) (frame : Frame H) (line : Nat) :
    p.plain.qualifies frame line = p.qualifies frame line := rfl

@[simp] theorem hitTarget_plain (p : ArmedBreakpoint H) : p.plain.hitTarget = p.hitTarget := rfl

theorem plain_evaluate (p : ArmedBreakpoint H) (frame : Frame H) (line : Nat) :
    (p.evaluate frame line).1.plain = p.plain := by
  unfold evaluate
  dsimp only
  split
  · split
    · rfl
    · split <;> rfl
  · rfl

theorem hits_evaluate (p : ArmedBreakpoint H) (frame : Frame H) (line : Nat) :
    (p.evaluate frame line).1.hits =
      if p.qualifies frame line then min (p.hits + 1) maxHits else p.hits := by
  unfold evaluate maxHits
  dsimp only
  split
  · split
    · rfl
    · split <;> rfl
  · rfl

/-- A breakpoint acts at a statement it qualifies for, when its count is the one asked for. -/
theorem isSome_evaluate_iff (p : ArmedBreakpoint H) (frame : Frame H) (line : Nat) :
    (p.evaluate frame line).2.isSome = true ↔ p.qualifies frame line = true ∧
      ∀ target, p.hitTarget = some target → min (p.hits + 1) maxHits = target.val := by
  unfold evaluate maxHits
  generalize min (p.hits + 1) (2 ^ 64 - 1) = hits
  dsimp only
  split
  · next hqualifies =>
    cases htarget : p.hitTarget with
    | none => cases p.logMessage <;> simp [hqualifies]
    | some target =>
      by_cases hhit : hits = target.val
      · cases p.logMessage <;> simp [hqualifies, hhit]
      · simp [hhit]
  · next hqualifies => simp [hqualifies]

end ArmedBreakpoint

namespace ArmedBreakpoints

theorem plain_evaluate (armed : ArmedBreakpoints H) (frame : Frame H) (line : Nat) :
    (armed.evaluate frame line).1.plain = armed.plain := by
  unfold evaluate
  split
  · rfl
  · next file hfile =>
    funext other
    unfold plain
    dsimp only
    by_cases hother : other = file
    · subst hother
      simp [List.map_map, Function.comp_def, ArmedBreakpoint.plain_evaluate]
    · rw [if_neg hother]

/-- The statement is evaluated by the breakpoints of its file, and by no others. -/
theorem mem_evaluate_iff {armed : ArmedBreakpoints H} {frame : Frame H} {line : Nat} {file : Path}
    {q : ArmedBreakpoint H} :
    q ∈ (armed.evaluate frame line).1 file ↔ ∃ p ∈ armed file,
      q = if frame.file = some file then (p.evaluate frame line).1 else p := by
  unfold evaluate
  split
  · next hnone => simp [hnone]
  · next other hother =>
    dsimp only
    by_cases hfile : file = other
    · subst hfile
      simp [hother, List.mem_map, eq_comm]
    · have hne : ¬ some other = some file := fun h => hfile (Option.some.inj h).symm
      simp [hother, hfile, hne]

end ArmedBreakpoints

/-! ## What is known of the counts -/

/-- The run thread's copy with the swaps waiting for it: the newest set is what the session
arms, and the count of a breakpoint that every swap keeps is the recorded one. -/
structure HitsKnown (run : RunThread H) (armed : ArmedBreakpoints H) (since : HitRecord H) :
    Prop where
  newest : run.drainBreakpointSwaps.breakpoints.plain = armed
  fresh : ∀ swap ∈ run.breakpointSwaps, swap.Fresh
  hits : ∀ file, ∀ p ∈ run.breakpoints file,
    (∀ swap ∈ run.breakpointSwaps, p.plain ∈ swap file) → p.hits = min (since file p.plain) maxHits
  stayed : ∀ file p, since file p ≠ 0 → p ∈ run.breakpoints.plain file ∧
    ∀ swap ∈ run.breakpointSwaps, p ∈ swap file

theorem hitsKnown_start (stopOnEntry : Bool) {armed : ArmedBreakpoints H} (hfresh : armed.Fresh) :
    HitsKnown (.start stopOnEntry armed) armed fun _ _ => 0 where
  newest := hfresh.plain_eq
  fresh := nofun
  hits := fun file p hmem _ => (hfresh file p hmem).trans (Nat.zero_min maxHits).symm
  stayed := fun _ _ h => absurd rfl h

namespace HitsKnown

variable {run : RunThread H} {armed : ArmedBreakpoints H} {since : HitRecord H}

/-- Only the copy and the swaps matter. -/
theorem congr {run' : RunThread H} (h : HitsKnown run armed since)
    (hbreakpoints : run'.breakpoints = run.breakpoints)
    (hswaps : run'.breakpointSwaps = run.breakpointSwaps) : HitsKnown run' armed since where
  newest := by
    unfold RunThread.drainBreakpointSwaps
    rw [hbreakpoints, hswaps]
    exact h.newest
  fresh := by
    rw [hswaps]
    exact h.fresh
  hits := by
    rw [hbreakpoints, hswaps]
    exact h.hits
  stayed := by
    rw [hbreakpoints, hswaps]
    exact h.stayed

/-- With a swap waiting, the newest one is taken as it is. -/
theorem drain_of_swap (h : HitsKnown run armed since) (hswaps : run.breakpointSwaps ≠ []) :
    run.drainBreakpointSwaps.breakpoints = armed ∧ armed ∈ run.breakpointSwaps := by
  have hlast := List.getLast?_eq_getLast_of_ne_nil hswaps
  have hmem := List.getLast_mem hswaps
  have htaken : run.drainBreakpointSwaps.breakpoints = run.breakpointSwaps.getLast hswaps := by
    simp only [RunThread.drainBreakpointSwaps, hlast, Option.getD_some]
  have harmed : run.breakpointSwaps.getLast hswaps = armed := by
    rw [← (h.fresh _ hmem).plain_eq, ← htaken]
    exact h.newest
  exact ⟨htaken.trans harmed, harmed ▸ hmem⟩

theorem drain_of_none (hswaps : run.breakpointSwaps = []) :
    run.drainBreakpointSwaps.breakpoints = run.breakpoints := by
  simp [RunThread.drainBreakpointSwaps, hswaps]

/-- A breakpoint hit since it was set is armed. -/
theorem mem_armed (h : HitsKnown run armed since) {file : Path} {p : ArmedBreakpoint H}
    (hsince : since file p ≠ 0) : p ∈ armed file := by
  obtain ⟨hmem, hkept⟩ := h.stayed file p hsince
  by_cases hswaps : run.breakpointSwaps = []
  · rw [← h.newest, drain_of_none hswaps]
    exact hmem
  · exact hkept armed (h.drain_of_swap hswaps).2

theorem restrict_eq (h : HitsKnown run armed since) : since.restrict armed = since := by
  funext file p
  unfold HitRecord.restrict
  split
  · rfl
  · next hmem => exact (not_not.mp fun hsince => hmem (h.mem_armed hsince)).symm

/-- An edit is pushed. -/
theorem sendBreakpoints (h : HitsKnown run armed since) {edited : ArmedBreakpoints H}
    (hfresh : edited.Fresh) :
    HitsKnown (run.sendBreakpoints edited) edited (since.restrict edited) where
  newest := by
    simp only [RunThread.drainBreakpointSwaps, RunThread.sendBreakpoints, List.getLast?_concat,
      Option.getD_some]
    exact hfresh.plain_eq
  fresh := by
    intro swap hswap
    obtain hswap | hswap := List.mem_append.mp hswap
    · exact h.fresh swap hswap
    · rw [List.mem_singleton.mp hswap]
      exact hfresh
  hits := by
    intro file p hmem hkept
    have hlast : p.plain ∈ edited file := hkept edited (List.mem_append_right _ List.mem_cons_self)
    rw [HitRecord.restrict, if_pos hlast]
    exact h.hits file p hmem fun swap hswap => hkept swap (List.mem_append_left _ hswap)
  stayed := by
    intro file p hsince
    unfold HitRecord.restrict at hsince
    split at hsince
    · next hmem =>
      obtain ⟨hold, hkept⟩ := h.stayed file p hsince
      refine ⟨hold, fun swap hswap => ?_⟩
      obtain hswap | hswap := List.mem_append.mp hswap
      · exact hkept swap hswap
      · rw [List.mem_singleton.mp hswap]
        exact hmem
    · exact absurd rfl hsince

/-- The statement is evaluated, by a set whose counts are the recorded ones. -/
theorem evaluated (h : HitsKnown run armed since) {statement : Statement H} {run' : RunThread H}
    (hcounted : ∀ file, ∀ q ∈ run.drainBreakpointSwaps.breakpoints file,
      q.hits = min (since file q.plain) maxHits)
    (hbreakpoints : run'.breakpoints = (run.drainBreakpointSwaps.breakpoints.evaluate
      statement.frame statement.span.line).1)
    (hswaps : run'.breakpointSwaps = []) : HitsKnown run' armed (since.count armed statement) := by
  have hplain : run'.breakpoints.plain = armed := by
    rw [hbreakpoints, ArmedBreakpoints.plain_evaluate, h.newest]
  refine ⟨?_, ?_, ?_, ?_⟩
  · rw [drain_of_none hswaps]
    exact hplain
  · rw [hswaps]
    nofun
  · rintro file q hmem -
    rw [hbreakpoints] at hmem
    obtain ⟨p, hp, rfl⟩ := ArmedBreakpoints.mem_evaluate_iff.mp hmem
    have harmed : p.plain ∈ armed file := by
      rw [← h.newest]
      exact List.mem_map_of_mem hp
    have hhits := hcounted file p hp
    unfold HitRecord.count
    by_cases hfile : statement.frame.file = some file
    · simp only [hfile, if_true, ArmedBreakpoint.plain_evaluate, ArmedBreakpoint.hits_evaluate, harmed,
        ArmedBreakpoint.qualifies_plain, true_and]
      split
      · rw [hhits]
        omega
      · exact hhits
    · simp only [hfile, if_false, false_and]
      exact hhits
  · intro file p hsince
    refine ⟨?_, by rw [hswaps]; nofun⟩
    rw [hplain]
    unfold HitRecord.count at hsince
    split at hsince
    · next hcounts => exact hcounts.2.1
    · exact h.mem_armed hsince

/-! ## The drain -/

/-- Undisturbed, the drained set has the recorded counts. -/
theorem counted (h : HitsKnown run armed since) {statement : Statement H}
    (hundisturbed : run.Undisturbed statement) {file : Path} {q : ArmedBreakpoint H}
    (hmem : q ∈ run.drainBreakpointSwaps.breakpoints file) :
    q.hits = min (since file q.plain) maxHits := by
  by_cases hswaps : run.breakpointSwaps = []
  · rw [drain_of_none hswaps] at hmem
    refine h.hits file q hmem ?_
    rw [hswaps]
    nofun
  · obtain ⟨hdrained, harmed⟩ := h.drain_of_swap hswaps
    have hzero : q.hits = 0 := h.fresh armed harmed file q (hdrained ▸ hmem)
    -- A count above zero is that of a breakpoint all swaps keep, and there is none.
    have hsince : since file q.plain = 0 := by
      by_contra hsince
      obtain ⟨hold, hkept⟩ := h.stayed file q.plain hsince
      obtain ⟨p, hp, hplain⟩ := ArmedBreakpoints.mem_plain_iff.mp hold
      have hkept' : ∀ swap ∈ run.breakpointSwaps, p.plain ∈ swap file := hplain ▸ hkept
      have hunhit := hundisturbed.unhit hswaps file p hp hkept'
      have hhits := h.hits file p hp hkept'
      rw [hplain, hunhit] at hhits
      simp only [maxHits] at hhits
      omega
    rw [hzero, hsince, Nat.zero_min]

theorem undisturbed_of_armedAsSet {s : Session H} {statement : Statement H}
    (h : HitsKnown run s.armedBreakpoints since) (hset : ArmedAsSet s since run statement) :
    run.Undisturbed statement where
  unhit := by
    intro hswaps file p hp hkept
    obtain ⟨hdrained, harmed⟩ := h.drain_of_swap hswaps
    have hmem : p.plain ∈ run.drainBreakpointSwaps.breakpoints file := by
      rw [hdrained]
      exact hkept _ harmed
    have hcounted : 0 = min (since file p.plain) maxHits := hset.counted file p.plain hmem
    rw [h.hits file p hp hkept, ← hcounted]
  below := by
    intro hswaps file hfile p hp hqualifies htarget hhits
    have hmem : p ∈ run.drainBreakpointSwaps.breakpoints file := by
      rw [drain_of_none hswaps]
      exact hp
    obtain ⟨target, htarget, hmax⟩ := Option.map_eq_some_iff.mp htarget
    have hcounted := hset.counted file p hmem
    have hacts := (ArmedBreakpoint.isSome_evaluate_iff p statement.frame statement.span.line).mpr
      ⟨hqualifies, fun other hother => by
        rw [htarget] at hother
        cases hother
        omega⟩
    have hsince := ((hset.fires file hfile p hmem).mp hacts).2 target htarget
    omega

theorem armedAsSet_of_undisturbed {s : Session H} {statement : Statement H}
    (h : HitsKnown run s.armedBreakpoints since) (hundisturbed : run.Undisturbed statement) :
    ArmedAsSet s since run statement where
  armed := by
    intro file p
    rw [h.newest]
    exact Session.mem_armedBreakpoints_iff
  counted := fun _ _ hmem => h.counted hundisturbed hmem
  kept := by
    intro file p hp q hq hplain hsince
    rw [h.counted hundisturbed hq, hplain]
    exact (h.hits file p hp (h.stayed file p.plain hsince).2).symm
  fires := by
    intro file hfile q hq
    rw [ArmedBreakpoint.isSome_evaluate_iff]
    refine and_congr_right fun hqualifies => forall_congr' fun target => ?_
    refine imp_congr_right fun htarget => ?_
    have hcounted := h.counted hundisturbed hq
    have htargetMax : target.val ≤ maxHits := by
      have := target.isLt
      simp only [maxHits]
      omega
    have hbelow : target.val = maxHits → q.hits ≠ maxHits := by
      intro hmax
      by_cases hswaps : run.breakpointSwaps = []
      · rw [drain_of_none hswaps] at hq
        exact hundisturbed.below hswaps file hfile q hq hqualifies (by rw [htarget, ← hmax]; rfl)
      · obtain ⟨hdrained, harmed⟩ := h.drain_of_swap hswaps
        rw [h.fresh _ harmed file q (hdrained ▸ hq)]
        decide
    omega

end HitsKnown

/-! ## The counts in every reachable state -/

structure HitInv (a : Adapter H) (since : HitRecord H) : Prop where
  canonical : ∀ stopPoints, a.session.stopPoints = some stopPoints → stopPoints.Canonical H
  prepared : a.session.pending.isSome = true ∨ a.run.isSome = true →
    a.session.stopPoints.isSome = true
  unstarted : a.run = none → since = fun _ _ => 0
  known : ∀ run, a.run = some run → HitsKnown run a.session.armedBreakpoints since

/-- Without a run, no statement has been counted. -/
theorem hitInv_of_unstarted {a : Adapter H} (hrun : a.run = none)
    (hcanonical : ∀ stopPoints, a.session.stopPoints = some stopPoints → stopPoints.Canonical H)
    (hprepared : a.session.pending.isSome = true → a.session.stopPoints.isSome = true) :
    HitInv a fun _ _ => 0 where
  canonical := hcanonical
  prepared := by
    rintro (hpending | hsome)
    · exact hprepared hpending
    · rw [hrun] at hsome
      cases hsome
  unstarted := fun _ => rfl
  known := by
    intro run hsome
    rw [hrun] at hsome
    cases hsome

theorem hitInv_init : HitInv (.init : Adapter H) fun _ _ => 0 :=
  hitInv_of_unstarted rfl nofun nofun

namespace HitInv

variable {a b : Adapter H} {since : HitRecord H}

theorem keeps (h : HitInv a since) (hkeeps : Keeps a b) : HitInv b since where
  canonical := by
    rw [hkeeps.stopPoints]
    exact h.canonical
  prepared := by
    rw [hkeeps.stopPoints]
    rintro (hpending | hsome)
    · exact h.prepared (.inl (hkeeps.pending hpending))
    · obtain ⟨run', hrun'⟩ := Option.isSome_iff_exists.mp hsome
      obtain ⟨run, hrun, -⟩ := hkeeps.run run' hrun'
      exact h.prepared (.inr (by rw [hrun]; rfl))
  unstarted := fun hnone => h.unstarted (hkeeps.unstarted hnone)
  known := by
    intro run' hrun'
    obtain ⟨run, hrun, hbreakpoints, hswaps⟩ := hkeeps.run run' hrun'
    rw [hkeeps.armed]
    exact (h.known run hrun).congr hbreakpoints hswaps

theorem restrict_zero (armed : ArmedBreakpoints H) :
    HitRecord.restrict (fun _ _ => 0) armed = fun _ _ => 0 := by
  funext file p
  exact ite_self 0

theorem restrict_eq (h : HitInv a since) :
    since.restrict a.session.armedBreakpoints = since := by
  cases hrun : a.run with
  | none =>
    rw [h.unstarted hrun]
    exact restrict_zero _
  | some run => exact (h.known run hrun).restrict_eq

end HitInv

section Handled

variable {a : Adapter H} {since : HitRecord H} {request : Json} {t : Session H}

/-- The requests stay as they are, and with them the record. -/
theorem HitInv.kept (h : HitInv a since) (hkeeps : Keeps a { a with session := t })
    {effect : Effect H} (harm : ∀ breakpoints, effect ≠ .arm breakpoints)
    (hstart : ∀ stopOnEntry breakpoints, effect ≠ .start stopOnEntry breakpoints) :
    HitInv ({ a with session := t }.perform request effect)
      (since.restrict t.armedBreakpoints) := by
  rw [show t.armedBreakpoints = a.session.armedBreakpoints from hkeeps.armed, h.restrict_eq]
  exact h.keeps (hkeeps.trans (keeps_perform _ request harm hstart))

/-- Nothing runs yet. -/
theorem HitInv.fresh (h : HitInv a since) (hrun : a.run = none)
    (hcanonical : ∀ stopPoints, t.stopPoints = some stopPoints → stopPoints.Canonical H)
    (hprepared : t.pending.isSome = true → t.stopPoints.isSome = true)
    {effect : Effect H} (harm : ∀ breakpoints, effect ≠ .arm breakpoints)
    (hstart : ∀ stopOnEntry breakpoints, effect ≠ .start stopOnEntry breakpoints) :
    HitInv ({ a with session := t }.perform request effect)
      (since.restrict t.armedBreakpoints) := by
  rw [h.unstarted hrun, HitInv.restrict_zero]
  have hinv : HitInv { a with session := t } fun _ _ => 0 :=
    hitInv_of_unstarted hrun hcanonical hprepared
  exact hinv.keeps (keeps_perform _ request harm hstart)

/-- New requests are armed in the run that is there. -/
theorem HitInv.armed (h : HitInv a since) {run : RunThread H} (hrun : a.run = some run)
    (hcanonical : ∀ stopPoints, t.stopPoints = some stopPoints → stopPoints.Canonical H)
    (hprepared : t.stopPoints.isSome = true) :
    HitInv ({ a with session := t }.perform request (.arm t.armedBreakpoints))
      (since.restrict t.armedBreakpoints) := by
  refine ⟨hcanonical, fun _ => hprepared, ?_, ?_⟩
  · intro hnone
    simp [Adapter.perform, hrun] at hnone
  · intro run' hrun'
    simp only [Adapter.perform, hrun, Option.map_some, Option.some.injEq] at hrun'
    subst hrun'
    exact (h.known run hrun).sendBreakpoints t.fresh_armedBreakpoints

/-- A run starts with nothing counted. -/
theorem HitInv.started (h : HitInv a since) (hrun : a.run = none) (stopOnEntry : Bool)
    (hcanonical : ∀ stopPoints, t.stopPoints = some stopPoints → stopPoints.Canonical H)
    (hprepared : t.stopPoints.isSome = true) :
    HitInv ({ a with session := t }.perform request (.start stopOnEntry t.armedBreakpoints))
      (since.restrict t.armedBreakpoints) := by
  rw [h.unstarted hrun, HitInv.restrict_zero]
  refine ⟨hcanonical, fun _ => hprepared, by simp [Adapter.perform], ?_⟩
  rintro _ ⟨⟩
  exact hitsKnown_start _ t.fresh_armedBreakpoints

theorem hitInv_handled {effect : Effect H} (h : HitInv a since) (hlife : a.Life)
    (hdone : a.session.done = false) (hhandled : a.session.Handled request (t, effect)) :
    HitInv ({ a with session := t }.perform request effect)
      (since.restrict t.armedBreakpoints) := by
  cases hhandled with
  | replied hreply =>
    obtain ⟨_, htells⟩ := hreply.tells
    exact h.kept (.of_tells htells) (by simp) (by simp)
  | launchFailed hrunning hreply =>
    apply h.fresh (hlife.run_eq_none hrunning hdone) _ _ (by simp) (by simp)
    · rw [hreply.stopPoints]
      rintro _ ⟨⟩
    · rw [hreply.pending]
      rintro ⟨⟩
  | launched pending launch hrunning hreply =>
    apply h.fresh (hlife.run_eq_none hrunning hdone) _ _ (by simp) (by simp)
    · rw [hreply.stopPoints]
      rintro _ ⟨⟩
      exact canonical_fromRuntime H launch.files launch.points
    · rw [hreply.stopPoints]
      exact fun _ => rfl
  | breakpointsSet source requested hstopPoints hreply =>
    have hcanonical : ∀ stopPoints, t.stopPoints = some stopPoints → stopPoints.Canonical H := by
      rw [hreply.stopPoints]
      exact h.canonical
    have hprepared : t.stopPoints.isSome = true := by
      rw [hreply.stopPoints]
      exact hstopPoints
    cases hrunning : a.session.running with
    | none =>
      exact h.fresh (hlife.run_eq_none hrunning hdone) hcanonical (fun _ => hprepared) (by simp)
        (by simp)
    | some running =>
      obtain ⟨run, hrun⟩ := Option.isSome_iff_exists.mp (hlife.held (by rw [hrunning]; rfl))
      exact h.armed hrun hcanonical hprepared
  | started pending boundary hpending hreply =>
    apply h.started (hlife.run_eq_none (hlife.running_eq_none hpending) hdone)
    · rw [hreply.stopPoints]
      exact h.canonical
    · rw [hreply.stopPoints]
      exact h.prepared (.inl (by rw [hpending]; rfl))
  | notStarted pending hpending hreply =>
    apply h.fresh (hlife.run_eq_none (hlife.running_eq_none hpending) hdone) _ _ (by simp) (by simp)
    · rw [hreply.stopPoints]
      rintro _ ⟨⟩
    · rw [hreply.pending]
      rintro ⟨⟩
  | noThread pending hpending hreply =>
    apply h.fresh (hlife.run_eq_none (hlife.running_eq_none hpending) hdone) _ _ (by simp) (by simp)
    · rw [hreply.stopPoints]
      exact h.canonical
    · rw [hreply.pending]
      simp
  | asked query hstopped => exact h.kept (.of_session rfl rfl rfl id) (by simp) (by simp)
  | @resumed u mode events hstopped hevents hpause hreply =>
    have hkeeps : Keeps a { a with session := u.resumeRun mode } :=
      .of_session hreply.analysis hreply.stopPoints hreply.breakpoints
        (fun hsome => hreply.pending ▸ hsome)
    exact h.kept hkeeps (by simp) (by simp)
  | paused running hrunning hstopped hpause hreply =>
    obtain ⟨_, htells⟩ := hreply.tells
    exact h.kept (.of_tells htells) (by simp) (by simp)
  | ending hends hreply =>
    obtain ⟨_, htells⟩ := hreply.tells
    exact h.kept (.of_tells htells) (by simp) (by simp)

end Handled

/-- A drain takes the newest set, and has it evaluate the statement. -/
theorem RunThread.step_drain {connected : Bool} {run run' : RunThread H}
    (h : run.step connected .drain = some run') :
    ∃ statement, run.admitted = some statement ∧ run'.breakpointSwaps = [] ∧
      run'.breakpoints = (run.drainBreakpointSwaps.breakpoints.evaluate
        statement.frame statement.span.line).1 := by
  cases RunThread.stepped_of_step h with
  | @drained statement breakpoints action hpc hevaluate =>
    exact ⟨statement, by simp only [admitted, hpc], rfl, by rw [hevaluate]⟩

theorem hitInv_step {a b : Adapter H} {label : AdapterStep H} {since : HitRecord H}
    (h : HitInv a since) (hlife : a.Life) (hundisturbed : a.Undisturbed label)
    (hstep : a.step label = some b) : HitInv b (a.noteHits label since) := by
  have hstepped := Adapter.stepped_of_step hstep
  by_cases hdrain : label = .run .drain
  · subst hdrain
    cases hstepped with
    | tookEvent hlabel => simp at hlabel
    | joined hlabel => simp at hlabel
    | @ran _ run run' hrun hran =>
      obtain ⟨statement, hadmitted, hswaps, hcopy⟩ := RunThread.step_drain hran
      have hnote : a.noteHits (.run .drain) since =
          since.count a.session.armedBreakpoints statement := by
        simp only [Adapter.noteHits, hrun, Option.bind_some, hadmitted]
      have hcounted := (h.known run hrun).evaluated
        (fun file q hq => (h.known run hrun).counted (hundisturbed rfl run statement hrun hadmitted) hq)
        hcopy hswaps
      rw [hnote]
      refine ⟨h.canonical, ?_, nofun, ?_⟩
      · exact fun _ => h.prepared (.inr (by rw [hrun]; rfl))
      · rintro _ ⟨⟩
        exact hcounted
  · by_cases hrequest : ∃ request world, label = .request request world
    · obtain ⟨request, world, rfl⟩ := hrequest
      cases hstepped with
      | tookEvent hlabel => simp at hlabel
      | joined hlabel => simp at hlabel
      | @handled _ _ t effect hphase hdone hhandle hhandled =>
        have hnote : a.noteHits (.request request world) since =
            since.restrict t.armedBreakpoints := by
          simp only [Adapter.noteHits, hhandle]
        rw [hnote]
        exact hitInv_handled h hlife hdone hhandled
    · have hnote : a.noteHits label since = since := by
        unfold Adapter.noteHits
        split
        · exact absurd ⟨_, _, rfl⟩ hrequest
        · exact absurd rfl hdrain
        · rfl
      rw [hnote]
      exact h.keeps (keeps_of_stepped hstepped (fun r w heq => hrequest ⟨r, w, heq⟩) hdrain)

/-! ## The law, and when it holds -/

/-- An edit of a live run leaves the session as it was after handling. -/
theorem editsOnly_of_step {a b : Adapter H} {since : HitRecord H} {request : Json}
    {world : LaunchWorld H} {source : Path} {requested : List RequestedBreakpoint}
    (h : HitInv a since) (hlife : a.Life) (hrunning : a.session.running.isSome = true)
    (hedits : a.session.Edits request source requested)
    (hstep : a.step (.request request world) = some b) :
    a.session.EditsOnly b.session source requested := by
  have hstopPoints := h.prepared (.inr (hlife.held hrunning))
  have hstepped := Adapter.stepped_of_step hstep
  cases hstepped with
  | tookEvent hlabel => simp at hlabel
  | joined hlabel => simp at hlabel
  | @handled _ _ t effect hphase hdone hhandle hhandled =>
    obtain ⟨body, hedited⟩ := Session.handle_of_edits world hedits hstopPoints
    obtain ⟨-, heffect⟩ := Prod.mk.inj (hhandle.symm.trans hedited)
    rw [hrunning, if_pos rfl] at heffect
    subst heffect
    exact Session.editsOnly_of_edits hedits hstopPoints h.canonical hhandle

/-- Of a step from a state whose counts are known. -/
theorem editKept_iff {a b : Adapter H} {since since' : HitRecord H} {label : AdapterStep H}
    (h : HitInv a since) (hlife : a.Life) (hstep : a.step label = some b) :
    EditKept (a, since) label (b, since') ↔ a.Undisturbed label := by
  constructor
  · intro hkept hlabel run statement hrun hadmitted
    exact (h.known run hrun).undisturbed_of_armedAsSet
      (hkept.drain hlabel run statement hrun hadmitted)
  · intro hundisturbed
    refine ⟨?_, ?_⟩
    · rintro request world source requested rfl hrunning hedits
      exact editsOnly_of_step h hlife hrunning hedits hstep
    · intro hlabel run statement hrun hadmitted
      exact (h.known run hrun).armedAsSet_of_undisturbed
        (hundisturbed hlabel run statement hrun hadmitted)

/-- Edits keep the counts of what they leave armed, in exactly the runs in which no edit is
drained after a breakpoint it keeps was hit. -/
theorem editKept_iff_undisturbed (labels : List (AdapterStep H)) :
    AllSteps (recorded Adapter.step Adapter.noteHits) EditKept (.init, fun _ _ => 0) labels ↔
      AllSteps (recorded Adapter.step Adapter.noteHits) (fun y label _ => y.1.Undisturbed label)
        (.init, fun _ _ => 0) labels := by
  let I : Adapter H × HitRecord H → Prop := fun y => y.1.Life ∧ HitInv y.1 y.2
  have hI : I (.init, fun _ _ => 0) := ⟨Adapter.life_init, hitInv_init⟩
  refine allSteps_congr (I := I) ?_ ?_ labels hI
  · rintro ⟨a, since⟩ label ⟨b, since'⟩ ⟨hlife, hinv⟩ hstep hkept
    obtain ⟨hstep, rfl⟩ := recorded_eq_some_iff.mp hstep
    exact ⟨Adapter.life_step hlife hstep,
      hitInv_step hinv hlife ((editKept_iff hinv hlife hstep).mp hkept) hstep⟩
  · rintro ⟨a, since⟩ label ⟨b, since'⟩ ⟨hlife, hinv⟩ hstep
    obtain ⟨hstep, -⟩ := recorded_eq_some_iff.mp hstep
    exact editKept_iff hinv hlife hstep

/-- A breakpoint at the first statement of one file is hit once; then one is set in the other
file, and the first statement is about to run again. -/
def Sample.editedAfterHit : List (AdapterStep Sample.host) :=
  [launch false, setBreakpoints "/a.mw" [(1, some "2")], send "configurationDone" []] ++
    pass fileA 1 ++ [setBreakpoints "/b.mw" [(1, none)], .run (.statement (statement fileA 1 0))]

theorem not_editKept_editedAfterHit :
    ¬ AllSteps (recorded Adapter.step Adapter.noteHits) EditKept (.init, fun _ _ => 0)
      (Sample.editedAfterHit ++ [.run .drain]) := by
  intro h
  have hlast := h.last (rfl : run _ _ Sample.editedAfterHit = some _) rfl
  have hset := hlast.drain rfl _ _ rfl rfl
  have hkept := hset.kept Sample.fileA ⟨1, none, some 2, none, 1⟩ (by decide)
    (.new 1 none (some 2) none) (by decide) rfl (by decide)
  exact absurd hkept (by decide)

end Dap

end MarrowLsp
