-- SUMMARY: What an armed set does along a run of statements: the counts its breakpoints have reached, which of them act at a statement, and what they do there together (debugger.rs).
import MarrowLsp.Dap.HitCounts

/-!
# Breakpoints along a run

A list of statements is the past of a run, latest statement first.
-/
namespace MarrowLsp

namespace Dap

variable {H : DebugHost}

/-- The statement counts for a breakpoint armed in this file. -/
def Statement.meets (statement : Statement H) (file : Path) (p : ArmedBreakpoint H) : Bool :=
  decide (statement.frame.file = some file) && p.qualifies statement.frame statement.span.line

theorem Statement.meets_of_file {statement : Statement H} {file : Path}
    (hfile : statement.frame.file = some file) (p : ArmedBreakpoint H) :
    statement.meets file p = p.qualifies statement.frame statement.span.line := by
  unfold meets
  rw [decide_eq_true hfile, Bool.true_and]

/-! ## One breakpoint -/

namespace ArmedBreakpoint

/-- How often a breakpoint armed in the file was hit. -/
def hitsOver (p : ArmedBreakpoint H) (file : Path) (past : List (Statement H)) : Nat :=
  past.countP (·.meets file p)

/-- The breakpoint with the hits of a past counted. -/
def after (p : ArmedBreakpoint H) (file : Path) (past : List (Statement H)) : ArmedBreakpoint H :=
  { p with
    hits :=
      if p.hitsOver file past = 0 then p.hits else min (p.hits + p.hitsOver file past) maxHits }

/-- The breakpoint is hit at the statement, and this is the hit it asks for. -/
def actsAt (p : ArmedBreakpoint H) (file : Path) (statement : Statement H)
    (past : List (Statement H)) : Bool :=
  statement.meets file p && p.hitTarget.all fun target =>
    min (p.hits + p.hitsOver file (statement :: past)) maxHits == target.val

/-- What it does where it acts: a logpoint says its message, any other breakpoint stops. -/
def action (p : ArmedBreakpoint H) (frame : Frame H) : BreakpointAction :=
  match p.logMessage with
  | some message => ⟨[renderLogMessage message frame], false⟩
  | none => ⟨[], true⟩

variable {p : ArmedBreakpoint H} {file : Path} {statement : Statement H}
  {past : List (Statement H)}

@[simp] theorem after_nil (p : ArmedBreakpoint H) (file : Path) : p.after file [] = p := rfl

@[simp] theorem plain_after : (p.after file past).plain = p.plain := rfl

@[simp] theorem qualifies_after (frame : Frame H) (line : Nat) :
    (p.after file past).qualifies frame line = p.qualifies frame line := rfl

theorem hitsOver_cons_of_meets (h : statement.meets file p = true) :
    p.hitsOver file (statement :: past) = p.hitsOver file past + 1 := by
  unfold hitsOver
  exact List.countP_cons_of_pos h

theorem hitsOver_cons_of_not_meets (h : ¬ statement.meets file p = true) :
    p.hitsOver file (statement :: past) = p.hitsOver file past := by
  unfold hitsOver
  exact List.countP_cons_of_neg h

/-- The next count of a breakpoint that is hit, whatever it was. -/
theorem min_hits_after (hmeets : statement.meets file p = true) :
    min ((p.after file past).hits + 1) maxHits =
      min (p.hits + p.hitsOver file (statement :: past)) maxHits := by
  rw [hitsOver_cons_of_meets hmeets]
  unfold after
  dsimp only
  split
  · next hzero => rw [hzero]
  · omega

/-- Evaluation counts a hit and acts at the hit asked for. -/
theorem evaluate_eq (p : ArmedBreakpoint H) (frame : Frame H) (line : Nat) :
    p.evaluate frame line =
      ({ p with hits := if p.qualifies frame line then min (p.hits + 1) maxHits else p.hits },
        if p.qualifies frame line && p.hitTarget.all fun target =>
          min (p.hits + 1) maxHits == target.val
        then some (p.action frame) else none) := by
  unfold evaluate action maxHits
  generalize min (p.hits + 1) (2 ^ 64 - 1) = hits
  cases hqualifies : p.qualifies frame line with
  | false => rfl
  | true =>
    cases htarget : p.hitTarget with
    | none => cases p.logMessage <;> simp
    | some target =>
      by_cases hhit : hits = target.val
      · cases p.logMessage <;> simp [hhit]
      · simp [hhit]

/-- A statement is counted and acted at as its past says. -/
theorem evaluate_after (hfile : statement.frame.file = some file) :
    (p.after file past).evaluate statement.frame statement.span.line =
      (p.after file (statement :: past),
        if p.actsAt file statement past then some (p.action statement.frame) else none) := by
  have hqualifies := Statement.meets_of_file hfile p
  rw [evaluate_eq, qualifies_after, ← hqualifies]
  unfold actsAt
  cases hmeets : statement.meets file p with
  | false =>
    have hcount := @hitsOver_cons_of_not_meets _ p file statement past (ne_true_of_eq_false hmeets)
    unfold after
    rw [hcount]
    rfl
  | true =>
    have hcount : p.hitsOver file (statement :: past) ≠ 0 := by
      rw [hitsOver_cons_of_meets hmeets]
      apply Nat.succ_ne_zero
    rw [min_hits_after hmeets, if_pos rfl]
    unfold after
    rw [if_neg hcount]
    rfl

end ArmedBreakpoint

/-! ## Actions together -/

theorem BreakpointAction.foldl_merge (actions : List BreakpointAction) (start : BreakpointAction) :
    actions.foldl .merge start =
      ⟨start.outputs ++ actions.flatMap (·.outputs), start.stop || actions.any (·.stop)⟩ := by
  induction actions generalizing start with
  | nil => simp
  | cons action actions ih =>
    rw [List.foldl_cons, ih]
    simp [BreakpointAction.merge, Bool.or_assoc]

/-! ## The armed set -/

namespace ArmedBreakpoints

/-- The armed set with the hits of a past counted. -/
def after (armed : ArmedBreakpoints H) (past : List (Statement H)) : ArmedBreakpoints H :=
  fun file => (armed file).map (·.after file past)

/-- The breakpoints that act at a statement. -/
def acting (armed : ArmedBreakpoints H) (statement : Statement H) (past : List (Statement H)) :
    List (ArmedBreakpoint H) :=
  match statement.frame.file with
  | none => []
  | some file => (armed file).filter (·.actsAt file statement past)

/-- The messages of the logpoints that act, and whether another breakpoint does. -/
def actionAt (armed : ArmedBreakpoints H) (statement : Statement H) (past : List (Statement H)) :
    BreakpointAction where
  outputs := (armed.acting statement past).filterMap fun p =>
    p.logMessage.map (renderLogMessage · statement.frame)
  stop := (armed.acting statement past).any (·.logMessage.isNone)

@[simp] theorem after_nil (armed : ArmedBreakpoints H) : armed.after [] = armed := by
  funext file
  exact List.map_id _

theorem foldl_action (acting : List (ArmedBreakpoint H)) (frame : Frame H) :
    (acting.map (·.action frame)).foldl BreakpointAction.merge BreakpointAction.default =
      ⟨acting.filterMap fun p => p.logMessage.map (renderLogMessage · frame),
        acting.any (·.logMessage.isNone)⟩ := by
  rw [BreakpointAction.foldl_merge]
  have houtputs : (acting.map (·.action frame)).flatMap (·.outputs) =
      acting.filterMap fun p => p.logMessage.map (renderLogMessage · frame) := by
    induction acting with
    | nil => rfl
    | cons p acting ih =>
      rw [List.map_cons, List.flatMap_cons, ih]
      cases hlog : p.logMessage <;> simp [ArmedBreakpoint.action, hlog]
  have hstop : (acting.map (·.action frame)).any (·.stop) = acting.any (·.logMessage.isNone) := by
    rw [List.any_map]
    congr 1
    funext p
    cases hlog : p.logMessage <;> simp [ArmedBreakpoint.action, hlog]
  rw [houtputs, hstop]
  simp [BreakpointAction.default]

/-- The armed set after a past evaluates the next statement as that past says. -/
theorem evaluate_after (armed : ArmedBreakpoints H) (statement : Statement H)
    (past : List (Statement H)) :
    (armed.after past).evaluate statement.frame statement.span.line =
      (armed.after (statement :: past), armed.actionAt statement past) := by
  unfold evaluate actionAt acting
  cases hfile : statement.frame.file with
  | none =>
    have hmeets (file : Path) (p : ArmedBreakpoint H) : ¬ statement.meets file p = true := by
      simp [Statement.meets, hfile]
    have hafter : armed.after past = armed.after (statement :: past) := by
      funext file
      apply List.map_congr_left
      intro p _
      unfold ArmedBreakpoint.after
      rw [ArmedBreakpoint.hitsOver_cons_of_not_meets (hmeets file p)]
    dsimp only
    rw [hafter]
    rfl
  | some file =>
    have hevaluate (p : ArmedBreakpoint H) :=
      @ArmedBreakpoint.evaluate_after _ p file statement past hfile
    have hothers (other : Path) (hother : other ≠ file) :
        armed.after past other = armed.after (statement :: past) other := by
      apply List.map_congr_left
      intro p _
      unfold ArmedBreakpoint.after
      rw [ArmedBreakpoint.hitsOver_cons_of_not_meets]
      simp [Statement.meets, hfile, hother.symm]
    apply Prod.ext
    · funext other
      dsimp only
      split
      · next hother =>
        subst hother
        unfold after
        simp only [List.map_map, Function.comp_def, hevaluate]
      · next hother => exact hothers other hother
    · dsimp only
      unfold after
      rw [List.map_map, List.filterMap_map, ← foldl_action]
      congr 1
      induction armed file with
      | nil => rfl
      | cons p rest ih =>
        rw [List.filterMap_cons, List.filter_cons, ih]
        simp only [Function.comp_apply, hevaluate]
        cases p.actsAt file statement past <;> rfl

end ArmedBreakpoints

end Dap

end MarrowLsp
