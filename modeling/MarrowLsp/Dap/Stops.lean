-- SUMMARY: Every run that is not terminated stops where its trace says and for the reason it says; so do the runs of the adapter (debugger.rs, step.rs).
import MarrowLsp.Dap.Traces
import MarrowLsp.Dap.AdapterSteps
import MarrowLsp.Dap.Sample

/-!
# Stops
-/
namespace MarrowLsp

namespace Dap

open Transition

variable {H : DebugHost}

/-! ## What is known along a run -/

/-- The resumes waiting in the channel. -/
def resumes (control : List (Control H)) : List Resume :=
  control.filterMap fun
    | .resume mode => some mode
    | _ => none

/-- The armed set with its counts after some visits. -/
def counted (armed : ArmedBreakpoints H) (visits : List (Visit H)) : ArmedBreakpoints H :=
  (inForce armed visits).1.after (inForce armed visits).2

/-- The run goes on from its last stop: the resume given there is taken, and those given after
it wait. -/
structure Going (run : RunThread H) (trace : Trace H) : Prop where
  mode : run.mode = modeAfter trace.modes trace.visits
  sent : resumes run.control = trace.modes.drop (stops trace.visits)
  given : stops trace.visits ≤ trace.modes.length

/-- The run is at a stop: the resume for it is not taken. -/
structure Stopped (run : RunThread H) (trace : Trace H) : Prop where
  current : trace.current = none
  visit : ∃ visit past, trace.visits = visit :: past ∧ visit.stop.isSome = true ∧
    resumes run.control = trace.modes.drop (stops past) ∧ stops past ≤ trace.modes.length

/-- What the place of the run thread says of its trace. -/
inductive Placed (stopOnEntry : Bool) (armed : ArmedBreakpoints H) (run : RunThread H)
    (trace : Trace H) : RunPc H → Prop where
  | running (hcurrent : trace.current = none)
      (hset : run.breakpoints = counted armed trace.visits)
      (hentered : run.entered = (stopOnEntry && !trace.visits.isEmpty))
      (hgoing : Going run trace) : Placed stopOnEntry armed run trace .running
  | admitted {statement : Statement H}
      (hcurrent : trace.current = some ⟨statement, [], false, [], none⟩)
      (hset : run.breakpoints = counted armed trace.visits)
      (hentered : run.entered = (stopOnEntry && !trace.visits.isEmpty))
      (hgoing : Going run trace) : Placed stopOnEntry armed run trace (.admitted statement)
  | reporting {statement : Statement H} {outputs : List String} {stop : Bool} {visit : Visit H}
      (hcurrent : trace.current = some visit) (hstatement : visit.statement = statement)
      (hstop : (actionOf armed visit trace.visits).stop = stop)
      (hset : run.breakpoints = counted armed (visit :: trace.visits))
      (houtputs : visit.outputs ++ outputs = (actionOf armed visit trace.visits).outputs)
      (hentered : run.entered = (stopOnEntry && !trace.visits.isEmpty))
      (hgoing : Going run trace) :
      Placed stopOnEntry armed run trace (.reporting statement outputs stop)
  | stopping {statement : Statement H} {info : StopInfo} {visit : Visit H}
      (hcurrent : trace.current = some visit) (hstatement : visit.statement = statement)
      (hset : run.breakpoints = counted armed (visit :: trace.visits))
      (houtputs : visit.outputs = (actionOf armed visit trace.visits).outputs)
      (hdue : (dueReason stopOnEntry armed (modeAfter trace.modes trace.visits) visit
        trace.visits).map (RunThread.stopInfo statement) = some info)
      (hentered : run.entered = stopOnEntry)
      (hgoing : Going run trace) :
      Placed stopOnEntry armed run trace (.stopping statement info)
  | parked {statement : Statement H} (hset : run.breakpoints = counted armed trace.visits)
      (hentered : run.entered = stopOnEntry) (hstopped : Stopped run trace) :
      Placed stopOnEntry armed run trace (.parked statement)
  | answering {statement : Statement H} {query : Query H}
      (hset : run.breakpoints = counted armed trace.visits)
      (hentered : run.entered = stopOnEntry) (hstopped : Stopped run trace) :
      Placed stopOnEntry armed run trace (.answering statement query)
  | ended {result : RunEnd} : Placed stopOnEntry armed run trace (.ended result)

/-- What holds of a run and its trace after every step. -/
structure StopInv (stopOnEntry : Bool) (armed : ArmedBreakpoints H) (run : RunThread H)
    (trace : Trace H) : Prop where
  terminate : run.terminate = false
  control : .terminate ∉ run.control
  onEntry : run.stopOnEntry = stopOnEntry
  pause : run.pause = trace.paused
  swaps : run.breakpointSwaps = trace.pushed
  placed : Placed stopOnEntry armed run trace run.pc
  accounted : ∀ visit past, visit :: past <:+ trace.visits →
    Accounted stopOnEntry armed trace.modes visit past

theorem stopInv_start (stopOnEntry : Bool) (armed : ArmedBreakpoints H) :
    StopInv stopOnEntry armed (.start stopOnEntry armed) .start where
  terminate := rfl
  control := nofun
  onEntry := rfl
  pause := rfl
  swaps := rfl
  placed := by
    refine .running rfl ?_ (Bool.and_false _).symm ⟨rfl, rfl, Nat.le_refl _⟩
    exact (ArmedBreakpoints.after_nil armed).symm
  accounted := by
    intro visit past h
    cases List.suffix_nil.mp h

/-! ## Small facts -/

section Facts

variable {stopOnEntry : Bool} {armed : ArmedBreakpoints H} {run run' : RunThread H}
  {trace trace' : Trace H} {modes : List Resume} {visit : Visit H} {past : List (Visit H)}

theorem stops_cons_of_isSome (h : visit.stop.isSome = true) :
    stops (visit :: past) = stops past + 1 := List.countP_cons_of_pos h

theorem stops_cons_of_none (h : visit.stop = none) : stops (visit :: past) = stops past := by
  apply List.countP_cons_of_neg
  rw [h]
  exact Bool.false_ne_true

/-- A resume that is given later changes no mode. -/
theorem modeAfter_append (mode : Resume) (h : stops past ≤ modes.length) :
    modeAfter (modes ++ [mode]) past = modeAfter modes past := by
  unfold modeAfter
  rw [← List.cons_append, List.getElem?_append_left]
  exact Nat.lt_succ_of_le h

theorem Accounted.append (mode : Resume) (h : Accounted stopOnEntry armed modes visit past) :
    Accounted stopOnEntry armed (modes ++ [mode]) visit past where
  outputs := h.outputs
  stop := by
    rw [modeAfter_append mode h.resumed]
    exact h.stop
  resumed := by
    rw [List.length_append]
    exact Nat.le_add_right_of_le h.resumed

theorem resumes_append (control : List (Control H)) (mode : Resume) :
    resumes (control ++ [.resume mode]) = resumes control ++ [mode] := List.filterMap_append

theorem Going.append (mode : Resume) (h : Going run trace) :
    Going (run.send (.resume mode)) { trace with modes := trace.modes ++ [mode] } where
  mode := by
    rw [modeAfter_append mode h.given]
    exact h.mode
  sent := by
    rw [RunThread.send, resumes_append, List.drop_append_of_le_length h.given, h.sent]
  given := by
    rw [List.length_append]
    exact Nat.le_add_right_of_le h.given

/-- Only the number of stops matters. -/
theorem Going.of_stops (h : Going run trace) (hmode : run'.mode = run.mode)
    (hcontrol : run'.control = run.control) (hmodes : trace'.modes = trace.modes)
    (hstops : stops trace'.visits = stops trace.visits) : Going run' trace' where
  mode := by
    unfold modeAfter
    rw [hmode, hmodes, hstops]
    exact h.mode
  sent := by
    rw [hcontrol, hmodes, hstops]
    exact h.sent
  given := by
    rw [hmodes, hstops]
    exact h.given

theorem Stopped.append (mode : Resume) (h : Stopped run trace) :
    Stopped (run.send (.resume mode)) { trace with modes := trace.modes ++ [mode] } where
  current := h.current
  visit := by
    obtain ⟨visit, past, hvisits, hstop, hsent, hgiven⟩ := h.visit
    refine ⟨visit, past, hvisits, hstop, ?_, ?_⟩
    · rw [RunThread.send, resumes_append, List.drop_append_of_le_length hgiven, hsent]
    · rw [List.length_append]
      exact Nat.le_add_right_of_le hgiven

/-- The trace says as much where the copy, the mode, the entry flag and the waiting resumes
are the same. -/
theorem Placed.congr {pc : RunPc H} (h : Placed stopOnEntry armed run trace pc)
    (hbreakpoints : run'.breakpoints = run.breakpoints) (hentered : run'.entered = run.entered)
    (hmode : run'.mode = run.mode) (hresumes : resumes run'.control = resumes run.control)
    (hcurrent : trace'.current = trace.current) (hvisits : trace'.visits = trace.visits)
    (hmodes : trace'.modes = trace.modes) : Placed stopOnEntry armed run' trace' pc := by
  obtain ⟨visits, current, pushed, paused, modes⟩ := trace
  obtain ⟨visits', current', pushed', paused', modes'⟩ := trace'
  cases hcurrent
  cases hvisits
  cases hmodes
  have going (h : Going run ⟨visits, current, pushed, paused, modes⟩) :
      Going run' ⟨visits, current, pushed', paused', modes⟩ :=
    ⟨hmode.trans h.mode, hresumes.trans h.sent, h.given⟩
  have stopped (h : Stopped run ⟨visits, current, pushed, paused, modes⟩) :
      Stopped run' ⟨visits, current, pushed', paused', modes⟩ := by
    obtain ⟨visit, past, hvisits, hstop, hsent, hgiven⟩ := h.visit
    exact ⟨h.current, visit, past, hvisits, hstop, hresumes.trans hsent, hgiven⟩
  cases h with
  | running hcurrent hset hentered' hgoing =>
    exact .running hcurrent (hbreakpoints.trans hset) (hentered.trans hentered') (going hgoing)
  | admitted hcurrent hset hentered' hgoing =>
    exact .admitted hcurrent (hbreakpoints.trans hset) (hentered.trans hentered') (going hgoing)
  | reporting hcurrent hstatement hstop hset houtputs hentered' hgoing =>
    exact .reporting hcurrent hstatement hstop (hbreakpoints.trans hset) houtputs
      (hentered.trans hentered')
      (going hgoing)
  | stopping hcurrent hstatement hset houtputs hdue hentered' hgoing =>
    exact .stopping hcurrent hstatement (hbreakpoints.trans hset) houtputs hdue
      (hentered.trans hentered')
      (going hgoing)
  | parked hset hentered' hstopped =>
    exact .parked (hbreakpoints.trans hset) (hentered.trans hentered') (stopped hstopped)
  | answering hset hentered' hstopped =>
    exact .answering (hbreakpoints.trans hset) (hentered.trans hentered') (stopped hstopped)
  | ended => exact .ended

theorem Placed.append {pc : RunPc H} (mode : Resume) (h : Placed stopOnEntry armed run trace pc) :
    Placed stopOnEntry armed (run.send (.resume mode))
      { trace with modes := trace.modes ++ [mode] } pc := by
  cases h with
  | running hcurrent hset hentered hgoing =>
    exact .running hcurrent hset hentered (hgoing.append mode)
  | admitted hcurrent hset hentered hgoing =>
    exact .admitted hcurrent hset hentered (hgoing.append mode)
  | reporting hcurrent hstatement hstop hset houtputs hentered hgoing =>
    exact .reporting hcurrent hstatement hstop hset houtputs hentered (hgoing.append mode)
  | stopping hcurrent hstatement hset houtputs hdue hentered hgoing =>
    refine .stopping hcurrent hstatement hset houtputs ?_ hentered (hgoing.append mode)
    dsimp only
    rw [modeAfter_append mode hgoing.given]
    exact hdue
  | parked hset hentered hstopped => exact .parked hset hentered (hstopped.append mode)
  | answering hset hentered hstopped => exact .answering hset hentered (hstopped.append mode)
  | ended => exact .ended

/-- The set found at a visit with its counts, from the counts that the visit before left. -/
theorem after_finds (visit : Visit H) (left : ArmedBreakpoints H × List (Statement H)) :
    (visit.finds left).1.after (visit.finds left).2 =
      visit.pushed.getLast?.getD (left.1.after left.2) := by
  unfold Visit.finds
  cases visit.pushed.getLast? with
  | none => rfl
  | some pushed => exact ArmedBreakpoints.after_nil pushed

/-- The drain and the evaluation of a visit. -/
theorem evaluate_counted (visit : Visit H) (past : List (Visit H)) :
    (visit.pushed.getLast?.getD (counted armed past)).evaluate visit.statement.frame
        visit.statement.span.line =
      (counted armed (visit :: past), actionOf armed visit past) := by
  unfold counted
  rw [← after_finds, ArmedBreakpoints.evaluate_after]
  rfl

/-! ## The decision -/

theorem decideStop_of_ne {mode : Resume} (h : mode ≠ .pause) (depth : Nat) :
    decideStop mode depth = if mode.targets depth then some .step else none := by
  cases mode with
  | pause => exact absurd rfl h
  | «over» fromDepth => simp [decideStop, Resume.targets]
  | out fromDepth => simp [decideStop, Resume.targets]
  | _ => rfl

/-- The hook decides for the first reason that applies. -/
theorem stopReason_fst (hpaused : run.pause = visit.paused)
    (honEntry : run.stopOnEntry = stopOnEntry)
    (hentered : run.entered = (stopOnEntry && !past.isEmpty)) :
    (run.stopReason visit.statement (actionOf armed visit past).stop).1 =
      dueReason stopOnEntry armed run.mode visit past := by
  unfold RunThread.stopReason RunThread.isEntryStop dueReason
  rw [hpaused, honEntry, hentered]
  generalize hstop : (actionOf armed visit past).stop = stop
  cases hentry : stopOnEntry && past.isEmpty with
  | true =>
    obtain ⟨rfl, hempty⟩ := Bool.and_eq_true_iff.mp hentry
    simp [applies, hempty]
  | false =>
    have hnot : (stopOnEntry && !(stopOnEntry && !past.isEmpty)) = false := by
      cases stopOnEntry <;> simp_all
    rw [hnot]
    cases hpause : visit.paused with
    | true => simp [applies, hentry, hpause]
    | false =>
      by_cases hmode : run.mode = .pause
      · simp [applies, hentry, hmode, decideStop]
      · rw [decideStop_of_ne hmode]
        cases htargets : run.mode.targets visit.statement.frame.depth with
        | true => simp [applies, hentry, hpause, hmode, htargets]
        | false =>
          cases stop <;> simp [applies, hentry, hpause, hmode, htargets, hstop]

/-- The resume taken at a stop is the mode that the run goes on in. -/
theorem Stopped.resumed {mode : Resume} {control : List (Control H)} (h : Stopped run trace)
    (hcontrol : run.control = .resume mode :: control) :
    Going { run with control := control, mode := mode, pc := .running } trace := by
  obtain ⟨visit, past, hvisits, hstop, hsent, hgiven⟩ := h.visit
  have hcount : stops trace.visits = stops past + 1 := by
    rw [hvisits]
    exact stops_cons_of_isSome hstop
  have hqueue : mode :: resumes control = trace.modes.drop (stops past) := by
    rw [← hsent, hcontrol]
    rfl
  have hmode : trace.modes[stops past]? = some mode := by
    rw [← List.head?_drop, ← hqueue]
    rfl
  refine ⟨?_, ?_, ?_⟩
  · unfold modeAfter
    rw [hcount, List.getElem?_cons_succ, hmode]
    rfl
  · rw [hcount, ← List.drop_drop, ← hqueue]
    rfl
  · rw [hcount]
    exact (List.getElem?_eq_some_iff.mp hmode).1

/-! ## Steps -/

/-- One more visit that is as the trace says. -/
theorem accounted_cons {visits : List (Visit H)}
    (h : ∀ visit past, visit :: past <:+ visits → Accounted stopOnEntry armed modes visit past)
    (hvisit : Accounted stopOnEntry armed modes visit visits) :
    ∀ other past, other :: past <:+ visit :: visits →
      Accounted stopOnEntry armed modes other past := by
  intro other past hsuffix
  obtain heq | hsuffix := List.suffix_cons_iff.mp hsuffix
  · obtain ⟨rfl, rfl⟩ := List.cons.inj heq
    exact hvisit
  · exact h other past hsuffix

/-- The decision at the visit under way. -/
theorem stopReason_of_visit {next : RunThread H} {reason : Option StopReason}
    (h : StopInv stopOnEntry armed run trace)
    (hentered : run.entered = (stopOnEntry && !trace.visits.isEmpty))
    (hreason : run.stopReason visit.statement (actionOf armed visit trace.visits).stop =
      (reason, next)) :
    dueReason stopOnEntry armed run.mode { visit with paused := trace.paused } trace.visits =
        reason ∧
      next = { run with entered := stopOnEntry, pause := false } := by
  let visit' : Visit H := { visit with paused := trace.paused }
  have hfst :=
    @stopReason_fst _ stopOnEntry armed run visit' trace.visits h.pause h.onEntry hentered
  have haction : actionOf armed visit' trace.visits = actionOf armed visit trace.visits := rfl
  rw [haction, hreason] at hfst
  refine ⟨hfst.symm, (RunThread.eq_of_stopReason hreason).trans ?_⟩
  rw [h.onEntry, hentered]
  cases stopOnEntry <;> rfl

/-- The visit begins when its swaps are drained and its statement is counted. -/
theorem stopInv_drained {statement : Statement H} {breakpoints : ArmedBreakpoints H}
    {action : BreakpointAction} (h : StopInv stopOnEntry armed run trace)
    (hpc : run.pc = .admitted statement)
    (hevaluate : run.drainBreakpointSwaps.breakpoints.evaluate statement.frame
      statement.span.line = (breakpoints, action)) :
    StopInv stopOnEntry armed { run with
      breakpoints := breakpoints
      breakpointSwaps := []
      pc := .reporting statement action.outputs action.stop } trace.drain := by
  have hplaced := h.placed
  rw [hpc] at hplaced
  cases hplaced with
  | admitted hcurrent hset hentered hgoing =>
    let visit : Visit H := ⟨statement, trace.pushed, false, [], none⟩
    have hdrained : run.drainBreakpointSwaps.breakpoints =
        visit.pushed.getLast?.getD (counted armed trace.visits) := by
      rw [← hset]
      exact congrArg (fun swaps => swaps.getLast?.getD run.breakpoints) h.swaps
    rw [hdrained] at hevaluate
    obtain ⟨rfl, rfl⟩ := Prod.mk.inj (hevaluate.symm.trans (evaluate_counted visit trace.visits))
    have hcurrent' : trace.drain.current = some visit := by
      unfold Trace.drain
      rw [hcurrent]
      rfl
    exact ⟨h.terminate, h.control, h.onEntry, h.pause, rfl,
      .reporting hcurrent' rfl rfl rfl rfl hentered ⟨hgoing.mode, hgoing.sent, hgoing.given⟩,
      h.accounted⟩

/-- One message less is due for each that is sent. -/
theorem stopInv_sent {statement : Statement H} {output : String} {outputs : List String}
    {stop : Bool} (h : StopInv stopOnEntry armed run trace)
    (hpc : run.pc = .reporting statement (output :: outputs) stop) :
    StopInv stopOnEntry armed { run with
      events := run.events ++ [.output output]
      pc := .reporting statement outputs stop } (trace.output output) := by
  have hplaced := h.placed
  rw [hpc] at hplaced
  cases hplaced with
  | @reporting _ _ _ visit hcurrent hstatement hstop hset houtputs hentered hgoing =>
    have hcurrent' : (trace.output output).current =
        some { visit with outputs := visit.outputs ++ [output] } := by
      unfold Trace.output
      rw [hcurrent]
      rfl
    have houtputs' : (visit.outputs ++ [output]) ++ outputs =
        (actionOf armed visit trace.visits).outputs := by
      rw [List.append_assoc]
      exact houtputs
    exact ⟨h.terminate, h.control, h.onEntry, h.pause, h.swaps,
      .reporting hcurrent' hstatement hstop hset houtputs' hentered
        ⟨hgoing.mode, hgoing.sent, hgoing.given⟩,
      h.accounted⟩

/-- A visit that has no reason to stop is over. -/
theorem stopInv_passed {statement : Statement H} {stop : Bool} {next : RunThread H}
    (h : StopInv stopOnEntry armed run trace) (hpc : run.pc = .reporting statement [] stop)
    (hreason : run.stopReason statement stop = (none, next)) :
    StopInv stopOnEntry armed { next with pc := .running } (trace.settle.finish none) := by
  have hplaced := h.placed
  rw [hpc] at hplaced
  cases hplaced with
  | @reporting _ _ _ visit hcurrent hstatement hstop hset houtputs hentered hgoing =>
    subst hstatement hstop
    obtain ⟨hdue, rfl⟩ := stopReason_of_visit h hentered hreason
    rw [hgoing.mode] at hdue
    let visit' : Visit H := { visit with paused := trace.paused, stop := none }
    have hvisits : (trace.settle.finish none).visits = visit' :: trace.visits := by
      simp only [Trace.finish, Trace.settle, hcurrent]
      rfl
    have hstops : stops (visit' :: trace.visits) = stops trace.visits := stops_cons_of_none rfl
    have haccounted : Accounted stopOnEntry armed trace.modes visit' trace.visits := by
      refine ⟨?_, ?_, hgoing.given⟩
      · exact (List.append_nil _).symm.trans houtputs
      · exact (congrArg (Option.map _) hdue).symm
    refine ⟨h.terminate, h.control, h.onEntry, rfl, h.swaps, ?_, ?_⟩
    · refine .running rfl ?_ ?_ ?_
      · rw [hvisits]
        exact hset
      · rw [hvisits]
        exact (Bool.and_true _).symm
      · exact hgoing.of_stops rfl rfl rfl (by rw [hvisits, hstops])
    · rw [hvisits]
      exact accounted_cons h.accounted haccounted

/-- A visit that has a reason to stop is on its way to it. -/
theorem stopInv_decided {statement : Statement H} {stop : Bool} {reason : StopReason}
    {next : RunThread H} (h : StopInv stopOnEntry armed run trace)
    (hpc : run.pc = .reporting statement [] stop)
    (hreason : run.stopReason statement stop = (some reason, next)) :
    StopInv stopOnEntry armed
      { next with pc := .stopping statement (RunThread.stopInfo statement reason) }
      trace.settle := by
  have hplaced := h.placed
  rw [hpc] at hplaced
  cases hplaced with
  | @reporting _ _ _ visit hcurrent hstatement hstop hset houtputs hentered hgoing =>
    subst hstatement hstop
    obtain ⟨hdue, rfl⟩ := stopReason_of_visit h hentered hreason
    rw [hgoing.mode] at hdue
    have hcurrent' : trace.settle.current = some { visit with paused := trace.paused } := by
      simp only [Trace.settle, hcurrent]
      rfl
    refine ⟨h.terminate, h.control, h.onEntry, rfl, h.swaps, ?_, h.accounted⟩
    refine .stopping hcurrent' rfl hset ?_ ?_ rfl (hgoing.of_stops rfl rfl rfl rfl)
    · exact (List.append_nil _).symm.trans houtputs
    · exact congrArg (Option.map _) hdue

/-- The visit is over where its stop is announced, and the run is parked there. -/
theorem stopInv_announced {statement : Statement H} {info : StopInfo}
    (h : StopInv stopOnEntry armed run trace) (hpc : run.pc = .stopping statement info) :
    StopInv stopOnEntry armed { run with
      events := run.events ++ [.stopped info]
      pc := .parked statement } (trace.finish (some info)) := by
  have hplaced := h.placed
  rw [hpc] at hplaced
  cases hplaced with
  | @stopping _ _ visit hcurrent hstatement hset houtputs hdue hentered hgoing =>
    subst hstatement
    let visit' : Visit H := { visit with stop := some info }
    have hvisits : (trace.finish (some info)).visits = visit' :: trace.visits := by
      simp only [Trace.finish, hcurrent]
      rfl
    have haccounted : Accounted stopOnEntry armed trace.modes visit' trace.visits :=
      ⟨houtputs, hdue.symm, hgoing.given⟩
    refine ⟨h.terminate, h.control, h.onEntry, h.pause, h.swaps, ?_, ?_⟩
    · refine .parked ?_ hentered
        ⟨rfl, visit', trace.visits, hvisits, rfl, hgoing.sent, hgoing.given⟩
      rw [hvisits]
      exact hset
    · rw [hvisits]
      exact accounted_cons h.accounted haccounted

/-- What is received leaves no order to terminate behind. -/
theorem StopInv.control_tail {message : Control H} {control : List (Control H)}
    (h : StopInv stopOnEntry armed run trace) (hcontrol : run.control = message :: control) :
    .terminate ∉ control := by
  intro hmem
  apply h.control
  rw [hcontrol]
  exact List.mem_cons_of_mem _ hmem

/-- A parked run goes on in the mode that it receives. -/
theorem stopInv_resumed {statement : Statement H} {mode : Resume} {control : List (Control H)}
    (h : StopInv stopOnEntry armed run trace) (hpc : run.pc = .parked statement)
    (hcontrol : run.control = .resume mode :: control) :
    StopInv stopOnEntry armed { run with control := control, mode := mode, pc := .running }
      trace := by
  have hplaced := h.placed
  rw [hpc] at hplaced
  cases hplaced with
  | parked hset hentered hstopped =>
    refine ⟨h.terminate, h.control_tail hcontrol, h.onEntry, h.pause, h.swaps, ?_, h.accounted⟩
    refine .running hstopped.current hset ?_ (hstopped.resumed hcontrol)
    obtain ⟨visit, past, hvisits, -⟩ := hstopped.visit
    rw [hentered, hvisits]
    exact (Bool.and_true _).symm

/-- A step of the run thread keeps the trace accounted for. -/
theorem stopInv_ran {step : RunStep H} (h : StopInv stopOnEntry armed run trace)
    (hstep : run.step true step = some run') :
    StopInv stopOnEntry armed run' (trace.noteRun run step) := by
  have hplaced := h.placed
  have hran := ran_of_step hstep h.terminate h.control
  cases hran with
  | @admitted statement hpc =>
    rw [hpc] at hplaced
    cases hplaced with
    | running hcurrent hset hentered hgoing =>
      exact ⟨h.terminate, h.control, h.onEntry, h.pause, h.swaps,
        .admitted rfl hset hentered ⟨hgoing.mode, hgoing.sent, hgoing.given⟩, h.accounted⟩
  | drained hpc hevaluate => exact stopInv_drained h hpc hevaluate
  | @sent statement output outputs stop hpc =>
    have hnote : trace.noteRun run .report = trace.output output := by
      simp only [Trace.noteRun, hpc]
    rw [hnote]
    exact stopInv_sent h hpc
  | passed hpc hreason =>
    have hnote : trace.noteRun run .report = trace.settle.finish none := by
      simp only [Trace.noteRun, hpc, RunThread.lets, hstep, if_true]
    rw [hnote]
    exact stopInv_passed h hpc hreason
  | decided hpc hreason =>
    have hnote : trace.noteRun run .report = trace.settle := by
      simp only [Trace.noteRun, hpc, RunThread.lets, hstep]
      rfl
    rw [hnote]
    exact stopInv_decided h hpc hreason
  | @announced statement info hpc =>
    have hnote : trace.noteRun run .announce = trace.finish (some info) := by
      simp only [Trace.noteRun, hpc]
    rw [hnote]
    exact stopInv_announced h hpc
  | @asked statement query control hpc hcontrol =>
    rw [hpc] at hplaced
    cases hplaced with
    | parked hset hentered hstopped =>
      obtain ⟨visit, past, hvisits, hstop, hsent, hgiven⟩ := hstopped.visit
      rw [hcontrol] at hsent
      exact ⟨h.terminate, h.control_tail hcontrol, h.onEntry, h.pause, h.swaps,
        .answering hset hentered ⟨hstopped.current, visit, past, hvisits, hstop, hsent, hgiven⟩,
        h.accounted⟩
  | resumed hpc hcontrol => exact stopInv_resumed h hpc hcontrol
  | @answered statement query hpc =>
    rw [hpc] at hplaced
    cases hplaced with
    | answering hset hentered hstopped =>
      exact ⟨h.terminate, h.control, h.onEntry, h.pause, h.swaps,
        .parked hset hentered ⟨hstopped.current, hstopped.visit⟩, h.accounted⟩
  | @ended _ result hended =>
    obtain ⟨result, output, log, rfl⟩ | rfl := hended
    · exact ⟨h.terminate, h.control, h.onEntry, h.pause, h.swaps, .ended, h.accounted⟩
    · exact ⟨h.terminate, h.control, h.onEntry, h.pause, h.swaps, .ended, h.accounted⟩

theorem stopInv_hooked {step : HookStep H} (h : StopInv stopOnEntry armed run trace)
    (hstep : run.hooked step = some run') :
    StopInv stopOnEntry armed run' (trace.note run step) := by
  cases step with
  | run step => exact stopInv_ran h hstep
  | pause =>
    cases hstep
    exact ⟨h.terminate, h.control, h.onEntry, rfl, h.swaps,
      h.placed.congr rfl rfl rfl rfl rfl rfl rfl, h.accounted⟩
  | arm breakpoints =>
    cases hstep
    exact ⟨h.terminate, h.control, h.onEntry, h.pause, congrArg (· ++ [breakpoints]) h.swaps,
      h.placed.congr rfl rfl rfl rfl rfl rfl rfl, h.accounted⟩
  | query query =>
    cases hstep
    have hcontrol : .terminate ∉ (run.send (.query query)).control := by
      intro hmem
      obtain hmem | hmem := List.mem_append.mp hmem
      · exact h.control hmem
      · cases List.mem_singleton.mp hmem
    have hresumes : resumes (run.send (.query query)).control = resumes run.control := by
      unfold resumes RunThread.send
      rw [List.filterMap_append]
      exact List.append_nil _
    exact ⟨h.terminate, hcontrol, h.onEntry, h.pause, h.swaps,
      h.placed.congr rfl rfl rfl hresumes rfl rfl rfl, h.accounted⟩
  | resume mode =>
    cases hstep
    have hcontrol : .terminate ∉ (run.send (.resume mode)).control := by
      intro hmem
      obtain hmem | hmem := List.mem_append.mp hmem
      · exact h.control hmem
      · cases List.mem_singleton.mp hmem
    exact ⟨h.terminate, hcontrol, h.onEntry, h.pause, h.swaps, h.placed.append mode,
      fun visit past hsuffix => (h.accounted visit past hsuffix).append mode⟩
  | take =>
    cases hstep
    exact ⟨h.terminate, h.control, h.onEntry, h.pause, h.swaps,
      h.placed.congr rfl rfl rfl rfl rfl rfl rfl, h.accounted⟩

theorem stopInv_of_reachable
    (h : Reachable (recorded RunThread.hooked Trace.note) (.start stopOnEntry armed, .start)
      (run, trace)) : StopInv stopOnEntry armed run trace := by
  refine h.invariant (I := fun y => StopInv stopOnEntry armed y.1 y.2)
    (stopInv_start stopOnEntry armed) ?_
  rintro ⟨run, trace⟩ step ⟨next, after⟩ hinv - hstep
  obtain ⟨hstep, rfl⟩ := recorded_eq_some_iff.mp hstep
  exact stopInv_hooked hinv hstep

/-! ## The next stop -/


theorem stops_append_of_quiet {between : List (Visit H)}
    (h : ∀ other ∈ between, other.stop = none) : stops (between ++ past) = stops past := by
  induction between with
  | nil => rfl
  | cons other rest ih =>
    rw [List.cons_append, stops_cons_of_none (h other List.mem_cons_self)]
    apply ih
    intro visit hvisit
    exact h visit (List.mem_cons_of_mem _ hvisit)

theorem modeAfter_of_quiet (modes : List Resume) (past : List (Visit H)) {between : List (Visit H)}
    (h : ∀ other ∈ between, other.stop = none) :
    modeAfter modes (between ++ past) = modeAfter modes past := by
  unfold modeAfter
  rw [stops_append_of_quiet h]

theorem Accounted.stop_eq_none_iff (h : Accounted stopOnEntry armed modes visit past) :
    visit.stop = none ↔ dueReason stopOnEntry armed (modeAfter modes past) visit past = none := by
  rw [h.stop, Option.map_eq_none_iff]

/-- The run goes through some visits without a stop exactly where the mode it goes on in has no
reason to. -/
theorem quiet_iff {visits between : List (Visit H)}
    (h : ∀ visit past, visit :: past <:+ visits → Accounted stopOnEntry armed modes visit past)
    (hsuffix : between ++ past <:+ visits) :
    (∀ other ∈ between, other.stop = none) ↔ ∀ other rest, other :: rest <:+ between →
      dueReason stopOnEntry armed (modeAfter modes past) other (rest ++ past) = none := by
  induction between with
  | nil => simp
  | cons first between ih =>
    have haccounted := h first (between ++ past) hsuffix
    have hrest := ih ((List.suffix_cons first _).trans hsuffix)
    constructor
    · intro hnone other rest hother
      have hbetween (visit : Visit H) (hvisit : visit ∈ between) : visit.stop = none :=
        hnone visit (List.mem_cons_of_mem _ hvisit)
      obtain heq | hother := List.suffix_cons_iff.mp hother
      · obtain ⟨rfl, rfl⟩ := List.cons.inj heq
        have hmode := modeAfter_of_quiet modes past hbetween
        rw [← hmode]
        exact haccounted.stop_eq_none_iff.mp (hnone other List.mem_cons_self)
      · exact hrest.mp hbetween other rest hother
    · intro hnone
      have hbetween := hrest.mpr fun other rest hother =>
        hnone other rest (List.suffix_cons_iff.mpr (.inr hother))
      have hmode := modeAfter_of_quiet modes past hbetween
      intro other hother
      obtain rfl | hother := List.mem_cons.mp hother
      · apply haccounted.stop_eq_none_iff.mpr
        rw [hmode]
        exact hnone other between (List.suffix_refl _)
      · exact hbetween other hother

theorem nextStop_iff {visits between : List (Visit H)}
    (h : ∀ visit past, visit :: past <:+ visits → Accounted stopOnEntry armed modes visit past)
    (hsuffix : visit :: (between ++ past) <:+ visits) :
    NextStop visit between ↔
      FirstDue stopOnEntry armed (modeAfter modes past) visit between past := by
  have hquiet := quiet_iff h ((List.suffix_cons visit _).trans hsuffix)
  have haccounted := h visit (between ++ past) hsuffix
  have hstop (hbetween : ∀ other ∈ between, other.stop = none) : visit.stop.isSome = true ↔
      (dueReason stopOnEntry armed (modeAfter modes past) visit (between ++ past)).isSome =
        true := by
    rw [haccounted.stop, Option.isSome_map,
      modeAfter_of_quiet modes past hbetween]
  constructor
  · rintro ⟨hvisit, hbetween⟩
    exact ⟨(hstop hbetween).mp hvisit, hquiet.mp hbetween⟩
  · rintro ⟨hdue, hbetween⟩
    exact ⟨(hstop (hquiet.mpr hbetween)).mpr hdue, hquiet.mpr hbetween⟩

/-- A reason found to stop applies. -/
theorem applies_of_dueReason {mode : Resume} {reason : StopReason}
    (h : dueReason stopOnEntry armed mode visit past = some reason) :
    applies stopOnEntry armed mode visit past reason = true := List.find?_some h

theorem StopInv.asTraced (h : StopInv stopOnEntry armed run trace) :
    StopsAsTraced stopOnEntry armed run trace := by
  refine ⟨h.accounted, ?_, ?_, ?_⟩
  · intro visit between past hsuffix
    exact nextStop_iff h.accounted hsuffix
  · intro visit past info hsuffix hstop hreason
    rw [(h.accounted visit past hsuffix).stop, Option.map_eq_some_iff] at hstop
    obtain ⟨reason, hdue, rfl⟩ := hstop
    cases hreason
    have happlies := applies_of_dueReason hdue
    obtain ⟨hentry, hempty⟩ := Bool.and_eq_true_iff.mp happlies
    exact ⟨hentry, List.isEmpty_iff.mp hempty⟩
  · intro hpc
    have hplaced := h.placed
    rw [hpc] at hplaced
    cases hplaced with
    | running hcurrent hset hentered hgoing => exact hset

end Facts

/-- Every run that is not terminated stops where its trace says. -/
theorem stopsAsTraced (stopOnEntry : Bool) (armed : ArmedBreakpoints H) (run : RunThread H)
    (trace : Trace H)
    (h : Reachable (recorded RunThread.hooked Trace.note) (.start stopOnEntry armed, .start)
      (run, trace)) : StopsAsTraced stopOnEntry armed run trace :=
  (stopInv_of_reachable h).asTraced

/-- The entry stop, a step over into a call, a pause while the call runs, and a breakpoint at
its second hit. -/
def Sample.stopped : List (HookStep Sample.host) :=
  let visit (line depth : Nat) : List (HookStep Sample.host) :=
    [.run (.statement (statement fileA line depth)), .run .drain, .run .report]
  let stop (line depth : Nat) (mode : Resume) : List (HookStep Sample.host) :=
    visit line depth ++ [.run .announce, .take, .resume mode, .run .receive]
  stop 1 0 (.over 0) ++ visit 3 1 ++ [.pause] ++ stop 2 1 .continue ++ visit 2 1 ++
    stop 3 1 .continue ++ visit 3 0

/-- A breakpoint on the third line, at its second hit. -/
def Sample.armed : ArmedBreakpoints Sample.host :=
  ArmedBreakpoints.empty.insert fileA (.new 3 none (some 2) none)

theorem stopsAsTraced_stopped :
    ∃ run trace, Transition.run (recorded RunThread.hooked Trace.note)
        (.start true Sample.armed, .start) Sample.stopped = some (run, trace) ∧
      trace.visits.map (·.stop.map (·.reason)) =
        [none, some .breakpoint, none, some .pause, none, some .entry] ∧
      StopsAsTraced true Sample.armed run trace := by
  obtain ⟨⟨run, trace⟩, hrun, hreasons⟩ : ∃ y, Transition.run
      (recorded RunThread.hooked Trace.note) (.start true Sample.armed, .start) Sample.stopped =
        some y ∧ y.2.visits.map (·.stop.map (·.reason)) =
          [none, some .breakpoint, none, some .pause, none, some .entry] := ⟨_, rfl, rfl⟩
  exact ⟨run, trace, hrun, hreasons,
    stopsAsTraced true Sample.armed run trace (reachable_of_run hrun)⟩

/-! ## The runs of the adapter -/

/-- While the session has a run that it did not tell to terminate, the run thread has only
been hooked since its start. -/
def Hooked (session : Session H) (run : Option (RunThread H)) : Prop :=
  session.running.isSome = true → ∀ thread, run = some thread → thread.terminate = false →
    ∃ stopOnEntry armed, Reachable RunThread.hooked (.start stopOnEntry armed) thread

theorem Hooked.of_none {session : Session H} (run : Option (RunThread H))
    (hrunning : session.running = none) : Hooked session run := by
  intro hsome
  rw [hrunning] at hsome
  cases hsome

/-- The session is as far, and the run thread makes a step. -/
theorem Hooked.step {s t : Session H} {run run' : RunThread H} (step : HookStep H)
    (h : Hooked s (some run)) (hrunning : t.running.isSome = true → s.running.isSome = true)
    (hterminate : run'.terminate = run.terminate) (hstep : run.hooked step = some run') :
    Hooked t (some run') := by
  rintro hsome _ ⟨⟩ hkept
  obtain ⟨stopOnEntry, armed, hreach⟩ := h (hrunning hsome) run rfl (hterminate.symm.trans hkept)
  exact ⟨stopOnEntry, armed, hreach.snoc trivial hstep⟩

theorem Hooked.map {s : Session H} {run : Option (RunThread H)} {f : RunThread H → RunThread H}
    (step : HookStep H) (h : Hooked s run)
    (hterminate : ∀ thread, (f thread).terminate = thread.terminate)
    (hstep : ∀ thread, thread.hooked step = some (f thread)) : Hooked s (run.map f) := by
  cases run with
  | none => exact h
  | some thread => exact h.step step id (hterminate thread) (hstep thread)

theorem Hooked.session {s t : Session H} {run : Option (RunThread H)} (h : Hooked s run)
    (hrunning : t.running = s.running) : Hooked t run := by
  unfold Hooked
  rw [hrunning]
  exact h

theorem hooked_terminateSession {a : Adapter H} (h : Hooked a.session a.run) :
    Hooked a.terminateSession.session a.terminateSession.run := by
  unfold Adapter.terminateSession
  split
  · intro _ thread hthread hterminate
    obtain ⟨before, -, rfl⟩ := Option.map_eq_some_iff.mp hthread
    cases hterminate
  · exact h.session rfl

theorem hooked_handled {a : Adapter H} {request : Json} {t : Session H} {effect : Effect H}
    (h : Hooked a.session a.run) (hhandled : a.session.Handled request (t, effect)) :
    Hooked ({ a with session := t }.perform request effect).session
      ({ a with session := t }.perform request effect).run := by
  cases hhandled with
  | replied hreply =>
    exact h.session hreply.running
  | launchFailed hrunning hreply =>
    exact h.session hreply.running
  | launched pending launch hrunning hreply =>
    exact h.session hreply.running
  | breakpointsSet source requested hstopPoints hreply =>
    have hsession := h.session hreply.running
    split
    · exact hsession.map (.arm _) (fun _ => rfl) fun _ => rfl
    · exact hsession
  | started pending boundary hpending hreply =>
    rintro - _ ⟨⟩ -
    exact ⟨_, _, .refl⟩
  | notStarted pending hpending hreply =>
    exact h.session hreply.running
  | noThread pending hpending hreply =>
    exact hooked_terminateSession (h.session hreply.running)
  | asked query hstopped =>
    unfold Adapter.perform
    dsimp only
    split
    · have hreply := a.session.replies_afterQuery request query none
      exact h.session hreply.running
    · exact h.map (.query _) (fun _ => rfl) fun _ => rfl
  | @resumed u mode events hstopped hevents hpause hreply =>
    intro hsome
    refine h ?_
    rw [← hreply.running]
    exact Option.isSome_map.symm.trans hsome
  | paused running hrunning hstopped hpause hreply =>
    exact (h.session hreply.running).map .pause (fun _ => rfl) fun _ => rfl
  | ending hends hreply =>
    exact hooked_terminateSession (h.session hreply.running)

/-- The thread reads the terminate flag and never writes it. -/
theorem terminate_of_step {connected : Bool} {run run' : RunThread H} {step : RunStep H}
    (h : run.step connected step = some run') : run'.terminate = run.terminate := by
  cases RunThread.stepped_of_step h with
  | passed hpc hreason =>
    cases RunThread.eq_of_stopReason hreason
    rfl
  | decided hpc hreason =>
    cases RunThread.eq_of_stopReason hreason
    rfl
  | _ => rfl

theorem hooked_step {a b : Adapter H} {label : AdapterStep H} (h : Hooked a.session a.run)
    (hstep : a.step label = some b) : Hooked b.session b.run := by
  have hstepped := Adapter.stepped_of_step hstep
  cases hstepped with
  | handled hphase hdone hhandle hhandled => exact hooked_handled h hhandled
  | resumeDropped hphase hdone hrunning hrun hterminating =>
    intro _
    exact h (by rw [hrunning]; rfl)
  | @resumeSent running run mode hphase hdone hrunning hrun hpending hterminating hresult =>
    rw [hrun] at h
    have hsome : a.session.running.isSome = true := by
      rw [hrunning]
      rfl
    exact h.step (.resume mode) (fun _ => hsome) rfl rfl
  | resumeFailed hphase hdone hrunning hrun hpending hresult =>
    exact .of_none _ (Session.running_finishRun _ _)
  | @tookEvent _ running run event events hlabel hrunning hrun hevents =>
    rw [hrun] at h
    have htail : { run with events := events } = { run with events := run.events.tail } := by
      rw [hevents]
      rfl
    have hsome : a.session.running.isSome = true := by
      rw [hrunning]
      rfl
    dsimp only
    rw [htail]
    exact h.step .take (fun _ => hsome) rfl rfl
  | joined hlabel hrunning hrun hevents hresult =>
    exact .of_none _ (Session.running_finishRun _ _)
  | @answered request query run answer events hphase hrun hevents =>
    have hreply := a.session.replies_afterQuery request query (some answer)
    rw [hrun] at h
    have htail : { run with events := events } = { run with events := run.events.tail } := by
      rw [hevents]
      rfl
    dsimp only
    rw [htail]
    exact (h.session hreply.running).step .take id rfl rfl
  | @unanswered request query run hphase hrun hevents =>
    have hreply := a.session.replies_afterQuery request query none
    rw [hrun] at h
    exact (h.session hreply.running).step .take id rfl rfl
  | detached hphase hrun hevents hresult => exact .of_none _ rfl
  | dropped hphase => exact hooked_terminateSession h
  | @ran step run run' hrun hran =>
    rintro hsome _ ⟨⟩ hterminate
    have hran' : run.hooked (.run step) = some run' := by
      rw [hsome] at hran
      exact hran
    obtain ⟨stopOnEntry, armed, hreach⟩ :=
      h hsome run hrun ((terminate_of_step hran).symm.trans hterminate)
    exact ⟨stopOnEntry, armed, hreach.snoc trivial hran'⟩

/-- The run of a session, while it is not told to terminate, has a trace that it stops by. -/
theorem traced_of_reachable {a : Adapter H} {run : RunThread H}
    (h : Reachable Adapter.step .init a) (hrunning : a.session.running.isSome = true)
    (hrun : a.run = some run) (hterminate : run.terminate = false) :
    ∃ stopOnEntry armed trace, StopsAsTraced stopOnEntry armed run trace := by
  have hhooked : Hooked a.session a.run := by
    refine h.invariant (I := fun a => Hooked a.session a.run) nofun ?_
    intro a label b hinv _ hstep
    exact hooked_step hinv hstep
  obtain ⟨stopOnEntry, armed, hreach⟩ := hhooked hrunning run hrun hterminate
  have htrace : ∃ trace, StopInv stopOnEntry armed run trace := by
    refine hreach.invariant (I := fun run => ∃ trace, StopInv stopOnEntry armed run trace)
      ⟨.start, stopInv_start stopOnEntry armed⟩ ?_
    rintro run step next ⟨trace, hinv⟩ - hstep
    exact ⟨_, stopInv_hooked hinv hstep⟩
  obtain ⟨trace, hinv⟩ := htrace
  exact ⟨stopOnEntry, armed, trace, hinv.asTraced⟩

end Dap

end MarrowLsp
