-- SUMMARY: Breakpoint accounting for each requested breakpoint: the runs that tell two entries of a request apart, and when its entries account for it over every run.
import MarrowLsp.Dap.Requests
import MarrowLsp.Dap.Sample

/-!
# Accounting per request
-/
namespace MarrowLsp

namespace Dap

namespace Session

section Launched

variable {H : DebugHost} {s : Session H} {source file : Path} {line : Nat} {spec : BreakpointSpec}
  {request : RequestedBreakpoint} {p : ArmedBreakpoint H} {statement : Statement H}
  {past : List (Statement H)} {stopPoints : StopPointIndex} {files : List (Path × String)}
  {points : List RuntimeStop} {requested : List RequestedBreakpoint}

/-! ## Runs that tell entries apart -/

/-- A statement at a stop point where these expressions are true, and all others errors. -/
def probe (truth : H.Expression → Bool) (value : H.DebugValue) (stop : RuntimeStop) :
    Statement H where
  span := stop.span
  frame :=
    { file := some stop.file
      depth := 0
      evaluateDebugExpression := fun expression =>
        if truth expression then .ok value else .error ⟨"", ""⟩
      debugDataSnapshot := .error ⟨"", ""⟩
      debugSnapshot := fun _ _ => ([], 0, false)
      snapshotDataChildren := fun _ _ => .error ⟨"", ""⟩ }

variable {truth : H.Expression → Bool} {value : H.DebugValue} {stop other : RuntimeStop}

theorem atStopPoint_probe (hstop : stop ∈ points) :
    (probe truth value stop).AtStopPoint points := by
  rintro file ⟨⟩
  exact hstop

theorem holds_probe (hvalue : H.isTrue value = true) (expression : H.Expression) :
    (probe truth value stop).frame.holds expression = truth expression := by
  have heval : (probe truth value stop).frame.evaluateDebugExpression expression =
      if truth expression then .ok value else .error ⟨"", ""⟩ := rfl
  unfold Frame.holds
  rw [heval]
  cases truth expression with
  | true => exact hvalue
  | false => rfl

theorem all_holds_probe (hvalue : H.isTrue value = true) (condition : Option H.Expression) :
    condition.all (probe truth value stop).frame.holds = condition.all truth := by
  cases condition with
  | none => rfl
  | some expression => exact holds_probe hvalue expression

theorem requestAt_probe
    (hstop : stop ∈ (StopPointIndex.fromRuntime H files points).stops source line) :
    s.requestAt source line spec (probe truth value stop) =
      (s.checkedBreakpointSpec stop spec).toOption :=
  requestAt_of_place rfl (mem_stops_fromRuntime_iff.mp hstop).2

theorem requestAt_probe_of_ok {found : CheckedBreakpointSpec H}
    (hstop : stop ∈ (StopPointIndex.fromRuntime H files points).stops source line)
    (hfound : s.checkedBreakpointSpec stop spec = .ok found) :
    s.requestAt source line spec (probe truth value stop) = some found := by
  rw [requestAt_probe hstop, hfound]
  rfl

/-- Where every expression is true, the request counts at each stop point that it is checked
at. -/
theorem countsAt_probe_of_ok {found : CheckedBreakpointSpec H} (hvalue : H.isTrue value = true)
    (hstop : stop ∈ (StopPointIndex.fromRuntime H files points).stops source line)
    (hfound : s.checkedBreakpointSpec stop spec = .ok found) :
    s.countsAt source line spec (probe (fun _ => true) value stop) = true := by
  rw [countsAt_of_some (requestAt_probe_of_ok hstop hfound), all_holds_probe hvalue,
    Option.all_true]

/-- An entry that acts shows in what the entries do together. -/
theorem entriesAction_ne_default (hfile : statement.frame.file = some file)
    (hp : p ∈ s.acting stopPoints source request file statement past) :
    s.entriesAction stopPoints source statement past request ≠ .default := by
  rw [entriesAction_of_file hfile]
  intro heq
  have houtputs := congrArg BreakpointAction.outputs heq
  have hstop := congrArg BreakpointAction.stop heq
  cases hlog : p.logMessage with
  | none =>
    have hany := List.any_eq_false.mp hstop p hp
    rw [hlog] at hany
    exact hany rfl
  | some message =>
    have hnone := List.filterMap_eq_nil_iff.mp houtputs p hp
    rw [hlog] at hnone
    cases hnone

/-- The entry that the request has for a stop point. -/
theorem mem_acting {checked : CheckedBreakpointSpec H}
    (hsome : s.stopPoints = some (.fromRuntime H files points))
    (hsource : (source, requested) ∈ s.breakpoints)
    (hrequest : .valid line (.valid spec) ∈ requested)
    (hstop : stop ∈ (StopPointIndex.fromRuntime H files points).stops source line)
    (hchecked : s.checkedBreakpointSpec stop spec = .ok checked)
    (hacts : ArmedBreakpoint.actsAt
      (.new line checked.condition spec.hitTarget checked.logMessage) stop.file statement past =
        true) :
    .new line checked.condition spec.hitTarget checked.logMessage ∈
      s.acting (.fromRuntime H files points) source (.valid line (.valid spec)) stop.file statement
        past := by
  have hentry : .new line checked.condition spec.hitTarget checked.logMessage ∈
      s.entriesOf (.fromRuntime H files points) source stop.file (.valid line (.valid spec)) :=
    mem_entriesOf_spec_iff.mpr ⟨stop, hstop, rfl, checked, hchecked, rfl⟩
  apply List.mem_filter.mpr
  refine ⟨?_, ?_⟩
  · apply mem_armedBreakpoints_iff.mpr
    exact ⟨_, hsome, _, hsource, _, hrequest, mem_entriesOf_iff.mp hentry⟩
  · rw [decide_eq_true hentry, hacts]
    rfl

theorem meets_probe {checked : CheckedBreakpointSpec H} (hvalue : H.isTrue value = true)
    (hstop : stop ∈ (StopPointIndex.fromRuntime H files points).stops source line) :
    (probe truth value stop).meets file
        (.new line checked.condition spec.hitTarget checked.logMessage) =
      (decide (stop.file = file) && checked.condition.all truth) := by
  have hline : (line == stop.span.line) = true :=
    beq_iff_eq.mpr (mem_stops_fromRuntime_iff.mp hstop).2.2.symm
  have hfile : decide ((probe truth value stop).frame.file = some file) =
      decide (stop.file = file) := decide_eq_decide.mpr Option.some_inj
  have hspan : (probe truth value stop).span = stop.span := rfl
  rw [meets_new, hfile, hspan, hline, all_holds_probe hvalue, Bool.true_and]

theorem meets_probe_self (hvalue : H.isTrue value = true)
    (hstop : stop ∈ (StopPointIndex.fromRuntime H files points).stops source line)
    (checked : CheckedBreakpointSpec H) :
    (probe (fun _ => true) value stop).meets stop.file
      (.new line checked.condition spec.hitTarget checked.logMessage) = true := by
  rw [meets_probe hvalue hstop, Option.all_true, decide_eq_true rfl]
  rfl

theorem not_meets_probe_of_ne (hne : stop.file ≠ file) (p : ArmedBreakpoint H) :
    ¬ (probe truth value stop).meets file p = true := by
  intro hmeets
  have hfile := of_decide_eq_true (Bool.and_eq_true_iff.mp hmeets).1
  exact hne (Option.some.inj hfile)

/-- The hits that a request waits for, one without a hit condition. -/
def hitsWanted (spec : BreakpointSpec) : Nat := (spec.hitTarget.map (·.val)).getD 1

theorem hitsWanted_of_hitTarget {target : Fin (2 ^ 64)} (htarget : spec.hitTarget = some target) :
    hitsWanted spec = target.val := by
  unfold hitsWanted
  rw [htarget]
  rfl

theorem hitsWanted_le (spec : BreakpointSpec) : hitsWanted spec ≤ maxHits := by
  unfold hitsWanted maxHits
  cases spec.hitTarget with
  | none => decide
  | some target => exact Nat.le_pred_of_lt target.isLt

/-- An entry acts at the hit waited for. -/
theorem actsAt_new {checked : CheckedBreakpointSpec H}
    (hmeets : statement.meets file
      (.new line checked.condition spec.hitTarget checked.logMessage) = true)
    (hhits : ArmedBreakpoint.hitsOver
      (.new line checked.condition spec.hitTarget checked.logMessage) file (statement :: past) =
        hitsWanted spec)
    (hlength : past.length < maxHits) :
    ArmedBreakpoint.actsAt (.new line checked.condition spec.hitTarget checked.logMessage) file
      statement past = true := by
  rw [actsAt_eq rfl hlength, hmeets, hhits, Bool.true_and]
  unfold hitsWanted
  cases spec.hitTarget <;> simp [ArmedBreakpoint.new]

/-- Statements enough at one stop point make an entry of the line act, whatever stop point of the
file it was checked at. -/
theorem actsAt_replicate {checked : CheckedBreakpointSpec H} (hvalue : H.isTrue value = true)
    (hstop : stop ∈ (StopPointIndex.fromRuntime H files points).stops source line)
    (hfile : stop.file = file) (hcondition : checked.condition.all truth = true)
    (hwanted : 0 < hitsWanted spec) :
    ArmedBreakpoint.actsAt (.new line checked.condition spec.hitTarget checked.logMessage) file
      (probe truth value stop) (List.replicate (hitsWanted spec - 1) (probe truth value stop)) =
        true := by
  have hmeets : (probe truth value stop).meets file
      (.new line checked.condition spec.hitTarget checked.logMessage) = true := by
    rw [meets_probe hvalue hstop, decide_eq_true hfile, hcondition]
    rfl
  have hsucc : hitsWanted spec - 1 + 1 = hitsWanted spec := Nat.succ_pred_eq_of_pos hwanted
  apply actsAt_new hmeets
  · unfold ArmedBreakpoint.hitsOver
    rw [← List.replicate_succ, List.countP_replicate, hmeets, if_pos rfl, hsucc]
  · rw [List.length_replicate]
    exact (Nat.sub_one_lt_of_lt hwanted).trans_le (hitsWanted_le spec)

theorem atStopPoint_replicate (truth : H.Expression → Bool) (value : H.DebugValue) (n : Nat)
    (hstop : stop ∈ points) :
    ∀ visited ∈ probe truth value stop :: List.replicate n (probe truth value stop),
      visited.AtStopPoint points := by
  intro visited hvisited
  rw [← List.replicate_succ] at hvisited
  rw [List.eq_of_mem_replicate hvisited]
  exact atStopPoint_probe hstop

theorem length_replicate_lt (statement : Statement H) (hwanted : 0 < hitsWanted spec) :
    (List.replicate (hitsWanted spec - 1) statement).length < maxHits := by
  rw [List.length_replicate]
  exact (Nat.sub_one_lt_of_lt hwanted).trans_le (hitsWanted_le spec)

/-- A statement that is not met is not counted. -/
theorem hitsOver_append_le {last : Statement H} (visits : List (Statement H))
    (hlast : ¬ last.meets file p = true) :
    p.hitsOver file (visits ++ [last]) ≤ visits.length := by
  have hnone : p.hitsOver file [last] = 0 := ArmedBreakpoint.hitsOver_cons_of_not_meets hlast
  unfold ArmedBreakpoint.hitsOver at hnone ⊢
  rw [List.countP_append, hnone]
  exact List.countP_le_length

/-! ## More than one entry -/

theorem two_le_length_filterMap {α β : Type} {f : α → Option β} {items : List α} {x y : α}
    (hne : x ≠ y) (hx : x ∈ items) (hy : y ∈ items) (hfx : (f x).isSome = true)
    (hfy : (f y).isSome = true) : 2 ≤ (items.filterMap f).length := by
  obtain ⟨a, ha⟩ := Option.isSome_iff_exists.mp hfx
  obtain ⟨b, hb⟩ := Option.isSome_iff_exists.mp hfy
  obtain ⟨before, after, rfl⟩ := List.append_of_mem hx
  have hy' : y ∈ before ++ after := by
    simp only [List.mem_append, List.mem_cons] at hy ⊢
    obtain hy | rfl | hy := hy
    · exact .inl hy
    · exact absurd rfl hne
    · exact .inr hy
  have hrest : 1 ≤ ((before ++ after).filterMap f).length :=
    List.length_pos_of_mem (List.mem_filterMap.mpr ⟨y, hy', hb⟩)
  rw [List.filterMap_append, List.length_append] at hrest ⊢
  rw [List.filterMap_cons_some ha, List.length_cons]
  omega

section Apart

variable (hsome : s.stopPoints = some (.fromRuntime H files points))
  (hsource : (source, requested) ∈ s.breakpoints)
  (hrequest : .valid line (.valid spec) ∈ requested)
  (hvalue : H.isTrue value = true) (hwanted : 0 < hitsWanted spec)
  (hstop : stop ∈ (StopPointIndex.fromRuntime H files points).stops source line)
  (hother : other ∈ (StopPointIndex.fromRuntime H files points).stops source line)
  (h : s.AccountsFor points (.fromRuntime H files points) source (.valid line (.valid spec)))

include hsome hsource hrequest hvalue hwanted hstop hother h

/-- An entry checked at another stop point of the file is not to act where the request is not
true. -/
theorem countsAt_of_accountsFor {checked : CheckedBreakpointSpec H}
    (hfile : stop.file = other.file) (hchecked : s.checkedBreakpointSpec other spec = .ok checked)
    (hcondition : checked.condition.all truth = true) :
    s.countsAt source line spec (probe truth value stop) = true := by
  by_contra hnot
  have haccounts := h _ _
    (atStopPoint_replicate truth value (hitsWanted spec - 1) (mem_stops_fromRuntime_iff.mp hstop).1)
    (length_replicate_lt _ hwanted)
  rw [dueAction_of_not_counts (Bool.eq_false_iff.mpr hnot)] at haccounts
  have hacting := mem_acting hsome hsource hrequest hother hchecked
    (actsAt_replicate hvalue hstop hfile hcondition hwanted)
  exact entriesAction_ne_default (congrArg some hfile) hacting haccounts

theorem ok_of_accountsFor {checked : CheckedBreakpointSpec H} (hfile : stop.file = other.file)
    (hchecked : s.checkedBreakpointSpec other spec = .ok checked) :
    ∃ found, s.checkedBreakpointSpec stop spec = .ok found := by
  have hcounts := countsAt_of_accountsFor hsome hsource hrequest hvalue hwanted hstop hother h hfile
    hchecked Option.all_true
  cases hfound : s.checkedBreakpointSpec stop spec with
  | ok found => exact ⟨found, rfl⟩
  | error error =>
    have hrequestAt : s.requestAt source line spec (probe (fun _ => true) value stop) = none := by
      rw [requestAt_probe hstop, hfound]
      rfl
    rw [countsAt_of_none hrequestAt] at hcounts
    cases hcounts

theorem condition_of_accountsFor {checked found : CheckedBreakpointSpec H}
    (hfile : stop.file = other.file) (hchecked : s.checkedBreakpointSpec other spec = .ok checked)
    (hfound : s.checkedBreakpointSpec stop spec = .ok found) {expression : H.Expression}
    (hexpression : found.condition = some expression) : checked.condition = some expression := by
  let truth (expression : H.Expression) : Bool := decide (checked.condition = some expression)
  have htrue : checked.condition.all truth = true := by
    cases hcondition : checked.condition with
    | none => rfl
    | some expression => exact decide_eq_true hcondition
  have hcounts := countsAt_of_accountsFor hsome hsource hrequest hvalue hwanted hstop hother h hfile
    hchecked htrue
  rw [countsAt_of_some (requestAt_probe_of_ok hstop hfound), all_holds_probe hvalue, hexpression] at hcounts
  exact of_decide_eq_true hcounts

theorem logMessage_of_accountsFor {checked found : CheckedBreakpointSpec H}
    (hfile : stop.file = other.file) (hchecked : s.checkedBreakpointSpec other spec = .ok checked)
    (hfound : s.checkedBreakpointSpec stop spec = .ok found) {message : LogMessage H.Expression}
    (hmessage : checked.logMessage = some message) : found.logMessage = some message := by
  by_contra hnot
  let truth : H.Expression → Bool := fun _ => true
  -- Both entries act at the first stop point, where one output is due at most.
  have haccounts := h _ _
    (atStopPoint_replicate truth value (hitsWanted spec - 1) (mem_stops_fromRuntime_iff.mp hstop).1)
    (length_replicate_lt _ hwanted)
  have hhere := mem_acting hsome hsource hrequest hstop hfound
    (actsAt_replicate hvalue hstop rfl Option.all_true hwanted)
  have hthere := mem_acting hsome hsource hrequest hother hchecked
    (actsAt_replicate hvalue hstop hfile Option.all_true hwanted)
  rw [← hfile] at hthere
  have hne : ArmedBreakpoint.new line found.condition spec.hitTarget found.logMessage ≠
      .new line checked.condition spec.hitTarget checked.logMessage := by
    intro heq
    exact hnot ((congrArg ArmedBreakpoint.logMessage heq).trans hmessage)
  have hrequestAt : s.requestAt source line spec (probe truth value stop) = some found :=
    requestAt_probe_of_ok hstop hfound
  have houtputs := congrArg BreakpointAction.outputs
    ((entriesAction_of_file (by rfl)).symm.trans haccounts)
  dsimp only at houtputs
  have hdue := length_outputs_dueAction_le (List.replicate (hitsWanted spec - 1)
    (probe truth value stop)) hrequestAt
  rw [← houtputs] at hdue
  let said (p : ArmedBreakpoint H) : Option String :=
    p.logMessage.map (renderLogMessage · (probe truth value stop).frame)
  have hsaid {result : CheckedBreakpointSpec H} {text : LogMessage H.Expression}
      (hlog : result.logMessage = some text) :
      (said (.new line result.condition spec.hitTarget result.logMessage)).isSome = true := by
    rw [Option.isSome_map]
    exact congrArg Option.isSome hlog
  cases hlog : found.logMessage with
  | none =>
    rw [hlog] at hdue
    have hnone := List.filterMap_eq_nil_iff.mp (List.eq_nil_of_length_eq_zero
      (Nat.le_zero.mp hdue)) _ hthere
    have hsome' := hsaid hmessage
    rw [show said _ = none from hnone] at hsome'
    cases hsome'
  | some text =>
    rw [hlog] at hdue
    have htwo := two_le_length_filterMap (f := said) hne hhere hthere (hsaid hlog) (hsaid hmessage)
    exact absurd (htwo.trans hdue) (Nat.not_succ_le_self 1)

omit hwanted in
/-- At the first hit each file has its own, and the request has two. -/
theorem target_ne_one_of_accountsFor {checked found : CheckedBreakpointSpec H}
    {target : Fin (2 ^ 64)} (htarget : spec.hitTarget = some target)
    (hne : stop.file ≠ other.file)
    (hchecked : s.checkedBreakpointSpec other spec = .ok checked)
    (hfound : s.checkedBreakpointSpec stop spec = .ok found) : target.val ≠ 1 := by
  intro hone
  let there := probe (fun _ => true) value other
  let here := probe (fun _ => true) value stop
  have hmeets : there.meets other.file
      (.new line checked.condition spec.hitTarget checked.logMessage) = true :=
    meets_probe_self hvalue hother checked
  have hat : ∀ visited ∈ [there, here], visited.AtStopPoint points := by
    have hhere : here.AtStopPoint points :=
      atStopPoint_probe (mem_stops_fromRuntime_iff.mp hstop).1
    have hthere : there.AtStopPoint points :=
      atStopPoint_probe (mem_stops_fromRuntime_iff.mp hother).1
    simp [hhere, hthere]
  have hbound : [here].length < maxHits := by
    rw [List.length_singleton]
    unfold maxHits
    omega
  have haccounts := h there [here] hat hbound
  have hdue : s.due source line spec there [here] = false := by
    have hcounts := countsAt_probe_of_ok hvalue hother hchecked
    have hcounts' := countsAt_probe_of_ok hvalue hstop hfound
    unfold due
    rw [htarget]
    simp [there, here, hcounts, hcounts', hone]
  have hacts : ArmedBreakpoint.actsAt
      (.new line checked.condition spec.hitTarget checked.logMessage) other.file there [here] =
        true := by
    apply actsAt_new hmeets _ hbound
    rw [ArmedBreakpoint.hitsOver_cons_of_meets hmeets,
      ArmedBreakpoint.hitsOver_cons_of_not_meets (not_meets_probe_of_ne hne _),
      hitsWanted_of_hitTarget htarget, hone]
    rfl
  rw [dueAction_of_not_due hdue] at haccounts
  have hacting := mem_acting hsome hsource hrequest hother hchecked hacts
  exact entriesAction_ne_default rfl hacting haccounts

omit hsome hsource hrequest hwanted in
/-- Later the request is due at a hit that the second file has not reached. -/
theorem target_lt_two_of_accountsFor {checked found : CheckedBreakpointSpec H}
    {target : Fin (2 ^ 64)} (htarget : spec.hitTarget = some target)
    (hne : stop.file ≠ other.file)
    (hchecked : s.checkedBreakpointSpec other spec = .ok checked)
    (hfound : s.checkedBreakpointSpec stop spec = .ok found) : target.val < 2 := by
  by_contra hmore
  let there := probe (fun _ => true) value other
  let here := probe (fun _ => true) value stop
  let past := List.replicate (target.val - 2) there ++ [here]
  have hlength : past.length + 1 = target.val := by
    simp only [past, List.length_append, List.length_replicate, List.length_singleton]
    omega
  have hvisits {visited : Statement H} (hvisited : visited ∈ there :: past) :
      visited = there ∨ visited = here := by
    simp only [past, List.mem_cons, List.mem_append, List.mem_replicate, List.not_mem_nil,
      or_false] at hvisited
    obtain hthere | ⟨-, hthere⟩ | hhere := hvisited
    · exact .inl hthere
    · exact .inl hthere
    · exact .inr hhere
  have hat : ∀ visited ∈ there :: past, visited.AtStopPoint points := by
    intro visited hvisited
    obtain rfl | rfl := hvisits hvisited
    · exact atStopPoint_probe (mem_stops_fromRuntime_iff.mp hother).1
    · exact atStopPoint_probe (mem_stops_fromRuntime_iff.mp hstop).1
  have hbound : past.length < maxHits := by
    have hle := hitsWanted_le spec
    rw [hitsWanted_of_hitTarget htarget] at hle
    omega
  have haccounts := h there past hat hbound
  have hcounts := countsAt_probe_of_ok hvalue hother hchecked
  have hcount : (there :: past).countP (s.countsAt source line spec) = target.val := by
    rw [← hlength]
    apply List.countP_eq_length.mpr
    intro visited hvisited
    obtain rfl | rfl := hvisits hvisited
    · exact hcounts
    · exact countsAt_probe_of_ok hvalue hstop hfound
  have hdue : s.due source line spec there past = true := by
    unfold due
    rw [hcount, htarget]
    simp [there, hcounts]
  have hnone : s.acting (.fromRuntime H files points) source (.valid line (.valid spec)) other.file
      there past = [] := by
    apply List.filter_eq_nil_iff.mpr
    rintro p - hp
    obtain ⟨hentry, hacts⟩ := Bool.and_eq_true_iff.mp hp
    obtain ⟨_, -, -, result, -, hp⟩ := mem_entriesOf_spec_iff.mp (of_decide_eq_true hentry)
    have hzero : p.hits = 0 := congrArg ArmedBreakpoint.hits hp
    have hasked : p.hitTarget = some target :=
      (congrArg ArmedBreakpoint.hitTarget hp).trans htarget
    rw [actsAt_eq hzero hbound, hasked, Option.all_some] at hacts
    have hreached := beq_iff_eq.mp (Bool.and_eq_true_iff.mp hacts).2
    have hapart : ¬ here.meets other.file p = true := not_meets_probe_of_ne hne p
    have hfew := hitsOver_append_le (there :: List.replicate (target.val - 2) there) hapart
    have hsame : p.hitsOver other.file (there :: past) ≤ target.val - 2 + 1 := by
      rwa [List.length_cons, List.length_replicate] at hfew
    omega
  rw [entriesAction_of_acting_nil rfl hnone] at haccounts
  exact dueAction_ne_default hdue haccounts.symm

theorem file_of_accountsFor {checked found : CheckedBreakpointSpec H}
    (htarget : spec.hitTarget.isSome = true)
    (hchecked : s.checkedBreakpointSpec other spec = .ok checked)
    (hfound : s.checkedBreakpointSpec stop spec = .ok found) : stop.file = other.file := by
  by_contra hne
  obtain ⟨target, htarget⟩ := Option.isSome_iff_exists.mp htarget
  have hone := target_ne_one_of_accountsFor hsome hsource hrequest hvalue hstop hother h htarget
    hne hchecked hfound
  have hfew := target_lt_two_of_accountsFor hvalue hstop hother h htarget hne hchecked hfound
  rw [hitsWanted_of_hitTarget htarget] at hwanted
  omega

omit hstop hother in
theorem oneEntry_of_accountsFor :
    s.OneEntry (.fromRuntime H files points) source (.valid line (.valid spec)) := by
  intro stop hstop other hother
  refine ⟨?_, ?_⟩
  · intro hfile
    cases hfound : s.checkedBreakpointSpec stop spec with
    | error error =>
      cases hchecked : s.checkedBreakpointSpec other spec with
      | error error => rfl
      | ok checked =>
        obtain ⟨found, hok⟩ := ok_of_accountsFor hsome hsource hrequest hvalue hwanted hstop hother h
          hfile hchecked
        rw [hfound] at hok
        cases hok
    | ok found =>
      obtain ⟨checked, hchecked⟩ := ok_of_accountsFor hsome hsource hrequest hvalue hwanted hother
        hstop h hfile.symm hfound
      have hcondition : found.condition = checked.condition := by
        apply Option.ext
        intro expression
        constructor
        · exact condition_of_accountsFor hsome hsource hrequest hvalue hwanted hstop hother h hfile
            hchecked hfound
        · exact condition_of_accountsFor hsome hsource hrequest hvalue hwanted hother hstop h
            hfile.symm hfound hchecked
      have hmessage : found.logMessage = checked.logMessage := by
        apply Option.ext
        intro message
        constructor
        · exact logMessage_of_accountsFor hsome hsource hrequest hvalue hwanted hother hstop h
            hfile.symm hfound hchecked
        · exact logMessage_of_accountsFor hsome hsource hrequest hvalue hwanted hstop hother h hfile
            hchecked hfound
      have heq : found = checked := by
        cases found
        cases checked
        cases hcondition
        cases hmessage
        rfl
      rw [hchecked, heq]
  · intro htarget hfound hchecked
    cases hfound' : s.checkedBreakpointSpec stop spec with
    | error error =>
      rw [hfound'] at hfound
      cases hfound
    | ok found =>
      cases hchecked' : s.checkedBreakpointSpec other spec with
      | error error =>
        rw [hchecked'] at hchecked
        cases hchecked
      | ok checked =>
        exact file_of_accountsFor hsome hsource hrequest hvalue hwanted hstop hother h htarget
          hchecked' hfound'

end Apart

/-! ## Requests of a client -/

theorem pos_of_parseHitCondition {value : String} {target : Fin (2 ^ 64)}
    (h : parseHitCondition value = some target) : 0 < target.val := by
  unfold parseHitCondition at h
  split at h
  · cases h
  · dsimp only at h
    split at h
    · split at h
      · next hpos =>
        cases h
        exact hpos
      · cases h
    · cases h

theorem pos_of_optionalField {field : Option Json} {target : Fin (2 ^ 64)}
    (h : optionalField parseHitCondition field = some (some target)) : 0 < target.val := by
  unfold optionalField at h
  split at h
  · cases h
  · cases h
  · obtain ⟨found, hfound, heq⟩ := Option.map_eq_some_iff.mp h
    cases heq
    exact pos_of_parseHitCondition hfound
  · cases h

/-- A client asks for a positive number of hits, or for none. -/
theorem hitsWanted_pos {point : Json} (h : requestedBreakpoint point = .valid line (.valid spec)) :
    0 < hitsWanted spec := by
  have hspec : breakpointRequest point = .valid spec := by
    unfold requestedBreakpoint at h
    split at h
    · cases h
    · split at h
      · exact (RequestedBreakpoint.valid.inj h).2
      · cases h
  unfold breakpointRequest at hspec
  split at hspec
  · cases hspec
  · split at hspec
    · cases hspec
    · next hitTarget htarget =>
      split at hspec
      · cases hspec
      · cases hspec
        unfold hitsWanted
        cases hitTarget with
        | none => exact Nat.one_pos
        | some target => exact pos_of_optionalField htarget

/-- The entries of a requested breakpoint account for it in every run exactly where it has one
entry in each file of its line, and with a hit condition one in all. -/
theorem accountsFor_iff_oneEntry (hsome : s.stopPoints = some (.fromRuntime H files points))
    (hsource : (source, requested) ∈ s.breakpoints) (htrue : ∃ value, H.isTrue value = true)
    (point : Json) (hrequest : requestedBreakpoint point ∈ requested) :
    s.AccountsFor points (.fromRuntime H files points) source (requestedBreakpoint point) ↔
      s.OneEntry (.fromRuntime H files points) source (requestedBreakpoint point) := by
  constructor
  · intro h
    obtain ⟨value, hvalue⟩ := htrue
    generalize hpoint : requestedBreakpoint point = request at hrequest h
    cases request with
    | invalidLine => trivial
    | valid line request =>
      cases request with
      | valid spec =>
        exact oneEntry_of_accountsFor hsome hsource hrequest hvalue (hitsWanted_pos hpoint) h
      | invalidCondition => trivial
      | invalidHitCondition => trivial
      | invalidLogMessage => trivial
  · exact accountsFor_of_oneEntry hsome hsource hrequest

end Launched

end Session

namespace Sample

/-- A host in which an expression is another one in each scope. -/
def renamingHost : DebugHost :=
  { host with
    checkedDebugExpression := fun _ _ span source => .ok (toString span.startByte ++ source)
    isBool := fun _ => true }

def innerStop : RuntimeStop := ⟨fileA, ⟨0, 0, 1, 1⟩⟩
def outerStop : RuntimeStop := ⟨fileA, ⟨5, 5, 1, 6⟩⟩

/-- A breakpoint at the second time that a condition is true on the first line. -/
def secondTime : Json :=
  .object [("line", jsonNat 1), ("condition", .string "c"), ("hitCondition", .string "2")]

/-- A session launched on a program that can stop at these, with the breakpoint requested. -/
def waiting (H : DebugHost) (analysis : H.Analysis) (points : List RuntimeStop) : Session H :=
  { Session.new with
    analysis := some analysis
    stopPoints := some (.fromRuntime H [] points)
    breakpoints := [(fileA, [requestedBreakpoint secondTime])] }

/-- Where the condition is the same in both scopes of the line the breakpoint is accounted for. -/
theorem accountsFor_secondTime :
    (waiting host () [innerStop, outerStop]).AccountsFor [innerStop, outerStop]
      (.fromRuntime host [] [innerStop, outerStop]) fileA (requestedBreakpoint secondTime) := by
  refine (Session.accountsFor_iff_oneEntry rfl (List.mem_singleton.mpr rfl) ⟨"true", rfl⟩ secondTime
    (List.mem_singleton.mpr rfl)).mpr ?_
  intro stop hstop other hother
  obtain ⟨hstop, -⟩ := mem_stops_fromRuntime_iff.mp hstop
  obtain ⟨hother, -⟩ := mem_stops_fromRuntime_iff.mp hother
  obtain rfl | rfl : stop = innerStop ∨ stop = outerStop := by simpa using hstop
  all_goals
    obtain rfl | rfl : other = innerStop ∨ other = outerStop := by simpa using hother
    all_goals exact ⟨fun _ => rfl, fun _ _ _ => rfl⟩

/-- The condition is true in this scope alone. -/
def innerTrue : Statement renamingHost :=
  Session.probe (fun expression : String => expression == "0c") "true" innerStop

def outerTrue : Statement renamingHost :=
  Session.probe (fun expression : String => expression == "5c") "true" outerStop

/-- The condition is true once in each scope: the second time is missed. -/
theorem not_accountsFor_secondTime :
    ¬ (waiting renamingHost () [innerStop, outerStop]).AccountsFor [innerStop, outerStop]
      (.fromRuntime renamingHost [] [innerStop, outerStop]) fileA
      (requestedBreakpoint secondTime) := by
  intro h
  have hat : ∀ visited ∈ [outerTrue, innerTrue], visited.AtStopPoint [innerStop, outerStop] := by
    intro visited hvisited
    obtain rfl | rfl : visited = outerTrue ∨ visited = innerTrue := by simpa using hvisited
    · exact Session.atStopPoint_probe (.tail _ (.head _))
    · exact Session.atStopPoint_probe (.head _)
  have hmissed := h outerTrue [innerTrue] hat (by unfold maxHits; simp)
  have hdue : ((waiting renamingHost () [innerStop, outerStop]).dueAction fileA outerTrue
      [innerTrue] (requestedBreakpoint secondTime)).stop = true := by rfl
  rw [← hmissed] at hdue
  cases hdue

end Sample

end Dap

end MarrowLsp
