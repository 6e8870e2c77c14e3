-- SUMMARY: What a requested breakpoint is to do at a statement and what the entries it arms do there; with one entry in each file the two agree (session.rs, debugger.rs).
import MarrowLsp.Dap.Accounting
import Mathlib.Data.List.Nodup

/-!
# Requests and their entries

A request is armed once for each stop point of its line where it checks to something new, and
each of these entries is evaluated at every statement of the line with a count of its own.
-/
namespace MarrowLsp

namespace Dap

variable {H : DebugHost}

/-- The expression evaluates to true; an error is not true. -/
def Frame.holds (frame : Frame H) (expression : H.Expression) : Bool :=
  match frame.evaluateDebugExpression expression with
  | .ok value => H.isTrue value
  | .error _ => false

/-- The statement is at one of the stop points of the program. -/
def Statement.AtStopPoint (statement : Statement H)
    (points : List RuntimeStop) : Prop :=
  ∀ file, statement.frame.file = some file → ⟨file, statement.span⟩ ∈ points

namespace Session

/-! ## What a request is to do -/

/-- What the request checks to at a statement of its source and line, in the scope there. -/
def requestAt (s : Session H) (source : Path) (line : Nat) (spec : BreakpointSpec)
    (statement : Statement H) : Option (CheckedBreakpointSpec H) :=
  statement.frame.file.bind fun file =>
    if H.normalizeExistingPath file = source ∧ statement.span.line = line then
      (s.checkedBreakpointSpec ⟨file, statement.span⟩ spec).toOption
    else none

/-- A statement of its source and line where the condition is true. -/
def countsAt (s : Session H) (source : Path) (line : Nat) (spec : BreakpointSpec)
    (statement : Statement H) : Bool :=
  (s.requestAt source line spec statement).any fun checked =>
    checked.condition.all statement.frame.holds

/-- It counts here, and this is the time that the hit condition asks for. -/
def due (s : Session H) (source : Path) (line : Nat) (spec : BreakpointSpec)
    (statement : Statement H) (past : List (Statement H)) : Bool :=
  s.countsAt source line spec statement &&
    spec.hitTarget.all fun target =>
      (statement :: past).countP (s.countsAt source line spec) == target.val

/-- One output of a logpoint, or a stop. -/
def dueAction (s : Session H) (source : Path) (statement : Statement H)
    (past : List (Statement H)) : RequestedBreakpoint → BreakpointAction
  | .valid line (.valid spec) =>
    if s.due source line spec statement past then
      match (s.requestAt source line spec statement).bind (·.logMessage) with
      | some message => ⟨[renderLogMessage message statement.frame], false⟩
      | none => ⟨[], true⟩
    else .default
  | _ => .default

/-! ## What its entries do -/

/-- What a request arms in a file. -/
def entriesOf (s : Session H) (stopPoints : StopPointIndex) (source : Path) (file : Path) :
    RequestedBreakpoint → List (ArmedBreakpoint H)
  | .valid line (.valid spec) =>
    ((stopPoints.stops source line).filter fun stop => file = stop.file).filterMap
      fun stop => (s.checkedBreakpointSpec stop spec).toOption.map fun checked =>
        .new line checked.condition spec.hitTarget checked.logMessage
  | _ => []

/-- The armed set after some statements. -/
def armedAfter (s : Session H) : List (Statement H) → ArmedBreakpoints H
  | [] => s.armedBreakpoints
  | statement :: past =>
    ((s.armedAfter past).evaluate statement.frame statement.span.line).1

/-- What the entries of a request do together at a statement. -/
def entriesAction (s : Session H) (stopPoints : StopPointIndex) (source : Path)
    (statement : Statement H) (past : List (Statement H)) (request : RequestedBreakpoint) :
    BreakpointAction :=
  match statement.frame.file with
  | none => .default
  | some file =>
    (((s.armedAfter past file).filter fun p =>
        p.plain ∈ s.entriesOf stopPoints source file request).filterMap
      fun p => (p.evaluate statement.frame statement.span.line).2).foldl .merge .default

/-! ## Accounting -/

/-- Along every run through the stop points of the program, up to the largest count, the entries
of a request do what the request is to do. -/
def AccountsFor (s : Session H) (points : List RuntimeStop) (stopPoints : StopPointIndex)
    (source : Path) (request : RequestedBreakpoint) : Prop :=
  ∀ statement past, (∀ other ∈ statement :: past, other.AtStopPoint points) →
    past.length < maxHits →
    s.entriesAction stopPoints source statement past request =
      s.dueAction source statement past request

/-- In each file the request checks to the same at every stop point of its line, or at none;
and with a hit condition, in one file only. -/
def OneEntry (s : Session H) (stopPoints : StopPointIndex) (source : Path) :
    RequestedBreakpoint → Prop
  | .valid line (.valid spec) =>
    ∀ stop ∈ stopPoints.stops source line, ∀ other ∈ stopPoints.stops source line,
      (stop.file = other.file → (s.checkedBreakpointSpec stop spec).toOption =
        (s.checkedBreakpointSpec other spec).toOption) ∧
      (spec.hitTarget.isSome = true → (s.checkedBreakpointSpec stop spec).isOk = true →
        (s.checkedBreakpointSpec other spec).isOk = true → stop.file = other.file)
  | _ => True

/-! ## Entries -/

variable {s : Session H} {stopPoints : StopPointIndex} {source file : Path} {line : Nat}
  {spec : BreakpointSpec} {request : RequestedBreakpoint} {p : ArmedBreakpoint H}
  {statement : Statement H} {past : List (Statement H)}

theorem mem_entriesOf_spec_iff :
    p ∈ s.entriesOf stopPoints source file (.valid line (.valid spec)) ↔
      ∃ stop ∈ stopPoints.stops source line, file = stop.file ∧ ∃ checked,
        s.checkedBreakpointSpec stop spec = .ok checked ∧
          p = .new line checked.condition spec.hitTarget checked.logMessage := by
  simp only [entriesOf, List.mem_filterMap, List.mem_filter, decide_eq_true_eq,
    Option.map_eq_some_iff]
  constructor
  · rintro ⟨stop, ⟨hstop, hfile⟩, checked, hchecked, rfl⟩
    cases hresult : s.checkedBreakpointSpec stop spec with
    | error error =>
      rw [hresult] at hchecked
      cases hchecked
    | ok found =>
      rw [hresult] at hchecked
      cases hchecked
      exact ⟨stop, hstop, hfile, checked, hresult, rfl⟩
  · rintro ⟨stop, hstop, hfile, checked, hchecked, rfl⟩
    refine ⟨stop, ⟨hstop, hfile⟩, checked, ?_, rfl⟩
    rw [hchecked]
    rfl

/-- What a request arms are its entries. -/
theorem mem_entriesOf_iff :
    p ∈ s.entriesOf stopPoints source file request ↔ s.Arms stopPoints source file p request := by
  cases request with
  | invalidLine => simp [entriesOf, Arms]
  | valid line request =>
    cases request with
    | valid spec =>
      rw [mem_entriesOf_spec_iff]
      constructor
      · rintro ⟨stop, hstop, hfile, checked, hchecked, hp⟩
        exact ⟨stop, hstop, checked, hchecked, hfile, hp⟩
      · rintro ⟨stop, hstop, checked, hchecked, hfile, hp⟩
        exact ⟨stop, hstop, hfile, checked, hchecked, hp⟩
    | invalidCondition => simp [entriesOf, Arms]
    | invalidHitCondition => simp [entriesOf, Arms]
    | invalidLogMessage => simp [entriesOf, Arms]

theorem nodup_insert {armed : ArmedBreakpoints H} (h : ∀ file, (armed file).Nodup) (file : Path)
    (p : ArmedBreakpoint H) (other : Path) : (armed.insert file p other).Nodup := by
  unfold ArmedBreakpoints.insert
  split
  · exact h other
  · next hnew =>
    dsimp only
    split
    · apply List.nodup_append.mpr
      refine ⟨h file, List.nodup_singleton p, ?_⟩
      intro q hq r hr heq
      rw [List.mem_singleton.mp hr] at heq
      exact hnew (heq ▸ hq)
    · exact h other

theorem nodup_foldl {α : Type} {arm : ArmedBreakpoints H → α → ArmedBreakpoints H}
    (harm : ∀ armed x, (∀ file, (armed file).Nodup) → ∀ file, (arm armed x file).Nodup)
    (xs : List α) {armed : ArmedBreakpoints H} (h : ∀ file, (armed file).Nodup) :
    ∀ file, (xs.foldl arm armed file).Nodup := by
  induction xs generalizing armed with
  | nil => exact h
  | cons x xs ih => exact ih (harm armed x h)

/-- Identical breakpoints are armed once. -/
theorem nodup_armedBreakpoints (s : Session H) : ∀ file, (s.armedBreakpoints file).Nodup := by
  unfold armedBreakpoints
  cases s.stopPoints with
  | none => exact fun _ => List.nodup_nil
  | some stopPoints =>
    apply nodup_foldl _ _ fun _ => List.nodup_nil
    intro armed entry h
    apply nodup_foldl _ _ h
    intro armed request h
    unfold armRequested
    split
    · next line spec =>
      apply nodup_foldl _ _ h
      intro armed stop h
      unfold armAt
      cases s.checkedBreakpointSpec stop spec with
      | ok checked => exact nodup_insert h _ _
      | error error => exact h
    · exact h

/-! ## What the entries do -/

theorem armedAfter_eq (s : Session H) (past : List (Statement H)) :
    s.armedAfter past = s.armedBreakpoints.after past := by
  induction past with
  | nil => exact (ArmedBreakpoints.after_nil _).symm
  | cons statement past ih => rw [armedAfter, ih, ArmedBreakpoints.evaluate_after]

/-- The entries of the request that act at a statement of the file. -/
def acting (s : Session H) (stopPoints : StopPointIndex) (source : Path)
    (request : RequestedBreakpoint) (file : Path) (statement : Statement H)
    (past : List (Statement H)) : List (ArmedBreakpoint H) :=
  (s.armedBreakpoints file).filter fun p =>
    decide (p ∈ s.entriesOf stopPoints source file request) && p.actsAt file statement past

/-- The entries do together what those that act do. -/
theorem entriesAction_of_file (hfile : statement.frame.file = some file) :
    s.entriesAction stopPoints source statement past request =
      ⟨(s.acting stopPoints source request file statement past).filterMap fun p =>
          p.logMessage.map (renderLogMessage · statement.frame),
        (s.acting stopPoints source request file statement past).any (·.logMessage.isNone)⟩ := by
  unfold entriesAction
  rw [hfile, armedAfter_eq]
  dsimp only
  rw [← ArmedBreakpoints.foldl_action]
  congr 1
  unfold acting ArmedBreakpoints.after
  have hfresh := fresh_armedBreakpoints s file
  generalize s.armedBreakpoints file = armed at hfresh
  induction armed with
  | nil => rfl
  | cons p armed ih =>
    have hplain : (p.after file past).plain = p :=
      ArmedBreakpoint.plain_of_hits (hfresh p List.mem_cons_self)
    have hrest := ih fun q hq => hfresh q (List.mem_cons_of_mem _ hq)
    rw [List.map_cons, List.filter_cons, List.filter_cons, hplain]
    cases hentry : decide (p ∈ s.entriesOf stopPoints source file request) with
    | false => exact hrest
    | true =>
      rw [Bool.true_and, if_pos rfl, List.filterMap_cons, hrest,
        ArmedBreakpoint.evaluate_after hfile]
      cases p.actsAt file statement past <;> rfl

theorem entriesAction_of_acting_nil (hfile : statement.frame.file = some file)
    (hnil : s.acting stopPoints source request file statement past = []) :
    s.entriesAction stopPoints source statement past request = .default := by
  rw [entriesAction_of_file hfile, hnil]
  rfl

theorem mem_acting_iff : p ∈ s.acting stopPoints source request file statement past ↔
    p ∈ s.armedBreakpoints file ∧ p ∈ s.entriesOf stopPoints source file request ∧
      p.actsAt file statement past = true := by
  simp [acting]

/-- What acts in the armed set are the entries of the requests that act. -/
theorem mem_armed_acting_iff (hsome : s.stopPoints = some stopPoints)
    (hfile : statement.frame.file = some file) :
    p ∈ s.armedBreakpoints.acting statement past ↔
      ∃ entry ∈ s.breakpoints, ∃ request ∈ entry.2,
        p ∈ s.acting stopPoints entry.1 request file statement past := by
  simp only [ArmedBreakpoints.acting, hfile, List.mem_filter, mem_acting_iff, mem_entriesOf_iff]
  constructor
  · rintro ⟨hp, hacts⟩
    obtain ⟨points, hpoints, entry, hentry, request, hrequest, harms⟩ :=
      mem_armedBreakpoints_iff.mp hp
    cases hsome.symm.trans hpoints
    exact ⟨entry, hentry, request, hrequest, hp, harms, hacts⟩
  · rintro ⟨entry, -, request, -, hp, -, hacts⟩
    exact ⟨hp, hacts⟩

/-- At every statement the armed set does what the entries of its requests do: it stops where
those of some request stop, and says what they say, requests with one entry once. -/
theorem evaluate_armedAfter (hsome : s.stopPoints = some stopPoints) (statement : Statement H)
    (past : List (Statement H)) :
    let action := ((s.armedAfter past).evaluate statement.frame statement.span.line).2
    (action.stop = true ↔ ∃ entry ∈ s.breakpoints, ∃ request ∈ entry.2,
      (s.entriesAction stopPoints entry.1 statement past request).stop = true) ∧
    ∀ output, output ∈ action.outputs ↔ ∃ entry ∈ s.breakpoints, ∃ request ∈ entry.2,
      output ∈ (s.entriesAction stopPoints entry.1 statement past request).outputs := by
  rw [armedAfter_eq, ArmedBreakpoints.evaluate_after]
  cases hfile : statement.frame.file with
  | none =>
    simp [ArmedBreakpoints.actionAt, ArmedBreakpoints.acting, entriesAction, hfile,
      BreakpointAction.default]
  | some file =>
    have hacting := @mem_armed_acting_iff _ s stopPoints file
    refine ⟨?_, fun output => ?_⟩
    · simp only [ArmedBreakpoints.actionAt, entriesAction_of_file hfile, List.any_eq_true]
      constructor
      · rintro ⟨p, hp, hstop⟩
        obtain ⟨entry, hentry, request, hrequest, hp⟩ := (hacting hsome hfile).mp hp
        exact ⟨entry, hentry, request, hrequest, p, hp, hstop⟩
      · rintro ⟨entry, hentry, request, hrequest, p, hp, hstop⟩
        exact ⟨p, (hacting hsome hfile).mpr ⟨entry, hentry, request, hrequest, hp⟩, hstop⟩
    · simp only [ArmedBreakpoints.actionAt, entriesAction_of_file hfile, List.mem_filterMap]
      constructor
      · rintro ⟨p, hp, hsays⟩
        obtain ⟨entry, hentry, request, hrequest, hp⟩ := (hacting hsome hfile).mp hp
        exact ⟨entry, hentry, request, hrequest, p, hp, hsays⟩
      · rintro ⟨entry, hentry, request, hrequest, p, hp, hsays⟩
        exact ⟨p, (hacting hsome hfile).mpr ⟨entry, hentry, request, hrequest, hp⟩, hsays⟩

/-- With one entry, it acts or none does. -/
theorem acting_eq (hp : p ∈ s.armedBreakpoints file)
    (hentries : ∀ q, q ∈ s.entriesOf stopPoints source file request ↔ q = p) :
    s.acting stopPoints source request file statement past =
      if p.actsAt file statement past then [p] else [] := by
  unfold acting
  split
  · next hacts =>
    have hcount := List.count_eq_one_of_mem (nodup_armedBreakpoints s file) hp
    have honly (q : ArmedBreakpoint H) : (decide (q ∈ s.entriesOf stopPoints source file request) &&
        q.actsAt file statement past) = decide (q = p) := by
      by_cases hq : q = p
      · simp [hentries, hq, hacts]
      · simp [hentries, hq]
    rw [List.filter_congr fun q _ => honly q, List.filter_eq, hcount]
    rfl
  · next hacts =>
    apply List.filter_eq_nil_iff.mpr
    rintro q - hq
    obtain ⟨hentry, hacts'⟩ := Bool.and_eq_true_iff.mp hq
    rw [(hentries q).mp (of_decide_eq_true hentry)] at hacts'
    exact hacts hacts'

/-! ## Where the request is due -/

theorem requestAt_of_place (hfile : statement.frame.file = some file)
    (hplace : H.normalizeExistingPath file = source ∧ statement.span.line = line) :
    s.requestAt source line spec statement =
      (s.checkedBreakpointSpec ⟨file, statement.span⟩ spec).toOption := by
  unfold requestAt
  rw [hfile, Option.bind_some, if_pos hplace]

theorem requestAt_of_elsewhere (hfile : statement.frame.file = some file)
    (hplace : ¬ (H.normalizeExistingPath file = source ∧ statement.span.line = line)) :
    s.requestAt source line spec statement = none := by
  unfold requestAt
  rw [hfile, Option.bind_some, if_neg hplace]

theorem requestAt_of_no_file (hfile : statement.frame.file = none) :
    s.requestAt source line spec statement = none := by
  unfold requestAt
  rw [hfile]
  rfl

theorem countsAt_of_none (h : s.requestAt source line spec statement = none) :
    s.countsAt source line spec statement = false := by
  unfold countsAt
  rw [h]
  rfl

theorem countsAt_of_some {checked : CheckedBreakpointSpec H}
    (h : s.requestAt source line spec statement = some checked) :
    s.countsAt source line spec statement =
      checked.condition.all statement.frame.holds := by
  unfold countsAt
  rw [h]
  rfl

theorem dueAction_of_not_due (h : s.due source line spec statement past = false) :
    s.dueAction source statement past (.valid line (.valid spec)) = .default := by
  unfold dueAction
  dsimp only
  rw [h]
  rfl

theorem dueAction_of_not_counts (h : s.countsAt source line spec statement = false) :
    s.dueAction source statement past (.valid line (.valid spec)) = .default := by
  apply dueAction_of_not_due
  unfold due
  rw [h]
  rfl

theorem dueAction_ne_default (h : s.due source line spec statement past = true) :
    s.dueAction source statement past (.valid line (.valid spec)) ≠ .default := by
  unfold dueAction
  dsimp only
  rw [h, if_pos rfl]
  split
  · intro heq
    cases congrArg BreakpointAction.outputs heq
  · intro heq
    cases congrArg BreakpointAction.stop heq

/-- A logpoint says one thing at most, and any other breakpoint nothing. -/
theorem length_outputs_dueAction_le {checked : CheckedBreakpointSpec H} (past : List (Statement H))
    (h : s.requestAt source line spec statement = some checked) :
    (s.dueAction source statement past (.valid line (.valid spec))).outputs.length ≤
      checked.logMessage.toList.length := by
  unfold dueAction
  dsimp only
  rw [h, Option.bind_some]
  split
  · cases checked.logMessage <;> exact Nat.le_refl _
  · exact Nat.zero_le _

/-- A statement counts for an entry of the request where the condition it was checked to is
true. -/
theorem meets_new {checked : CheckedBreakpointSpec H} :
    statement.meets file
        (.new line checked.condition spec.hitTarget checked.logMessage) =
      (decide (statement.frame.file = some file) && (line == statement.span.line &&
        checked.condition.all statement.frame.holds)) := rfl

/-- A fresh entry acts at the hit asked for, however far it is from the largest count. -/
theorem actsAt_eq (hhits : p.hits = 0) (hlength : past.length < maxHits) :
    p.actsAt file statement past = (statement.meets file p && p.hitTarget.all fun target =>
      p.hitsOver file (statement :: past) == target.val) := by
  have hle : p.hitsOver file (statement :: past) ≤ maxHits := by
    have hcount := List.countP_le_length (p := (·.meets file p)) (l := statement :: past)
    exact hcount.trans hlength
  unfold ArmedBreakpoint.actsAt
  rw [hhits, Nat.zero_add, Nat.min_eq_left hle]

/-! ## One entry -/

section Launched

variable {files : List (Path × String)} {points : List RuntimeStop}
  {requested : List RequestedBreakpoint}

/-- With one entry on the line, a statement of the program counts for it exactly where it counts
for the request. -/
theorem meets_eq_countsAt {checked : CheckedBreakpointSpec H} {stop : RuntimeStop}
    (h : s.OneEntry (.fromRuntime H files points) source (.valid line (.valid spec)))
    (hstop : stop ∈ (StopPointIndex.fromRuntime H files points).stops source line)
    (hchecked : s.checkedBreakpointSpec stop spec = .ok checked)
    (hone : statement.frame.file = some stop.file ∨ spec.hitTarget.isSome = true)
    (hat : statement.AtStopPoint points) :
    statement.meets stop.file (.new line checked.condition spec.hitTarget checked.logMessage) =
      s.countsAt source line spec statement := by
  obtain ⟨hstopPoint, hsource, hline⟩ := mem_stops_fromRuntime_iff.mp hstop
  rw [meets_new]
  cases hfile : statement.frame.file with
  | none =>
    rw [countsAt_of_none (requestAt_of_no_file hfile)]
    rfl
  | some file =>
    by_cases hplace : H.normalizeExistingPath file = source ∧ statement.span.line = line
    · have hown : ⟨file, statement.span⟩ ∈
          (StopPointIndex.fromRuntime H files points).stops source line :=
        mem_stops_fromRuntime_iff.mpr ⟨hat file hfile, hplace⟩
      have hagree := h _ hown stop hstop
      have hrequestAt : s.requestAt source line spec statement =
          (s.checkedBreakpointSpec ⟨file, statement.span⟩ spec).toOption :=
        requestAt_of_place hfile hplace
      by_cases hsame : file = stop.file
      · rw [hagree.1 hsame, hchecked] at hrequestAt
        rw [countsAt_of_some hrequestAt, decide_eq_true (congrArg some hsame), beq_iff_eq.mpr
          hplace.2.symm]
        rfl
      · have hsome : spec.hitTarget.isSome = true := by
          obtain hone | hone := hone
          · exact absurd (Option.some.inj (hfile.symm.trans hone)) hsame
          · exact hone
        have hok : (s.checkedBreakpointSpec stop spec).isOk = true := by
          rw [hchecked]
          rfl
        have hdecide : decide (some file = some stop.file) = false :=
          decide_eq_false fun heq => hsame (Option.some.inj heq)
        rw [hdecide]
        cases hother : s.checkedBreakpointSpec ⟨file, statement.span⟩ spec with
        | ok found =>
          rw [hother] at hagree
          exact absurd (hagree.2 hsome rfl hok) hsame
        | error error =>
          rw [hother] at hrequestAt
          rw [countsAt_of_none hrequestAt]
          rfl
    · rw [countsAt_of_none (requestAt_of_elsewhere hfile hplace)]
      by_cases hsame : file = stop.file
      · have hother : ¬ line = statement.span.line := by
          intro heq
          exact hplace ⟨hsame ▸ hsource, heq.symm⟩
        rw [beq_eq_false_iff_ne.mpr hother, Bool.false_and, Bool.and_false]
      · have hdecide : decide (some file = some stop.file) = false :=
          decide_eq_false fun heq => hsame (Option.some.inj heq)
        rw [hdecide]
        rfl

/-- The entries of a request act on its own line only. -/
theorem acting_of_elsewhere
    (hplace : ¬ (H.normalizeExistingPath file = source ∧ statement.span.line = line)) :
    s.acting (.fromRuntime H files points) source (.valid line (.valid spec)) file statement past =
      [] := by
  apply List.filter_eq_nil_iff.mpr
  rintro p - hp
  obtain ⟨hentry, hacts⟩ := Bool.and_eq_true_iff.mp hp
  obtain ⟨stop, hstop, rfl, checked, -, rfl⟩ :=
    mem_entriesOf_spec_iff.mp (of_decide_eq_true hentry)
  have hmeets := (Bool.and_eq_true_iff.mp hacts).1
  rw [meets_new, Bool.and_eq_true_iff, Bool.and_eq_true_iff, beq_iff_eq] at hmeets
  obtain ⟨-, hsource', -⟩ := mem_stops_fromRuntime_iff.mp hstop
  exact hplace ⟨hsource', hmeets.2.1.symm⟩

/-- A request that one stop point of its line refuses has no entry in the file. -/
theorem acting_of_error {error : DapInputError}
    (h : s.OneEntry (.fromRuntime H files points) source (.valid line (.valid spec)))
    (hown : ⟨file, statement.span⟩ ∈ (StopPointIndex.fromRuntime H files points).stops source line)
    (hchecked : s.checkedBreakpointSpec ⟨file, statement.span⟩ spec = .error error) :
    s.acting (.fromRuntime H files points) source (.valid line (.valid spec)) file statement past =
      [] := by
  apply List.filter_eq_nil_iff.mpr
  rintro p - hp
  have hentry := of_decide_eq_true (Bool.and_eq_true_iff.mp hp).1
  obtain ⟨stop, hstop, hsame, checked, hok, -⟩ := mem_entriesOf_spec_iff.mp hentry
  have hagree := (h _ hown stop hstop).1 hsame
  rw [hchecked, hok] at hagree
  cases hagree

/-- A request that its stop points agree on has one entry in the file. -/
theorem mem_entriesOf_iff_eq {checked : CheckedBreakpointSpec H}
    (h : s.OneEntry (.fromRuntime H files points) source (.valid line (.valid spec)))
    (hown : ⟨file, statement.span⟩ ∈ (StopPointIndex.fromRuntime H files points).stops source line)
    (hchecked : s.checkedBreakpointSpec ⟨file, statement.span⟩ spec = .ok checked) :
    p ∈ s.entriesOf (.fromRuntime H files points) source file (.valid line (.valid spec)) ↔
      p = .new line checked.condition spec.hitTarget checked.logMessage := by
  rw [mem_entriesOf_spec_iff]
  constructor
  · rintro ⟨stop, hstop, hsame, found, hok, rfl⟩
    have hagree := (h _ hown stop hstop).1 hsame
    rw [hchecked, hok] at hagree
    cases hagree
    rfl
  · rintro rfl
    exact ⟨_, hown, rfl, checked, hchecked, rfl⟩

/-- That entry acts where the request is due. -/
theorem actsAt_eq_due {checked : CheckedBreakpointSpec H}
    (h : s.OneEntry (.fromRuntime H files points) source (.valid line (.valid spec)))
    (hown : ⟨file, statement.span⟩ ∈ (StopPointIndex.fromRuntime H files points).stops source line)
    (hchecked : s.checkedBreakpointSpec ⟨file, statement.span⟩ spec = .ok checked)
    (hat : ∀ other ∈ statement :: past, other.AtStopPoint points) (hlength : past.length < maxHits)
    (hfile : statement.frame.file = some file) :
    ArmedBreakpoint.actsAt (.new line checked.condition spec.hitTarget checked.logMessage) file
      statement past = s.due source line spec statement past := by
  let p : ArmedBreakpoint H := .new line checked.condition spec.hitTarget checked.logMessage
  change p.actsAt file statement past = _
  rw [actsAt_eq rfl hlength]
  unfold due
  rw [meets_eq_countsAt h hown hchecked (.inl hfile) (hat statement List.mem_cons_self)]
  congr 1
  cases htarget : spec.hitTarget with
  | none => simp [p, ArmedBreakpoint.new, htarget]
  | some target =>
    have hcount : p.hitsOver file (statement :: past) =
        (statement :: past).countP (s.countsAt source line spec) := by
      apply List.countP_congr
      intro other hother
      rw [meets_eq_countsAt h hown hchecked (.inr (by rw [htarget]; rfl)) (hat other hother)]
    rw [hcount]
    simp [p, ArmedBreakpoint.new, htarget]

/-- A request whose line has one entry in each file acts where it is due. -/
theorem entriesAction_of_oneEntry
    (hsome : s.stopPoints = some (.fromRuntime H files points))
    (hsource : (source, requested) ∈ s.breakpoints)
    (hrequest : .valid line (.valid spec) ∈ requested)
    (h : s.OneEntry (.fromRuntime H files points) source (.valid line (.valid spec)))
    (hat : ∀ other ∈ statement :: past, other.AtStopPoint points) (hlength : past.length < maxHits)
    (hfile : statement.frame.file = some file) :
    s.entriesAction (.fromRuntime H files points) source statement past
        (.valid line (.valid spec)) =
      s.dueAction source statement past (.valid line (.valid spec)) := by
  by_cases hplace : H.normalizeExistingPath file = source ∧ statement.span.line = line
  · have hown : ⟨file, statement.span⟩ ∈
        (StopPointIndex.fromRuntime H files points).stops source line :=
      mem_stops_fromRuntime_iff.mpr ⟨hat statement List.mem_cons_self file hfile, hplace⟩
    have hrequestAt : s.requestAt source line spec statement =
        (s.checkedBreakpointSpec ⟨file, statement.span⟩ spec).toOption :=
      requestAt_of_place hfile hplace
    cases hchecked : s.checkedBreakpointSpec ⟨file, statement.span⟩ spec with
    | error error =>
      rw [hchecked] at hrequestAt
      rw [dueAction_of_not_counts (countsAt_of_none hrequestAt)]
      exact entriesAction_of_acting_nil hfile (acting_of_error h hown hchecked)
    | ok checked =>
      rw [hchecked] at hrequestAt
      let p : ArmedBreakpoint H := .new line checked.condition spec.hitTarget checked.logMessage
      have hentries (q : ArmedBreakpoint H) : q ∈ s.entriesOf (.fromRuntime H files points) source
          file (.valid line (.valid spec)) ↔ q = p := mem_entriesOf_iff_eq h hown hchecked
      have hp : p ∈ s.armedBreakpoints file := by
        apply mem_armedBreakpoints_iff.mpr
        exact ⟨_, hsome, _, hsource, _, hrequest, mem_entriesOf_iff.mp ((hentries p).mpr rfl)⟩
      have hacting : s.acting (.fromRuntime H files points) source (.valid line (.valid spec)) file
          statement past = if s.due source line spec statement past then [p] else [] := by
        rw [acting_eq hp hentries, actsAt_eq_due h hown hchecked hat hlength hfile]
      rw [entriesAction_of_file hfile, hacting]
      unfold dueAction
      dsimp only
      rw [hrequestAt]
      cases s.due source line spec statement past with
      | false => rfl
      | true =>
        cases hlog : checked.logMessage <;> simp [p, ArmedBreakpoint.new, hlog, Except.toOption]
  · rw [dueAction_of_not_counts (countsAt_of_none (requestAt_of_elsewhere hfile hplace))]
    exact entriesAction_of_acting_nil hfile (acting_of_elsewhere hplace)

theorem accountsFor_of_oneEntry (hsome : s.stopPoints = some (.fromRuntime H files points))
    (hsource : (source, requested) ∈ s.breakpoints) (hrequest : request ∈ requested)
    (h : s.OneEntry (.fromRuntime H files points) source request) :
    s.AccountsFor points (.fromRuntime H files points) source request := by
  intro statement past hat hlength
  have hmalformed (hnone : ∀ file, s.entriesOf (.fromRuntime H files points) source file request =
      []) : s.entriesAction (.fromRuntime H files points) source statement past request =
        .default := by
    cases hfile : statement.frame.file with
    | none => simp [entriesAction, hfile]
    | some file =>
      apply entriesAction_of_acting_nil hfile
      simp [acting, hnone]
  cases request with
  | invalidLine => exact hmalformed fun _ => rfl
  | valid line request =>
    cases request with
    | valid spec =>
      cases hfile : statement.frame.file with
      | none =>
        rw [dueAction_of_not_counts (countsAt_of_none (requestAt_of_no_file hfile))]
        simp [entriesAction, hfile]
      | some file => exact entriesAction_of_oneEntry hsome hsource hrequest h hat hlength hfile
    | invalidCondition => exact hmalformed fun _ => rfl
    | invalidHitCondition => exact hmalformed fun _ => rfl
    | invalidLogMessage => exact hmalformed fun _ => rfl

end Launched

end Session

end Dap

end MarrowLsp
