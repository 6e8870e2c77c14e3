-- SUMMARY: What the requested breakpoints of a debug session arm: which request arms a breakpoint in which file, and what an edit of one source leaves as it was.
import MarrowLsp.Dap.Handlers

/-!
# Arming
-/
namespace MarrowLsp

namespace Dap

variable {H : DebugHost}

/-- A breakpoint as it was armed, before any hit. -/
def ArmedBreakpoint.plain (p : ArmedBreakpoint H) : ArmedBreakpoint H := { p with hits := 0 }

theorem ArmedBreakpoint.plain_of_hits {p : ArmedBreakpoint H} (h : p.hits = 0) : p.plain = p := by
  cases p
  cases h
  rfl

namespace ArmedBreakpoints

def plain (armed : ArmedBreakpoints H) : ArmedBreakpoints H :=
  fun file => (armed file).map ArmedBreakpoint.plain

/-- Not hit yet. -/
def Fresh (armed : ArmedBreakpoints H) : Prop := ∀ file, ∀ p ∈ armed file, p.hits = 0

theorem Fresh.plain_eq {armed : ArmedBreakpoints H} (h : armed.Fresh) : armed.plain = armed := by
  funext file
  have hsame : ∀ p ∈ armed file, p.plain = p := fun p hmem =>
    ArmedBreakpoint.plain_of_hits (h file p hmem)
  exact (List.map_congr_left hsame).trans (List.map_id' _)

theorem mem_plain_iff {armed : ArmedBreakpoints H} {file : Path} {p : ArmedBreakpoint H} :
    p ∈ armed.plain file ↔ ∃ q ∈ armed file, q.plain = p := List.mem_map

theorem mem_insert_iff {armed : ArmedBreakpoints H} {file other : Path}
    {breakpoint p : ArmedBreakpoint H} :
    p ∈ (armed.insert file breakpoint) other ↔
      p ∈ armed other ∨ other = file ∧ p = breakpoint := by
  unfold insert
  split
  · next hmem =>
    constructor
    · exact .inl
    · rintro (h | ⟨rfl, rfl⟩)
      · exact h
      · exact hmem
  · by_cases hfile : other = file
    · subst hfile
      simp
    · simp [hfile]

/-- What a fold adds to an armed set, where each entry adds its own. -/
theorem mem_foldl_iff {α : Type} {arm : ArmedBreakpoints H → α → ArmedBreakpoints H}
    {adds : α → Path → ArmedBreakpoint H → Prop}
    (harm : ∀ armed entry file p, p ∈ arm armed entry file ↔ p ∈ armed file ∨ adds entry file p)
    (entries : List α) (armed : ArmedBreakpoints H) (file : Path) (p : ArmedBreakpoint H) :
    p ∈ entries.foldl arm armed file ↔ p ∈ armed file ∨ ∃ entry ∈ entries, adds entry file p := by
  induction entries generalizing armed with
  | nil => simp
  | cons entry entries ih =>
    rw [List.foldl_cons, ih, harm]
    constructor
    · rintro ((h | h) | ⟨other, hmem, h⟩)
      · exact .inl h
      · exact .inr ⟨entry, List.mem_cons_self, h⟩
      · exact .inr ⟨other, List.mem_cons_of_mem _ hmem, h⟩
    · rintro (h | ⟨other, hmem, h⟩)
      · exact .inl (.inl h)
      · obtain rfl | hmem := List.mem_cons.mp hmem
        · exact .inl (.inr h)
        · exact .inr ⟨other, hmem, h⟩

end ArmedBreakpoints

namespace Session

/-- A request for a source arms a breakpoint in a file: at a stop point of its line, with
the expressions checked there. -/
def Arms (s : Session H) (stopPoints : StopPointIndex) (source : Path) (file : Path)
    (p : ArmedBreakpoint H) : RequestedBreakpoint → Prop
  | .valid line (.valid spec) => ∃ stop ∈ stopPoints.stops source line, ∃ checked,
      s.checkedBreakpointSpec stop spec = .ok checked ∧ file = stop.file ∧
      p = .new line checked.condition spec.hitTarget checked.logMessage
  | _ => False

/-- The last requested breakpoints arm this one. -/
def Implies (s : Session H) (file : Path) (p : ArmedBreakpoint H) : Prop :=
  ∃ stopPoints, s.stopPoints = some stopPoints ∧ ∃ entry ∈ s.breakpoints,
    ∃ request ∈ entry.2, s.Arms stopPoints entry.1 file p request

theorem mem_armAt_iff {s : Session H} {line : Nat} {spec : BreakpointSpec}
    (armed : ArmedBreakpoints H) (stop : RuntimeStop) (file : Path) (p : ArmedBreakpoint H) :
    p ∈ s.armAt line spec armed stop file ↔ p ∈ armed file ∨ ∃ checked,
      s.checkedBreakpointSpec stop spec = .ok checked ∧ file = stop.file ∧
        p = .new line checked.condition spec.hitTarget checked.logMessage := by
  unfold armAt
  cases hchecked : s.checkedBreakpointSpec stop spec with
  | ok checked =>
    dsimp only
    rw [ArmedBreakpoints.mem_insert_iff]
    simp
  | error error => simp

theorem mem_armRequested_iff {s : Session H} {stopPoints : StopPointIndex} {source : Path}
    (armed : ArmedBreakpoints H) (request : RequestedBreakpoint) (file : Path)
    (p : ArmedBreakpoint H) :
    p ∈ s.armRequested stopPoints source armed request file ↔
      p ∈ armed file ∨ s.Arms stopPoints source file p request := by
  cases request with
  | invalidLine => simp [armRequested, Arms]
  | valid line request =>
    cases request with
    | valid spec => exact ArmedBreakpoints.mem_foldl_iff mem_armAt_iff _ armed file p
    | invalidCondition => simp [armRequested, Arms]
    | invalidHitCondition => simp [armRequested, Arms]
    | invalidLogMessage => simp [armRequested, Arms]

/-- A breakpoint is armed exactly where a request of the session arms it. -/
theorem mem_armedBreakpoints_iff {s : Session H} {file : Path} {p : ArmedBreakpoint H} :
    p ∈ s.armedBreakpoints file ↔ s.Implies file p := by
  unfold armedBreakpoints Implies
  cases s.stopPoints with
  | none => simp [ArmedBreakpoints.empty]
  | some stopPoints =>
    dsimp only
    rw [ArmedBreakpoints.mem_foldl_iff
      (fun armed entry file p => ArmedBreakpoints.mem_foldl_iff mem_armRequested_iff entry.2 armed
        file p)]
    simp [ArmedBreakpoints.empty]

theorem fresh_armedBreakpoints (s : Session H) : s.armedBreakpoints.Fresh := by
  intro file p hmem
  obtain ⟨stopPoints, -, entry, -, request, -, harms⟩ := mem_armedBreakpoints_iff.mp hmem
  unfold Arms at harms
  split at harms
  · obtain ⟨stop, -, checked, -, -, rfl⟩ := harms
    rfl
  · exact harms.elim

end Session

/-! ## Stop points -/

theorem StopPointIndex.mem_stops_addStop_iff {index : StopPointIndex} {path source : Path}
    {line : Nat} {stop other : RuntimeStop} :
    other ∈ (index.addStop path stop).stops source line ↔ other ∈ index.stops source line ∨
      other = stop ∧ source = path ∧ line = stop.span.line := by
  unfold stops addStop
  dsimp only
  split
  · next hplace => simp [hplace]
  · next hplace => simp [hplace]

theorem StopPointIndex.stops_registerSource (index : StopPointIndex) (path : Path)
    (text : String) (source : Path) (line : Nat) :
    (index.registerSource path text).stops source line = index.stops source line := by
  unfold registerSource
  split <;> rfl

/-- The stops of a line are the stop points there, in the files that canonicalize to the
source. -/
theorem mem_stops_fromRuntime_iff {files : List (Path × String)} {points : List RuntimeStop}
    {source : Path} {line : Nat} {stop : RuntimeStop} :
    stop ∈ (StopPointIndex.fromRuntime H files points).stops source line ↔
      stop ∈ points ∧ H.normalizeExistingPath stop.file = source ∧ stop.span.line = line := by
  have hstart : stop ∉ (⟨fun _ _ => [], []⟩ : StopPointIndex).stops source line := nofun
  unfold StopPointIndex.fromRuntime
  generalize (⟨fun _ _ => [], []⟩ : StopPointIndex) = index at hstart
  suffices hany : ∀ index : StopPointIndex, stop ∈ (points.foldl _ index).stops source line ↔
      stop ∈ index.stops source line ∨
        stop ∈ points ∧ H.normalizeExistingPath stop.file = source ∧ stop.span.line = line by
    rw [hany, or_iff_right hstart]
  clear hstart index
  intro index
  induction points generalizing index with
  | nil => simp
  | cons point points ih =>
    rw [List.foldl_cons, ih, StopPointIndex.mem_stops_addStop_iff, List.mem_cons]
    have hregistered (next : StopPointIndex)
        (hnext : next.stops source line = index.stops source line) :
        (stop ∈ next.stops source line ∨ stop = point ∧
            source = H.normalizeExistingPath point.file ∧ line = point.span.line) ∨
          stop ∈ points ∧ H.normalizeExistingPath stop.file = source ∧ stop.span.line = line ↔
        stop ∈ index.stops source line ∨ (stop = point ∨ stop ∈ points) ∧
          H.normalizeExistingPath stop.file = source ∧ stop.span.line = line := by
      rw [hnext, or_assoc]
      apply or_congr Iff.rfl
      constructor
      · rintro (⟨rfl, rfl, rfl⟩ | ⟨hmem, hplace⟩)
        · exact ⟨.inl rfl, rfl, rfl⟩
        · exact ⟨.inr hmem, hplace⟩
      · rintro ⟨rfl | hmem, hplace⟩
        · exact .inl ⟨rfl, hplace.1.symm, hplace.2.symm⟩
        · exact .inr ⟨hmem, hplace⟩
    apply hregistered
    split
    · exact StopPointIndex.stops_registerSource index _ _ source line
    · rfl

/-- The stop points listed for a source are in files that canonicalize to it. -/
def StopPointIndex.Canonical (H : DebugHost) (index : StopPointIndex) : Prop :=
  ∀ source line, ∀ stop ∈ index.stops source line, H.normalizeExistingPath stop.file = source

theorem canonical_fromRuntime (H : DebugHost) (files : List (Path × String))
    (points : List RuntimeStop) : (StopPointIndex.fromRuntime H files points).Canonical H := by
  intro source line stop hstop
  exact (mem_stops_fromRuntime_iff.mp hstop).2.1

/-! ## Edits -/

namespace Session

theorem mem_setRequested_iff {breakpoints : List (Path × List RequestedBreakpoint)} {source : Path}
    {requested : List RequestedBreakpoint} {entry : Path × List RequestedBreakpoint} :
    entry ∈ setRequested breakpoints source requested ↔
      entry ∈ breakpoints ∧ entry.1 ≠ source ∨ requested ≠ [] ∧ entry = (source, requested) := by
  unfold setRequested
  dsimp only
  split
  · next hempty => simp [hempty]
  · next hempty => simp [hempty]

/-- The session with the requests of one source replaced. -/
def edited (s : Session H) (source : Path) (requested : List RequestedBreakpoint) : Session H :=
  { s with breakpoints := setRequested s.breakpoints source requested }

/-- An edit leaves what is armed in the files of other sources. -/
theorem mem_armedBreakpoints_edited_iff {s : Session H} {source : Path}
    {requested : List RequestedBreakpoint} {file : Path} {p : ArmedBreakpoint H}
    (hcanonical : ∀ stopPoints, s.stopPoints = some stopPoints → stopPoints.Canonical H)
    (hfile : H.normalizeExistingPath file ≠ source) :
    p ∈ (s.edited source requested).armedBreakpoints file ↔ p ∈ s.armedBreakpoints file := by
  have hsource {stopPoints : StopPointIndex} {entry : Path × List RequestedBreakpoint}
      {request : RequestedBreakpoint} (hsome : s.stopPoints = some stopPoints)
      (harms : s.Arms stopPoints entry.1 file p request) : entry.1 ≠ source := by
    unfold Arms at harms
    split at harms
    · obtain ⟨stop, hstop, checked, -, rfl, -⟩ := harms
      rw [← hcanonical stopPoints hsome entry.1 _ stop hstop]
      exact hfile
    · exact harms.elim
  rw [mem_armedBreakpoints_iff, mem_armedBreakpoints_iff]
  constructor
  · rintro ⟨stopPoints, hsome, entry, hentry, request, hrequest, harms⟩
    obtain ⟨hentry, -⟩ | ⟨-, rfl⟩ := mem_setRequested_iff.mp hentry
    · exact ⟨stopPoints, hsome, entry, hentry, request, hrequest, harms⟩
    · exact absurd rfl (hsource hsome harms)
  · rintro ⟨stopPoints, hsome, entry, hentry, request, hrequest, harms⟩
    exact ⟨stopPoints, hsome, entry, mem_setRequested_iff.mpr (.inl ⟨hentry, hsource hsome harms⟩),
      request, hrequest, harms⟩

/-- A request sent again arms what it armed. -/
theorem mem_armedBreakpoints_resent {s : Session H} {source : Path}
    {requested : List RequestedBreakpoint} {request : RequestedBreakpoint} {file : Path}
    {p : ArmedBreakpoint H} {stopPoints : StopPointIndex} (hsome : s.stopPoints = some stopPoints)
    (hrequest : request ∈ requested) (harms : s.Arms stopPoints source file p request) :
    p ∈ (s.edited source requested).armedBreakpoints file := by
  refine mem_armedBreakpoints_iff.mpr
    ⟨stopPoints, hsome, (source, requested), ?_, request, hrequest, harms⟩
  exact mem_setRequested_iff.mpr (.inr ⟨List.ne_nil_of_mem hrequest, rfl⟩)

/-- The request sets the breakpoints of a source to the requested ones. -/
structure Edits (s : Session H) (request : Json) (source : Path)
    (requested : List RequestedBreakpoint) : Prop where
  command : command request = "setBreakpoints"
  accepted : ∃ arguments, requestArguments request = .ok arguments ∧
    s.breakpointFile arguments = .ok source ∧ requestedBreakpoints arguments = .ok requested

/-- From `s` to `t` the requests of one source are replaced, and no more. -/
structure EditsOnly (s t : Session H) (source : Path) (requested : List RequestedBreakpoint) :
    Prop where
  requests : ∀ entry, entry ∈ t.breakpoints ↔
    entry ∈ s.breakpoints ∧ entry.1 ≠ source ∨ requested ≠ [] ∧ entry = (source, requested)
  others : ∀ file p, H.normalizeExistingPath file ≠ source → (t.Implies file p ↔ s.Implies file p)
  resent : ∀ stopPoints, s.stopPoints = some stopPoints → ∀ request ∈ requested, ∀ file p,
    s.Arms stopPoints source file p request → t.Implies file p

/-- An edit of a launched session replaces the requests of its source, answers each of them,
and pushes what is armed then to the run. -/
theorem handle_of_edits_answers {s : Session H} {request : Json} {source : Path}
    {requested : List RequestedBreakpoint} (w : LaunchWorld H)
    (h : s.Edits request source requested) (hstopPoints : s.stopPoints.isSome = true) :
    s.handle w request = ((s.edited source requested).respond request (.object [("breakpoints",
        .array ((s.edited source requested).resolveBreakpoints source requested))]),
      if s.running.isSome then .arm (s.edited source requested).armedBreakpoints else .none) := by
  obtain ⟨arguments, harguments, hfile, hrequested⟩ := h.accepted
  simp only [handle, h.command, withArguments, harguments, onSetBreakpoints, hfile, hrequested,
    hstopPoints, if_true]
  rfl

theorem handle_of_edits {s : Session H} {request : Json} {source : Path}
    {requested : List RequestedBreakpoint} (w : LaunchWorld H)
    (h : s.Edits request source requested) (hstopPoints : s.stopPoints.isSome = true) :
    ∃ body, s.handle w request = ((s.edited source requested).respond request body,
      if s.running.isSome then .arm (s.edited source requested).armedBreakpoints else .none) :=
  ⟨_, handle_of_edits_answers w h hstopPoints⟩

theorem editsOnly_of_edits {s t : Session H} {request : Json} {source : Path}
    {requested : List RequestedBreakpoint} {effect : Effect H} {w : LaunchWorld H}
    (h : s.Edits request source requested) (hstopPoints : s.stopPoints.isSome = true)
    (hcanonical : ∀ stopPoints, s.stopPoints = some stopPoints → stopPoints.Canonical H)
    (hhandle : s.handle w request = (t, effect)) : s.EditsOnly t source requested := by
  obtain ⟨body, hedited⟩ := handle_of_edits w h hstopPoints
  obtain ⟨rfl, -⟩ := Prod.mk.inj (hhandle.symm.trans hedited)
  have harmed (file : Path) (p : ArmedBreakpoint H) :
      Implies ((s.edited source requested).respond request body) file p ↔
        p ∈ (s.edited source requested).armedBreakpoints file := mem_armedBreakpoints_iff.symm
  refine ⟨fun entry => mem_setRequested_iff, ?_, ?_⟩
  · intro file p hfile
    rw [harmed, ← mem_armedBreakpoints_iff]
    exact mem_armedBreakpoints_edited_iff hcanonical hfile
  · intro stopPoints hsome other hother file p harms
    rw [harmed]
    exact mem_armedBreakpoints_resent hsome hother harms

end Session

end Dap

end MarrowLsp
