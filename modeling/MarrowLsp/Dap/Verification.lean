-- SUMMARY: What the answer to setBreakpoints says against what the session arms: a breakpoint is verified at the first stop point of its line and armed at each where it checks (session.rs).
import MarrowLsp.Dap.Arming
import MarrowLsp.Dap.Sample

/-!
# Verified breakpoints

A line can have several stop points, each with a scope of its own. The answer to the client
comes from the check at the first of them.
-/
namespace MarrowLsp

namespace Dap

variable {H : DebugHost}

/-- The answer calls the breakpoint verified. -/
def Verified (answer : Json) : Prop := answer.get "verified" = some (.bool true)

namespace Session

/-! ## What an answer is to tell -/

/-- What the request is checked to at the stop point is armed there. -/
def ArmedAt (s : Session H) (line : Nat) (spec : BreakpointSpec) (stop : RuntimeStop) : Prop :=
  ∃ checked, s.checkedBreakpointSpec stop spec = .ok checked ∧
    .new line checked.condition spec.hitTarget checked.logMessage ∈ s.armedBreakpoints stop.file

/-- The request is armed at the stop points of its line, all of them, and there is one. -/
def ArmedOnLine (s : Session H) (stopPoints : StopPointIndex) (source : Path) :
    RequestedBreakpoint → Prop
  | .valid line (.valid spec) => stopPoints.stops source line ≠ [] ∧
      ∀ stop ∈ stopPoints.stops source line, s.ArmedAt line spec stop
  | _ => False

/-- The answer says whether the request is armed on its line, and if not it is armed nowhere. -/
structure TellsTruth (s : Session H) (stopPoints : StopPointIndex) (source : Path)
    (request : RequestedBreakpoint) (answer : Json) : Prop where
  verified : Verified answer ↔ s.ArmedOnLine stopPoints source request
  unverified : ¬ Verified answer → ∀ file p, ¬ s.Arms stopPoints source file p request

/-- The request checks at every stop point of its line, or at none. -/
def OneVerdict (s : Session H) (stopPoints : StopPointIndex) (source : Path) :
    RequestedBreakpoint → Prop
  | .valid line (.valid spec) => ∀ stop ∈ stopPoints.stops source line,
      ∀ other ∈ stopPoints.stops source line,
        (s.checkedBreakpointSpec stop spec).isOk = (s.checkedBreakpointSpec other spec).isOk
  | _ => True

/-! ## Answers -/

theorem verified_ok (line : Nat) :
    Verified (.object [("verified", .bool true), ("line", jsonNat line)]) := rfl

theorem not_verified_unverifiedBreakpoint (line : Nat) (error : DapInputError) :
    ¬ Verified (unverifiedBreakpoint line error) := by
  intro h
  have hfalse : (unverifiedBreakpoint line error).get "verified" = some (.bool false) := rfl
  rw [Verified, hfalse] at h
  cases h

variable {s : Session H} {stopPoints : StopPointIndex} {source : Path} {line : Nat}
  {spec : BreakpointSpec} {requested : List RequestedBreakpoint}

/-- A requested breakpoint is armed at a stop point of its line exactly where it checks. -/
theorem armedAt_iff (hsome : s.stopPoints = some stopPoints)
    (hrequested : RequestedBreakpoint.valid line (.valid spec) ∈ requested) {stop : RuntimeStop}
    (hstop : stop ∈ stopPoints.stops source line) :
    (s.edited source requested).ArmedAt line spec stop ↔
      (s.checkedBreakpointSpec stop spec).isOk = true := by
  constructor
  · rintro ⟨checked, hchecked, -⟩
    have hsame : s.checkedBreakpointSpec stop spec = .ok checked := hchecked
    rw [hsame]
    rfl
  · intro hok
    cases hchecked : s.checkedBreakpointSpec stop spec with
    | error error =>
      rw [hchecked] at hok
      cases hok
    | ok checked =>
      refine ⟨checked, hchecked, ?_⟩
      apply mem_armedBreakpoints_resent hsome hrequested
      exact ⟨stop, hstop, checked, hchecked, rfl, rfl⟩

/-- A request arms nothing exactly where it checks at no stop point of its line. -/
theorem not_arms_iff : (∀ file p, ¬ s.Arms stopPoints source file p (.valid line (.valid spec))) ↔
    ∀ stop ∈ stopPoints.stops source line, (s.checkedBreakpointSpec stop spec).isOk = false := by
  constructor
  · intro h stop hstop
    cases hchecked : s.checkedBreakpointSpec stop spec with
    | error error => rfl
    | ok checked => exact absurd ⟨stop, hstop, checked, hchecked, rfl, rfl⟩ (h stop.file _)
  · rintro h file p ⟨stop, hstop, checked, hchecked, -, -⟩
    have hfalse := h stop hstop
    rw [hchecked] at hfalse
    cases hfalse

/-- A request that arms nothing is to be unverified. -/
theorem TellsTruth.of_silent {request : RequestedBreakpoint} {answer : Json}
    (hanswer : ¬ Verified answer) (harmed : ¬ s.ArmedOnLine stopPoints source request)
    (harms : ∀ file p, ¬ s.Arms stopPoints source file p request) :
    s.TellsTruth stopPoints source request answer where
  verified := iff_of_false hanswer harmed
  unverified := fun _ => harms

/-- The answer changes nothing that an answer is about. -/
theorem tellsTruth_respond {request body answer : Json} {breakpoint : RequestedBreakpoint} :
    (s.respond request body).TellsTruth stopPoints source breakpoint answer ↔
      s.TellsTruth stopPoints source breakpoint answer :=
  ⟨fun h => ⟨h.verified, h.unverified⟩, fun h => ⟨h.verified, h.unverified⟩⟩

/-- The answer to a well-formed request, in the session that has it. -/
theorem tellsTruth_spec_iff (hsome : s.stopPoints = some stopPoints)
    (hrequested : RequestedBreakpoint.valid line (.valid spec) ∈ requested) :
    (s.edited source requested).TellsTruth stopPoints source (.valid line (.valid spec))
        ((s.edited source requested).resolvedLaunchedBreakpoint source line (.valid spec)
          stopPoints) ↔
      s.OneVerdict stopPoints source (.valid line (.valid spec)) := by
  have harmed := fun stop => @armedAt_iff _ s stopPoints source line spec requested hsome hrequested
    stop
  have hnowhere := @not_arms_iff _ (s.edited source requested) stopPoints source line spec
  unfold resolvedLaunchedBreakpoint
  cases hstops : stopPoints.stops source line with
  | nil =>
    refine iff_of_true (.of_silent (not_verified_unverifiedBreakpoint _ _) ?_ ?_) ?_
    · rintro ⟨hne, -⟩
      exact hne hstops
    · rw [hnowhere, hstops]
      simp
    · intro stop hstop
      rw [hstops] at hstop
      cases hstop
  | cons first rest =>
    have hfirst : first ∈ stopPoints.stops source line := by
      rw [hstops]
      exact List.mem_cons_self
    have hverdict : s.OneVerdict stopPoints source (.valid line (.valid spec)) ↔
        ∀ stop ∈ stopPoints.stops source line,
          (s.checkedBreakpointSpec stop spec).isOk = (s.checkedBreakpointSpec first spec).isOk := by
      constructor
      · intro h stop hstop
        exact h stop hstop first hfirst
      · intro h stop hstop other hother
        rw [h stop hstop, h other hother]
    rw [hverdict]
    cases hchecked : s.checkedBreakpointSpec first spec with
    | ok checked =>
      have hsame : (s.edited source requested).checkedBreakpointSpec first spec = .ok checked :=
        hchecked
      dsimp only
      rw [hsame]
      constructor
      · intro htells stop hstop
        exact (harmed stop hstop).mp ((htells.verified.mp (verified_ok line)).2 stop hstop)
      · intro hall
        have honLine : (s.edited source requested).ArmedOnLine stopPoints source
            (.valid line (.valid spec)) :=
          ⟨List.ne_nil_of_mem hfirst, fun stop hstop => (harmed stop hstop).mpr (hall stop hstop)⟩
        exact ⟨iff_of_true (verified_ok line) honLine, fun hnot => absurd (verified_ok line) hnot⟩
    | error error =>
      have hsame : (s.edited source requested).checkedBreakpointSpec first spec = .error error :=
        hchecked
      dsimp only
      rw [hsame]
      constructor
      · intro htells
        exact hnowhere.mp (htells.unverified (not_verified_unverifiedBreakpoint line error))
      · intro hnone
        apply TellsTruth.of_silent (not_verified_unverifiedBreakpoint line error)
        · rintro ⟨-, hall⟩
          have hok := (harmed first hfirst).mp (hall first hfirst)
          rw [hchecked] at hok
          cases hok
        · exact hnowhere.mpr hnone

/-- The answer to any request. -/
theorem tellsTruth_iff (hsome : s.stopPoints = some stopPoints) {request : RequestedBreakpoint}
    (hrequested : request ∈ requested) {answer : Json} {i : Nat}
    (hrequest : requested[i]? = some request)
    (hanswer : ((s.edited source requested).resolveBreakpoints source requested)[i]? =
      some answer) :
    (s.edited source requested).TellsTruth stopPoints source request answer ↔
      s.OneVerdict stopPoints source request := by
  rw [resolveBreakpoints, List.getElem?_map, hrequest] at hanswer
  have hanswer := Option.some.inj hanswer
  have hlaunched : (s.edited source requested).stopPoints = some stopPoints := hsome
  cases request with
  | invalidLine =>
    refine iff_of_true (.of_silent ?_ id fun _ _ => id) trivial
    rw [← hanswer]
    intro h
    cases h
  | valid line request =>
    dsimp only at hanswer
    rw [resolvedBreakpoint, hlaunched] at hanswer
    dsimp only at hanswer
    rw [← hanswer]
    cases request with
    | valid spec => exact tellsTruth_spec_iff hsome hrequested
    | invalidCondition =>
      refine iff_of_true (.of_silent ?_ id fun _ _ => id) trivial
      unfold resolvedLaunchedBreakpoint
      split <;> exact not_verified_unverifiedBreakpoint _ _
    | invalidHitCondition =>
      refine iff_of_true (.of_silent ?_ id fun _ _ => id) trivial
      unfold resolvedLaunchedBreakpoint
      split <;> exact not_verified_unverifiedBreakpoint _ _
    | invalidLogMessage =>
      refine iff_of_true (.of_silent ?_ id fun _ _ => id) trivial
      unfold resolvedLaunchedBreakpoint
      split <;> exact not_verified_unverifiedBreakpoint _ _

/-- Each answer to a setBreakpoints request of a launched session tells the truth exactly
where its breakpoint checks at every stop point of the line or at none. -/
theorem tellsTruth_iff_oneVerdict {request : Json} {w : LaunchWorld H}
    (hsome : s.stopPoints = some stopPoints) (hedits : s.Edits request source requested) :
    ∃ (t : Session H) (effect : Effect H) (answers : List Json),
      s.handle w request = (t, effect) ∧
      t.out = s.out ++ [.response (s.seq + 1) (requestField request "seq")
        (requestField request "command") true none (.object [("breakpoints", .array answers)])] ∧
      answers.length = requested.length ∧
      ∀ (i : Nat) breakpoint answer, requested[i]? = some breakpoint → answers[i]? = some answer →
        (t.TellsTruth stopPoints source breakpoint answer ↔
          s.OneVerdict stopPoints source breakpoint) := by
  have hhandle := handle_of_edits_answers w hedits (by rw [hsome]; rfl)
  refine ⟨_, _, _, hhandle, rfl, List.length_map _, ?_⟩
  intro i breakpoint answer hbreakpoint hanswer
  apply tellsTruth_respond.trans
  exact tellsTruth_iff hsome (List.mem_of_getElem? hbreakpoint) hbreakpoint hanswer

end Session

namespace Sample

/-- A host with two scopes on a line: at its start no condition has a meaning. -/
def scopedHost : DebugHost :=
  { host with
    checkedDebugExpression := fun _ _ span source =>
      if span.startByte = 0 then .error ["unknown name"] else .ok source }

/-- A program that can stop twice on the first line of a file. -/
def twoStops : List RuntimeStop := [⟨fileA, ⟨0, 0, 1, 1⟩⟩, ⟨fileA, ⟨5, 5, 1, 6⟩⟩]

/-- A launched session in which conditions check everywhere. -/
def launched : Session host :=
  { Session.new with analysis := some (), stopPoints := some (.fromRuntime host [] twoStops) }

def twoScopes : Session scopedHost :=
  { Session.new with analysis := some (), stopPoints := some (.fromRuntime scopedHost [] twoStops) }

def scopedWorld : LaunchWorld scopedHost where
  prepare := .ok ⟨.null, .ok .null, [], twoStops, ()⟩
  spawn := .ok ⟨.null, .null⟩

/-- The client asks for a breakpoint with a condition on that line. -/
def conditional : Json :=
  request "setBreakpoints" [("source", .object [("path", .string "/a.mw")]),
    ("breakpoints", .array [.object [("line", jsonNat 1), ("condition", .string "true")]])]

def conditionalSpec : BreakpointSpec := ⟨some "true", none, none⟩

def requestedLine : List RequestedBreakpoint := [.valid 1 (.valid conditionalSpec)]

theorem twoScopes_edits : twoScopes.Edits conditional fileA requestedLine :=
  ⟨rfl, _, rfl, rfl, rfl⟩

/-- The condition on the line of two stop points has one verdict in the small program. -/
theorem tellsTruth_conditional :
    ∃ (t : Session host) (effect : Effect host) (answers : List Json),
      launched.handle world conditional = (t, effect) ∧
      t.out = launched.out ++ [.response (launched.seq + 1) (Session.requestField conditional "seq")
        (Session.requestField conditional "command") true none
        (.object [("breakpoints", .array answers)])] ∧
      answers.length = requestedLine.length ∧
      ∀ (i : Nat) breakpoint answer,
        requestedLine[i]? = some breakpoint →
        answers[i]? = some answer →
          (t.TellsTruth (.fromRuntime host [] twoStops) fileA breakpoint answer ↔
            launched.OneVerdict (.fromRuntime host [] twoStops) fileA breakpoint) :=
  Session.tellsTruth_iff_oneVerdict rfl ⟨rfl, _, rfl, rfl, rfl⟩

/-- The breakpoint is armed at the second stop point of its line and reported unverified. -/
theorem not_tellsTruth_twoScopes :
    ∃ (t : Session scopedHost) (effect : Effect scopedHost) (answer : Json),
      twoScopes.handle scopedWorld conditional = (t, effect) ∧
      t.out = [.response 1 (jsonNat 1) (.string "setBreakpoints") true none
        (.object [("breakpoints", .array [answer])])] ∧
      ¬ t.TellsTruth (.fromRuntime scopedHost [] twoStops) fileA
        (.valid 1 (.valid conditionalSpec)) answer := by
  have hhandle := Session.handle_of_edits_answers scopedWorld twoScopes_edits rfl
  refine ⟨_, _, _, hhandle, rfl, ?_⟩
  intro htells
  have harms := htells.unverified (Session.not_verified_unverifiedBreakpoint 1 _)
  exact harms fileA _ ⟨⟨fileA, ⟨5, 5, 1, 6⟩⟩, .tail _ (.head _), _, rfl, rfl, rfl⟩

end Sample

end Dap

end MarrowLsp
