-- SUMMARY: What handling a request does to the session of the debug adapter: the messages written, and the few parts of the state each kind of request changes.
import MarrowLsp.Dap.Session
import Mathlib.Data.List.Basic

/-!
# Handlers

Every handler is a change of the state followed by its output. `Tells` is the output part:
the messages written, with their numbers, and references handed out. `Handled` lists what
handling a request can come to; what holds over whole sessions is derived from it.
-/
namespace MarrowLsp

namespace Dap

variable {H : DebugHost}

/-- A message is the response to a request: it carries its number and its command. -/
def Message.answers : Message → Json → Prop
  | .response _ requestSeq command .., request =>
    requestSeq = Session.requestField request "seq" ∧
      command = Session.requestField request "command"
  | .event .., _ => False

def Message.eventName : Message → Option String
  | .response .. => none
  | .event _ name _ => some name

namespace Session

/-! ## Output -/

/-- From `s` to `t`, messages are written, with the next numbers. -/
structure Wrote (s t : Session H) (messages : List Message) : Prop where
  out : t.out = s.out ++ messages
  seq : t.seq = s.seq + messages.length
  numbered : messages.map Message.seq = List.range' (s.seq + 1) messages.length

theorem Wrote.of_same {s t : Session H} (hout : t.out = s.out) (hseq : t.seq = s.seq) :
    Wrote s t [] :=
  ⟨hout.trans (List.append_nil _).symm, hseq, rfl⟩

theorem Wrote.trans {s t u : Session H} {messages more : List Message} (h : Wrote s t messages)
    (h' : Wrote t u more) : Wrote s u (messages ++ more) where
  out := by rw [h'.out, h.out, List.append_assoc]
  seq := by rw [h'.seq, h.seq, List.length_append, Nat.add_assoc]
  numbered := by
    have hstart : t.seq + 1 = s.seq + 1 + messages.length := by
      rw [h.seq]
      omega
    rw [List.map_append, h.numbered, h'.numbered, hstart, List.length_append,
      ← List.range'_append_1]

/-- From `s` to `t`, messages are written and references handed out. -/
structure Tells (s t : Session H) (messages : List Message) : Prop extends Wrote s t messages where
  running : t.running = s.running
  pending : t.pending = s.pending
  analysis : t.analysis = s.analysis
  stopPoints : t.stopPoints = s.stopPoints
  breakpoints : t.breakpoints = s.breakpoints
  done : t.done = s.done

theorem Tells.refl (s : Session H) : Tells s s [] :=
  ⟨.of_same rfl rfl, rfl, rfl, rfl, rfl, rfl, rfl⟩

theorem Tells.trans {s t u : Session H} {messages more : List Message} (h : Tells s t messages)
    (h' : Tells t u more) : Tells s u (messages ++ more) where
  toWrote := h.toWrote.trans h'.toWrote
  running := h'.running.trans h.running
  pending := h'.pending.trans h.pending
  analysis := h'.analysis.trans h.analysis
  stopPoints := h'.stopPoints.trans h.stopPoints
  breakpoints := h'.breakpoints.trans h.breakpoints
  done := h'.done.trans h.done

theorem tells_write (s : Session H) (message : Nat → Message)
    (hseq : (message (s.seq + 1)).seq = s.seq + 1) :
    Tells s (s.write message) [message (s.seq + 1)] :=
  ⟨⟨rfl, rfl, by simp [hseq]⟩, rfl, rfl, rfl, rfl, rfl, rfl⟩

/-- The armed set is made from the analysis, the stop points and the requests alone. -/
theorem armedBreakpoints_congr {s t : Session H} (hanalysis : t.analysis = s.analysis)
    (hstopPoints : t.stopPoints = s.stopPoints) (hbreakpoints : t.breakpoints = s.breakpoints) :
    t.armedBreakpoints = s.armedBreakpoints := by
  cases s
  cases t
  cases hanalysis
  cases hstopPoints
  cases hbreakpoints
  rfl

theorem tells_event (s : Session H) (name : String) (body : Json) :
    Tells s (s.event name body) [.event (s.seq + 1) name body] :=
  tells_write s _ rfl

theorem tells_supportsVariablePaging (s : Session H) (paging : Bool) :
    Tells s { s with supportsVariablePaging := paging } [] :=
  ⟨.of_same rfl rfl, rfl, rfl, rfl, rfl, rfl, rfl⟩

/-! ## References -/

theorem tells_allocRef (s : Session H) (expandable : Expandable H) :
    Tells s (s.allocRef expandable).2 [] :=
  ⟨.of_same rfl rfl, rfl, rfl, rfl, rfl, rfl, rfl⟩

theorem tells_refFor (s : Session H) (expandable : Option (Expandable H)) :
    Tells s (s.refFor expandable).2 [] := by
  cases expandable with
  | none => exact .refl s
  | some expandable => exact tells_allocRef s expandable

theorem tells_childVariable (storeSnapshot : Option H.StoreSnapshot) (s : Session H)
    (child : Child H) : Tells s (childVariable storeSnapshot s child).2 [] :=
  tells_refFor s _

theorem tells_dataVariable (s : Session H) (entry : DataVar H) :
    Tells s (dataVariable s entry).2 [] :=
  tells_refFor s _

theorem tells_rows {α : Type} {row : Session H → α → Json × Session H}
    (hrow : ∀ s entry, Tells s (row s entry).2 []) (s : Session H) (entries : List α) :
    Tells s (rows row s entries).2 [] := by
  induction entries generalizing s with
  | nil => exact .refl s
  | cons entry entries ih => exact (hrow s entry).trans (ih _)

theorem tells_valueVariables (s : Session H) (value : H.DebugValue)
    (storeSnapshot : Option H.StoreSnapshot) (page : ChildPage) (filter : VariablesFilter) :
    Tells s (s.valueVariables value storeSnapshot page filter).2 [] :=
  tells_rows (tells_childVariable storeSnapshot) s _

theorem tells_localsBody (s : Session H) (snapshot : LocalsSnapshot H) :
    Tells s (s.localsBody snapshot).2 [] :=
  tells_rows (tells_childVariable none) s _

theorem tells_dataBody (s : Session H) (snapshot : DataVariablesSnapshot H) :
    Tells s (s.dataBody snapshot).2 [] :=
  tells_rows tells_dataVariable s _

theorem tells_evaluateBody (s : Session H) (snapshot : EvaluationSnapshot H) :
    Tells s (s.evaluateBody snapshot).2 [] :=
  tells_refFor s _

/-! ## Replies -/

/-- One response to the request is written, and then the named events. -/
def Replies (s t : Session H) (request : Json) (events : List String) : Prop :=
  ∃ response written, response.answers request ∧ Tells s t (response :: written) ∧
    written.map Message.eventName = events.map some

theorem Replies.tells {s t : Session H} {request : Json} {events : List String}
    (h : Replies s t request events) : ∃ messages, Tells s t messages := by
  obtain ⟨response, written, -, htells, -⟩ := h
  exact ⟨response :: written, htells⟩

section Replies

variable {s t : Session H} {request : Json} {events : List String}

theorem Replies.running (h : Replies s t request events) : t.running = s.running :=
  h.tells.elim fun _ htells => htells.running

theorem Replies.pending (h : Replies s t request events) : t.pending = s.pending :=
  h.tells.elim fun _ htells => htells.pending

theorem Replies.analysis (h : Replies s t request events) : t.analysis = s.analysis :=
  h.tells.elim fun _ htells => htells.analysis

theorem Replies.stopPoints (h : Replies s t request events) : t.stopPoints = s.stopPoints :=
  h.tells.elim fun _ htells => htells.stopPoints

theorem Replies.breakpoints (h : Replies s t request events) : t.breakpoints = s.breakpoints :=
  h.tells.elim fun _ htells => htells.breakpoints

theorem Replies.done (h : Replies s t request events) : t.done = s.done :=
  h.tells.elim fun _ htells => htells.done

end Replies

theorem Replies.of_tells {s t u : Session H} {request : Json} {events : List String}
    (h : Tells s t []) (h' : Replies t u request events) : Replies s u request events := by
  obtain ⟨response, written, hanswers, htells, hnames⟩ := h'
  exact ⟨response, written, hanswers, h.trans htells, hnames⟩

theorem replies_respond (s : Session H) (request body : Json) :
    Replies s (s.respond request body) request [] :=
  ⟨.response .., [], ⟨rfl, rfl⟩, tells_write s _ rfl, rfl⟩

theorem replies_respondError (s : Session H) (request : Json) (error : DapInputError) :
    Replies s (s.respondError request error) request [] :=
  ⟨.response .., [], ⟨rfl, rfl⟩, tells_write s _ rfl, rfl⟩

theorem Replies.event {s t : Session H} {request : Json} {events : List String}
    (h : Replies s t request events) (name : String) (body : Json) :
    Replies s (t.event name body) request (events ++ [name]) := by
  obtain ⟨response, written, hanswers, htells, hnames⟩ := h
  have hevent := htells.trans (tells_event t name body)
  rw [List.cons_append] at hevent
  refine ⟨response, written ++ [.event (t.seq + 1) name body], hanswers, hevent, ?_⟩
  rw [List.map_append, List.map_append, hnames]
  rfl

/-- An answer received, or none, gives one response. -/
theorem replies_afterQuery (s : Session H) (request : Json) (query : Query H)
    (answer : Option (QueryResult H)) : Replies s (s.afterQuery request query answer) request [] := by
  unfold afterQuery
  split
  · exact .of_tells (tells_localsBody s _) (replies_respond _ request _)
  · exact .of_tells (tells_dataBody s _) (replies_respond _ request _)
  · exact replies_respondError s request _
  · exact .of_tells (tells_evaluateBody s _) (replies_respond _ request _)
  · exact replies_respondError s request _
  · exact replies_respondError s request _
  · exact replies_respond s request _

/-! ## Handling a request -/

/-- The request ends the session: a disconnect or terminate with well-formed arguments. -/
def endsSession (request : Json) : Bool :=
  (command request == "disconnect" || command request == "terminate") &&
    (requestArguments request).isOk

/-- A disconnect is always accepted, a terminate where something runs. -/
def acceptsEnd (s : Session H) (request : Json) : Bool :=
  endsSession request && (command request == "disconnect" || s.running.isSome)

/-- The request is a pause of a run, and is acknowledged. -/
def acknowledgesPause (s : Session H) (request : Json) : Bool :=
  command request == "pause" && s.running.isSome &&
    ((requestArguments request).bind parseThreadId).isOk

/-- What handling a request can come to: the session after it, and what is left to do. -/
inductive Handled (s : Session H) (request : Json) : Session H × Effect H → Prop where
  /-- Rejected, or answered from what the session knows. -/
  | replied {t : Session H} (h : Replies s t request []) : Handled s request (t, .none)
  | launchFailed {t : Session H} (hrunning : s.running = none)
      (h : Replies s.clearLaunchConfiguration t request []) : Handled s request (t, .none)
  | launched {t : Session H} (pending : PendingLaunch) (launch : Launch H)
      (hrunning : s.running = none)
      (h : Replies { s.clearLaunchConfiguration with
        pending := some pending, analysis := some launch.analysis
        stopPoints := some (.fromRuntime H launch.files launch.points) }
        t request ["initialized"]) : Handled s request (t, .none)
  | breakpointsSet {t : Session H} (source : Path) (requested : List RequestedBreakpoint)
      (hstopPoints : s.stopPoints.isSome = true)
      (h : Replies { s with breakpoints := setRequested s.breakpoints source requested }
        t request []) :
      Handled s request
        (t, if s.running.isSome then .arm t.armedBreakpoints else .none)
  | started {t : Session H} (pending : PendingLaunch) (executionBoundary : Json)
      (hpending : s.pending = some pending)
      (h : Replies { s with
        pending := none, running := some ⟨executionBoundary, none, none, false⟩ }
        t request []) :
      Handled s request (t, .start pending.stopOnEntry t.armedBreakpoints)
  | notStarted {t : Session H} (pending : PendingLaunch) (hpending : s.pending = some pending)
      (h : Replies s.clearLaunchConfiguration t request []) : Handled s request (t, .none)
  | noThread {t : Session H} (pending : PendingLaunch) (hpending : s.pending = some pending)
      (h : Replies { s with pending := none } t request []) : Handled s request (t, .terminate)
  /-- Answered once the parked run has answered. -/
  | asked (query : Query H) (hstopped : s.stoppedAt.isSome = true) :
      Handled s request (s, .query query)
  | resumed {t : Session H} (mode : Resume) (events : List String)
      (hstopped : s.stoppedAt.isSome = true) (hevents : events = [] ∨ events = ["continued"])
      (hpause : mode = .pause → s.acknowledgesPause request = true)
      (h : Replies s t request events) : Handled s request (t.resumeRun mode, .none)
  | paused {t : Session H} (running : Running) (hrunning : s.running = some running)
      (hstopped : running.stoppedAt = none) (hpause : s.acknowledgesPause request = true)
      (h : Replies s t request []) : Handled s request (t, .pause)
  | ending {t : Session H} (hends : endsSession request = true) (h : Replies s t request []) :
      Handled s request (t, .terminate)

theorem handled_respond (s : Session H) (request body : Json) :
    Handled s request (s.respond request body, .none) :=
  .replied (replies_respond s request body)

theorem handled_respondError (s : Session H) (request : Json) (error : DapInputError) :
    Handled s request (s.respondError request error, .none) :=
  .replied (replies_respondError s request error)

theorem handled_onInitialize (s : Session H) (request arguments : Json) :
    Handled s request (s.onInitialize request arguments).only :=
  .replied (.of_tells (tells_supportsVariablePaging s _) (replies_respond _ request _))

theorem handled_onLaunch (s : Session H) (w : LaunchWorld H) (request arguments : Json) :
    Handled s request (s.onLaunch w request arguments).only := by
  unfold onLaunch
  split
  · exact handled_respondError s request _
  · next hidle =>
    simp only [Bool.or_eq_true, Option.isSome_iff_ne_none, not_or, ne_eq, not_not] at hidle
    have hrunning : s.running = none := hidle.2
    have hfailed (error : DapInputError) :
        Handled s request (s.clearLaunchConfiguration.respondError request error).only :=
      .launchFailed hrunning (replies_respondError _ request error)
    dsimp only
    split
    · exact hfailed _
    · split
      · exact hfailed _
      · split
        · exact hfailed _
        · exact .launched _ _ hrunning ((replies_respond _ request _).event "initialized" _)

theorem handled_onSetBreakpoints (s : Session H) (request arguments : Json) :
    Handled s request (s.onSetBreakpoints request arguments) := by
  unfold onSetBreakpoints
  split
  · exact handled_respondError s request _
  · split
    · exact handled_respondError s request _
    · by_cases hstopPoints : s.stopPoints.isSome = true
      · simp only [hstopPoints, if_true]
        exact .breakpointsSet _ _ hstopPoints (replies_respond _ request _)
      · simp only [hstopPoints]
        exact handled_respond s request _

theorem handled_onConfigurationDone (s : Session H) (w : LaunchWorld H) (request : Json) :
    Handled s request (s.onConfigurationDone w request) := by
  unfold onConfigurationDone
  split
  · exact handled_respondError s request _
  · next pending hpending =>
    dsimp only
    split
    · exact .started pending _ hpending (replies_respond _ request _)
    · exact .notStarted pending hpending (replies_respondError _ request _)
    · exact .noThread pending hpending (replies_respondError _ request _)

theorem handled_onStackTrace (s : Session H) (request arguments : Json) :
    Handled s request (s.onStackTrace request arguments).only := by
  unfold onStackTrace
  split
  · exact handled_respondError s request _
  · exact handled_respond s request _

theorem handled_onSource (s : Session H) (request arguments : Json) :
    Handled s request (s.onSource request arguments).only := by
  unfold onSource
  split
  · exact handled_respondError s request _
  · split
    · exact handled_respondError s request _
    · exact handled_respond s request _

theorem handled_onScopes (s : Session H) (request arguments : Json) :
    Handled s request (s.onScopes request arguments).only := by
  unfold onScopes
  split
  · exact handled_respondError s request _
  · split
    · exact handled_respond s request _
    · exact handled_respondError s request _

theorem handled_ask (s : Session H) (request : Json) (query : Query H) :
    Handled s request (s.ask request query) := by
  unfold ask
  split
  · next hstopped => exact .asked query hstopped
  · exact .replied (replies_afterQuery s request query none)

theorem handled_onVariables (s : Session H) (request arguments : Json) :
    Handled s request (s.onVariables request arguments) := by
  unfold onVariables
  split
  · exact handled_respondError s request _
  · split
    · exact handled_ask s request _
    · split
      · exact handled_ask s request _
      · split
        · exact handled_respond s request _
        · exact .replied (.of_tells (tells_valueVariables s ..) (replies_respond _ request _))
        · exact handled_ask s request _

theorem handled_onEvaluate (s : Session H) (request arguments : Json) :
    Handled s request (s.onEvaluate request arguments) := by
  unfold onEvaluate
  split
  · exact handled_respondError s request _
  · split
    · exact handled_respondError s request _
    · split
      · exact handled_respondError s request _
      · exact handled_ask s request _

theorem handled_onContinue (s : Session H) (request arguments : Json) :
    Handled s request (s.onContinue request arguments).only := by
  unfold onContinue
  split
  · exact handled_respondError s request _
  · split
    · exact handled_respondError s request _
    · next running hrunning =>
      split
      · exact handled_respondError s request _
      · next hstopped =>
        have hstoppedAt : s.stoppedAt.isSome = true := by
          simp only [stoppedAt, hrunning, Option.bind_some]
          simpa [Option.isSome_iff_ne_none] using hstopped
        exact .resumed .continue ["continued"] hstoppedAt (.inr rfl) nofun
          ((replies_respond s request _).event "continued" _)

theorem handled_onStep (s : Session H) (request arguments : Json) (kind : StepKind) :
    Handled s request (s.onStep request arguments kind).only := by
  unfold onStep
  split
  · exact handled_respondError s request _
  · split
    · exact handled_respondError s request _
    · next stop hstop =>
      have hstoppedAt : s.stoppedAt.isSome = true := by rw [hstop, Option.isSome_some]
      have hmode : kind.mode stop.depth ≠ .pause := by cases kind <;> nofun
      exact .resumed (kind.mode stop.depth) [] hstoppedAt (.inl rfl) (fun h => absurd h hmode)
        (replies_respond s request _)

theorem handled_onPause (s : Session H) {request arguments : Json}
    (hcommand : command request = "pause") (harguments : requestArguments request = .ok arguments) :
    Handled s request (s.onPause request arguments) := by
  unfold onPause
  split
  · exact handled_respondError s request _
  · next hthread =>
    split
    · exact handled_respondError s request _
    · next running hrunning =>
      have hacknowledges : s.acknowledgesPause request = true := by
        simp [acknowledgesPause, hcommand, hrunning, harguments, Except.bind, hthread, Except.isOk,
          Except.toBool]
      split
      · next hstopped =>
        have hstoppedAt : s.stoppedAt.isSome = true := by
          simpa only [stoppedAt, hrunning, Option.bind_some] using hstopped
        exact .resumed .pause ["continued"] hstoppedAt (.inr rfl) (fun _ => hacknowledges)
          ((replies_respond s request _).event "continued" _)
      · next hstopped =>
        exact .paused running hrunning (by simpa using hstopped) hacknowledges
          (replies_respond s request _)

theorem endsSession_of_command {request arguments : Json}
    (hcommand : command request = "disconnect" ∨ command request = "terminate")
    (harguments : requestArguments request = .ok arguments) : endsSession request = true := by
  simp [endsSession, hcommand, harguments, Except.isOk, Except.toBool]

theorem handled_onTerminate (s : Session H) {request : Json} (hends : endsSession request = true) :
    Handled s request (s.onTerminate request) := by
  unfold onTerminate
  split
  · exact handled_respondError s request _
  · exact .ending hends (replies_respond s request _)

theorem handled_withArguments {s : Session H} {request : Json}
    {onCommand : Json → Session H × Effect H}
    (h : ∀ arguments, requestArguments request = .ok arguments →
      Handled s request (onCommand arguments)) :
    Handled s request (s.withArguments request onCommand) := by
  unfold withArguments
  split
  · next arguments harguments => exact h arguments harguments
  · exact handled_respondError s request _

/-- Every request is handled in one of these ways. -/
theorem handled_handle (s : Session H) (w : LaunchWorld H) (request : Json) :
    Handled s request (s.handle w request) := by
  unfold handle
  split
  case h_1 => exact handled_withArguments fun arguments _ => handled_onInitialize s request arguments
  case h_2 => exact handled_withArguments fun arguments _ => handled_onLaunch s w request arguments
  case h_3 => exact handled_withArguments fun arguments _ => handled_onSetBreakpoints s request arguments
  case h_4 => exact handled_withArguments fun _ _ => handled_onConfigurationDone s w request
  case h_5 => exact handled_withArguments fun _ _ => handled_respond s request _
  case h_6 => exact handled_withArguments fun arguments _ => handled_onStackTrace s request arguments
  case h_7 => exact handled_withArguments fun arguments _ => handled_onSource s request arguments
  case h_8 => exact handled_withArguments fun arguments _ => handled_onScopes s request arguments
  case h_9 => exact handled_withArguments fun arguments _ => handled_onVariables s request arguments
  case h_10 => exact handled_withArguments fun arguments _ => handled_onContinue s request arguments
  case h_11 => exact handled_withArguments fun arguments _ => handled_onStep s request arguments .over
  case h_12 => exact handled_withArguments fun arguments _ => handled_onStep s request arguments .into
  case h_13 => exact handled_withArguments fun arguments _ => handled_onStep s request arguments .out
  case h_14 hcommand =>
    exact handled_withArguments fun _ harguments => handled_onPause s hcommand harguments
  case h_15 => exact handled_withArguments fun arguments _ => handled_onEvaluate s request arguments
  case h_16 hcommand =>
    exact handled_withArguments fun _ harguments =>
      .ending (endsSession_of_command (.inl hcommand) harguments)
        (replies_respond s request emptyObject)
  case h_17 hcommand =>
    exact handled_withArguments fun _ harguments =>
      handled_onTerminate s (endsSession_of_command (.inr hcommand) harguments)
  case h_18 => exact handled_respondError s request _

theorem handle_of_acceptsEnd {s : Session H} {w : LaunchWorld H} {request : Json}
    (h : s.acceptsEnd request = true) :
    s.handle w request = (s.respond request emptyObject, .terminate) := by
  simp only [acceptsEnd, endsSession, Bool.and_eq_true, Bool.or_eq_true, beq_iff_eq] at h
  obtain ⟨⟨hcommand, hok⟩, haccepted⟩ := h
  obtain ⟨arguments, harguments⟩ : ∃ arguments, requestArguments request = .ok arguments := by
    cases hargs : requestArguments request with
    | ok arguments => exact ⟨arguments, rfl⟩
    | error error => simp [hargs, Except.isOk, Except.toBool] at hok
  by_cases hdisconnect : command request = "disconnect"
  · simp only [handle, hdisconnect, withArguments, harguments, onDisconnect]
  · have hterminate := hcommand.resolve_left hdisconnect
    have hnone : s.running.isNone = false := by
      cases hr : s.running with
      | none => simp [hdisconnect, hr] at haccepted
      | some running => rfl
    simp only [handle, hterminate, withArguments, harguments, onTerminate, hnone,
      Bool.false_eq_true, if_false]

end Session

end Dap

end MarrowLsp
