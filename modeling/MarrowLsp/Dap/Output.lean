-- SUMMARY: What each step of the debug adapter writes to the client: the responses it gives, and the messages that end a run.
import MarrowLsp.Dap.AdapterSteps

/-!
# Output

A step writes the response to the request it handles or has waited for, the messages of
one run event, or the messages that end the run.
-/
namespace MarrowLsp

namespace Dap

variable {H : DebugHost}

def Message.isResponse (message : Message) : Bool := message.eventName.isNone

/-- Messages that do not end a run. -/
def Ongoing (messages : List Message) : Prop :=
  ∀ message ∈ messages, message.eventName ≠ some "exited" ∧ message.eventName ≠ some "terminated"

/-- Messages that end a run: `exited` at most once, and `terminated` last. -/
def Ends (messages : List Message) : Prop :=
  ∃ before terminated, messages = before ++ [terminated] ∧
    terminated.eventName = some "terminated" ∧
    (∀ message ∈ before, message.eventName ≠ some "terminated") ∧
    before.countP (fun message => message.eventName == some "exited") ≤ 1

namespace Session

/-! ## The end of a run -/

/-- Output alone is written. -/
def Prints (s t : Session H) : Prop :=
  ∃ outputs, Wrote s t outputs ∧ ∀ message ∈ outputs, message.eventName = some "output"

theorem Prints.refl (s : Session H) : Prints s s := ⟨[], .of_same rfl rfl, nofun⟩

theorem Prints.output {s t : Session H} (h : Prints s t) (category text : String) :
    Prints s (t.output category text) := by
  obtain ⟨outputs, hwrote, houtputs⟩ := h
  refine ⟨_, hwrote.trans (tells_event t "output" _).toWrote, ?_⟩
  intro message hmem
  obtain hmem | hmem := List.mem_append.mp hmem
  · exact houtputs message hmem
  · cases List.mem_singleton.mp hmem
    rfl

/-- Output, and `exited` last. -/
def Exits (s t : Session H) : Prop :=
  ∃ u exitCode, Prints s u ∧ t = u.exited exitCode

theorem exits_emitRunOutcome (s : Session H) (outcome : Outcome) :
    Exits s (s.emitRunOutcome outcome) := by
  have hprints :
      Prints s (if outcome.output = "" then s else s.output "stdout" outcome.output) := by
    split
    · exact .refl s
    · exact (Prints.refl s).output "stdout" outcome.output
  unfold emitRunOutcome
  cases outcome.result with
  | ok message =>
    dsimp only
    by_cases hempty : message = ""
    · rw [if_pos hempty]
      exact ⟨_, 0, hprints, rfl⟩
    · rw [if_neg hempty]
      exact ⟨_, 0, hprints.output "stdout" _, rfl⟩
  | error message => exact ⟨_, 1, hprints.output "stderr" _, rfl⟩

theorem exits_emitRunPanic (s : Session H) : Exits s s.emitRunPanic :=
  ⟨_, RUN_PANIC_EXIT_CODE, (Prints.refl s).output "stderr" _, rfl⟩

theorem wrote_exited (s : Session H) (exitCode : Nat) :
    ∃ exited, Wrote s (s.exited exitCode) [exited] ∧ exited.eventName = some "exited" :=
  ⟨_, (tells_event s "exited" _).toWrote, rfl⟩

theorem wrote_endRun (s : Session H) :
    ∃ terminated, Wrote s s.endRun [terminated] ∧ terminated.eventName = some "terminated" :=
  ⟨_, ⟨rfl, rfl, rfl⟩, rfl⟩

/-- The end of a run is written with events alone. -/
theorem wrote_finishRun (s : Session H) (result : RunEnd) :
    ∃ messages, Wrote s (s.finishRun result) messages ∧ Ends messages ∧
      messages.filter Message.isResponse = [] ∧
      ∀ message ∈ messages, message.eventName ≠ some "stopped" := by
  obtain ⟨t, hfinish, u, exitCode, ⟨outputs, hprinted, houtputs⟩, rfl⟩ :
      ∃ t, s.finishRun result = t.endRun ∧ Exits s t := by
    cases result with
    | returned outcome => exact ⟨_, rfl, s.exits_emitRunOutcome outcome⟩
    | panicked => exact ⟨_, rfl, s.exits_emitRunPanic⟩
  obtain ⟨exited, hexit, hexited⟩ := u.wrote_exited exitCode
  obtain ⟨terminated, hend, hterminated⟩ := (u.exited exitCode).wrote_endRun
  have hwrote := hprinted.trans hexit
  rw [hfinish]
  have hnone : outputs.countP (fun message => message.eventName == some "exited") = 0 := by
    rw [List.countP_eq_zero]
    intro message hmem
    simp [houtputs message hmem]
  refine ⟨_, hwrote.trans hend, ⟨outputs ++ [exited], terminated, rfl, hterminated, ?_, ?_⟩,
    ?_, ?_⟩
  · intro message hmem
    obtain hmem | hmem := List.mem_append.mp hmem
    · simp [houtputs message hmem]
    · cases List.mem_singleton.mp hmem
      simp [hexited]
  · rw [List.countP_append, hnone]
    simp [hexited]
  · rw [List.filter_eq_nil_iff]
    intro message hmem
    simp only [List.mem_append, List.mem_singleton] at hmem
    obtain (hmem | rfl) | rfl := hmem
    · simp [Message.isResponse, houtputs message hmem]
    · simp [Message.isResponse, hexited]
    · simp [Message.isResponse, hterminated]
  · intro message hmem
    simp only [List.mem_append, List.mem_singleton] at hmem
    obtain (hmem | rfl) | rfl := hmem
    · simp [houtputs message hmem]
    · simp [hexited]
    · simp [hterminated]

/-! ## Run events -/

theorem wrote_handleRunEvent (s : Session H) (event : RunEvent H) :
    ∃ messages, Wrote s (s.handleRunEvent event) messages ∧ Ongoing messages ∧
      messages.filter Message.isResponse = [] ∧
      (s.running.any (·.terminating) = true →
        ∀ message ∈ messages, message.eventName ≠ some "stopped") := by
  cases event with
  | stopped info =>
    unfold handleRunEvent
    dsimp only
    split
    · exact ⟨[], .of_same rfl rfl, nofun, rfl, fun _ => nofun⟩
    · next hterminating =>
      exact ⟨_, ⟨rfl, rfl, rfl⟩, by simp [Ongoing, Message.eventName], rfl,
        fun h => absurd h hterminating⟩
  | output text =>
    exact ⟨_, (tells_event s "output" _).toWrote, by simp [Ongoing, Message.eventName], rfl,
      by simp [Message.eventName]⟩
  | answer result => exact ⟨[], .of_same rfl rfl, nofun, rfl, fun _ => nofun⟩

/-! ## Requests -/

/-- One response to the request, and after it no event but those of a launch or a resume. -/
def Responds (s t : Session H) (request : Json) : Prop :=
  ∃ response events, response.answers request ∧ Wrote s t (response :: events) ∧
    ∀ message ∈ events, message.eventName = some "initialized" ∨
      message.eventName = some "continued"

theorem responds_of_replies {s s' t : Session H} {request : Json} {events : List String}
    (h : Replies s' t request events) (hout : s'.out = s.out) (hseq : s'.seq = s.seq)
    (hevents : ∀ event ∈ events, event = "initialized" ∨ event = "continued") :
    Responds s t request := by
  obtain ⟨response, written, hanswers, htells, hnames⟩ := h
  refine ⟨response, written, hanswers, (Wrote.of_same hout hseq).trans htells.toWrote, ?_⟩
  intro message hmem
  have hname : message.eventName ∈ events.map some := by
    rw [← hnames]
    exact List.mem_map_of_mem hmem
  obtain ⟨event, hevent, heq⟩ := List.mem_map.mp hname
  rw [← heq, Option.some.injEq, Option.some.injEq]
  exact hevents event hevent

/-- A handler responds, or leaves a question and writes nothing. -/
theorem Handled.responds {s t : Session H} {request : Json} {effect : Effect H}
    (h : Handled s request (t, effect)) :
    (∃ query, effect = .query query ∧ t = s) ∨
      (∀ query, effect ≠ .query query) ∧ Responds s t request := by
  have hnone {s' t' : Session H} (hreply : Replies s' t' request []) (hout : s'.out = s.out)
      (hseq : s'.seq = s.seq) : Responds s t' request :=
    responds_of_replies hreply hout hseq nofun
  cases h with
  | replied hreply =>
    exact .inr ⟨nofun, hnone hreply rfl rfl⟩
  | launchFailed hrunning hreply =>
    exact .inr ⟨nofun, hnone hreply rfl rfl⟩
  | launched pending launch hrunning hreply =>
    exact .inr ⟨nofun, responds_of_replies hreply rfl rfl (by simp)⟩
  | breakpointsSet source requested hstopPoints hreply =>
    refine .inr ⟨?_, hnone hreply rfl rfl⟩
    intro query heq
    split at heq <;> cases heq
  | started pending boundary hpending hreply =>
    exact .inr ⟨nofun, hnone hreply rfl rfl⟩
  | notStarted pending hpending hreply =>
    exact .inr ⟨nofun, hnone hreply rfl rfl⟩
  | noThread pending hpending hreply =>
    exact .inr ⟨nofun, hnone hreply rfl rfl⟩
  | asked query hstopped =>
    exact .inl ⟨query, rfl, rfl⟩
  | @resumed u mode events hstopped hevents hpause hreply =>
    have hresponds : Responds s u request := by
      refine responds_of_replies hreply rfl rfl ?_
      obtain rfl | rfl := hevents <;> simp
    obtain ⟨response, written, hanswers, hwrote, hnames⟩ := hresponds
    exact .inr ⟨nofun, response, written, hanswers,
      ⟨hwrote.out, hwrote.seq, hwrote.numbered⟩, hnames⟩
  | paused running hrunning hstopped hpause hreply =>
    exact .inr ⟨nofun, hnone hreply rfl rfl⟩
  | ending hends hreply =>
    exact .inr ⟨nofun, hnone hreply rfl rfl⟩

end Session

/-! ## Steps -/

/-- The request that a phase owes a response. -/
def Phase.awaited : Phase H → List Json
  | .awaiting request _ => [request]
  | _ => []

def AdapterStep.handled : AdapterStep H → List Json
  | .request message _ => [message]
  | _ => []

/-- What a step writes: the responses to what was awaited or is handled and then is not
awaited, and nothing once the session is done. -/
structure Writes (a b : Adapter H) (label : AdapterStep H) (messages : List Message) : Prop where
  wrote : a.session.Wrote b.session messages
  replies : ∃ replied, a.phase.awaited ++ label.handled = replied ++ b.phase.awaited ∧
    List.Forall₂ Message.answers (messages.filter Message.isResponse) replied
  silent : a.session.done = true → messages = [] ∧ b.session.done = true
  ending : Ongoing messages ∨ a.session.done = false ∧ b.session.done = true ∧ Ends messages

theorem eventName_of_answers {response : Message} {request : Json}
    (h : response.answers request) : response.eventName = none := by
  cases response with
  | response => rfl
  | event => exact h.elim

/-- A response and the events after it. -/
theorem filter_isResponse_reply {response : Message} {events : List Message} {request : Json}
    (hanswers : response.answers request)
    (hevents : ∀ message ∈ events, message.eventName = some "initialized" ∨
      message.eventName = some "continued") :
    (response :: events).filter Message.isResponse = [response] ∧ Ongoing (response :: events) := by
  have hresponse := eventName_of_answers hanswers
  have hnone : events.filter Message.isResponse = [] := by
    rw [List.filter_eq_nil_iff]
    intro message hmem
    obtain hname | hname := hevents message hmem <;> simp [Message.isResponse, hname]
  refine ⟨?_, ?_⟩
  · rw [List.filter_cons_of_pos (by simp [Message.isResponse, hresponse]), hnone]
  · intro message hmem
    obtain rfl | hmem := List.mem_cons.mp hmem
    · simp [hresponse]
    · obtain hname | hname := hevents message hmem <;> simp [hname]

/-- What a handler leaves to do, a question apart, writes nothing. -/
theorem wrote_perform {a : Adapter H} {request : Json} {effect : Effect H}
    (hphase : a.phase = .idle) (hquery : ∀ query, effect ≠ .query query) :
    a.session.Wrote (a.perform request effect).session [] ∧
      (a.perform request effect).phase.awaited = [] := by
  have hterminate : a.session.Wrote a.terminateSession.session [] ∧
      a.terminateSession.phase.awaited = [] := by
    unfold Adapter.terminateSession
    split
    · exact ⟨.of_same rfl rfl, rfl⟩
    · exact ⟨.of_same rfl rfl, rfl⟩
  have hidle : a.phase.awaited = [] := by rw [hphase]; rfl
  cases effect with
  | none => exact ⟨.of_same rfl rfl, hidle⟩
  | pause => exact ⟨.of_same rfl rfl, hidle⟩
  | arm breakpoints => exact ⟨.of_same rfl rfl, hidle⟩
  | start stopOnEntry breakpoints => exact ⟨.of_same rfl rfl, hidle⟩
  | query query => exact absurd rfl (hquery query)
  | terminate => exact hterminate

/-- A step that writes nothing and leaves the awaited request as it is. -/
theorem writes_nothing {a b : Adapter H} {label : AdapterStep H}
    (hwrote : a.session.Wrote b.session []) (hphase : b.phase.awaited = a.phase.awaited)
    (hlabel : label.handled = []) (hdone : a.session.done = true → b.session.done = true) :
    ∃ messages, Writes a b label messages :=
  ⟨[], hwrote, ⟨[], by rw [hlabel, hphase, List.append_nil]; rfl, .nil⟩,
    fun h => ⟨rfl, hdone h⟩, .inl nofun⟩

theorem writes_handled {a : Adapter H} {request : Json} {world : LaunchWorld H} {t : Session H}
    {effect : Effect H} (hphase : a.phase = .idle) (hdone : a.session.done = false)
    (h : a.session.Handled request (t, effect)) :
    ∃ messages, Writes a ({ a with session := t }.perform request effect)
      (.request request world) messages := by
  have hidle : a.phase.awaited = [] := by rw [hphase]; rfl
  have hnot (hdone' : a.session.done = true) : False := by
    rw [hdone] at hdone'
    cases hdone'
  obtain ⟨query, rfl, rfl⟩ | ⟨hquery, response, events, hanswers, hwrote, hevents⟩ := h.responds
  · unfold Adapter.perform
    dsimp only
    split
    · obtain ⟨response, written, hanswers, htells, hnames⟩ :=
        a.session.replies_afterQuery request query none
      obtain rfl : written = [] := List.map_eq_nil_iff.mp hnames
      obtain ⟨hfilter, hongoing⟩ := @filter_isResponse_reply response [] request hanswers (by simp)
      refine ⟨[response], htells.toWrote, ⟨[request], ?_, ?_⟩, fun h => (hnot h).elim,
        .inl hongoing⟩
      · rw [hidle]
        rfl
      · rw [hfilter]
        exact .cons hanswers .nil
    · refine ⟨[], .of_same rfl rfl, ⟨[], ?_, .nil⟩, fun h => (hnot h).elim, .inl nofun⟩
      rw [hidle]
      rfl
  · obtain ⟨hperformed, hawaited⟩ :=
      @wrote_perform H { a with session := t } request effect hphase hquery
    obtain ⟨hfilter, hongoing⟩ := filter_isResponse_reply hanswers hevents
    refine ⟨response :: events, ?_, ⟨[request], ?_, ?_⟩, fun h => (hnot h).elim, .inl hongoing⟩
    · have hboth := hwrote.trans hperformed
      rwa [List.append_nil] at hboth
    · rw [hidle, hawaited]
      rfl
    · rw [hfilter]
      exact .cons hanswers .nil

theorem writes_reply {a : Adapter H} {request : Json} {query : Query H}
    {answer : Option (QueryResult H)} {run : Option (RunThread H)}
    (hphase : a.phase = .awaiting request query) (hdone : a.session.done = false) :
    ∃ messages, Writes a ⟨a.session.afterQuery request query answer, .idle, run⟩ .receiveAnswer
      messages := by
  obtain ⟨response, written, hanswers, htells, hnames⟩ :=
    a.session.replies_afterQuery request query answer
  obtain rfl : written = [] := List.map_eq_nil_iff.mp hnames
  obtain ⟨hfilter, hongoing⟩ := @filter_isResponse_reply response [] request hanswers (by simp)
  refine ⟨[response], htells.toWrote, ⟨[request], ?_, ?_⟩, ?_, .inl hongoing⟩
  · rw [hphase]
    rfl
  · rw [hfilter]
    exact .cons hanswers .nil
  · intro h
    rw [hdone] at h
    cases h

theorem writes_finish {a b : Adapter H} {label : AdapterStep H} {s : Session H} {result : RunEnd}
    (hsession : b.session = s.finishRun result) (hsame : a.session.Wrote s [])
    (hphase : a.phase.awaited = []) (hphase' : b.phase.awaited = []) (hlabel : label.handled = [])
    (hdone : a.session.done = false) : ∃ messages, Writes a b label messages := by
  obtain ⟨messages, hwrote, hends, hfilter, -⟩ := s.wrote_finishRun result
  refine ⟨messages, ?_, ⟨[], ?_, ?_⟩, ?_, .inr ⟨hdone, ?_, hends⟩⟩
  · rw [hsession]
    exact hsame.trans hwrote
  · rw [hphase, hphase', hlabel, List.append_nil]
  · rw [hfilter]
    exact .nil
  · intro h
    rw [hdone] at h
    cases h
  · rw [hsession]
    exact Session.done_finishRun s result

theorem writes_of_step {a b : Adapter H} {label : AdapterStep H} (hlife : a.Life)
    (hstep : a.step label = some b) : ∃ messages, Writes a b label messages := by
  have hongoing {running : Running} (hrunning : a.session.running = some running) :
      a.session.done = false := hlife.ongoing (by rw [hrunning]; rfl)
  have hawaiting {request : Json} {query : Query H} (hphase : a.phase = .awaiting request query) :
      a.session.done = false := by
    cases hrunning : a.session.running with
    | some running => exact hongoing hrunning
    | none =>
      have hidle := hlife.phase hrunning
      rw [hphase] at hidle
      cases hidle
  have hstepped := Adapter.stepped_of_step hstep
  cases hstepped with
  | handled hphase hdone hhandle hhandled => exact writes_handled hphase hdone hhandled
  | resumeDropped hphase hdone hrunning hrun hterminating =>
    exact writes_nothing (.of_same rfl rfl) rfl rfl id
  | resumeSent hphase hdone hrunning hrun hpending hterminating hresult =>
    exact writes_nothing (.of_same rfl rfl) rfl rfl id
  | resumeFailed hphase hdone hrunning hrun hpending hresult =>
    have hidle : a.phase.awaited = [] := by rw [hphase]; rfl
    exact writes_finish rfl (.of_same rfl rfl) hidle hidle rfl hdone
  | @tookEvent _ running run event events hlabel hrunning hrun hevents =>
    obtain ⟨messages, hwrote, hnames, hfilter, -⟩ := a.session.wrote_handleRunEvent event
    have hdone := hongoing hrunning
    refine ⟨messages, hwrote, ⟨[], ?_, ?_⟩, ?_, .inl hnames⟩
    · obtain ⟨rfl, -⟩ | ⟨rfl, -⟩ := hlabel <;> exact List.append_nil _
    · rw [hfilter]
      exact .nil
    · intro h
      rw [hdone] at h
      cases h
  | joined hlabel hrunning hrun hevents hresult =>
    refine writes_finish rfl (.of_same rfl rfl) ?_ rfl ?_ (hongoing hrunning)
    · obtain ⟨-, hphase⟩ | ⟨-, hphase⟩ := hlabel <;> rw [hphase] <;> rfl
    · obtain ⟨rfl, -⟩ | ⟨rfl, -⟩ := hlabel <;> rfl
  | answered hphase hrun hevents => exact writes_reply hphase (hawaiting hphase)
  | unanswered hphase hrun hevents => exact writes_reply hphase (hawaiting hphase)
  | detached hphase hrun hevents hresult =>
    have hrunning : ∃ running, a.session.running = some running := by
      cases hrunning : a.session.running with
      | some running => exact ⟨running, rfl⟩
      | none =>
        have hidle := hlife.phase hrunning
        rw [hphase] at hidle
        cases hidle
    obtain ⟨running, hrunning⟩ := hrunning
    have hdone := hongoing hrunning
    obtain ⟨terminated, hwrote, hname⟩ := a.session.wrote_endRun
    refine ⟨[terminated], hwrote, ⟨[], ?_, ?_⟩, ?_,
      .inr ⟨hdone, rfl, [], terminated, rfl, hname, nofun, by simp⟩⟩
    · rw [hphase]
      rfl
    · simp [Message.isResponse, hname]
    · intro h
      rw [hdone] at h
      cases h
  | dropped hphase =>
    obtain ⟨hwrote, hawaited⟩ := @wrote_perform H a .null .terminate hphase nofun
    refine writes_nothing hwrote ?_ rfl ?_
    · rw [hphase]
      exact hawaited
    · intro hdone
      show a.terminateSession.session.done = true
      unfold Adapter.terminateSession
      split
      · exact hdone
      · rfl
  | ran hrun hran => exact writes_nothing (.of_same rfl rfl) rfl rfl id

/-! ## The end of a session -/

/-- The session is done, or the protocol thread drains the last events of a run that is
terminating. -/
def Closing (a : Adapter H) : Prop :=
  a.session.running = none ∧ a.session.done = true ∧ a.phase = .idle ∨
    ∃ running, a.session.running = some running ∧ running.terminating = true ∧ a.phase = .draining

theorem closing_terminateSession (a : Adapter H) : Closing a.terminateSession := by
  unfold Adapter.terminateSession
  split
  · next hrunning =>
    obtain ⟨running, hrunning⟩ := Option.isSome_iff_exists.mp hrunning
    exact .inr ⟨{ running with stoppedAt := none, pendingResume := none, terminating := true },
      by simp [Session.beginTerminate, hrunning], rfl, rfl⟩
  · next hrunning => exact .inl ⟨by simpa using hrunning, rfl, rfl⟩

/-- A session that closes stays so, and tells of no stop. -/
theorem closing_step {a b : Adapter H} {label : AdapterStep H} (h : Closing a)
    (hstep : a.step label = some b) :
    Closing b ∧ ∃ messages, a.session.Wrote b.session messages ∧
      ∀ message ∈ messages, message.eventName ≠ some "stopped" := by
  have hstepped := Adapter.stepped_of_step hstep
  have hdone (hphase : a.phase = .idle) : a.session.done ≠ false := by
    obtain ⟨-, hdone, -⟩ | ⟨running, -, -, hdraining⟩ := h
    · rw [hdone]
      nofun
    · rw [hphase] at hdraining
      cases hdraining
  have hawaiting (request : Json) (query : Query H) : a.phase ≠ .awaiting request query := by
    obtain ⟨-, -, hphase⟩ | ⟨running, -, -, hphase⟩ := h <;> rw [hphase] <;> nofun
  cases hstepped with
  | handled hphase hdone' => exact absurd hdone' (hdone hphase)
  | resumeDropped hphase hdone' => exact absurd hdone' (hdone hphase)
  | resumeSent hphase hdone' => exact absurd hdone' (hdone hphase)
  | resumeFailed hphase hdone' => exact absurd hdone' (hdone hphase)
  | @tookEvent _ running run event events hlabel hrunning hrun hevents =>
    obtain ⟨hnone, -⟩ | ⟨running', hrunning', hterminating, hdraining⟩ := h
    · rw [hrunning] at hnone
      cases hnone
    · obtain ⟨messages, hwrote, -, -, hstopped⟩ := a.session.wrote_handleRunEvent event
      refine ⟨.inr ⟨running', ?_, hterminating, hdraining⟩, messages, hwrote,
        hstopped (by simp [hrunning', hterminating])⟩
      exact Session.running_handleRunEvent_terminating hrunning' hterminating
  | @joined _ running run result hlabel hrunning hrun hevents hresult =>
    obtain ⟨messages, hwrote, -, -, hstopped⟩ := a.session.wrote_finishRun result
    exact ⟨.inl ⟨Session.running_finishRun _ _, Session.done_finishRun _ _, rfl⟩, messages, hwrote,
      hstopped⟩
  | answered hphase => exact absurd hphase (hawaiting _ _)
  | unanswered hphase => exact absurd hphase (hawaiting _ _)
  | detached hphase hrun hevents hresult =>
    obtain ⟨terminated, hwrote, hname⟩ := a.session.wrote_endRun
    exact ⟨.inl ⟨rfl, rfl, rfl⟩, [terminated], hwrote, by simp [hname]⟩
  | dropped hphase =>
    have hwrote := (@wrote_perform H a .null .terminate hphase nofun).1
    exact ⟨closing_terminateSession a, [], hwrote, nofun⟩
  | ran hrun hran => exact ⟨h, [], .of_same rfl rfl, nofun⟩

end Dap

end MarrowLsp
