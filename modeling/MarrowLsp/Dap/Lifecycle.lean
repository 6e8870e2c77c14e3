-- SUMMARY: The life of a debug session: responses and their numbers, the one run, the events that end it, and what a failed launch leaves, for every sequence of steps.
import MarrowLsp.Dap.Output
import MarrowLsp.Dap.Sample
import Mathlib.Data.List.Forall2

/-!
# The life of a session
-/
namespace MarrowLsp

namespace Dap

open Transition

variable {H : DebugHost}

/-! ## The record of a session -/

def Effect.starts : Effect H → Nat
  | .start .. => 1
  | _ => 0

/-- The requests handled, and how often a run was started. -/
structure Ledger where
  handled : List Json
  starts : Nat

def Ledger.note (a : Adapter H) (label : AdapterStep H) (l : Ledger) : Ledger :=
  match label with
  | .request request world =>
    ⟨l.handled ++ [request], l.starts + (a.session.handle world request).2.starts⟩
  | _ => l

theorem Ledger.handled_note (a : Adapter H) (label : AdapterStep H) (l : Ledger) :
    (l.note a label).handled = l.handled ++ label.handled := by
  cases label with
  | request request world => rfl
  | _ => exact (List.append_nil _).symm

/-! ## Configuration -/

/-- Nothing of a launch is left. -/
structure Session.Cleared (s : Session H) : Prop where
  pending : s.pending = none
  analysis : s.analysis = none
  stopPoints : s.stopPoints = none
  breakpoints : s.breakpoints = []

/-- Without a launch and without a run, nothing of a launch is there. -/
def Unconfigured (s : Session H) : Prop :=
  s.done = false → s.pending = none → s.running = none → s.Cleared

theorem unconfigured_of_running {s : Session H} (h : s.running.isSome = true) : Unconfigured s := by
  intro _ _ hnone
  rw [hnone] at h
  cases h

theorem unconfigured_of_done {s : Session H} (h : s.done = true) : Unconfigured s := by
  intro hdone
  rw [h] at hdone
  cases hdone

theorem Session.Tells.cleared {s t : Session H} {messages : List Message}
    (h : Session.Tells s t messages) (hs : s.Cleared) : t.Cleared where
  pending := h.pending.trans hs.pending
  analysis := h.analysis.trans hs.analysis
  stopPoints := h.stopPoints.trans hs.stopPoints
  breakpoints := h.breakpoints.trans hs.breakpoints

theorem Session.Tells.unconfigured {s t : Session H} {messages : List Message}
    (h : Session.Tells s t messages) (hs : Unconfigured s) : Unconfigured t := by
  intro hdone hpending hrunning
  exact h.cleared (hs (h.done ▸ hdone) (h.pending ▸ hpending) (h.running ▸ hrunning))

theorem cleared_clearLaunchConfiguration (s : Session H) : s.clearLaunchConfiguration.Cleared :=
  ⟨rfl, rfl, rfl, rfl⟩

theorem unconfigured_terminateSession (a : Adapter H) :
    Unconfigured a.terminateSession.session := by
  unfold Adapter.terminateSession
  split
  · next hrunning => exact unconfigured_of_running (by simpa [Session.beginTerminate] using hrunning)
  · exact unconfigured_of_done rfl

/-- What a handler leaves to do touches no configuration but to end the session. -/
theorem unconfigured_perform {a : Adapter H} {request : Json} {effect : Effect H}
    (h : Unconfigured a.session) : Unconfigured (a.perform request effect).session := by
  cases effect with
  | none => exact h
  | pause => exact h
  | arm breakpoints => exact h
  | start stopOnEntry breakpoints => exact h
  | query query =>
    unfold Adapter.perform
    dsimp only
    split
    · obtain ⟨_, htells⟩ := (a.session.replies_afterQuery request query none).tells
      exact htells.unconfigured h
    · exact h
  | terminate => exact unconfigured_terminateSession a

theorem unconfigured_handled {s t : Session H} {request : Json} {effect : Effect H}
    (h : Unconfigured s) (hhandled : s.Handled request (t, effect)) :
    effect = .terminate ∨ Unconfigured t := by
  cases hhandled with
  | replied hreply =>
    obtain ⟨_, htells⟩ := hreply.tells
    exact .inr (htells.unconfigured h)
  | launchFailed hrunning hreply =>
    obtain ⟨_, htells⟩ := hreply.tells
    exact .inr fun _ _ _ => htells.cleared (cleared_clearLaunchConfiguration s)
  | launched pending launch hrunning hreply =>
    refine .inr fun _ hpending => ?_
    cases hreply.pending.symm.trans hpending
  | breakpointsSet source requested hstopPoints hreply =>
    refine .inr fun hdone hpending hrunning => ?_
    have hcleared := h (hreply.done ▸ hdone) (hreply.pending ▸ hpending) (hreply.running ▸ hrunning)
    rw [hcleared.stopPoints] at hstopPoints
    cases hstopPoints
  | started pending boundary hpending hreply =>
    exact .inr (unconfigured_of_running (by rw [hreply.running]; rfl))
  | notStarted pending hpending hreply =>
    obtain ⟨_, htells⟩ := hreply.tells
    exact .inr fun _ _ _ => htells.cleared (cleared_clearLaunchConfiguration s)
  | noThread pending hpending hreply => exact .inl rfl
  | asked query hstopped =>
    exact .inr h
  | @resumed u mode events hstopped hevents hpause hreply =>
    have hrunning := Adapter.running_isSome_of_stoppedAt hstopped
    exact .inr (unconfigured_of_running
      (by simpa [Session.resumeRun, hreply.running] using hrunning))
  | paused running hrunning hstopped hpause hreply =>
    obtain ⟨_, htells⟩ := hreply.tells
    exact .inr (htells.unconfigured h)
  | ending hends hreply => exact .inl rfl

theorem unconfigured_step {a b : Adapter H} {label : AdapterStep H} (h : Unconfigured a.session)
    (hstep : a.step label = some b) : Unconfigured b.session := by
  have hstepped := Adapter.stepped_of_step hstep
  cases hstepped with
  | @handled request world t effect hphase hdone hhandle hhandled =>
    obtain rfl | ht := unconfigured_handled h hhandled
    · exact unconfigured_terminateSession _
    · exact @unconfigured_perform H { a with session := t } request effect ht
  | resumeDropped => exact unconfigured_of_running rfl
  | resumeSent => exact unconfigured_of_running rfl
  | resumeFailed => exact unconfigured_of_done (Session.done_finishRun _ _)
  | @tookEvent _ running run event events hlabel hrunning hrun hevents =>
    refine unconfigured_of_running ?_
    rw [(a.session.handleRunEvent_keeps event).1, hrunning]
    rfl
  | joined => exact unconfigured_of_done (Session.done_finishRun _ _)
  | @answered request query run answer =>
    obtain ⟨_, htells⟩ := (a.session.replies_afterQuery request query (some answer)).tells
    exact htells.unconfigured h
  | @unanswered request query =>
    obtain ⟨_, htells⟩ := (a.session.replies_afterQuery request query none).tells
    exact htells.unconfigured h
  | detached => exact unconfigured_of_done rfl
  | dropped => exact unconfigured_terminateSession a
  | ran => exact h

/-! ## Failed launches -/

/-- A response that reports a failure. -/
def Message.failed : Message → Bool
  | .response _ _ _ success .. => !success
  | .event .. => false

def Adapter.respondsFailure (a : Adapter H) : Bool := a.session.out.getLast?.any Message.failed

/-- The next well-formed launch that Marrow prepares is taken. -/
def Adapter.AcceptsLaunch (a : Adapter H) : Prop :=
  ∀ request world arguments stopOnEntry launch boundary, Session.command request = "launch" →
    requestArguments request = .ok arguments →
    Session.parseLaunch H arguments = .ok stopOnEntry → world.prepare = .ok launch →
    launch.surfaceServeBoundary = .ok boundary →
    ∃ b, a.step (.request request world) = some b ∧ b.session.pending = some ⟨stopOnEntry⟩

theorem acceptsLaunch_of_cleared {a : Adapter H} (h : a.session.Cleared)
    (hrunning : a.session.running = none) (hdone : a.session.done = false)
    (hphase : a.phase = .idle) : a.AcceptsLaunch := by
  intro request world arguments stopOnEntry launch boundary hcommand harguments hparse hprepare
    hsurface
  refine ⟨_, by simp only [Adapter.step, hphase, hdone, Bool.false_eq_true, if_false]; rfl, ?_⟩
  simp only [Adapter.handle, Session.handle, hcommand, Session.withArguments, harguments,
    Session.onLaunch, h.pending, hrunning, Option.isSome_none, Bool.or_self, Bool.false_eq_true,
    if_false, hparse, hprepare, hsurface]
  rfl

theorem cleared_of_launch {a b : Adapter H} {request : Json} {world : LaunchWorld H}
    (h : Unconfigured a.session) (hcommand : Session.command request = "launch")
    (hpending : a.session.pending = none) (hrunning : a.session.running = none)
    (hstep : a.step (.request request world) = some b) (hfailed : b.respondsFailure = true) :
    b.session.Cleared ∧ b.AcceptsLaunch := by
  have hstepped := Adapter.stepped_of_step hstep
  cases hstepped with
  | tookEvent hlabel => simp at hlabel
  | joined hlabel => simp at hlabel
  | @handled _ _ t effect hphase hdone hhandle hhandled =>
    have hcleared := h hdone hpending hrunning
    have hkept {s : Session H} {messages : List Message} (htells : s.Tells t messages)
        (hs : s.Cleared) (hsrunning : s.running = a.session.running)
        (hsdone : s.done = a.session.done) :
        t.Cleared ∧ Adapter.AcceptsLaunch { a with session := t } :=
      ⟨htells.cleared hs, acceptsLaunch_of_cleared (htells.cleared hs)
        ((htells.running.trans hsrunning).trans hrunning) ((htells.done.trans hsdone).trans hdone)
        hphase⟩
    have hstopped (hstopped : a.session.stoppedAt.isSome = true) : False := by
      have hsome := Adapter.running_isSome_of_stoppedAt hstopped
      rw [hrunning] at hsome
      cases hsome
    cases hhandled with
    | replied hreply =>
      obtain ⟨_, htells⟩ := hreply.tells
      exact hkept htells hcleared rfl rfl
    | launchFailed hnone hreply =>
      obtain ⟨_, htells⟩ := hreply.tells
      exact hkept htells (cleared_clearLaunchConfiguration _) rfl rfl
    | launched pending launch hnone hreply =>
      -- The response to a launch that succeeds is followed by an event.
      obtain ⟨response, written, _, htells, hnames⟩ := hreply
      obtain ⟨event, rfl⟩ : ∃ event, written = [event] := by
        obtain ⟨event, rest, rfl, -, hrest⟩ := List.map_eq_cons_iff.mp hnames
        exact ⟨event, by rw [List.map_eq_nil_iff.mp hrest]⟩
      have hname : event.eventName = some "initialized" := by simpa using hnames
      have hout : ({ a with session := t }.perform request .none).session.out =
          a.session.out ++ [response, event] := htells.out
      rw [Adapter.respondsFailure, hout, List.getLast?_append_cons] at hfailed
      cases event with
      | response => cases hname
      | event => cases hfailed
    | breakpointsSet source requested hstopPoints =>
      rw [hcleared.stopPoints] at hstopPoints
      cases hstopPoints
    | started pending boundary hsome =>
      rw [hpending] at hsome
      cases hsome
    | notStarted pending hsome =>
      rw [hpending] at hsome
      cases hsome
    | noThread pending hsome =>
      rw [hpending] at hsome
      cases hsome
    | asked query hstopped' => exact (hstopped hstopped').elim
    | resumed mode events hstopped' => exact (hstopped hstopped').elim
    | paused running hsome =>
      rw [hrunning] at hsome
      cases hsome
    | ending hends =>
      simp [Session.endsSession, hcommand] at hends

theorem cleared_of_configurationDone {a b : Adapter H} {request arguments : Json}
    {world : LaunchWorld H} {error : LaunchError} (hlife : a.Life)
    (hcommand : Session.command request = "configurationDone")
    (harguments : requestArguments request = .ok arguments)
    (hpending : a.session.pending.isSome = true) (hspawn : world.spawn = .error (.launch error))
    (hstep : a.step (.request request world) = some b) :
    b.respondsFailure = true ∧ b.session.Cleared ∧ b.AcceptsLaunch := by
  have hstepped := Adapter.stepped_of_step hstep
  cases hstepped with
  | tookEvent hlabel => simp at hlabel
  | joined hlabel => simp at hlabel
  | @handled _ _ t effect hphase hdone hhandle hhandled =>
    obtain ⟨pending, hpending⟩ := Option.isSome_iff_exists.mp hpending
    have hresult : a.session.handle world request =
        (a.session.clearLaunchConfiguration.respondError request error.toInputError, .none) := by
      simp only [Session.handle, hcommand, Session.withArguments, harguments,
        Session.onConfigurationDone, hpending, hspawn]
      rfl
    rw [hhandle] at hresult
    obtain ⟨rfl, rfl⟩ := Prod.mk.inj hresult
    have hcleared : (a.session.clearLaunchConfiguration.respondError request
        error.toInputError).Cleared := ⟨rfl, rfl, rfl, rfl⟩
    refine ⟨?_, hcleared, ?_⟩
    · simp [Adapter.respondsFailure, Adapter.perform, Session.respondError, Session.write,
        Message.failed]
    · exact acceptsLaunch_of_cleared hcleared (hlife.running_eq_none hpending) hdone hphase

/-! ## The life of a session -/

/-- The run was started once, if it is there. -/
theorem starts_step {a b : Adapter H} {label : AdapterStep H} {l : Ledger} (hlife : a.Life)
    (h : l.starts = a.run.isSome.toNat) (hstep : a.step label = some b) :
    (l.note a label).starts = b.run.isSome.toNat := by
  have hstepped := Adapter.stepped_of_step hstep
  cases hstepped with
  | @handled request world t effect hphase hdone hhandle hhandled =>
    have hnote : (l.note a (.request request world)).starts = l.starts + effect.starts := by
      simp [Ledger.note, hhandle]
    rw [hnote]
    cases effect with
    | none => exact h
    | pause => simpa [Adapter.perform, Effect.starts] using h
    | arm breakpoints => simpa [Adapter.perform, Effect.starts] using h
    | start stopOnEntry breakpoints =>
      have hrun : a.run = none := by
        generalize hp : (t, Effect.start stopOnEntry breakpoints) = p at hhandled
        cases hhandled with
        | started pending boundary hpending =>
          exact hlife.run_eq_none (hlife.running_eq_none hpending) hdone
        | breakpointsSet =>
          obtain ⟨-, heffect⟩ := Prod.mk.inj hp
          split at heffect <;> cases heffect
        | _ => cases hp
      simp [Adapter.perform, Effect.starts, h, hrun]
    | query query =>
      unfold Adapter.perform
      dsimp only
      split <;> simpa [Effect.starts] using h
    | terminate =>
      simp only [Adapter.perform, Adapter.terminateSession, Effect.starts]
      split <;> simpa using h
  | resumeDropped => exact h
  | resumeSent hphase hdone hrunning hrun =>
    rw [hrun] at h
    exact h
  | resumeFailed => exact h
  | tookEvent hlabel hrunning hrun =>
    rw [hrun] at h
    obtain ⟨rfl, -⟩ | ⟨rfl, -⟩ := hlabel <;> exact h
  | joined hlabel hrunning hrun =>
    rw [hrun] at h
    obtain ⟨rfl, -⟩ | ⟨rfl, -⟩ := hlabel <;> exact h
  | answered hphase hrun =>
    rw [hrun] at h
    exact h
  | unanswered hphase hrun =>
    rw [hrun] at h
    exact h
  | detached hphase hrun =>
    rw [hrun] at h
    exact h
  | dropped =>
    show l.starts = a.terminateSession.run.isSome.toNat
    unfold Adapter.terminateSession
    split <;> simpa using h
  | ran hrun =>
    rw [hrun] at h
    exact h

/-- The output so far: numbered in order, with the responses to what was handled, and not
the end of a run unless the session is done. -/
structure Transcript (a : Adapter H) (handled : List Json) : Prop where
  seq : a.session.seq = a.session.out.length
  numbered : a.session.out.map Message.seq = List.range' 1 a.session.out.length
  responded : ∃ replied, handled = replied ++ a.phase.awaited ∧
    List.Forall₂ Message.answers (a.session.out.filter Message.isResponse) replied
  ending : Ongoing a.session.out ∨ a.session.done = true ∧ Ends a.session.out

theorem transcript_init : Transcript (.init : Adapter H) [] :=
  ⟨rfl, rfl, ⟨[], rfl, .nil⟩, .inl nofun⟩

theorem ongoing_append {messages more : List Message} (h : Ongoing messages)
    (hmore : Ongoing more) : Ongoing (messages ++ more) := by
  intro message hmem
  obtain hmem | hmem := List.mem_append.mp hmem
  · exact h message hmem
  · exact hmore message hmem

theorem ends_append {messages more : List Message} (h : Ongoing messages) (hmore : Ends more) :
    Ends (messages ++ more) := by
  obtain ⟨before, terminated, rfl, hname, hbefore, hexited⟩ := hmore
  refine ⟨messages ++ before, terminated, (List.append_assoc ..).symm, hname, ?_, ?_⟩
  · intro message hmem
    obtain hmem | hmem := List.mem_append.mp hmem
    · exact (h message hmem).2
    · exact hbefore message hmem
  · have hnone : messages.countP (fun message => message.eventName == some "exited") = 0 := by
      rw [List.countP_eq_zero]
      intro message hmem
      simpa using (h message hmem).1
    rwa [List.countP_append, hnone, Nat.zero_add]

theorem transcript_step {a b : Adapter H} {label : AdapterStep H} {handled : List Json}
    (hlife : a.Life) (h : Transcript a handled) (hstep : a.step label = some b) :
    Transcript b (handled ++ label.handled) := by
  obtain ⟨messages, hwrites⟩ := writes_of_step hlife hstep
  have hout := hwrites.wrote.out
  have hlength : b.session.out.length = a.session.out.length + messages.length := by
    rw [hout, List.length_append]
  constructor
  · rw [hwrites.wrote.seq, h.seq, hlength]
  · rw [hlength, hout, List.map_append, h.numbered, hwrites.wrote.numbered, h.seq,
      Nat.add_comm a.session.out.length 1, ← List.range'_append_1]
  · obtain ⟨replied, hhandled, hreplied⟩ := h.responded
    obtain ⟨newly, hsame, hnewly⟩ := hwrites.replies
    refine ⟨replied ++ newly, ?_, ?_⟩
    · rw [hhandled, List.append_assoc, hsame, List.append_assoc]
    · rw [hout, List.filter_append]
      exact List.rel_append hreplied hnewly
  · obtain hongoing | ⟨hdone, hends⟩ := h.ending
    · rw [hout]
      obtain hmore | ⟨-, hdone', hends⟩ := hwrites.ending
      · exact .inl (ongoing_append hongoing hmore)
      · exact .inr ⟨hdone', ends_append hongoing hends⟩
    · obtain ⟨rfl, hdone'⟩ := hwrites.silent hdone
      rw [hout, List.append_nil]
      exact .inr ⟨hdone', hends⟩

/-- How often an event was written. -/
def Session.countEvents (s : Session H) (name : String) : Nat :=
  s.out.countP fun message => message.eventName == some name

/-- What holds at every point of every session. -/
structure Lifecycle (a : Adapter H) (l : Ledger) : Prop where
  /-- One response for each request handled, in order, but for the one waited for. -/
  responded : ∃ replied, l.handled = replied ++ a.phase.awaited ∧
    List.Forall₂ Message.answers (a.session.out.filter Message.isResponse) replied
  numbered : a.session.out.map Message.seq = List.range' 1 a.session.out.length
  started : l.starts ≤ 1
  exited : a.session.countEvents "exited" ≤ 1
  terminated : a.session.countEvents "terminated" ≤ 1
  afterTerminated : ∀ before terminated after, a.session.out = before ++ terminated :: after →
    terminated.eventName = some "terminated" → ∀ message ∈ after, message.isResponse = true
  afterEnd : ∀ request world b c, a.session.acceptsEnd request = true →
    a.step (.request request world) = some b → Reachable Adapter.step b c →
    ∃ messages, c.session.out = a.session.out ++ messages ∧
      ∀ message ∈ messages, message.eventName ≠ some "stopped"
  launchFailed : ∀ request world b, Session.command request = "launch" →
    a.session.pending = none → a.session.running = none →
    a.step (.request request world) = some b → b.respondsFailure = true →
    b.session.Cleared ∧ b.AcceptsLaunch
  notStarted : ∀ request arguments world error b,
    Session.command request = "configurationDone" → requestArguments request = .ok arguments →
    a.session.pending.isSome = true → world.spawn = .error (.launch error) →
    a.step (.request request world) = some b →
    b.respondsFailure = true ∧ b.session.Cleared ∧ b.AcceptsLaunch

theorem afterEnd_of_step {a b c : Adapter H} {request : Json} {world : LaunchWorld H}
    (haccepts : a.session.acceptsEnd request = true)
    (hstep : a.step (.request request world) = some b) (hreach : Reachable Adapter.step b c) :
    ∃ messages, c.session.out = a.session.out ++ messages ∧
      ∀ message ∈ messages, message.eventName ≠ some "stopped" := by
  have hb : Closing b ∧ ∃ response, b.session.out = a.session.out ++ [response] ∧
      response.eventName = none := by
    have hstepped := Adapter.stepped_of_step hstep
    cases hstepped with
    | tookEvent hlabel => simp at hlabel
    | joined hlabel => simp at hlabel
    | @handled _ _ t effect hphase hdone hhandle hhandled =>
      rw [Session.handle_of_acceptsEnd haccepts] at hhandle
      obtain ⟨rfl, rfl⟩ := Prod.mk.inj hhandle
      have hwrote := (@wrote_perform H { a with session := a.session.respond request emptyObject }
        request .terminate hphase nofun).1
      obtain ⟨response, written, hanswers, htells, hnames⟩ :=
        a.session.replies_respond request emptyObject
      obtain rfl : written = [] := List.map_eq_nil_iff.mp hnames
      refine ⟨closing_terminateSession _, response, ?_, eventName_of_answers hanswers⟩
      rw [hwrote.out, List.append_nil]
      exact htells.out
  obtain ⟨hclosing, response, hout, hname⟩ := hb
  have hrun := hreach.invariant (I := fun c => Closing c ∧ ∃ messages,
      c.session.out = a.session.out ++ messages ∧
        ∀ message ∈ messages, message.eventName ≠ some "stopped")
    ⟨hclosing, [response], hout, by simp [hname]⟩ ?_
  · exact hrun.2
  · rintro c label d ⟨hclosing, messages, hout, hnames⟩ - hstep
    obtain ⟨hclosing', more, hwrote, hmore⟩ := closing_step hclosing hstep
    refine ⟨hclosing', messages ++ more, ?_, ?_⟩
    · rw [hwrote.out, hout, List.append_assoc]
    · intro message hmem
      obtain hmem | hmem := List.mem_append.mp hmem
      · exact hnames message hmem
      · exact hmore message hmem

theorem countEvents_of_ongoing {s : Session H} (h : Ongoing s.out) :
    s.countEvents "exited" = 0 ∧ s.countEvents "terminated" = 0 := by
  unfold Session.countEvents
  rw [List.countP_eq_zero, List.countP_eq_zero]
  exact ⟨fun message hmem => by simpa using (h message hmem).1,
    fun message hmem => by simpa using (h message hmem).2⟩

theorem countEvents_of_ends {s : Session H} (h : Ends s.out) :
    s.countEvents "exited" ≤ 1 ∧ s.countEvents "terminated" ≤ 1 := by
  obtain ⟨before, terminated, hout, hname, hbefore, hexited⟩ := h
  unfold Session.countEvents
  rw [hout, List.countP_append, List.countP_append]
  have hnone : before.countP (fun message => message.eventName == some "terminated") = 0 := by
    rw [List.countP_eq_zero]
    exact fun message hmem => by simpa using hbefore message hmem
  rw [hnone]
  simp [hname, hexited]

/-- Only the last message of an output that ends a run is `terminated`. -/
theorem after_of_ends {messages before after : List Message} {terminated : Message}
    (h : Ends messages) (hsplit : messages = before ++ terminated :: after)
    (hname : terminated.eventName = some "terminated") : after = [] := by
  obtain ⟨front, last, hout, -, hfront, -⟩ := h
  rw [hout] at hsplit
  obtain ⟨between, hsame, hlast⟩ | ⟨between, hsame, hlast⟩ := List.append_eq_append_iff.mp hsplit
  · cases between with
    | nil =>
      rw [List.nil_append] at hlast
      exact (List.cons.inj hlast).2.symm
    | cons message rest => simp at hlast
  · cases between with
    | nil =>
      rw [List.nil_append] at hlast
      exact (List.cons.inj hlast).2
    | cons message rest =>
      obtain ⟨rfl, -⟩ := List.cons.inj hlast
      exact absurd hname (hfront terminated (by simp [hsame]))

theorem lifecycle_of_reachable {a : Adapter H} {l : Ledger}
    (h : Reachable (recorded Adapter.step Ledger.note) (.init, ⟨[], 0⟩) (a, l)) :
    Lifecycle a l := by
  obtain ⟨hlife, htranscript, hstarts, hunconfigured⟩ : a.Life ∧ Transcript a l.handled ∧
      l.starts = a.run.isSome.toNat ∧ Unconfigured a.session := by
    refine h.invariant (I := fun y => y.1.Life ∧ Transcript y.1 y.2.handled ∧
      y.2.starts = y.1.run.isSome.toNat ∧ Unconfigured y.1.session)
      ⟨Adapter.life_init, transcript_init, rfl, fun _ _ _ => ⟨rfl, rfl, rfl, rfl⟩⟩ ?_
    rintro ⟨a, l⟩ label ⟨b, l'⟩ ⟨hlife, htranscript, hstarts, hunconfigured⟩ - hstep
    obtain ⟨hstep, rfl⟩ := recorded_eq_some_iff.mp hstep
    refine ⟨Adapter.life_step hlife hstep, ?_, starts_step hlife hstarts hstep,
      unconfigured_step hunconfigured hstep⟩
    rw [Ledger.handled_note]
    exact transcript_step hlife htranscript hstep
  constructor
  · exact htranscript.responded
  · exact htranscript.numbered
  · rw [hstarts]
    exact Bool.toNat_le _
  · obtain hongoing | ⟨-, hends⟩ := htranscript.ending
    · exact (countEvents_of_ongoing hongoing).1.trans_le (Nat.zero_le 1)
    · exact (countEvents_of_ends hends).1
  · obtain hongoing | ⟨-, hends⟩ := htranscript.ending
    · exact (countEvents_of_ongoing hongoing).2.trans_le (Nat.zero_le 1)
    · exact (countEvents_of_ends hends).2
  · intro before terminated after hout hname message hmem
    obtain hongoing | ⟨-, hends⟩ := htranscript.ending
    · have hmem' : terminated ∈ a.session.out := by simp [hout]
      exact absurd hname (hongoing terminated hmem').2
    · rw [after_of_ends hends hout hname] at hmem
      cases hmem
  · exact fun request world b c haccepts hstep hreach => afterEnd_of_step haccepts hstep hreach
  · exact fun request world b hcommand hpending hrunning hstep hfailed =>
      cleared_of_launch hunconfigured hcommand hpending hrunning hstep hfailed
  · exact fun request arguments world error b hcommand harguments hpending hspawn hstep =>
      cleared_of_configurationDone hlife hcommand harguments hpending hspawn hstep

/-- A run stopped on entry and terminated by the client. -/
def Sample.wholeSession : List (AdapterStep Sample.host) :=
  [launch true, send "configurationDone" []] ++ stop fileA 1 ++
    [.pumpRunEvent, send "terminate" [], .run .receive,
      .run (.finish (.ok "") "" ""), .drainRunEvent]

theorem lifecycle_wholeSession : ∃ a l,
    run (recorded Adapter.step Ledger.note) (.init, ⟨[], 0⟩) Sample.wholeSession = some (a, l) ∧
      a.session.done = true ∧ l.starts = 1 ∧ a.session.countEvents "terminated" = 1 ∧
      Lifecycle a l :=
  ⟨_, _, rfl, rfl, rfl, rfl, lifecycle_of_reachable
    (reachable_of_run (rfl : run _ _ Sample.wholeSession = some _))⟩

/-- A terminate refused for want of a run, and then a run that stops on entry. -/
def Sample.earlyTerminate : List (AdapterStep Sample.host) :=
  [send "terminate" [], launch true, send "configurationDone" []] ++ stop fileA 1 ++ [.pumpRunEvent]

/-- A second launch fails and leaves the first configured; after a terminate that is refused,
a stop is told. -/
theorem refused_launch_terminate :
    (∃ a b, run Adapter.step .init [Sample.launch false] = some a ∧
      a.step (Sample.launch false) = some b ∧ b.respondsFailure = true ∧ ¬ b.session.Cleared) ∧
    ∃ a, run Adapter.step .init Sample.earlyTerminate = some a ∧
      a.session.countEvents "stopped" = 1 := by
  refine ⟨⟨_, _, rfl, rfl, rfl, fun h => ?_⟩, _, rfl, rfl⟩
  cases h.pending

end Dap

end MarrowLsp
