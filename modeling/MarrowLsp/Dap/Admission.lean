-- SUMMARY: A debug session over project directories that change: the program that runs is the one the client's breakpoints were checked against, admitted behind the read-only guard (session.rs, run.rs).
import MarrowLsp.Dap.ArmedSteps
import MarrowLsp.Dap.Launch
import MarrowLsp.Dap.Sample

/-!
# Admission

The adapter's requests find the machine's files as they are at that time, and what a
`launch` holds until `configurationDone` is kept beside the adapter. Between the two the
project directory may change in any way.
-/
namespace MarrowLsp

namespace Dap

open Transition

variable {H : DebugHost}

/-! ## The session over a machine -/

/-- `PendingLaunch` apart from `stopOnEntry`, which the session keeps. -/
structure HeldLaunch (P : ProjectHost H) where
  projectDir : Path
  entry : Option String
  analysisGeneration : P.AnalysisGeneration
  sourceAnalysisAdmission : Option P.SourceAnalysisAdmission
  invocation : EntryInvocation P

/-- The adapter with the launch it holds, and with what its run was admitted from. -/
structure Debug (P : ProjectHost H) where
  adapter : Adapter H
  held : Option (HeldLaunch P)
  admitted : Option (P.Disk × HeldLaunch P × ProjectLaunch P)

inductive DebugStep (P : ProjectHost H) where
  /-- A request finds the disk, and the thread starts or does not. -/
  | request (disk : P.Disk) (threadError : Option String) (request : Json)
  | own (label : AdapterStep H)

namespace ProjectHost

variable (P : ProjectHost H)

/-- What a `launch` request asks for, past its parsers. -/
def requestedLaunch (request : Json) :
    Option (Path × Option String × List P.EntryArgument) := do
  let arguments ← (requestArguments request).toOption
  let project ← (parseProject arguments).toOption
  let entry ← (parseEntry arguments).toOption
  some (H.normalizeExistingPath (Path.ofString project), entry,
    ((arguments.get "args").map fun
      | .array items => P.entryArguments items
      | _ => []).getD [])

/-- The launch a `launch` request prepares, with what is held of it. -/
def preparedLaunch (disk : P.Disk) (request : Json) :
    Except LaunchError (HeldLaunch P × ProjectLaunch P) :=
  match P.requestedLaunch request with
  | none => .error .noEntry
  | some (projectDir, entry, arguments) =>
    (P.prepare disk projectDir entry arguments).map fun launch =>
      (⟨projectDir, entry, launch.analysisGeneration, launch.sourceAnalysisAdmission,
        launch.invocation⟩, launch)

def surfaceServe (session : P.ProjectSession) : Except LaunchError Json :=
  (P.surfaceServeBoundary session).mapError (·.toLaunchError)

/-- What the session takes of a prepared launch. -/
def toLaunch (launch : ProjectLaunch P) : Launch H where
  executionBoundary := P.executionBoundary launch.session
  surfaceServeBoundary := P.surfaceServe launch.session
  files := P.files launch.session
  points := P.points launch.session
  analysis := launch.analysisSnapshot

/-- `run_on_thread`, up to the start it reports. -/
def admitLaunch (disk : P.Disk) (held : HeldLaunch P) :
    Except LaunchError (ProjectLaunch P × Json) := do
  let launch ← P.prepareAdmitted disk held.projectDir held.entry held.analysisGeneration
    held.sourceAnalysisAdmission held.invocation
  let boundary ← P.surfaceServe launch.session
  .ok (launch, boundary)

/-- `run::spawn`. -/
def spawn (disk : P.Disk) (threadError : Option String) (held : HeldLaunch P) :
    Except SpawnError RunStart :=
  match threadError with
  | some error => .error (.thread error)
  | none =>
    match P.admitLaunch disk held with
    | .error error => .error (.launch error)
    | .ok (launch, boundary) => .ok ⟨P.executionBoundary launch.session, boundary⟩

/-- What a request finds. -/
def world (disk : P.Disk) (threadError : Option String) (held : Option (HeldLaunch P))
    (request : Json) : LaunchWorld H where
  prepare := (P.preparedLaunch disk request).map fun prepared => P.toLaunch prepared.2
  spawn :=
    match held with
    | some held => P.spawn disk threadError held
    | none => .error (.launch .noEntry)

end ProjectHost

namespace Debug

variable {P : ProjectHost H}

def init : Debug P := ⟨.init, none, none⟩

/-- The launch that is held after a request. -/
def holds (d : Debug P) (disk : P.Disk) (request : Json) (t : Session H) : Option (HeldLaunch P) :=
  if t.pending.isNone then none
  else if d.adapter.session.pending.isSome then d.held
  else (P.preparedLaunch disk request).toOption.map (·.1)

/-- What the run of the session was admitted from after a request. -/
def admits (d : Debug P) (disk : P.Disk) (t : Session H) :
    Option (P.Disk × HeldLaunch P × ProjectLaunch P) :=
  if d.adapter.session.running.isNone && t.running.isSome then
    d.held.bind fun held =>
      (P.admitLaunch disk held).toOption.map fun admitted => (disk, held, admitted.1)
  else d.admitted

def step (d : Debug P) : DebugStep P → Option (Debug P)
  | .request disk threadError request =>
    (d.adapter.step (.request request (P.world disk threadError d.held request))).map
      fun adapter =>
        { adapter
          held := d.holds disk request adapter.session
          admitted := d.admits disk adapter.session }
  | .own (.request ..) => none
  | .own label => (d.adapter.step label).map fun adapter => { d with adapter }

end Debug

/-! ## What a step keeps of the session -/

namespace Session

/-- What is held for the run, and the run there is, are kept. -/
structure KeepsLaunch (s t : Session H) : Prop where
  pending : t.pending = s.pending
  analysis : t.analysis = s.analysis
  running : ∀ running, t.running = some running →
    ∃ before, s.running = some before ∧ before.executionBoundary = running.executionBoundary

theorem KeepsLaunch.of_same {s t : Session H} (hpending : t.pending = s.pending)
    (hanalysis : t.analysis = s.analysis) (hrunning : t.running = s.running) : KeepsLaunch s t :=
  ⟨hpending, hanalysis, fun running h => ⟨running, hrunning ▸ h, rfl⟩⟩

theorem KeepsLaunch.of_replies {s t : Session H} {request : Json} {events : List String}
    (h : Replies s t request events) : KeepsLaunch s t :=
  .of_same h.pending h.analysis h.running

theorem KeepsLaunch.of_none {s t : Session H} (hpending : t.pending = s.pending)
    (hanalysis : t.analysis = s.analysis) (hrunning : t.running = none) : KeepsLaunch s t :=
  ⟨hpending, hanalysis, fun running h => by rw [hrunning] at h; cases h⟩

theorem KeepsLaunch.trans {s t u : Session H} (h : KeepsLaunch s t) (h' : KeepsLaunch t u) : KeepsLaunch s u where
  pending := h'.pending.trans h.pending
  analysis := h'.analysis.trans h.analysis
  running := by
    intro running hrunning
    obtain ⟨between, hbetween, hboundary⟩ := h'.running running hrunning
    obtain ⟨before, hbefore, hsame⟩ := h.running between hbetween
    exact ⟨before, hbefore, hsame.trans hboundary⟩

theorem keeps_respondError (s : Session H) (request : Json) (error : DapInputError) :
    KeepsLaunch s (s.respondError request error) := .of_same rfl rfl rfl

theorem keeps_respond (s : Session H) (request body : Json) :
    KeepsLaunch s (s.respond request body) := .of_same rfl rfl rfl

theorem keeps_continued (s : Session H) : KeepsLaunch s s.continued := .of_same rfl rfl rfl

theorem keeps_resumeRun (s : Session H) (mode : Resume) : KeepsLaunch s (s.resumeRun mode) where
  pending := rfl
  analysis := rfl
  running := by
    intro running h
    obtain ⟨before, hbefore, rfl⟩ := Option.map_eq_some_iff.mp h
    exact ⟨before, hbefore, rfl⟩

theorem keeps_onSetBreakpoints (s : Session H) (request arguments : Json) :
    KeepsLaunch s (s.onSetBreakpoints request arguments).1 := by
  unfold onSetBreakpoints
  split
  · exact s.keeps_respondError request _
  · split
    · exact s.keeps_respondError request _
    · cases hstopPoints : s.stopPoints.isSome with
      | true => exact .of_same rfl rfl rfl
      | false => exact .of_same rfl rfl rfl

theorem keeps_ask (s : Session H) (request : Json) (query : Query H) :
    KeepsLaunch s (s.ask request query).1 := by
  unfold ask
  split
  · exact .of_same rfl rfl rfl
  · exact .of_replies (s.replies_afterQuery request query none)

theorem keeps_onVariables (s : Session H) (request arguments : Json) :
    KeepsLaunch s (s.onVariables request arguments).1 := by
  unfold onVariables
  split
  · exact s.keeps_respondError request _
  · split
    · exact s.keeps_ask request _
    · split
      · exact s.keeps_ask request _
      · split
        · exact s.keeps_respond request _
        · exact .of_replies (.of_tells (tells_valueVariables s ..) (replies_respond _ request _))
        · exact s.keeps_ask request _

theorem keeps_onEvaluate (s : Session H) (request arguments : Json) :
    KeepsLaunch s (s.onEvaluate request arguments).1 := by
  unfold onEvaluate
  split
  · exact s.keeps_respondError request _
  · split
    · exact s.keeps_respondError request _
    · split
      · exact s.keeps_respondError request _
      · exact s.keeps_ask request _

theorem keeps_onStackTrace (s : Session H) (request arguments : Json) :
    KeepsLaunch s (s.onStackTrace request arguments) := by
  unfold onStackTrace
  split
  · exact s.keeps_respondError request _
  · exact s.keeps_respond request _

theorem keeps_onSource (s : Session H) (request arguments : Json) :
    KeepsLaunch s (s.onSource request arguments) := by
  unfold onSource
  split
  · exact s.keeps_respondError request _
  · split
    · exact s.keeps_respondError request _
    · exact s.keeps_respond request _

theorem keeps_onScopes (s : Session H) (request arguments : Json) :
    KeepsLaunch s (s.onScopes request arguments) := by
  unfold onScopes
  split
  · exact s.keeps_respondError request _
  · split
    · exact s.keeps_respond request _
    · exact s.keeps_respondError request _

theorem keeps_onContinue (s : Session H) (request arguments : Json) :
    KeepsLaunch s (s.onContinue request arguments) := by
  unfold onContinue
  split
  · exact s.keeps_respondError request _
  · split
    · exact s.keeps_respondError request _
    · split
      · exact s.keeps_respondError request _
      · exact (s.keeps_respond request _).trans ((keeps_continued _).trans (keeps_resumeRun _ _))

theorem keeps_onStep (s : Session H) (request arguments : Json) (kind : StepKind) :
    KeepsLaunch s (s.onStep request arguments kind) := by
  unfold onStep
  split
  · exact s.keeps_respondError request _
  · split
    · exact s.keeps_respondError request _
    · exact (s.keeps_respond request _).trans (keeps_resumeRun _ _)

theorem keeps_onPause (s : Session H) (request arguments : Json) :
    KeepsLaunch s (s.onPause request arguments).1 := by
  unfold onPause
  split
  · exact s.keeps_respondError request _
  · split
    · exact s.keeps_respondError request _
    · split
      · exact (s.keeps_respond request _).trans ((keeps_continued _).trans (keeps_resumeRun _ _))
      · exact s.keeps_respond request _

theorem keeps_onTerminate (s : Session H) (request : Json) :
    KeepsLaunch s (s.onTerminate request).1 := by
  unfold onTerminate
  split
  · exact s.keeps_respondError request _
  · exact s.keeps_respond request _

theorem keeps_withArguments {s : Session H} {request : Json}
    {onCommand : Json → Session H × Effect H} (h : ∀ arguments, KeepsLaunch s (onCommand arguments).1) :
    KeepsLaunch s (s.withArguments request onCommand).1 := by
  unfold withArguments
  split
  · exact h _
  · exact s.keeps_respondError request _

/-- What a request can do to what is held for the run. -/
inductive LaunchOutcome (s : Session H) (w : LaunchWorld H) (request : Json) (t : Session H) :
    Prop where
  | kept (h : KeepsLaunch s t)
  /-- A launch that does not parse or cannot be prepared, or a run that is not admitted. -/
  | cleared (hrunning : s.pending = none → s.running = none) (hpending : t.pending = none)
      (hkept : t.running = s.running)
  | launched (launch : Launch H) (hcommand : command request = "launch")
      (hprepare : w.prepare = .ok launch) (hpending : s.pending = none)
      (hrunning : s.running = none) (hkept : t.running = s.running)
      (hanalysis : t.analysis = some launch.analysis)
  | started (start : RunStart) (hspawn : w.spawn = .ok start) (hpending : s.pending.isSome = true)
      (htaken : t.pending = none) (hanalysis : t.analysis = s.analysis)
      (hrunning : t.running = some ⟨start.executionBoundary, none, none, false⟩)
  | noThread (hpending : s.pending.isSome = true) (htaken : t.pending = none)
      (hkept : t.running = s.running)

theorem launchOutcome_onLaunch (s : Session H) (w : LaunchWorld H) {request : Json}
    (hcommand : command request = "launch") (arguments : Json) :
    LaunchOutcome s w request (s.onLaunch w request arguments) := by
  unfold onLaunch
  split
  · exact .kept (s.keeps_respondError request _)
  · next hidle =>
    simp only [Bool.or_eq_true, Option.isSome_iff_ne_none, not_or, ne_eq, not_not] at hidle
    obtain ⟨hpending, hrunning⟩ := hidle
    dsimp only
    split
    · exact .cleared (fun _ => hrunning) rfl rfl
    · split
      · exact .cleared (fun _ => hrunning) rfl rfl
      · next launch hprepare =>
        split
        · exact .cleared (fun _ => hrunning) rfl rfl
        · exact .launched launch hcommand hprepare hpending hrunning rfl rfl

theorem launchOutcome_onConfigurationDone (s : Session H) (w : LaunchWorld H) (request : Json) :
    LaunchOutcome s w request (s.onConfigurationDone w request).1 := by
  unfold onConfigurationDone
  split
  · exact .kept (s.keeps_respondError request _)
  · next pending hpending =>
    have hsome : s.pending.isSome = true := by rw [hpending]; rfl
    dsimp only
    split
    · next start hspawn => exact .started start hspawn hsome rfl rfl rfl
    · refine .cleared (fun hnone => ?_) rfl rfl
      rw [hpending] at hnone
      cases hnone
    · exact .noThread hsome rfl rfl

theorem launchOutcome_handle (s : Session H) (w : LaunchWorld H) (request : Json) :
    LaunchOutcome s w request (s.handle w request).1 := by
  have hwith {onCommand : Json → Session H × Effect H}
      (h : ∀ arguments, LaunchOutcome s w request (onCommand arguments).1) :
      LaunchOutcome s w request (s.withArguments request onCommand).1 := by
    unfold withArguments
    split
    · exact h _
    · exact .kept (s.keeps_respondError request _)
  unfold handle
  split
  case h_1 => exact .kept (keeps_withArguments fun _ => .of_same rfl rfl rfl)
  case h_2 hcommand => exact hwith fun arguments => s.launchOutcome_onLaunch w hcommand arguments
  case h_3 =>
    exact .kept (keeps_withArguments fun arguments => s.keeps_onSetBreakpoints request arguments)
  case h_4 => exact hwith fun _ => s.launchOutcome_onConfigurationDone w request
  case h_5 => exact .kept (keeps_withArguments fun _ => s.keeps_respond request _)
  case h_6 =>
    exact .kept (keeps_withArguments fun arguments => s.keeps_onStackTrace request arguments)
  case h_7 => exact .kept (keeps_withArguments fun arguments => s.keeps_onSource request arguments)
  case h_8 => exact .kept (keeps_withArguments fun arguments => s.keeps_onScopes request arguments)
  case h_9 =>
    exact .kept (keeps_withArguments fun arguments => s.keeps_onVariables request arguments)
  case h_10 =>
    exact .kept (keeps_withArguments fun arguments => s.keeps_onContinue request arguments)
  case h_11 =>
    exact .kept (keeps_withArguments fun arguments => s.keeps_onStep request arguments .over)
  case h_12 =>
    exact .kept (keeps_withArguments fun arguments => s.keeps_onStep request arguments .into)
  case h_13 =>
    exact .kept (keeps_withArguments fun arguments => s.keeps_onStep request arguments .out)
  case h_14 => exact .kept (keeps_withArguments fun arguments => s.keeps_onPause request arguments)
  case h_15 =>
    exact .kept (keeps_withArguments fun arguments => s.keeps_onEvaluate request arguments)
  case h_16 => exact .kept (keeps_withArguments fun _ => s.keeps_respond request _)
  case h_17 => exact .kept (keeps_withArguments fun _ => s.keeps_onTerminate request)
  case h_18 => exact .kept (s.keeps_respondError request _)

end Session

namespace Adapter

/-- Doing what a handler left to do keeps what the handler kept. -/
theorem keeps_perform (a : Adapter H) (request : Json) (effect : Effect H) :
    a.session.KeepsLaunch (a.perform request effect).session := by
  cases effect with
  | none | pause | arm | start => exact .of_same rfl rfl rfl
  | query query =>
    unfold perform
    dsimp only
    split
    · exact .of_replies (a.session.replies_afterQuery request query none)
    · exact .of_same rfl rfl rfl
  | terminate =>
    unfold perform terminateSession
    dsimp only
    split
    · refine ⟨rfl, rfl, fun running h => ?_⟩
      obtain ⟨before, hbefore, rfl⟩ := Option.map_eq_some_iff.mp h
      exact ⟨before, hbefore, rfl⟩
    · exact .of_same rfl rfl rfl

/-- A step that handles no request keeps what is held for the run. -/
theorem keeps_own {a b : Adapter H} {label : AdapterStep H} (hstep : a.step label = some b)
    (hown : ∀ request world, label ≠ .request request world) : a.session.KeepsLaunch b.session := by
  cases stepped_of_step hstep with
  | handled => exact absurd rfl (hown _ _)
  | resumeDropped hphase hdone hrunning =>
    exact ⟨rfl, rfl, fun running h => ⟨_, hrunning, by cases h; rfl⟩⟩
  | resumeSent hphase hdone hrunning =>
    exact ⟨rfl, rfl, fun running h => ⟨_, hrunning, by cases h; rfl⟩⟩
  | @resumeFailed running run mode result =>
    obtain ⟨hanalysis, -, -, hpending⟩ := Session.keeps_finishRun
      { a.session with running := some { running with pendingResume := none } } result
    exact .of_none hpending hanalysis (Session.running_finishRun _ _)
  | @tookEvent _ running run event events hlabel hrunning =>
    obtain ⟨hanalysis, -, -, hpending⟩ := a.session.keeps_handleRunEvent event
    refine ⟨hpending, hanalysis, fun after hafter => ⟨running, hrunning, ?_⟩⟩
    cases event with
    | stopped info =>
      rw [Session.running_handleRunEvent_stopped info hrunning] at hafter
      cases hafter
      split <;> rfl
    | output text | answer result =>
      cases hrunning.symm.trans hafter
      rfl
  | @joined _ running run result =>
    obtain ⟨hanalysis, -, -, hpending⟩ := a.session.keeps_finishRun result
    exact .of_none hpending hanalysis (Session.running_finishRun _ _)
  | answered => exact .of_replies (a.session.replies_afterQuery _ _ _)
  | unanswered => exact .of_replies (a.session.replies_afterQuery _ _ _)
  | detached => exact .of_none rfl rfl rfl
  | dropped => exact a.keeps_perform .null .terminate
  | ran => exact .of_same rfl rfl rfl

end Adapter

/-! ## Admission -/

theorem bind_eq_ok {ε α β : Type} {x : Except ε α} {f : α → Except ε β} {b : β}
    (h : x >>= f = .ok b) : ∃ a, x = .ok a ∧ f a = .ok b := by
  cases x with
  | error e => cases h
  | ok a => exact ⟨a, rfl, h⟩

theorem mapError_eq_ok {ε ε' α : Type} {x : Except ε α} {f : ε → ε'} {a : α}
    (h : x.mapError f = .ok a) : x = .ok a := by
  cases x with
  | error e => cases h
  | ok b =>
    cases h
    rfl

/-- What the run thread checked of the launch it runs, on the disk it found. -/
structure AdmittedFrom (P : ProjectHost H) (disk : P.Disk) (held : HeldLaunch P)
    (launch : ProjectLaunch P) : Prop where
  /-- The store the project has was opened for reading before the session was opened. -/
  guarded : P.guardSessionOpenIsReadOnly disk held.projectDir = .ok ()
  opened : P.openSession disk held.projectDir held.entry held.sourceAnalysisAdmission =
    .ok launch.session
  generation : P.generation (P.sourceAnalysisSnapshot launch.session) = held.analysisGeneration
  entry : ∃ entry identity, P.runEntry launch.session = some entry ∧
    P.resolveEntry launch.session entry = .ok identity ∧
    P.canonicalName identity = P.canonicalName held.invocation.identity
  called : P.checkedEntryCall launch.session held.invocation.identity
    held.invocation.arguments = .ok ()
  invocation : launch.invocation = held.invocation

/-- A launch that was prepared from what its request asks for, and what is held of it. -/
structure PreparedFrom (P : ProjectHost H) (disk : P.Disk) (request : Json) (held : HeldLaunch P)
    (launch : ProjectLaunch P) : Prop where
  requested : P.requestedLaunch request =
    some (held.projectDir, held.entry, held.invocation.arguments)
  prepared : P.prepare disk held.projectDir held.entry held.invocation.arguments = .ok launch
  held : held = ⟨held.projectDir, held.entry, launch.analysisGeneration,
    launch.sourceAnalysisAdmission, launch.invocation⟩

namespace ProjectHost

variable {P : ProjectHost H}

theorem prepareDescriptor_eq_ok {disk : P.Disk} {projectDir : Path} {entry : Option String}
    {admission : Option P.SourceAnalysisAdmission} {session : P.ProjectSession}
    {identity : P.EntryIdentity}
    (h : P.prepareDescriptor disk projectDir entry admission = .ok (session, identity)) :
    P.guardSessionOpenIsReadOnly disk projectDir = .ok () ∧
      P.openSession disk projectDir entry admission = .ok session ∧
      ∃ name, P.runEntry session = some name ∧ P.resolveEntry session name = .ok identity := by
  unfold prepareDescriptor at h
  obtain ⟨_, -, h⟩ := bind_eq_ok h
  obtain ⟨_, hguard, h⟩ := bind_eq_ok h
  obtain ⟨opened, hopen, h⟩ := bind_eq_ok h
  split at h
  · cases h
  · next name hname =>
    obtain ⟨resolved, hresolve, h⟩ := bind_eq_ok h
    cases h
    exact ⟨hguard, mapError_eq_ok hopen, name, hname, mapError_eq_ok hresolve⟩

theorem prepareAdmitted_eq_ok {disk : P.Disk} {held : HeldLaunch P} {launch : ProjectLaunch P}
    (h : P.prepareAdmitted disk held.projectDir held.entry held.analysisGeneration
      held.sourceAnalysisAdmission held.invocation = .ok launch) :
    AdmittedFrom P disk held launch := by
  unfold prepareAdmitted at h
  obtain ⟨⟨session, identity⟩, hdescriptor, h⟩ := bind_eq_ok h
  obtain ⟨hguard, hopen, name, hname, hresolve⟩ := prepareDescriptor_eq_ok hdescriptor
  dsimp only at h
  split at h
  · cases h
  · next hgeneration =>
    obtain ⟨admission, -, h⟩ := bind_eq_ok h
    split at h
    · cases h
    · next hentry =>
      obtain ⟨_, hcall, h⟩ := bind_eq_ok h
      cases h
      exact ⟨hguard, hopen, not_not.mp hgeneration, ⟨name, identity, hname, hresolve,
        not_not.mp hentry⟩, mapError_eq_ok hcall, rfl⟩

theorem admitLaunch_eq_ok {disk : P.Disk} {held : HeldLaunch P} {launch : ProjectLaunch P}
    {boundary : Json} (h : P.admitLaunch disk held = .ok (launch, boundary)) :
    AdmittedFrom P disk held launch := by
  unfold admitLaunch at h
  obtain ⟨admitted, hadmitted, h⟩ := bind_eq_ok h
  obtain ⟨_, -, h⟩ := bind_eq_ok h
  cases h
  exact prepareAdmitted_eq_ok hadmitted

/-- What a prepared launch keeps of its analysis and of its arguments. -/
theorem prepare_eq_ok {disk : P.Disk} {projectDir : Path} {entry : Option String}
    {arguments : List P.EntryArgument} {launch : ProjectLaunch P}
    (h : P.prepare disk projectDir entry arguments = .ok launch) :
    launch.analysisGeneration = P.generation launch.analysisSnapshot ∧
      launch.invocation.arguments = arguments := by
  unfold prepare at h
  obtain ⟨⟨session, identity⟩, -, h⟩ := bind_eq_ok h
  obtain ⟨_, -, h⟩ := bind_eq_ok h
  obtain ⟨_, -, h⟩ := bind_eq_ok h
  cases h
  exact ⟨rfl, rfl⟩

theorem preparedLaunch_eq_ok {disk : P.Disk} {request : Json} {held : HeldLaunch P}
    {launch : ProjectLaunch P} (h : P.preparedLaunch disk request = .ok (held, launch)) :
    PreparedFrom P disk request held launch := by
  unfold preparedLaunch at h
  split at h
  · cases h
  · next projectDir entry arguments hrequested =>
    cases hprepare : P.prepare disk projectDir entry arguments with
    | error error =>
      rw [hprepare] at h
      cases h
    | ok prepared =>
      rw [hprepare] at h
      cases h
      obtain ⟨-, harguments⟩ := prepare_eq_ok hprepare
      refine ⟨?_, ?_, rfl⟩
      · rw [harguments]
        exact hrequested
      · rw [harguments]
        exact hprepare

/-- What is held of a launch that was accepted. -/
theorem held_of_prepare {disk : P.Disk} {threadError : Option String}
    {before : Option (HeldLaunch P)} {request : Json} {launch : Launch H}
    (h : (P.world disk threadError before request).prepare = .ok launch) :
    ∃ held prepared, (P.preparedLaunch disk request).toOption.map (·.1) = some held ∧
      PreparedFrom P disk request held prepared ∧ launch.analysis = prepared.analysisSnapshot := by
  unfold world at h
  dsimp only at h
  cases hprepared : P.preparedLaunch disk request with
  | error error =>
    rw [hprepared] at h
    cases h
  | ok both =>
    obtain ⟨held, prepared⟩ := both
    rw [hprepared] at h
    cases h
    exact ⟨held, prepared, rfl, preparedLaunch_eq_ok hprepared, rfl⟩

theorem admitLaunch_of_spawn {disk : P.Disk} {threadError : Option String}
    {before : Option (HeldLaunch P)} {held : HeldLaunch P} {request : Json} {start : RunStart}
    (hheld : before = some held)
    (h : (P.world disk threadError before request).spawn = .ok start) :
    ∃ launch boundary, P.admitLaunch disk held = .ok (launch, boundary) ∧
      start = ⟨P.executionBoundary launch.session, boundary⟩ := by
  subst hheld
  unfold world spawn at h
  dsimp only at h
  split at h
  · cases h
  · split at h
    · cases h
    · next launch boundary hadmitted =>
      cases h
      exact ⟨launch, boundary, hadmitted, rfl⟩

end ProjectHost

namespace Debug

variable {P : ProjectHost H}

/-- A launch is held or a run goes on, so that a `launch` is refused. -/
def busy (d : Debug P) : Bool :=
  d.adapter.session.pending.isSome || d.adapter.session.running.isSome

/-- The `launch` request that was accepted last asked for what is held of it and was checked
as the analysis; there was no other since. -/
def Accepted (d : Debug P) (held : HeldLaunch P) (analysis : H.Analysis) : Prop :=
  ∃ (before accepted : Debug P) (disk : P.Disk) (threadError : Option String) (request : Json)
    (launch : ProjectLaunch P),
    Reachable step init before ∧ before.busy = false ∧ Session.command request = "launch" ∧
      before.step (.request disk threadError request) = some accepted ∧
      PreparedFrom P disk request held launch ∧ launch.analysisSnapshot = analysis ∧
      Reaches step (fun d _ => d.busy = true) accepted d

theorem Accepted.step {d e : Debug P} {held : HeldLaunch P} {analysis : H.Analysis}
    {label : DebugStep P} (h : d.Accepted held analysis) (hbusy : d.busy = true)
    (hstep : d.step label = some e) : e.Accepted held analysis := by
  obtain ⟨before, accepted, disk, threadError, request, launch, hbefore, hidle, hcommand, haccepted,
    hprepared, hanalysis, hreaches⟩ := h
  exact ⟨before, accepted, disk, threadError, request, launch, hbefore, hidle, hcommand, haccepted,
    hprepared, hanalysis, hreaches.snoc hbusy hstep⟩

theorem Accepted.generation {d : Debug P} {held : HeldLaunch P} {analysis : H.Analysis}
    (h : d.Accepted held analysis) : P.generation analysis = held.analysisGeneration := by
  obtain ⟨_, _, _, _, _, launch, -, -, -, -, hprepared, rfl, -⟩ := h
  rw [← (ProjectHost.prepare_eq_ok hprepared.prepared).1]
  exact (congrArg HeldLaunch.analysisGeneration hprepared.held).symm

/-- The launch that is held and the run that was admitted, against the session. -/
structure Consistent (d : Debug P) : Prop where
  life : d.adapter.Life
  held : d.adapter.session.pending.isSome = true → ∃ held analysis, d.held = some held ∧
    d.adapter.session.analysis = some analysis ∧ d.Accepted held analysis
  running : ∀ running, d.adapter.session.running = some running →
    ∃ disk held launch analysis, d.admitted = some (disk, held, launch) ∧
      d.Accepted held analysis ∧ AdmittedFrom P disk held launch ∧
      d.adapter.session.analysis = some analysis ∧
      running.executionBoundary = P.executionBoundary launch.session

theorem consistent_init : (init : Debug P).Consistent := ⟨Adapter.life_init, nofun, nofun⟩

/-- With no launch that is pending and no run there is nothing to hold. -/
theorem consistent_idle {d : Debug P} (hlife : d.adapter.Life)
    (hpending : d.adapter.session.pending = none) (hrunning : d.adapter.session.running = none) :
    d.Consistent where
  life := hlife
  held hsome := by
    rw [hpending] at hsome
    cases hsome
  running running hr := by
    rw [hrunning] at hr
    cases hr

/-- What keeps the launch keeps it consistent. -/
theorem Consistent.kept {d e : Debug P} {label : DebugStep P} (h : d.Consistent)
    (hstep : d.step label = some e) (hlife : e.adapter.Life)
    (hkeeps : d.adapter.session.KeepsLaunch e.adapter.session)
    (hheld : e.adapter.session.pending.isSome = true → e.held = d.held)
    (hadmitted : e.adapter.session.running.isSome = true → e.admitted = d.admitted) :
    e.Consistent where
  life := hlife
  held := by
    intro hpending
    have hbefore := hpending
    rw [hkeeps.pending] at hbefore
    obtain ⟨launch, analysis, hlaunch, hanalysis, haccepted⟩ := h.held hbefore
    have hbusy : d.busy = true := by simp [busy, hbefore]
    exact ⟨launch, analysis, (hheld hpending).trans hlaunch, hkeeps.analysis.trans hanalysis,
      haccepted.step hbusy hstep⟩
  running := by
    intro running hrunning
    obtain ⟨before, hbefore, hboundary⟩ := hkeeps.running running hrunning
    obtain ⟨disk, launch, run, analysis, hrun, haccepted, hfrom, hanalysis, hsame⟩ :=
      h.running before hbefore
    have hbusy : d.busy = true := by simp [busy, hbefore]
    have hstays := hadmitted (by rw [hrunning]; rfl)
    exact ⟨disk, launch, run, analysis, hstays.trans hrun, haccepted.step hbusy hstep, hfrom,
      hkeeps.analysis.trans hanalysis, hboundary.symm.trans hsame⟩

/-- A request, whatever the disk holds by then. -/
theorem Consistent.request {d e : Debug P} (hreach : Reachable step init d) (h : d.Consistent)
    {disk : P.Disk} {threadError : Option String} {request : Json}
    (hstep : d.step (.request disk threadError request) = some e) : e.Consistent := by
  obtain ⟨adapter, hadapter, rfl⟩ := Option.map_eq_some_iff.mp hstep
  have hlife := Adapter.life_step h.life hadapter
  cases Adapter.stepped_of_step hadapter with
  | tookEvent hlabel => simp at hlabel
  | joined hlabel => simp at hlabel
  | @handled _ _ t effect hphase hdone hhandle hhandled =>
    have hperform := ({ d.adapter with session := t } : Adapter H).keeps_perform request effect
    have houtcome := d.adapter.session.launchOutcome_handle
      (P.world disk threadError d.held request) request
    rw [hhandle] at houtcome
    generalize ({ d.adapter with session := t } : Adapter H).perform request effect = after
      at hperform hlife hstep
    -- With no run before and none after, nothing is admitted.
    have hidle (hnone : d.adapter.session.running = none)
        (hkept : t.running = d.adapter.session.running) : after.session.running = none := by
      apply Option.eq_none_iff_forall_ne_some.mpr
      intro running hrunning
      obtain ⟨before, hbefore, -⟩ := hperform.running running hrunning
      rw [hkept, hnone] at hbefore
      cases hbefore
    cases houtcome with
    | kept hkeeps =>
      have hall := hkeeps.trans hperform
      refine h.kept hstep hlife hall (fun hpending => ?_) fun hrunning => ?_
      · have hbefore := hpending
        rw [hall.pending] at hbefore
        simp [holds, hbefore, Option.isNone_iff_eq_none, Option.isSome_iff_ne_none.mp hpending]
      · obtain ⟨running, hrunning⟩ := Option.isSome_iff_exists.mp hrunning
        obtain ⟨before, hbefore, -⟩ := hall.running running hrunning
        simp [admits, hbefore]
    | cleared hnone hpending hkept =>
      have hrunning : d.adapter.session.running = none := by
        cases hp : d.adapter.session.pending with
        | none => exact hnone hp
        | some pending => exact h.life.running_eq_none hp
      exact consistent_idle hlife (hperform.pending.trans hpending) (hidle hrunning hkept)
    | launched launch hcommand hprepare hpending hrunning hkept hanalysis =>
      refine ⟨hlife, fun hsome => ?_, fun running hr => ?_⟩
      · obtain ⟨held, prepared, hheld, hprepared, hsame⟩ := ProjectHost.held_of_prepare hprepare
        refine ⟨held, launch.analysis, ?_, hperform.analysis.trans hanalysis, ?_⟩
        · simp [holds, Option.isSome_iff_ne_none.mp hsome, hpending, hheld]
        · exact ⟨d, _, disk, threadError, request, prepared, hreach, by simp [busy, hpending, hrunning],
            hcommand, hstep, hprepared, hsame.symm, .refl⟩
      · have hnone := hidle hrunning hkept
        rw [hnone] at hr
        cases hr
    | started start hspawn hpending htaken hanalysis hrunning =>
      obtain ⟨pending, hp⟩ := Option.isSome_iff_exists.mp hpending
      have hnone := h.life.running_eq_none hp
      obtain ⟨held, analysis, hheld, hbefore, haccepted⟩ := h.held hpending
      obtain ⟨launch, boundary, hadmitted, rfl⟩ := ProjectHost.admitLaunch_of_spawn hheld hspawn
      refine ⟨hlife, fun hsome => ?_, fun running hr => ?_⟩
      · rw [hperform.pending, htaken] at hsome
        cases hsome
      · obtain ⟨before, hstarted, hboundary⟩ := hperform.running running hr
        rw [hrunning] at hstarted
        cases hstarted
        refine ⟨disk, held, launch, analysis, ?_, haccepted.step (by simp [busy, hp]) hstep,
          ProjectHost.admitLaunch_eq_ok hadmitted, hperform.analysis.trans (hanalysis.trans hbefore),
          hboundary.symm⟩
        have hstarts : after.session.running = some running := hr
        simp [admits, hnone, hstarts, hheld, hadmitted, Except.toOption]
    | noThread hpending htaken hkept =>
      obtain ⟨pending, hp⟩ := Option.isSome_iff_exists.mp hpending
      have hnone := h.life.running_eq_none hp
      exact consistent_idle hlife (hperform.pending.trans htaken) (hidle hnone hkept)

theorem consistent_step {d e : Debug P} {label : DebugStep P} (hreach : Reachable step init d)
    (h : d.Consistent) (hstep : d.step label = some e) : e.Consistent := by
  cases label with
  | request disk threadError request => exact .request hreach h hstep
  | own label =>
    have hown {label : AdapterStep H} (hrequest : ∀ request world, label ≠ .request request world)
        (hlabel : d.step (.own label) = some e)
        (hmap : (d.adapter.step label).map (fun adapter => { d with adapter }) = some e) :
        e.Consistent := by
      obtain ⟨adapter, hadapter, rfl⟩ := Option.map_eq_some_iff.mp hmap
      exact h.kept hlabel (Adapter.life_step h.life hadapter) (Adapter.keeps_own hadapter hrequest)
        (fun _ => rfl) fun _ => rfl
    cases label with
    | request => cases hstep
    | _ => exact hown (fun _ _ heq => by cases heq) hstep hstep

theorem consistent_of_reachable {d : Debug P} (h : Reachable step init d) : d.Consistent := by
  induction h with
  | refl => exact consistent_init
  | tail hreach hlast ih =>
    obtain ⟨label, -, hstep⟩ := hlast
    exact consistent_step hreach ih hstep

/-- However the project directory changes between `launch` and `configurationDone`, and
whatever the client asks for: the program that runs is opened for the project and entry of
the accepted launch and called with its arguments; it has the sources that the analysis of
the session has, which is that launch's and against which breakpoints and expressions are
checked; its session was opened behind the read-only guard, and the boundary the client is
shown is that session's. -/
theorem runs_the_accepted_launch {d : Debug P} (h : Reachable step init d) {running : Running}
    (hrunning : d.adapter.session.running = some running) :
    ∃ disk held launch analysis, d.admitted = some (disk, held, launch) ∧
      d.Accepted held analysis ∧ AdmittedFrom P disk held launch ∧
      d.adapter.session.analysis = some analysis ∧
      P.generation analysis = P.generation (P.sourceAnalysisSnapshot launch.session) ∧
      running.executionBoundary = P.executionBoundary launch.session := by
  obtain ⟨disk, held, launch, analysis, hadmitted, haccepted, hfrom, hanalysis, hboundary⟩ :=
    (consistent_of_reachable h).running running hrunning
  exact ⟨disk, held, launch, analysis, hadmitted, haccepted, hfrom, hanalysis,
    haccepted.generation.trans hfrom.generation.symm, hboundary⟩

end Debug

/-! ## A project that changes -/

namespace Sample

/-- The host of the sample, with numbers for analyses. -/
def numbered : DebugHost :=
  { host with Analysis := Nat, checkedDebugExpression := fun _ _ _ source => .ok source }

/-- A project with a native store whose sources are numbered. -/
def project : ProjectHost numbered where
  Disk := Nat
  Config := Unit
  ProjectSession := Nat × Option String
  AnalysisGeneration := Nat
  SourceAnalysisAdmission := Unit
  EntryIdentity := String
  EntryArgument := Json
  isFile := fun _ _ => true
  storeExists := fun _ _ => true
  loadConfig := fun _ _ => .ok ()
  nativeStorePath := fun dir _ => .ok (some (dir.child "data"))
  openForReading := fun _ _ => .ok ()
  openSession := fun disk _ entry _ => .ok (disk, entry)
  sourceAnalysisSnapshot := Prod.fst
  generation := id
  sourceAnalysisAdmission := fun _ => .ok none
  runEntry := fun session => session.2.or (some "m::main")
  resolveEntry := fun _ entry => .ok entry
  canonicalName := id
  entryArguments := id
  checkedEntryCall := fun _ _ _ => .ok ()
  surfaceServeBoundary := fun _ => .ok .null
  executionBoundary := fun session => jsonNat session.1
  files := fun _ => []
  points := fun _ => []

def launchRequest : Json :=
  request "launch" [("project", .string "/p"), ("entry", .string "m::check"),
    ("args", .array [jsonNat 1])]

def configurationDone : Json := request "configurationDone" []

/-- Sources that change in between are refused, and the client launches again. -/
def changed : List (DebugStep project) :=
  [.request (7 : Nat) none launchRequest, .request (8 : Nat) none configurationDone,
    .request (8 : Nat) none launchRequest, .request (8 : Nat) none configurationDone]

end Sample

open Sample in
theorem Debug.runs_the_accepted_launch_changed : ∃ (d e : Debug project) (running : Running)
    (held : HeldLaunch project) (launch : ProjectLaunch project),
    Transition.run Debug.step .init (changed.take 2) = some d ∧
      d.adapter.session.running.isNone = true ∧
    Transition.run Debug.step .init changed = some e ∧
      e.adapter.session.running = some running ∧
      e.Accepted held (8 : Nat) ∧
      held.entry = some "m::check" ∧ launch.invocation.arguments = [jsonNat 1] ∧
      running.executionBoundary = project.executionBoundary launch.session := by
  have hrefused : Transition.run Debug.step .init (changed.take 2) = some _ := rfl
  have hrun : Transition.run Debug.step .init changed = some _ := rfl
  obtain ⟨disk, held, launch, analysis, hadmitted, haccepted, hfrom, hanalysis, -, hboundary⟩ :=
    runs_the_accepted_launch (reachable_of_run hrun) rfl
  cases hadmitted
  cases hanalysis
  refine ⟨_, _, _, _, _, hrefused, rfl, hrun, rfl, haccepted, rfl, ?_, hboundary⟩
  rw [hfrom.invocation]
  rfl

end Dap

end MarrowLsp
