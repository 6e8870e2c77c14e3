-- SUMMARY: What each handler of the debug adapter does to the variable references: replies hand out what they allocate, a resume forgets, and all else leaves them alone (session.rs).
import MarrowLsp.Dap.Handlers
import MarrowLsp.Lib.Handles

/-!
# Turns of the reference table

A reply hands out the numbers of the values its rows expand to. The table of these numbers is
emptied by a resume alone: a run that ends otherwise leaves it, and the session is done.
-/
namespace MarrowLsp

namespace Dap

variable {H : DebugHost}

/-! ## What a message hands out -/

/-- The reference a row can be expanded by; zero is a leaf. -/
def expandsTo (row : Json) : Option Nat :=
  match row.get "variablesReference" with
  | some (.number (.posInt reference)) => if reference = 0 then none else some reference
  | _ => none

/-- The references in a body: of the value it is about, and of its rows. -/
def bodyReferences (body : Json) : List Nat :=
  (expandsTo body).toList ++
    (((body.get "variables").bind Json.asArray).getD []).filterMap expandsTo

namespace Message

def body : Message → Json
  | .response _ _ _ _ _ body => body
  | .event _ _ body => body

/-- The references handed to the client. -/
def references (message : Message) : List Nat := bodyReferences message.body

/-- The data boundary attached to a message. -/
def dataBoundary (message : Message) : Option Json :=
  (message.body.get "marrowDebug").bind (·.get "debugDataBoundary")

/-- Nothing is handed out, and no boundary attached. -/
def Plain (message : Message) : Prop := message.references = [] ∧ message.dataBoundary = none

theorem plain_of_get {message : Message} (hreference : message.body.get "variablesReference" = none)
    (hvariables : message.body.get "variables" = none)
    (hdebug : (message.body.get "marrowDebug").bind (·.get "debugDataBoundary") = none) :
    message.Plain := by
  refine ⟨?_, hdebug⟩
  simp [references, bodyReferences, expandsTo, hreference, hvariables]

end Message

namespace Session

/-! ## The table of references -/

def handles (s : Session H) : Handles.Table (Expandable H) := ⟨s.expandables, s.nextRef⟩

/-- No run has been started. -/
def Fresh (s : Session H) : Prop := s.running = none ∧ s.done = false

/-- The run has left its stop, and the resume is still to be sent. -/
def Staged (s : Session H) : Prop :=
  s.stoppedAt = none ∧ (s.running.bind (·.pendingResume)).isSome = true

/-- From `s` to `t` the run is told to leave the stop it was at. -/
def Resumes (s t : Session H) : Prop := s.stoppedAt.isSome = true ∧ t.Staged

/-- From `s` to `t` nothing is handed out and nothing forgotten. -/
structure Quiet (s t : Session H) : Prop where
  handles : t.handles = s.handles
  out : ∃ messages, t.out = s.out ++ messages ∧ ∀ message ∈ messages, message.Plain
  fresh : t.Fresh → s.Fresh
  staged : t.Staged → s.Staged

theorem Quiet.refl (s : Session H) : Quiet s s :=
  ⟨rfl, ⟨[], (List.append_nil _).symm, by simp⟩, id, id⟩

theorem Quiet.trans {s t u : Session H} (h : Quiet s t) (h' : Quiet t u) : Quiet s u where
  handles := h'.handles.trans h.handles
  out := by
    obtain ⟨messages, hout, hplain⟩ := h.out
    obtain ⟨more, hout', hplain'⟩ := h'.out
    refine ⟨messages ++ more, by rw [hout', hout, List.append_assoc], ?_⟩
    intro message hmem
    cases List.mem_append.mp hmem with
    | inl hmem => exact hplain message hmem
    | inr hmem => exact hplain' message hmem
  fresh := h.fresh ∘ h'.fresh
  staged := h.staged ∘ h'.staged

/-- A change of what neither the references nor the run is about. -/
theorem quiet_of_same {s t : Session H} (hhandles : t.handles = s.handles) (hout : t.out = s.out)
    (hrunning : t.running = s.running) (hdone : t.done = s.done) : Quiet s t where
  handles := hhandles
  out := ⟨[], by rw [hout, List.append_nil], by simp⟩
  fresh := by simp [Fresh, hrunning, hdone]
  staged := by simp [Staged, stoppedAt, hrunning]

theorem quiet_write (s : Session H) {message : Nat → Message}
    (h : (message (s.seq + 1)).Plain) : Quiet s (s.write message) where
  handles := rfl
  out := ⟨[message (s.seq + 1)], rfl, by simpa using h⟩
  fresh := id
  staged := id

theorem quiet_respondError (s : Session H) (request : Json) (error : DapInputError) :
    Quiet s (s.respondError request error) :=
  s.quiet_write (Message.plain_of_get rfl rfl rfl)

theorem quiet_event (s : Session H) (name : String) {members : List (String × Json)}
    (hreference : (Json.object members).get "variablesReference" = none)
    (hvariables : (Json.object members).get "variables" = none)
    (hdebug : (Json.object members).get "marrowDebug" = none) :
    Quiet s (s.event name (.object members)) :=
  s.quiet_write (Message.plain_of_get hreference hvariables (by simp [Message.body, hdebug]))

theorem quiet_respond (s : Session H) (request : Json) {members : List (String × Json)}
    (hreference : (Json.object members).get "variablesReference" = none)
    (hvariables : (Json.object members).get "variables" = none)
    (hdebug : ((Json.object members).get "marrowDebug").bind (·.get "debugDataBoundary") = none) :
    Quiet s (s.respond request (.object members)) :=
  s.quiet_write (Message.plain_of_get hreference hvariables hdebug)

theorem Quiet.respond {s t : Session H} (h : Quiet s t) (request : Json)
    {members : List (String × Json)}
    (hreference : (Json.object members).get "variablesReference" = none)
    (hvariables : (Json.object members).get "variables" = none)
    (hdebug : ((Json.object members).get "marrowDebug").bind (·.get "debugDataBoundary") = none) :
    Quiet s (t.respond request (.object members)) :=
  h.trans (t.quiet_respond request hreference hvariables hdebug)

theorem Quiet.respondError {s t : Session H} (h : Quiet s t) (request : Json)
    (error : DapInputError) : Quiet s (t.respondError request error) :=
  h.trans (t.quiet_respondError request error)

theorem Quiet.continued {s t : Session H} (h : Quiet s t) : Quiet s t.continued :=
  h.trans (t.quiet_event "continued" rfl rfl rfl)

/-- No rows are sent where there is nothing to ask. -/
theorem quiet_noRows (s : Session H) (request : Json) :
    Quiet s (s.respond request (variablesBody [] [])) :=
  s.quiet_write ⟨rfl, rfl⟩

/-! ## Ends of the run -/

theorem quiet_output (s : Session H) (category text : String) : Quiet s (s.output category text) :=
  s.quiet_event "output" rfl rfl rfl

theorem quiet_exited (s : Session H) (exitCode : Nat) : Quiet s (s.exited exitCode) :=
  s.quiet_event "exited" rfl rfl rfl

/-- Output is told unless there is none. -/
theorem quiet_outputUnless (s : Session H) (text output : String) :
    Quiet s (if text = "" then s else s.output "stdout" output) := by
  split
  · exact .refl s
  · exact s.quiet_output "stdout" output

theorem quiet_emitRunOutcome (s : Session H) (outcome : Outcome) :
    Quiet s (s.emitRunOutcome outcome) := by
  apply (s.quiet_outputUnless outcome.output outcome.output).trans
  unfold emitRunOutcome
  dsimp only
  cases outcome.result with
  | ok message => exact (quiet_outputUnless _ message _).trans (quiet_exited _ 0)
  | error message => exact (quiet_output _ "stderr" _).trans (quiet_exited _ 1)

/-- The references stay when the run ends, and the session is done. -/
theorem quiet_endRun (s : Session H) : Quiet s s.endRun where
  handles := rfl
  out := (s.quiet_event "terminated" rfl rfl rfl).out
  fresh := by simp [Fresh, endRun]
  staged := by simp [Staged, endRun]

theorem quiet_finishRun (s : Session H) (result : RunEnd) : Quiet s (s.finishRun result) := by
  cases result with
  | returned outcome => exact (s.quiet_emitRunOutcome outcome).trans (quiet_endRun _)
  | panicked =>
    exact ((s.quiet_output _ _).trans (quiet_exited _ RUN_PANIC_EXIT_CODE)).trans (quiet_endRun _)

theorem quiet_beginTerminate (s : Session H) : Quiet s s.beginTerminate where
  handles := rfl
  out := ⟨[], (List.append_nil _).symm, by simp⟩
  fresh := by simp [Fresh, beginTerminate]
  staged := by cases hrunning : s.running <;> simp [Staged, beginTerminate, hrunning]

theorem quiet_handleRunEvent (s : Session H) (event : RunEvent H) :
    Quiet s (s.handleRunEvent event) := by
  cases event with
  | stopped info =>
    unfold handleRunEvent
    dsimp only
    split
    · exact .refl s
    · refine Quiet.trans ?_ (quiet_event _ "stopped" rfl rfl rfl)
      constructor
      · rfl
      · exact ⟨[], (List.append_nil _).symm, by simp⟩
      · simp [Fresh]
      · cases hrunning : s.running <;> simp [Staged, stoppedAt]
  | output text => exact s.quiet_output _ _
  | answer result => exact .refl s

/-! ## Rows -/

@[simp] theorem handles_allocRef (s : Session H) (expandable : Expandable H) :
    (s.allocRef expandable).2.handles = s.handles.alloc expandable := rfl

@[simp] theorem handles_refFor (s : Session H) (expandable : Option (Expandable H)) :
    (s.refFor expandable).2.handles = s.handles.give expandable.toList := by
  cases expandable <;> rfl

/-- A row that can be expanded is given the next reference, and a leaf none. -/
theorem nonzero_refFor {s : Session H} (hnext : 0 < s.nextRef)
    (expandable : Option (Expandable H)) :
    (if (s.refFor expandable).1 = 0 then none else some (s.refFor expandable).1) =
      expandable.map fun _ => s.nextRef := by
  cases expandable with
  | none => rfl
  | some expandable => simp [refFor, allocRef, Nat.ne_of_gt hnext]

/-- A row hands out the reference of its value, where it has one. -/
structure RowOf {α : Type} (row : Session H → α → Json × Session H)
    (value : α → Option (Expandable H)) : Prop where
  handles : ∀ s entry, (row s entry).2.handles = s.handles.give (value entry).toList
  expandsTo : ∀ s entry, 0 < s.nextRef →
    expandsTo (row s entry).1 = (value entry).map fun _ => s.nextRef

theorem rowOf_childVariable (storeSnapshot : Option H.StoreSnapshot) :
    RowOf (childVariable storeSnapshot) fun child => child.expand.map (.value · storeSnapshot) :=
  ⟨fun s _ => s.handles_refFor _, fun _ _ hnext => nonzero_refFor hnext _⟩

theorem rowOf_dataVariable : RowOf (dataVariable (H := H))
    fun entry => if entry.expandable then some (.dataPath entry.path) else none :=
  ⟨fun s _ => s.handles_refFor _, fun _ _ hnext => nonzero_refFor hnext _⟩

section Rows

variable {α : Type} {row : Session H → α → Json × Session H} {value : α → Option (Expandable H)}

theorem RowOf.handles_rows (h : RowOf row value) (s : Session H) (entries : List α) :
    (rows row s entries).2.handles = s.handles.give (entries.filterMap value) := by
  induction entries generalizing s with
  | nil => rfl
  | cons entry entries ih =>
    have hrest := ih (row s entry).2
    rw [h.handles] at hrest
    rw [rows, List.filterMap_cons]
    cases hvalue : value entry with
    | none =>
      rw [hvalue] at hrest
      exact hrest
    | some expandable =>
      rw [hvalue] at hrest
      exact hrest

/-- The references of the rows are the next ones, in order. -/
theorem RowOf.references_rows (h : RowOf row value) {s : Session H} (hnext : 0 < s.nextRef)
    (entries : List α) : (rows row s entries).1.filterMap Dap.expandsTo =
      List.range' s.nextRef (entries.filterMap value).length := by
  induction entries generalizing s with
  | nil => rfl
  | cons entry entries ih =>
    have hnextRef : (row s entry).2.nextRef = s.nextRef + (value entry).toList.length := by
      have hhandles := congrArg Handles.Table.next (h.handles s entry)
      rwa [Handles.Table.next_give] at hhandles
    have hrest := ih (s := (row s entry).2) (by omega)
    rw [hnextRef] at hrest
    rw [rows, List.filterMap_cons, List.filterMap_cons, h.expandsTo s entry hnext]
    cases hvalue : value entry with
    | none =>
      rw [hvalue] at hrest
      exact hrest
    | some expandable =>
      rw [hvalue] at hrest
      exact congrArg (s.nextRef :: ·) hrest

end Rows

/-! ## Replies with references -/

/-- From `s` to `t` one message is written, with the references of the values allocated for it. -/
structure Hands (s t : Session H) (message : Message) (values : List (Expandable H)) : Prop where
  out : t.out = s.out ++ [message]
  references : message.references = List.range' s.nextRef values.length
  handles : t.handles = s.handles.give values
  running : t.running = s.running
  done : t.done = s.done

theorem hands_respond {s t : Session H} (htells : Tells s t []) {values : List (Expandable H)}
    (hhandles : t.handles = s.handles.give values) (request : Json) {body : Json}
    (hreferences : bodyReferences body = List.range' s.nextRef values.length) :
    ∃ message values, Hands s (t.respond request body) message values := by
  have hout : t.out = s.out := by rw [htells.out, List.append_nil]
  refine ⟨.response (t.seq + 1) (requestField request "seq") (requestField request "command") true
    none body, values, ?_, hreferences, hhandles, htells.running, htells.done⟩
  rw [← hout]
  rfl

theorem bodyReferences_variablesBody (entries : List Json) (marrowDebug : List (String × Json)) :
    bodyReferences (variablesBody entries marrowDebug) = entries.filterMap expandsTo := by
  have hreference : (variablesBody entries marrowDebug).get "variablesReference" = none := by
    unfold variablesBody
    split <;> rfl
  simp only [bodyReferences, expandsTo, hreference]
  rfl

/-- Rows are sent with the references of what they can be expanded to. -/
theorem hands_rows {α : Type} {row : Session H → α → Json × Session H}
    {value : α → Option (Expandable H)} (hrow : RowOf row value) {s : Session H}
    (htells : ∀ s entry, Tells s (row s entry).2 []) (hnext : 0 < s.nextRef) (entries : List α)
    (request : Json) (marrowDebug : List (String × Json)) :
    ∃ message values, Hands s ((rows row s entries).2.respond request
      (variablesBody (rows row s entries).1 marrowDebug)) message values := by
  apply hands_respond (tells_rows htells s entries) (hrow.handles_rows s entries)
  rw [bodyReferences_variablesBody, hrow.references_rows hnext entries]

/-- Neither the counts nor the facts Marrow adds are rows. -/
theorem get_variables_eq_none (counts : Option ChildCounts) (marrowDebug : List (String × Json)) :
    (Json.object (countMembers counts ++
      if marrowDebug = [] then [] else [("marrowDebug", .object marrowDebug)])).get "variables" =
        none := by
  cases counts with
  | none => split <;> rfl
  | some counts =>
    obtain ⟨named, indexed⟩ := counts
    cases named <;> cases indexed <;> split <;> rfl

/-- A value is sent with its own reference. -/
theorem hands_evaluateBody {s : Session H} (hnext : 0 < s.nextRef) (request : Json)
    (snapshot : EvaluationSnapshot H) :
    ∃ message values, Hands s
      ((s.evaluateBody snapshot).2.respond request (s.evaluateBody snapshot).1) message values := by
  apply hands_respond (s.tells_evaluateBody snapshot) (s.handles_refFor _)
  have hvariables : (s.evaluateBody snapshot).1.get "variables" = none :=
    get_variables_eq_none (H.childCounts snapshot.value) _
  have hreference := nonzero_refFor hnext
    (if (H.childCounts snapshot.value).isSome then
      some (.value snapshot.value snapshot.storeSnapshot) else none)
  have hexpandsTo := congrArg Option.toList hreference
  unfold bodyReferences
  rw [hvariables]
  refine (congrArg (· ++ []) hexpandsTo).trans ?_
  split <;> rfl

/-! ## Handlers -/

/-- What a handler does to the references, and what it then leaves to do. -/
inductive Turn (s : Session H) : Session H × Effect H → Prop where
  | quiet {t : Session H} {effect : Effect H} (h : Quiet s t) : Turn s (t, effect)
  | resumed {t : Session H} {mode : Resume} (h : Quiet s t) : Turn s (t.resumeRun mode, .none)
  | handed {t : Session H} {message : Message} {values : List (Expandable H)}
      (hrunning : s.running.isSome = true) (h : Hands s t message values) : Turn s (t, .none)

variable {s : Session H}

theorem turn_respondError (request : Json) (error : DapInputError) :
    Turn s (s.respondError request error, .none) :=
  .quiet (s.quiet_respondError request error)

theorem turn_of_hands {t : Session H} (hrunning : s.running.isSome = true)
    (h : ∃ message values, Hands s t message values) : Turn s (t, .none) := by
  obtain ⟨message, values, hhands⟩ := h
  exact .handed hrunning hhands

/-- Without an answer there is nothing to hand out. -/
theorem quiet_afterQuery_none (s : Session H) (request : Json) (query : Query H) :
    Quiet s (s.afterQuery request query none) := by
  cases query with
  | locals page filter => exact s.quiet_noRows request
  | dataChildren path page => exact s.quiet_noRows request
  | evaluate expression => exact s.quiet_respondError request notStopped

/-- An answer comes from a run. -/
theorem turn_afterQuery (hnext : 0 < s.nextRef) (hrunning : s.running.isSome = true)
    (request : Json) (query : Query H) (answer : Option (QueryResult H)) :
    Turn s (s.afterQuery request query answer, .none) := by
  unfold afterQuery
  split
  · exact turn_of_hands hrunning
      (hands_rows (rowOf_childVariable none) (tells_childVariable none) hnext _ request _)
  · exact turn_of_hands hrunning
      (hands_rows rowOf_dataVariable tells_dataVariable hnext _ request _)
  · exact turn_respondError request _
  · exact turn_of_hands hrunning (hands_evaluateBody hnext request _)
  · exact turn_respondError request _
  · exact turn_respondError request _
  · exact .quiet (s.quiet_noRows request)

theorem turn_ask (request : Json) (query : Query H) : Turn s (s.ask request query) := by
  unfold ask
  split
  · exact .quiet (.refl s)
  · exact .quiet (s.quiet_afterQuery_none request query)

/-- A value the client has a reference for is there only while a run is. -/
theorem turn_onVariables (hnext : 0 < s.nextRef)
    (hrunning : s.expandables ≠ [] → s.running.isSome = true) (request arguments : Json) :
    Turn s (s.onVariables request arguments) := by
  unfold onVariables
  split
  · exact turn_respondError request _
  · split
    · exact turn_ask request _
    · split
      · exact turn_ask request _
      · split
        · exact .quiet (s.quiet_noRows request)
        · next value storeSnapshot hlookup =>
          have hne : s.expandables ≠ [] := by
            intro hnil
            rw [hnil] at hlookup
            cases hlookup
          exact turn_of_hands (hrunning hne) (hands_rows (rowOf_childVariable storeSnapshot)
            (tells_childVariable storeSnapshot) hnext _ request _)
        · exact turn_ask request _

theorem turn_onEvaluate (request arguments : Json) : Turn s (s.onEvaluate request arguments) := by
  unfold onEvaluate
  split
  · exact turn_respondError request _
  · split
    · exact turn_respondError request _
    · split
      · exact turn_respondError request _
      · exact turn_ask request _

theorem turn_onInitialize (request arguments : Json) :
    Turn s (s.onInitialize request arguments).only := by
  unfold onInitialize
  dsimp only
  refine .quiet (.respond ?_ request rfl rfl rfl)
  exact quiet_of_same rfl rfl rfl rfl

theorem turn_onLaunch (w : LaunchWorld H) (request arguments : Json) :
    Turn s (s.onLaunch w request arguments).only := by
  have hcleared : Quiet s s.clearLaunchConfiguration := quiet_of_same rfl rfl rfl rfl
  unfold onLaunch
  split
  · exact turn_respondError request _
  · dsimp only
    split
    · exact .quiet (hcleared.respondError request _)
    · split
      · exact .quiet (hcleared.respondError request _)
      · split
        · exact .quiet (hcleared.respondError request _)
        · refine .quiet (.trans (.respond ?_ request rfl rfl rfl) (quiet_event _ _ rfl rfl rfl))
          exact hcleared.trans (quiet_of_same rfl rfl rfl rfl)

theorem turn_onSetBreakpoints (request arguments : Json) :
    Turn s (s.onSetBreakpoints request arguments) := by
  unfold onSetBreakpoints
  split
  · exact turn_respondError request _
  · split
    · exact turn_respondError request _
    · split
      next t effect heq =>
        refine .quiet (.respond ?_ request rfl rfl rfl)
        split at heq
        · cases heq
          exact quiet_of_same rfl rfl rfl rfl
        · cases heq
          exact .refl s

theorem turn_onConfigurationDone (w : LaunchWorld H) (request : Json) :
    Turn s (s.onConfigurationDone w request) := by
  unfold onConfigurationDone
  split
  · exact turn_respondError request _
  · dsimp only
    split
    · refine .quiet (.respond ?_ request rfl rfl rfl)
      exact ⟨rfl, ⟨[], (List.append_nil _).symm, by simp⟩, by simp [Fresh], by simp [Staged]⟩
    · refine .quiet (.respondError ?_ request _)
      exact quiet_of_same rfl rfl rfl rfl
    · refine .quiet (.respondError ?_ request _)
      exact quiet_of_same rfl rfl rfl rfl

theorem turn_onStackTrace (request arguments : Json) :
    Turn s (s.onStackTrace request arguments).only := by
  unfold onStackTrace
  split
  · exact turn_respondError request _
  · exact .quiet (s.quiet_respond request rfl rfl rfl)

theorem turn_onSource (request arguments : Json) : Turn s (s.onSource request arguments).only := by
  unfold onSource
  split
  · exact turn_respondError request _
  · split
    · exact turn_respondError request _
    · exact .quiet (s.quiet_respond request rfl rfl rfl)

theorem turn_onScopes (request arguments : Json) : Turn s (s.onScopes request arguments).only := by
  unfold onScopes
  split
  · exact turn_respondError request _
  · split
    · exact .quiet (s.quiet_respond request rfl rfl rfl)
    · exact turn_respondError request _

theorem turn_onContinue (request arguments : Json) :
    Turn s (s.onContinue request arguments).only := by
  unfold onContinue
  split
  · exact turn_respondError request _
  · split
    · exact turn_respondError request _
    · split
      · exact turn_respondError request _
      · exact .resumed (s.quiet_respond request rfl rfl rfl).continued

theorem turn_onStep (request arguments : Json) (kind : StepKind) :
    Turn s (s.onStep request arguments kind).only := by
  unfold onStep
  split
  · exact turn_respondError request _
  · split
    · exact turn_respondError request _
    · exact .resumed (s.quiet_respond request rfl rfl rfl)

theorem turn_onPause (request arguments : Json) : Turn s (s.onPause request arguments) := by
  unfold onPause
  split
  · exact turn_respondError request _
  · split
    · exact turn_respondError request _
    · split
      · exact .resumed (s.quiet_respond request rfl rfl rfl).continued
      · exact .quiet (s.quiet_respond request rfl rfl rfl)

theorem turn_onTerminate (request : Json) : Turn s (s.onTerminate request) := by
  unfold onTerminate
  split
  · exact turn_respondError request _
  · exact .quiet (s.quiet_respond request rfl rfl rfl)

theorem turn_withArguments {request : Json} {onCommand : Json → Session H × Effect H}
    (h : ∀ arguments, Turn s (onCommand arguments)) : Turn s (s.withArguments request onCommand) := by
  unfold withArguments
  split
  · next arguments harguments => exact h arguments
  · exact turn_respondError request _

/-- Every handler hands out what it allocates, and only the resuming ones forget. -/
theorem turn_handle (hnext : 0 < s.nextRef)
    (hrunning : s.expandables ≠ [] → s.running.isSome = true) (w : LaunchWorld H) (request : Json) :
    Turn s (s.handle w request) := by
  unfold handle
  split
  case h_1 => exact turn_withArguments (turn_onInitialize request)
  case h_2 => exact turn_withArguments (turn_onLaunch w request)
  case h_3 => exact turn_withArguments (turn_onSetBreakpoints request)
  case h_4 => exact turn_withArguments fun _ => turn_onConfigurationDone w request
  case h_5 => exact turn_withArguments fun _ => .quiet (s.quiet_respond request rfl rfl rfl)
  case h_6 => exact turn_withArguments (turn_onStackTrace request)
  case h_7 => exact turn_withArguments (turn_onSource request)
  case h_8 => exact turn_withArguments (turn_onScopes request)
  case h_9 => exact turn_withArguments (turn_onVariables hnext hrunning request)
  case h_10 => exact turn_withArguments (turn_onContinue request)
  case h_11 => exact turn_withArguments fun arguments => turn_onStep request arguments .over
  case h_12 => exact turn_withArguments fun arguments => turn_onStep request arguments .into
  case h_13 => exact turn_withArguments fun arguments => turn_onStep request arguments .out
  case h_14 => exact turn_withArguments (turn_onPause request)
  case h_15 => exact turn_withArguments (turn_onEvaluate request)
  case h_16 => exact turn_withArguments fun _ => .quiet (s.quiet_respond request rfl rfl rfl)
  case h_17 => exact turn_withArguments fun _ => turn_onTerminate request
  case h_18 => exact turn_respondError request _

end Session

end Dap

end MarrowLsp
