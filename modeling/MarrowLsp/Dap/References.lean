-- SUMMARY: The variable references of the debug adapter over whole sessions: handed out once each, each for one value, dead after a resume, and a data boundary only while a run is there (session.rs).
import MarrowLsp.Dap.AdapterSteps
import MarrowLsp.Dap.Sample
import MarrowLsp.Dap.Turns

/-!
# Variable references

The references handed out are the numbers of the table, each once and in order, so the counter
says how many there were: it leaves the range of the source's `i64` only after 2^63 - 1000 of them.
-/
namespace MarrowLsp

namespace Dap

variable {H : DebugHost}

namespace Session

variable {s : Session H}

/-! ## The invariant -/

/-- The references handed out are the numbers given out so far, each once and in order; the table
holds some of them, and none before the run. -/
structure Tabled (s : Session H) : Prop where
  first_le : FIRST_DYNAMIC_REF ≤ s.nextRef
  handed : s.out.flatMap Message.references =
    List.range' FIRST_DYNAMIC_REF (s.nextRef - FIRST_DYNAMIC_REF)
  bounded : s.handles.Bounded FIRST_DYNAMIC_REF
  fresh : s.Fresh → s.expandables = []

theorem tabled_new : Tabled (new : Session H) where
  first_le := Nat.le_refl _
  handed := by simp [new]
  bounded := by simp [Handles.Table.Bounded, handles, new]
  fresh := fun _ => rfl

theorem Tabled.pos (h : Tabled s) : 0 < s.nextRef := Nat.lt_of_lt_of_le (by decide) h.first_le

/-- Of what was handed out, every reference is behind the counter. -/
theorem Tabled.lt_nextRef (h : Tabled s) {message : Message} (hmessage : message ∈ s.out)
    {reference : Nat} (hreference : reference ∈ message.references) : reference < s.nextRef := by
  have hmem : reference ∈ s.out.flatMap Message.references :=
    List.mem_flatMap.mpr ⟨message, hmessage, hreference⟩
  rw [h.handed] at hmem
  obtain ⟨-, hlt⟩ := List.mem_range'_1.mp hmem
  have hfirst := h.first_le
  omega

/-- While a session goes on, there are values only beside a run. -/
theorem Tabled.running (h : Tabled s) (hdone : s.done = false) (hne : s.expandables ≠ []) :
    s.running.isSome = true := by
  cases hrunning : s.running with
  | none => exact absurd (h.fresh ⟨hrunning, hdone⟩) hne
  | some running => rfl

theorem Quiet.expandables {t : Session H} (h : Quiet s t) : t.expandables = s.expandables :=
  congrArg Handles.Table.entries h.handles

theorem Quiet.nextRef {t : Session H} (h : Quiet s t) : t.nextRef = s.nextRef :=
  congrArg Handles.Table.next h.handles

theorem Quiet.references {t : Session H} (h : Quiet s t) :
    t.out.flatMap Message.references = s.out.flatMap Message.references := by
  obtain ⟨messages, hout, hplain⟩ := h.out
  have hnil : messages.flatMap Message.references = [] :=
    List.flatMap_eq_nil_iff.mpr fun message hmem => (hplain message hmem).1
  rw [hout, List.flatMap_append, hnil, List.append_nil]

theorem Tabled.quiet {t : Session H} (h : Tabled s) (hquiet : Quiet s t) : Tabled t where
  first_le := by
    rw [hquiet.nextRef]
    exact h.first_le
  handed := by
    rw [hquiet.references, hquiet.nextRef]
    exact h.handed
  bounded := by
    rw [hquiet.handles]
    exact h.bounded
  fresh := by
    intro hfresh
    rw [hquiet.expandables]
    exact h.fresh (hquiet.fresh hfresh)

theorem Tabled.resumeRun (h : Tabled s) (mode : Resume) : Tabled (s.resumeRun mode) where
  first_le := h.first_le
  handed := h.handed
  bounded := Handles.Table.Bounded.clear (s := s.handles)
  fresh := fun _ => rfl

theorem Hands.nextRef {t : Session H} {message : Message} {values : List (Expandable H)}
    (h : Hands s t message values) : t.nextRef = s.nextRef + values.length :=
  (congrArg Handles.Table.next h.handles).trans (s.handles.next_give values)

theorem Tabled.hands {t : Session H} {message : Message} {values : List (Expandable H)}
    (h : Tabled s) (hrunning : s.running.isSome = true) (hhands : Hands s t message values) :
    Tabled t where
  first_le := by
    rw [hhands.nextRef]
    exact Nat.le_add_right_of_le h.first_le
  handed := by
    have hfirst := h.first_le
    have hstart : s.nextRef = FIRST_DYNAMIC_REF + (s.nextRef - FIRST_DYNAMIC_REF) := by omega
    have hlength : t.nextRef - FIRST_DYNAMIC_REF =
        s.nextRef - FIRST_DYNAMIC_REF + values.length := by
      rw [hhands.nextRef]
      omega
    rw [hhands.out, List.flatMap_append, List.flatMap_singleton, h.handed, hhands.references,
      hlength, ← List.range'_append_1, ← hstart]
  bounded := by
    rw [hhands.handles]
    exact h.bounded.give h.first_le values
  fresh := by
    rintro ⟨hnone, -⟩
    rw [hhands.running] at hnone
    rw [hnone] at hrunning
    cases hrunning

theorem Tabled.turn {p : Session H × Effect H} (h : Tabled s) (hturn : Turn s p) : Tabled p.1 := by
  cases hturn with
  | quiet hquiet => exact h.quiet hquiet
  | resumed hquiet => exact (h.quiet hquiet).resumeRun _
  | handed hrunning hhands => exact h.hands hrunning hhands

/-- No turn gives an old reference a new value. -/
theorem Turn.later {p : Session H × Effect H} (h : Turn s p) :
    Handles.Later s.handles p.1.handles := by
  cases h with
  | quiet hquiet =>
    rw [hquiet.handles]
    exact .refl _
  | resumed hquiet =>
    have hclear := Handles.later_clear s.handles
    rw [← hquiet.handles] at hclear ⊢
    exact hclear
  | handed hrunning hhands =>
    rw [hhands.handles]
    exact Handles.later_give _ _

theorem staged_iff_of_running {t : Session H} (h : t.running = s.running) : t.Staged ↔ s.Staged := by
  simp [Staged, stoppedAt, h]

/-- A request that resumes a stopped run is a resume in this sense. -/
theorem resumes_resumeRun {t : Session H} (hstopped : s.stoppedAt.isSome = true)
    (hrunning : t.running = s.running) (mode : Resume) : Resumes s (t.resumeRun mode) := by
  refine ⟨hstopped, ?_⟩
  cases hnone : s.running with
  | none => simp [stoppedAt, hnone] at hstopped
  | some running => simp [Staged, stoppedAt, Session.resumeRun, hrunning, hnone]

/-- No other turn is one, and this one forgets every reference. -/
theorem Turn.forgets {p : Session H × Effect H} (h : Turn s p) (hresumes : Resumes s p.1) :
    p.1.expandables = [] := by
  have hstaged : ¬ s.Staged := by
    rintro ⟨hnone, -⟩
    have hstopped := hresumes.1
    rw [hnone] at hstopped
    cases hstopped
  cases h with
  | quiet hquiet => exact absurd (hquiet.staged hresumes.2) hstaged
  | resumed hquiet => rfl
  | handed hrunning hhands =>
    exact absurd ((staged_iff_of_running hhands.running).mp hresumes.2) hstaged

/-- What a turn writes has references that stand for something, and a boundary only beside a
run. -/
theorem Turn.written {p : Session H × Effect H} (h : Turn s p) :
    ∃ messages, p.1.out = s.out ++ messages ∧ ∀ message ∈ messages,
      (∀ reference ∈ message.references, ∃ value, p.1.handles.lookup reference = some value) ∧
        (message.dataBoundary.isSome = true → s.running.isSome = true) := by
  have hplain {message : Message} (hplain : message.Plain) (t : Session H) :
      (∀ reference ∈ message.references, ∃ value, t.handles.lookup reference = some value) ∧
        (message.dataBoundary.isSome = true → s.running.isSome = true) := by
    obtain ⟨hreferences, hboundary⟩ := hplain
    simp [hreferences, hboundary]
  cases h with
  | quiet hquiet =>
    obtain ⟨messages, hout, hall⟩ := hquiet.out
    exact ⟨messages, hout, fun message hmem => hplain (hall message hmem) _⟩
  | resumed hquiet =>
    obtain ⟨messages, hout, hall⟩ := hquiet.out
    exact ⟨messages, hout, fun message hmem => hplain (hall message hmem) _⟩
  | @handed t message values hrunning hhands =>
    refine ⟨[message], hhands.out, ?_⟩
    intro other hmem
    rw [List.mem_singleton.mp hmem]
    refine ⟨?_, fun _ => hrunning⟩
    intro reference hreference
    rw [hhands.references] at hreference
    rw [hhands.handles]
    exact s.handles.lookup_give_of_mem hreference

end Session

namespace Adapter

open Transition Dap.Session

/-! ## Steps -/

theorem quiet_terminateSession (a : Adapter H) : Quiet a.session a.terminateSession.session := by
  unfold Adapter.terminateSession
  split
  · exact a.session.quiet_beginTerminate
  · exact ⟨rfl, ⟨[], (List.append_nil _).symm, by simp⟩, by simp [Fresh], id⟩

theorem quiet_perform (a : Adapter H) (request : Json) (effect : Effect H) :
    Quiet a.session (a.perform request effect).session := by
  cases effect with
  | query query =>
    unfold Adapter.perform
    dsimp only
    split
    · exact a.session.quiet_afterQuery_none request query
    · exact .refl a.session
  | terminate => exact a.quiet_terminateSession
  | _ => exact .refl a.session

/-- The staged resume is taken. -/
theorem quiet_takeResume (s : Session H) (running : Running) :
    Quiet s { s with running := some { running with pendingResume := none } } where
  handles := rfl
  out := ⟨[], (List.append_nil _).symm, by simp⟩
  fresh := by simp [Fresh]
  staged := by simp [Staged]

/-- Every step of the adapter is a turn of its session. -/
theorem turn_step {a b : Adapter H} {label : AdapterStep H} (hlife : Life a)
    (h : Tabled a.session) (hstep : a.step label = some b) :
    Turn a.session (b.session, .none) := by
  cases stepped_of_step hstep with
  | @handled request world t effect hphase hdone hhandle hhandled =>
    have hturn : Turn a.session (t, effect) := by
      rw [← hhandle]
      exact turn_handle h.pos (h.running hdone) world request
    cases hturn with
    | quiet hquiet =>
      exact .quiet (hquiet.trans (quiet_perform { a with session := t } request effect))
    | resumed hquiet => exact .resumed hquiet
    | handed hrunning hhands => exact .handed hrunning hhands
  | resumeDropped hphase hdone hrunning hrun hterminating => exact .quiet (quiet_takeResume _ _)
  | resumeSent hphase hdone hrunning hrun hpending hterminating hresult =>
    exact .quiet (quiet_takeResume _ _)
  | resumeFailed hphase hdone hrunning hrun hpending hresult =>
    exact .quiet ((quiet_takeResume _ _).trans (quiet_finishRun _ _))
  | tookEvent hlabel hrunning hrun hevents => exact .quiet (a.session.quiet_handleRunEvent _)
  | joined hlabel hrunning hrun hevents hresult => exact .quiet (a.session.quiet_finishRun _)
  | answered hphase hrun hevents =>
    have hrunning : a.session.running.isSome = true := by
      cases hnone : a.session.running with
      | none =>
        rw [hlife.phase hnone] at hphase
        cases hphase
      | some running => rfl
    exact turn_afterQuery h.pos hrunning _ _ _
  | unanswered hphase hrun hevents => exact .quiet (a.session.quiet_afterQuery_none _ _)
  | detached hphase hrun hevents hresult => exact .quiet a.session.quiet_endRun
  | dropped hphase => exact .quiet a.quiet_terminateSession
  | ran hrun hstep => exact .quiet (.refl a.session)

theorem tabled_of_reachable {a : Adapter H} (h : Reachable step init a) : Tabled a.session :=
  h.invariant_of (I := fun a => Tabled a.session) life_init (fun _ _ _ h _ => life_step h)
    tabled_new fun _ _ _ hlife htabled _ hstep => htabled.turn (turn_step hlife htabled hstep)

/-- Along a run, no reference comes to stand for something else. -/
theorem later_of_reachable {a b : Adapter H} (ha : Reachable step init a)
    (h : Reachable step a b) : Handles.Later a.session.handles b.session.handles := by
  induction h with
  | refl => exact .refl _
  | @tail c d hac hlast ih =>
    obtain ⟨label, -, hstep⟩ := hlast
    have hc : Reachable step init c := ha.trans hac
    exact ih.trans (turn_step (life hc) (tabled_of_reachable hc) hstep).later

/-! ## References -/

/-- The messages written on the way to a later state. -/
def written (a b : Adapter H) : List Message := b.session.out.drop a.session.out.length

/-- The references of a session: where they lie, what they stand for, and for how long. -/
structure ReferencesSound (a : Adapter H) : Prop where
  keys : ∀ entry ∈ a.session.expandables, FIRST_DYNAMIC_REF ≤ entry.1 ∧
    entry.1 < a.session.nextRef ∧ entry.1 ≠ LOCALS_REF ∧ entry.1 ≠ DURABLE_REF
  /-- No reference is handed out twice. -/
  distinct : (a.session.out.flatMap Message.references).Nodup
  counter : a.session.nextRef =
    FIRST_DYNAMIC_REF + (a.session.out.flatMap Message.references).length
  /-- A reference handed out stands for one value, or later for none. -/
  denotes : ∀ label b, a.step label = some b → ∀ message ∈ a.written b,
    ∀ reference ∈ message.references, ∃ value,
      b.session.expandables.lookup reference = some value ∧
      ∀ c, Reachable step b c → c.session.expandables.lookup reference = some value ∨
        c.session.expandables.lookup reference = none
  /-- After a resume, none of those handed out until then stands for anything again. -/
  dead : ∀ label b, a.step label = some b → Resumes a.session b.session →
    ∀ message ∈ b.session.out, ∀ reference ∈ message.references,
      ∀ c, Reachable step b c → c.session.expandables.lookup reference = none
  /-- A data boundary is attached only while the session has a run. -/
  boundary : ∀ label b, a.step label = some b → ∀ message ∈ a.written b,
    message.dataBoundary.isSome = true → a.session.running.isSome = true

variable {a : Adapter H}

theorem keys_of_tabled (h : Tabled a.session) {entry : Nat × Expandable H}
    (hentry : entry ∈ a.session.expandables) : FIRST_DYNAMIC_REF ≤ entry.1 ∧
      entry.1 < a.session.nextRef ∧ entry.1 ≠ LOCALS_REF ∧ entry.1 ≠ DURABLE_REF := by
  obtain ⟨hfirst, hnext⟩ := h.bounded entry hentry
  have hlocals : LOCALS_REF < FIRST_DYNAMIC_REF := by decide
  have hdurable : DURABLE_REF < FIRST_DYNAMIC_REF := by decide
  exact ⟨hfirst, hnext, by omega, by omega⟩

theorem mem_written {b : Adapter H} {label : AdapterStep H} (h : Reachable step init a)
    (hstep : a.step label = some b) {message : Message} (hmessage : message ∈ a.written b) :
    message ∈ b.session.out ∧
      (∀ reference ∈ message.references, ∃ value,
        b.session.handles.lookup reference = some value) ∧
      (message.dataBoundary.isSome = true → a.session.running.isSome = true) := by
  obtain ⟨messages, hout, hall⟩ := (turn_step (life h) (tabled_of_reachable h) hstep).written
  have hmem : message ∈ messages := by
    unfold written at hmessage
    rwa [hout, List.drop_left] at hmessage
  exact ⟨List.mem_of_mem_drop hmessage, hall message hmem⟩

/-- In every run of the adapter. -/
theorem referencesSound (h : Reachable step init a) : ReferencesSound a := by
  have htabled := tabled_of_reachable h
  constructor
  · exact fun _ hentry => keys_of_tabled htabled hentry
  · rw [htabled.handed]
    exact List.nodup_range'
  · have hfirst := htabled.first_le
    rw [htabled.handed, List.length_range']
    omega
  · intro label b hstep message hmessage reference hreference
    have hb : Reachable step init b := h.snoc trivial hstep
    obtain ⟨hmem, hlookup, -⟩ := mem_written h hstep hmessage
    obtain ⟨value, hvalue⟩ := hlookup reference hreference
    have hlt := (tabled_of_reachable hb).lt_nextRef hmem hreference
    exact ⟨value, hvalue, fun c hc => (later_of_reachable hb hc).lookup_of_some hlt hvalue⟩
  · intro label b hstep hresumes message hmem reference hreference c hc
    have hb : Reachable step init b := h.snoc trivial hstep
    have hnil : b.session.expandables = [] := (turn_step (life h) htabled hstep).forgets hresumes
    have hnone : b.session.handles.lookup reference = none := by
      simp only [Handles.Table.lookup, Session.handles, hnil, List.lookup_nil]
    have hlt := (tabled_of_reachable hb).lt_nextRef hmem hreference
    exact (later_of_reachable hb hc).lookup_of_none hlt hnone
  · intro label b hstep message hmessage
    exact (mem_written h hstep hmessage).2.2

end Adapter

namespace Sample

/-- A statement where a saved resource can be expanded. -/
def savedStatement : Statement host :=
  { statement fileA 1 0 with
    frame := { (statement fileA 1 0).frame with
      snapshotDataChildren := fun _ _ => .ok ⟨[⟨"key", "value", none, ["key"], true⟩], false, ()⟩ } }

def expand (reference : Nat) : List (AdapterStep host) :=
  [send "variables" [("variablesReference", jsonNat reference)], .run .receive, .run .answer,
    .receiveAnswer]

/-- Saved data is opened at a stop, and a resource in it; then the run is told to continue. -/
def openedData : List (AdapterStep host) :=
  [launch true, send "configurationDone" [], .run (.statement savedStatement), .run .drain,
    .run .report, .run .announce, .pumpRunEvent] ++
    expand DURABLE_REF ++ expand 1000 ++ [send "continue" [threadId]]

end Sample

namespace Adapter

open Transition Dap.Session

theorem referencesSound_openedData : ∃ a, Transition.run step init Sample.openedData = some a ∧
    a.session.out.flatMap Message.references = [1000, 1001] ∧
    a.session.out.countP (·.dataBoundary.isSome) = 2 ∧ a.session.expandables.isEmpty = true ∧
    ReferencesSound a :=
  ⟨_, rfl, rfl, rfl, rfl, referencesSound (reachable_of_run (rfl : Transition.run _ _ Sample.openedData = _))⟩

end Adapter

end Dap

end MarrowLsp
