-- SUMMARY: Labelled transition systems given by a partial step function: reachability under a side condition, invariants, transition properties of a run, and records of it.
import Mathlib.Logic.Relation

/-!
# Transition systems

A system is a step function `step : σ → α → Option σ`: a label is either not
enabled in a state or leads to exactly one state. All nondeterminism of the
modelled program is in the choice of the label.
-/
namespace Transition

variable {σ α τ β : Type*}

/-- One step by a label that meets the condition `ok`. -/
def StepBy (step : σ → α → Option σ) (ok : σ → α → Prop) (s t : σ) : Prop :=
  ∃ a, ok s a ∧ step s a = some t

/-- `t` is reached from `s` by steps that all meet `ok`. -/
def Reaches (step : σ → α → Option σ) (ok : σ → α → Prop) : σ → σ → Prop :=
  Relation.ReflTransGen (StepBy step ok)

/-- `t` is reached from `s` by any steps. -/
abbrev Reachable (step : σ → α → Option σ) : σ → σ → Prop :=
  Reaches step fun _ _ => True

namespace Reaches

variable {step : σ → α → Option σ} {ok ok' : σ → α → Prop} {s t u : σ}

theorem refl : Reaches step ok s s := Relation.ReflTransGen.refl

theorem snoc {a : α} (h : Reaches step ok s t) (hok : ok t a) (hstep : step t a = some u) :
    Reaches step ok s u :=
  h.tail ⟨a, hok, hstep⟩

theorem trans (h : Reaches step ok s t) (h' : Reaches step ok t u) : Reaches step ok s u :=
  Relation.ReflTransGen.trans h h'

theorem mono (hok : ∀ s a, ok s a → ok' s a) (h : Reaches step ok s t) : Reaches step ok' s t :=
  Relation.ReflTransGen.mono (fun _ _ ⟨a, ha, hs⟩ => ⟨a, hok _ _ ha, hs⟩) _ _ h

theorem reachable (h : Reaches step ok s t) : Reachable step s t :=
  h.mono fun _ _ _ => trivial

/-- The invariant rule: what holds at the start and is kept by every step that
meets the condition holds wherever such steps lead. -/
theorem invariant {I : σ → Prop} (h : Reaches step ok s t) (hs : I s)
    (hstep : ∀ s a t, I s → ok s a → step s a = some t → I t) : I t := by
  induction h with
  | refl => exact hs
  | tail _ hlast ih =>
    obtain ⟨a, hok, hs⟩ := hlast
    exact hstep _ a _ ih hok hs

/-- The invariant rule with a second invariant already known along the run. -/
theorem invariant_of {J I : σ → Prop} (h : Reaches step ok s t) (hJs : J s)
    (hJ : ∀ s a t, J s → ok s a → step s a = some t → J t) (hs : I s)
    (hstep : ∀ s a t, J s → I s → ok s a → step s a = some t → I t) : I t := by
  refine (h.invariant (I := fun s => J s ∧ I s) ⟨hJs, hs⟩ ?_).2
  rintro s a t ⟨hj, hi⟩ hok hst
  exact ⟨hJ s a t hj hok hst, hstep s a t hj hi hok hst⟩

/-- What relates a state to the start transitively and is respected by every
step relates the start to wherever the steps lead. -/
theorem relation {R : σ → σ → Prop} (hrefl : ∀ s, R s s) (htrans : ∀ s t u, R s t → R t u → R s u)
    (hstep : ∀ s a t, step s a = some t → R s t) (h : Reaches step ok s t) : R s t := by
  induction h with
  | refl => exact hrefl _
  | tail _ hlast ih =>
    obtain ⟨a, -, hs⟩ := hlast
    exact htrans _ _ _ ih (hstep _ a _ hs)

end Reaches

/-! ## Transition properties of a run -/

/-- Run a list of labels, stopping with `none` at the first one not enabled. -/
def run (step : σ → α → Option σ) : σ → List α → Option σ
  | s, [] => some s
  | s, a :: as => (step s a).bind fun t => run step t as

/-- Every transition of the run of `as` from `s` satisfies `R`. -/
def AllSteps (step : σ → α → Option σ) (R : σ → α → σ → Prop) : σ → List α → Prop
  | _, [] => True
  | s, a :: as => ∀ t, step s a = some t → R s a t ∧ AllSteps step R t as

variable {step : σ → α → Option σ} {s t : σ}

theorem reachable_of_run {as : List α} (h : run step s as = some t) : Reachable step s t := by
  induction as generalizing s with
  | nil =>
    simp only [run, Option.some.injEq] at h
    subst h
    exact .refl
  | cons a as ih =>
    simp only [run, Option.bind_eq_some_iff] at h
    obtain ⟨u, hu, ht⟩ := h
    exact (Reaches.refl.snoc trivial hu).trans (ih ht)

/-- Maps of states and labels that commute with the steps take runs to runs. -/
theorem run_map {step' : τ → β → Option τ} {f : σ → τ} {g : α → β} {ok : α → Prop}
    (hstep : ∀ s a t, ok a → step s a = some t → step' (f s) (g a) = some (f t)) {as : List α}
    (hok : ∀ a ∈ as, ok a) (h : run step s as = some t) :
    run step' (f s) (as.map g) = some (f t) := by
  induction as generalizing s with
  | nil =>
    simp only [run, Option.some.injEq] at h
    rw [h]
    rfl
  | cons a as ih =>
    simp only [run, Option.bind_eq_some_iff] at h
    obtain ⟨u, hu, ht⟩ := h
    rw [List.forall_mem_cons] at hok
    rw [List.map_cons, run, hstep s a u hok.1 hu, Option.bind_some]
    exact ih hok.2 ht

/-- What every transition of a run establishes holds where the run ends. -/
theorem AllSteps.final {R : σ → α → σ → Prop} {I : σ → Prop} (hR : ∀ s a t, R s a t → I t)
    {as : List α} (h : AllSteps step R s as) (hs : I s) (hrun : run step s as = some t) : I t := by
  induction as generalizing s with
  | nil =>
    simp only [run, Option.some.injEq] at hrun
    exact hrun ▸ hs
  | cons a as ih =>
    simp only [run, Option.bind_eq_some_iff] at hrun
    obtain ⟨u, hu, ht⟩ := hrun
    obtain ⟨hfirst, hrest⟩ := h u hu
    exact ih hrest (hR s a u hfirst) ht

/-- The steps of a system that meet a computed condition. -/
def guarded (ok : σ → α → Bool) (step : σ → α → Option σ) (s : σ) (a : α) : Option σ :=
  if ok s a then step s a else none

theorem reaches_of_run {ok : σ → α → Bool} {as : List α}
    (h : run (guarded ok step) s as = some t) :
    Reaches step (fun s a => ok s a = true) s t := by
  induction as generalizing s with
  | nil =>
    simp only [run, Option.some.injEq] at h
    subst h
    exact .refl
  | cons a as ih =>
    simp only [run, Option.bind_eq_some_iff] at h
    obtain ⟨u, hu, ht⟩ := h
    unfold guarded at hu
    split at hu
    · next hok =>
      have hfirst : Reaches step (fun s a => ok s a = true) s u := Reaches.refl.snoc hok hu
      exact hfirst.trans (ih ht)
    · cases hu

/-- A run of the guarded system is a run all of whose steps meet the condition. -/
theorem allSteps_of_run_guarded {ok : σ → α → Bool} {as : List α}
    (h : run (guarded ok step) s as = some t) :
    AllSteps step (fun s a _ => ok s a = true) s as := by
  induction as generalizing s with
  | nil => trivial
  | cons a as ih =>
    simp only [run, Option.bind_eq_some_iff] at h
    obtain ⟨u, hu, ht⟩ := h
    unfold guarded at hu
    split at hu
    · next hok =>
      intro v hv
      rw [hu] at hv
      cases hv
      exact ⟨hok, ih ht⟩
    · cases hu

/-- What every transition establishes, the last one of a run does. -/
theorem AllSteps.last {R : σ → α → σ → Prop} {as : List α} {a : α} {u : σ}
    (h : AllSteps step R s (as ++ [a])) (hrun : run step s as = some t)
    (hstep : step t a = some u) : R t a u := by
  induction as generalizing s with
  | nil =>
    simp only [run, Option.some.injEq] at hrun
    subst hrun
    exact (h u hstep).1
  | cons b bs ih =>
    simp only [run, Option.bind_eq_some_iff] at hrun
    obtain ⟨v, hv, ht⟩ := hrun
    exact ih (h v hv).2 ht

/-- A transition property that keeps the invariant `I` and with it gives another
gives the other along whole runs. -/
theorem AllSteps.imp {R Q : σ → α → σ → Prop} {I : σ → Prop}
    (hkeep : ∀ s a t, I s → step s a = some t → R s a t → I t)
    (himp : ∀ s a t, I s → step s a = some t → R s a t → Q s a t)
    {as : List α} (hs : I s) (h : AllSteps step R s as) : AllSteps step Q s as := by
  induction as generalizing s with
  | nil => trivial
  | cons a as ih =>
    intro t ht
    obtain ⟨hR, hrest⟩ := h t ht
    exact ⟨himp s a t hs ht hR, ih (hkeep s a t hs ht hR) hrest⟩

/-- Two transition properties that agree from every state with the invariant
`I` agree on whole runs, provided one of them re-establishes `I`. -/
theorem allSteps_congr {R Q : σ → α → σ → Prop} {I : σ → Prop}
    (hkeep : ∀ s a t, I s → step s a = some t → R s a t → I t)
    (hiff : ∀ s a t, I s → step s a = some t → (R s a t ↔ Q s a t))
    (as : List α) (hs : I s) : AllSteps step R s as ↔ AllSteps step Q s as := by
  constructor
  · intro h
    exact h.imp hkeep (fun s a t hI hst => (hiff s a t hI hst).mp) hs
  · intro h
    exact h.imp (fun s a t hI hst hQ => hkeep s a t hI hst ((hiff s a t hI hst).mpr hQ))
      (fun s a t hI hst => (hiff s a t hI hst).mpr) hs

/-! ## Records -/

/-- A system with a record of its run, which no step looks at. -/
def recorded (step : σ → α → Option σ) (note : σ → α → τ → τ) (x : σ × τ) (a : α) :
    Option (σ × τ) :=
  (step x.1 a).map fun t => (t, note x.1 a x.2)

theorem recorded_eq_some_iff {note : σ → α → τ → τ} {x y : σ × τ} {a : α} :
    recorded step note x a = some y ↔ step x.1 a = some y.1 ∧ note x.1 a x.2 = y.2 := by
  unfold recorded
  rw [Option.map_eq_some_iff]
  constructor
  · rintro ⟨t, ht, rfl⟩
    exact ⟨ht, rfl⟩
  · rintro ⟨ht, hy⟩
    exact ⟨y.1, ht, by rw [hy]⟩

end Transition
