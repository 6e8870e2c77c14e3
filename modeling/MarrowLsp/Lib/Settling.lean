-- SUMMARY: Transition systems that come to rest: steps that bring a well-founded rank down cannot go on for ever, and what holds wherever they end.
import MarrowLsp.Lib.Transition
import Mathlib.Order.WellFounded

/-!
# Settling

The steps by labels that meet a condition settle in a state when no run of them from
there goes on for ever. A rank that each of them brings down is enough.
-/
namespace Transition

variable {σ α ρ : Type*}

/-- No label that meets the condition is enabled. -/
def Stuck (step : σ → α → Option σ) (ok : σ → α → Prop) (s : σ) : Prop :=
  ∀ a, ok s a → step s a = none

/-- Every run of the steps from `s` comes to an end. -/
def Settles (step : σ → α → Option σ) (ok : σ → α → Prop) (s : σ) : Prop :=
  ∀ states : ℕ → σ, states 0 = s → ∃ n, ¬ StepBy step ok (states n) (states (n + 1))

variable {step : σ → α → Option σ} {ok : σ → α → Prop} {s : σ}

/-- Steps with nothing endless below `s` settle there. -/
theorem settles_of_acc (h : Acc (fun t s => StepBy step ok s t) s) : Settles step ok s := by
  induction h with
  | intro s _ ih =>
    intro states hstart
    by_cases hfirst : StepBy step ok (states 0) (states 1)
    · rw [hstart] at hfirst
      obtain ⟨n, hn⟩ := ih _ hfirst (fun n => states (n + 1)) rfl
      exact ⟨n + 1, hn⟩
    · exact ⟨0, hfirst⟩

/-- The rank rule: steps that keep an invariant, and with it bring a well-founded rank
down, settle wherever the invariant holds. -/
theorem settles_of_rank {I : σ → Prop} {r : ρ → ρ → Prop} (hwf : WellFounded r) (rank : σ → ρ)
    (hI : ∀ s a t, I s → ok s a → step s a = some t → I t)
    (hrank : ∀ s a t, I s → ok s a → step s a = some t → r (rank t) (rank s)) (hs : I s) :
    Settles step ok s := by
  apply settles_of_acc
  generalize hx : rank s = x
  induction x using hwf.induction generalizing s with
  | _ x ih =>
    constructor
    rintro t ⟨a, hok, hstep⟩
    subst hx
    exact ih _ (hrank s a t hs hok hstep) (hI s a t hs hok hstep) rfl

/-- The rank rule for two counts, of which a step lowers the first, or keeps it and
lowers the second. -/
theorem settles_of_counts {I : σ → Prop} (first second : σ → ℕ)
    (hI : ∀ s a t, I s → ok s a → step s a = some t → I t)
    (hcounts : ∀ s a t, I s → ok s a → step s a = some t →
      first t < first s ∨ first t = first s ∧ second t < second s) (hs : I s) :
    Settles step ok s := by
  refine settles_of_rank (Prod.lex Nat.lt_wfRel Nat.lt_wfRel).wf
    (fun s => (first s, second s)) hI (fun s a t hi hok hstep => ?_) hs
  rcases hcounts s a t hi hok hstep with hfirst | ⟨hfirst, hsecond⟩
  · exact .left _ _ hfirst
  · show Prod.Lex _ _ (first t, second t) (first s, second s)
    rw [hfirst]
    exact .right _ hsecond

end Transition
