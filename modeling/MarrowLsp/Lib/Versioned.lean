-- SUMMARY: Caching a resource under a change detector: when an unchanged detector means unchanged contents.
import Mathlib.Data.List.Basic

/-!
# Versioned resources

A resource is written over time, and a change detector is read of it now and then.
What was read from the resource may be newer than the detector it is kept under,
when a write came between the two reads; it is still current whenever the same
detector is read again, if the detector tells any two versions apart.
-/
namespace Versioned

variable {σ : Type*}

/-- One look at the resource: its version, and the detector if it could be read. -/
structure Sighting (σ : Type*) where
  version : Nat
  stat : Option σ

/-- No detector was read of two versions. -/
def Faithful (seen : List (Sighting σ)) : Prop :=
  ∀ a ∈ seen, ∀ b ∈ seen, a.stat.isSome = true → a.stat = b.stat → a.version = b.version

instance [DecidableEq σ] (seen : List (Sighting σ)) : Decidable (Faithful seen) :=
  inferInstanceAs (Decidable (∀ a ∈ seen, ∀ b ∈ seen, a.stat.isSome = true → a.stat = b.stat →
    a.version = b.version))

/-- The detector was read no later than version `n`, if it was read at all. -/
def Dates (seen : List (Sighting σ)) (stat : Option σ) (n : Nat) : Prop :=
  ∀ s, stat = some s → ∃ a ∈ seen, a.stat = some s ∧ a.version ≤ n

theorem Faithful.mono {seen more : List (Sighting σ)} (h : Faithful more)
    (hsub : ∀ a ∈ seen, a ∈ more) : Faithful seen :=
  fun a ha b hb => h a (hsub a ha) b (hsub b hb)

theorem Dates.mono {seen more : List (Sighting σ)} {stat : Option σ} {n n' : Nat}
    (h : Dates seen stat n) (hsub : ∀ a ∈ seen, a ∈ more) (hn : n ≤ n') : Dates more stat n' := by
  intro s hs
  obtain ⟨a, ha, hstat, hle⟩ := h s hs
  exact ⟨a, hsub a ha, hstat, Nat.le_trans hle hn⟩

theorem dates_of_mem {seen : List (Sighting σ)} {a : Sighting σ} {n : Nat} (ha : a ∈ seen)
    (hn : a.version ≤ n) : Dates seen a.stat n :=
  fun _ hs => ⟨a, ha, hs, hn⟩

/-- An unchanged detector: what was kept under it is of the version seen now. -/
theorem version_eq_of_unchanged {seen : List (Sighting σ)} {stat : Option σ} {n : Nat}
    {now : Sighting σ} (hfaithful : Faithful seen) (hdates : Dates seen stat n)
    (hnow : now ∈ seen) (hn : n ≤ now.version) (hsome : now.stat.isSome = true)
    (hsame : now.stat = stat) : n = now.version := by
  obtain ⟨s, hs⟩ := Option.isSome_iff_exists.mp hsome
  obtain ⟨a, ha, hstat, hle⟩ := hdates s (hsame ▸ hs)
  have hversion := hfaithful now hnow a ha hsome (by rw [hs, hstat])
  omega

end Versioned
