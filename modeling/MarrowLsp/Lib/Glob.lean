-- SUMMARY: Matching of a name against a glob pattern: the patterns that match themselves and the ones that match by suffix.
import Mathlib.Data.List.Infix

/-!
# Glob patterns

A `*` stands for any characters, every other character for itself.
-/
namespace Glob

def matchesName : List Char → List Char → Bool
  | [], name => name.isEmpty
  | p :: pattern, name =>
    if p = '*' then name.tails.any (matchesName pattern)
    else
      match name with
      | [] => false
      | c :: name => c == p && matchesName pattern name

/-- A pattern without a `*` matches itself. -/
theorem matchesName_self {name : List Char} (h : '*' ∉ name) : matchesName name name = true := by
  induction name with
  | nil => rfl
  | cons c name ih =>
    rw [List.mem_cons, not_or] at h
    simp [matchesName, Ne.symm h.1, ih h.2]

/-- Behind a `*`, such a pattern matches what ends in it. -/
theorem matchesName_star {pattern name : List Char} (h : '*' ∉ pattern) (hsuffix : pattern <:+ name) :
    matchesName ('*' :: pattern) name = true := by
  unfold matchesName
  rw [if_pos rfl, List.any_eq_true]
  exact ⟨pattern, (List.mem_tails _ _).mpr hsuffix, matchesName_self h⟩

end Glob
