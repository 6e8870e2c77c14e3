-- SUMMARY: The statements that a program with calls visits: what is left of each activation on the stack, their depths, and what a step over or out of one skips.
import Mathlib.Data.List.TakeWhile

/-!
# Call trees

What is left of an activation is a list of statements and of the calls that the statement
before makes; a call is kept if it visits a statement. Below it on the stack are what is
left of its caller, of the caller's caller, and so on.
-/
namespace CallTree

variable {α : Type*}

/-- What is left of an activation. -/
inductive Rest (α : Type*) where
  | done
  | statement (a : α) (rest : Rest α)
  /-- A call whose first statement is `a`. -/
  | call (a : α) (body rest : Rest α)
  deriving Repr

namespace Rest

/-- The statements to come, each with its depth. -/
def visits (depth : ℕ) : Rest α → List (α × ℕ)
  | done => []
  | statement a rest => (a, depth) :: rest.visits depth
  | call a body rest => (a, depth + 1) :: body.visits (depth + 1) ++ rest.visits depth

/-- Those of the calls that the current statement still makes. -/
def calls (depth : ℕ) : Rest α → List (α × ℕ)
  | call a body rest => (a, depth + 1) :: body.visits (depth + 1) ++ rest.calls depth
  | _ => []

/-- What is left once these have returned. -/
def afterCalls : Rest α → Rest α
  | call _ _ rest => rest.afterCalls
  | rest => rest

theorem visits_eq_calls_append (depth : ℕ) (r : Rest α) :
    r.visits depth = r.calls depth ++ r.afterCalls.visits depth := by
  induction r with
  | done => rfl
  | statement a rest _ => rfl
  | call a body rest _ ih => rw [visits, ih, calls, afterCalls, List.append_assoc]

theorem le_depth_of_mem_visits {depth : ℕ} {r : Rest α} {x : α × ℕ} (h : x ∈ r.visits depth) :
    depth ≤ x.2 := by
  induction r generalizing depth with
  | done => cases h
  | statement a rest ih =>
    rcases List.mem_cons.mp h with rfl | hrest
    · exact Nat.le_refl _
    · exact ih hrest
  | call a body rest ihbody ih =>
    rcases List.mem_append.mp h with hcall | hrest
    · rcases List.mem_cons.mp hcall with rfl | hbody
      · exact Nat.le_succ _
      · exact Nat.le_of_succ_le (ihbody hbody)
    · exact ih hrest

theorem lt_depth_of_mem_calls {depth : ℕ} {r : Rest α} {x : α × ℕ} (h : x ∈ r.calls depth) :
    depth < x.2 := by
  induction r with
  | done => cases h
  | statement a rest _ => cases h
  | call a body rest _ ih =>
    rcases List.mem_append.mp h with hcall | hrest
    · rcases List.mem_cons.mp hcall with rfl | hbody
      · exact Nat.lt_succ_self _
      · exact le_depth_of_mem_visits hbody
    · exact ih hrest

end Rest

/-- The statements that a stack of activations has to come, the innermost first. -/
def unwind (base : ℕ) : List (Rest α) → List (α × ℕ)
  | [] => []
  | r :: rs => r.visits (base + rs.length) ++ unwind base rs

theorem depth_head?_unwind {base : ℕ} {rs : List (Rest α)} {x : α × ℕ}
    (h : (unwind base rs).head? = some x) : x.2 ≤ base + rs.length := by
  induction rs with
  | nil => cases h
  | cons r rs ih =>
    rw [unwind] at h
    rw [List.length_cons]
    cases r with
    | done => exact (ih h).trans (by omega)
    | statement a rest =>
      cases h
      exact Nat.le_succ _
    | call a body rest =>
      cases h
      exact Nat.le_refl _

/-- After the calls of the current statement comes nothing deeper than its activation. -/
theorem depth_head?_afterCalls {base : ℕ} {r : Rest α} {rs : List (Rest α)} {x : α × ℕ}
    (h : (r.afterCalls.visits (base + rs.length) ++ unwind base rs).head? = some x) :
    x.2 ≤ base + rs.length := by
  induction r with
  | done => exact depth_head?_unwind h
  | statement a rest _ =>
    cases h
    exact Nat.le_refl _
  | call a body rest _ ih => exact ih h

theorem takeWhile_append_eq_left {p : α → Bool} {l₁ l₂ : List α} (h₁ : ∀ a ∈ l₁, p a = true)
    (h₂ : ∀ a, l₂.head? = some a → p a = false) : (l₁ ++ l₂).takeWhile p = l₁ := by
  rw [List.takeWhile_append_of_pos h₁]
  cases l₂ with
  | nil => rw [List.takeWhile_nil, List.append_nil]
  | cons a l => rw [List.takeWhile_cons_of_neg (by simp [h₂ a rfl]), List.append_nil]

/-- A step over: what is deeper than the current activation is in the calls of its current
statement. -/
theorem takeWhile_over (base : ℕ) (r : Rest α) (rs : List (Rest α)) :
    (unwind base (r :: rs)).takeWhile (fun x => decide (base + rs.length < x.2)) =
      r.calls (base + rs.length) := by
  rw [unwind, Rest.visits_eq_calls_append, List.append_assoc]
  refine takeWhile_append_eq_left ?_ ?_
  · exact fun x hx => decide_eq_true (Rest.lt_depth_of_mem_calls hx)
  · exact fun x hx => decide_eq_false (Nat.not_lt.mpr (depth_head?_afterCalls hx))

/-- What the current statement of the caller still calls. -/
def callerCalls (base : ℕ) : List (Rest α) → List (α × ℕ)
  | [] => []
  | r :: rs => r.calls (base + rs.length)

/-- A step out: what is as deep as the current activation is left of it, or in further calls
of the statement that called it. -/
theorem takeWhile_out (base : ℕ) (r : Rest α) (rs : List (Rest α)) :
    (unwind base (r :: rs)).takeWhile (fun x => decide (base + rs.length ≤ x.2)) =
      r.visits (base + rs.length) ++ callerCalls base rs := by
  have hown : ∀ x ∈ r.visits (base + rs.length), decide (base + rs.length ≤ x.2) = true :=
    fun x hx => decide_eq_true (Rest.le_depth_of_mem_visits hx)
  rw [unwind, List.takeWhile_append_of_pos hown]
  congr 1
  cases rs with
  | nil => rfl
  | cons caller rs => exact takeWhile_over base caller rs

end CallTree
