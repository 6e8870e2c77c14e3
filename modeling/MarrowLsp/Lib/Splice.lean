-- SUMMARY: Where two lists agree from the front and from the back, and the splice that turns one into the other.
import Mathlib.Data.List.Basic

/-!
# Splicing lists

A splice replaces one stretch of a list. Two lists that agree in a prefix and, apart
from it, in a suffix differ by the splice of what is between.
-/
namespace Splice

variable {α β : Type*}

/-- Replace `deleted` elements from `start` on. -/
def splice (xs : List α) (start deleted : Nat) (inserted : List α) : List α :=
  xs.take start ++ inserted ++ xs.drop (start + deleted)

theorem splice_append (before removed after inserted : List α) :
    splice (before ++ removed ++ after) before.length removed.length inserted =
      before ++ inserted ++ after := by
  unfold splice
  rw [List.append_assoc before removed after, List.take_left, ← List.append_assoc,
    ← List.length_append, List.drop_left]

section Agree

variable [BEq α]

/-- The pairs at the front of two lists that are equal, at most `limit` of them. -/
def agreeing (limit : Nat) (xs ys : List α) : List (α × α) :=
  ((xs.zip ys).take limit).takeWhile fun pair => pair.1 == pair.2

theorem length_agreeing_le_limit (limit : Nat) (xs ys : List α) :
    (agreeing limit xs ys).length ≤ limit :=
  Nat.le_trans (List.takeWhile_sublist _).length_le (List.length_take_le _ _)

theorem length_agreeing_le (limit : Nat) (xs ys : List α) :
    (agreeing limit xs ys).length ≤ min xs.length ys.length := by
  refine Nat.le_trans (List.takeWhile_sublist _).length_le ?_
  rw [List.length_take, List.length_zip]
  exact Nat.min_le_right _ _

theorem agreeing_of_le {limit : Nat} {xs ys : List α} (h : min xs.length ys.length ≤ limit) :
    agreeing limit xs ys = (xs.zip ys).takeWhile fun pair => pair.1 == pair.2 := by
  unfold agreeing
  rw [List.take_of_length_le (by rwa [List.length_zip])]

variable [LawfulBEq α]

/-- Two lists have the same elements as far as they agree. -/
theorem take_agreeing (limit : Nat) (xs ys : List α) :
    xs.take (agreeing limit xs ys).length = ys.take (agreeing limit xs ys).length := by
  induction xs generalizing limit ys with
  | nil => simp [agreeing]
  | cons x xs ih =>
    cases ys with
    | nil => simp [agreeing]
    | cons y ys =>
      cases limit with
      | zero => simp [agreeing]
      | succ limit =>
        have hagree : agreeing (limit + 1) (x :: xs) (y :: ys) =
            if x == y then (x, y) :: agreeing limit xs ys else [] := by
          unfold agreeing
          rw [List.zip_cons_cons, List.take_succ_cons, List.takeWhile_cons]
        rw [hagree]
        split
        · next heq =>
          rw [List.length_cons, List.take_succ_cons, List.take_succ_cons, ih, eq_of_beq heq]
        · rfl

/-- Two lists have the same elements from where they agree to the end. -/
theorem drop_agreeing_reverse (limit : Nat) (xs ys : List α) :
    xs.drop (xs.length - (agreeing limit xs.reverse ys.reverse).length) =
      ys.drop (ys.length - (agreeing limit xs.reverse ys.reverse).length) := by
  have htake := congrArg List.reverse (take_agreeing limit xs.reverse ys.reverse)
  rwa [List.reverse_take, List.reverse_take, List.reverse_reverse, List.reverse_reverse,
    List.length_reverse, List.length_reverse] at htake

theorem agreeing_append (limit : Nat) (xs ys : List α) (h : xs.length ≤ limit) :
    (agreeing limit xs (xs ++ ys)).length = xs.length := by
  induction xs generalizing limit with
  | nil => simp [agreeing]
  | cons x xs ih =>
    cases limit with
    | zero => simp at h
    | succ limit =>
      have hrest := ih limit (by simpa using h)
      unfold agreeing at hrest ⊢
      rw [List.cons_append, List.zip_cons_cons, List.take_succ_cons, List.takeWhile_cons]
      simp [hrest]

end Agree

/-! ## Blocks -/

/-- Flattening into blocks of `width` elements turns positions of blocks into multiples
of it. -/
theorem length_flatMap_block {width : Nat} {block : α → List β}
    (hblock : ∀ x, (block x).length = width) (xs : List α) :
    (xs.flatMap block).length = xs.length * width := by
  induction xs with
  | nil => simp
  | cons x xs ih => rw [List.flatMap_cons, List.length_append, hblock, ih, List.length_cons,
      Nat.succ_mul, Nat.add_comm]

end Splice
