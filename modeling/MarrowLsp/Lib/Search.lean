-- SUMMARY: Searching a list for another: the windows of one length, the first of them that is the one sought, and what an append changes about it.
import Mathlib.Data.List.Infix

/-!
# Searching a list

The first place at which a list occurs in another.
-/
namespace Search

variable {α : Type*} [DecidableEq α]

/-- The stretches of `n` items, for `n` positive. -/
def windows (n : Nat) : List α → List (List α)
  | [] => []
  | x :: t => if (x :: t).length < n then [] else (x :: t).take n :: windows n t

/-- The index of the first occurrence of `needle`. -/
def find (haystack needle : List α) : Option Nat :=
  (windows needle.length haystack).findIdx? (· == needle)

variable {needle : List α}

@[simp] theorem find_nil : find [] needle = none := rfl

theorem find_cons (x : α) (t : List α) :
    find (x :: t) needle =
      if needle <+: x :: t then some 0 else (find t needle).map (· + 1) := by
  unfold find
  rw [windows]
  split
  · next hshort =>
    have hnot {h : List α} (hle : h.length ≤ (x :: t).length) : ¬ needle <+: h := fun hbegins =>
      absurd hbegins.length_le (Nat.not_le.mpr (hle.trans_lt hshort))
    have htail : windows needle.length t = [] := by
      cases t with
      | nil => rfl
      | cons y t =>
        rw [windows, if_pos]
        exact (Nat.lt_succ_self _).trans hshort
    rw [if_neg (hnot le_rfl), htail]
    rfl
  · rw [List.findIdx?_cons]
    have hiff : ((x :: t).take needle.length == needle) = true ↔ needle <+: x :: t := by
      rw [beq_iff_eq, List.prefix_iff_eq_take, eq_comm]
    by_cases hbegins : needle <+: x :: t
    · rw [if_pos (hiff.mpr hbegins), if_pos hbegins]
    · rw [if_neg (fun h => hbegins (hiff.mp h)), if_neg hbegins]

/-- It is found exactly where it occurs. -/
theorem find_isSome_iff (hne : needle ≠ []) {haystack : List α} :
    (find haystack needle).isSome ↔ needle <:+: haystack := by
  induction haystack with
  | nil => simp [hne]
  | cons x t ih =>
    rw [find_cons, List.infix_cons_iff]
    split
    · next hbegins => exact iff_of_true rfl (.inl hbegins)
    · next hbegins => rw [Option.isSome_map, ih, or_iff_right hbegins]

theorem find_le {haystack : List α} {i : Nat} (h : find haystack needle = some i) :
    i + needle.length ≤ haystack.length := by
  induction haystack generalizing i with
  | nil => cases h
  | cons x t ih =>
    rw [find_cons] at h
    split at h
    · next hbegins =>
      cases h
      rw [Nat.zero_add]
      exact hbegins.length_le
    · obtain ⟨j, hj, rfl⟩ := Option.map_eq_some_iff.mp h
      have hle := ih hj
      rw [List.length_cons]
      omega

/-- More items behind change nothing once it is found. -/
theorem find_append {haystack : List α} {i : Nat} (h : find haystack needle = some i)
    (more : List α) : find (haystack ++ more) needle = some i := by
  induction haystack generalizing i with
  | nil => cases h
  | cons x t ih =>
    rw [List.cons_append, find_cons]
    rw [find_cons] at h
    split at h
    · next hbegins =>
      have hstill : needle <+: x :: (t ++ more) := hbegins.trans (List.prefix_append (x :: t) more)
      rw [if_pos hstill]
      exact h
    · next hbegins =>
      obtain ⟨j, hj, rfl⟩ := Option.map_eq_some_iff.mp h
      have hfits := find_le hj
      have hstill : ¬ needle <+: x :: (t ++ more) := by
        intro hmore
        apply hbegins
        exact List.prefix_of_prefix_length_le hmore (List.prefix_append (x :: t) more) (by
          rw [List.length_cons]
          omega)
      rw [if_neg hstill, ih hj]
      rfl

/-- Items that it does not start with are passed over. -/
theorem find_skip {y : α} {front : List α} (hfront : y ∉ front) (rest : List α) :
    find (front ++ rest) (y :: needle) =
      (find rest (y :: needle)).map (· + front.length) := by
  induction front with
  | nil => simp
  | cons x front ih =>
    obtain ⟨hne, hfront⟩ : y ≠ x ∧ y ∉ front := by simpa using hfront
    have hnot : ¬ y :: needle <+: x :: (front ++ rest) := fun h =>
      hne (List.cons_prefix_cons.mp h).1
    rw [List.cons_append, find_cons, if_neg hnot, ih hfront, Option.map_map]
    rfl

/-! ## Where an occurrence lies -/

omit [DecidableEq α]

/-- An occurrence does not reach across an item that it has not. -/
theorem infix_of_separated {y : α} (hy : y ∉ needle) {front rest : List α}
    (h : needle <:+: front ++ y :: rest) : needle <:+: front ∨ needle <:+: rest := by
  induction front with
  | nil =>
    obtain hbegins | hrest := List.infix_cons_iff.mp h
    · cases needle with
      | nil => exact .inl List.nil_infix
      | cons z needle =>
        obtain ⟨rfl, -⟩ := List.cons_prefix_cons.mp hbegins
        exact absurd List.mem_cons_self hy
    · exact .inr hrest
  | cons x front ih =>
    obtain hbegins | hrest := List.infix_cons_iff.mp h
    · -- Its items are none of them `y`, so it ends before `y`.
      obtain hin | ⟨past, hpast⟩ :=
        List.prefix_or_prefix_of_prefix hbegins (List.prefix_append (x :: front) (y :: rest))
      · exact .inl hin.isInfix
      · rw [← hpast] at hbegins
        have hrest := (List.prefix_append_right_inj (x :: front)).mp hbegins
        cases past with
        | nil =>
          rw [List.append_nil] at hpast
          rw [← hpast]
          exact .inl List.infix_rfl
        | cons z past =>
          obtain ⟨rfl, -⟩ := List.cons_prefix_cons.mp hrest
          exact absurd (hpast ▸ List.mem_append_right _ List.mem_cons_self) hy
    · obtain hfront | hrest := ih hrest
      · exact .inl (hfront.trans (List.suffix_cons x front).isInfix)
      · exact .inr hrest

/-- It starts behind items without its second one, unless that comes right after them. -/
theorem infix_of_passed {a y : α} {front rest : List α} (hfront : y ∉ front)
    (hrest : rest.head? ≠ some y) (h : a :: y :: needle <:+: front ++ rest) :
    a :: y :: needle <:+: rest := by
  induction front with
  | nil => exact h
  | cons x front ih =>
    obtain ⟨-, hfront⟩ : y ≠ x ∧ y ∉ front := by simpa using hfront
    obtain hbegins | htail := List.infix_cons_iff.mp h
    · obtain ⟨-, hnext⟩ := List.cons_prefix_cons.mp hbegins
      cases front with
      | nil =>
        cases rest with
        | nil => cases List.prefix_nil.mp hnext
        | cons z rest =>
          obtain ⟨rfl, -⟩ := List.cons_prefix_cons.mp hnext
          exact absurd rfl hrest
      | cons z front =>
        obtain ⟨rfl, -⟩ := List.cons_prefix_cons.mp hnext
        exact absurd List.mem_cons_self hfront
    · exact ih hfront htail

end Search
