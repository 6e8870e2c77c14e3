-- SUMMARY: Strings that are one line of bounded length, and how they are put together.
import Mathlib.Algebra.Order.Group.Nat

/-!
# One line of bounded length
-/
namespace Fragments

/-- One line of at most `n` characters. -/
structure Fragment (n : Nat) (s : String) : Prop where
  oneLine : '\n' ∉ s.toList
  length_le : s.length ≤ n

variable {m n : Nat} {s t : String}

theorem Fragment.mono (h : Fragment m s) (hle : m ≤ n) : Fragment n s :=
  ⟨h.oneLine, h.length_le.trans hle⟩

/-- The same, for lengths to compute. -/
theorem Fragment.within (h : Fragment m s) (hle : m.ble n = true) : Fragment n s :=
  h.mono (Nat.le_of_ble_eq_true hle)

theorem Fragment.append (hs : Fragment m s) (ht : Fragment n t) : Fragment (m + n) (s ++ t) where
  oneLine := by
    rw [String.toList_append]
    exact List.not_mem_append hs.oneLine ht.oneLine
  length_le := by
    rw [String.length_append]
    exact Nat.add_le_add hs.length_le ht.length_le

/-- A part of a line is no longer than the line. -/
theorem Fragment.of_append {front back : String} (h : Fragment n (front ++ s ++ back)) :
    Fragment n s := by
  obtain ⟨hline, hlength⟩ := h
  simp only [String.toList_append, List.mem_append, not_or] at hline
  simp only [String.length_append] at hlength
  exact ⟨hline.1.2, by omega⟩

theorem Fragment.check (h : (s.toList.all (· != '\n') && s.length ≤ n) = true) : Fragment n s := by
  rw [Bool.and_eq_true, List.all_eq_true, decide_eq_true_eq] at h
  refine ⟨?_, h.2⟩
  intro hmem
  have hnewline := h.1 '\n' hmem
  cases hnewline

theorem Fragment.literal (s : String) (h : s.toList.all (· != '\n') = true) :
    Fragment s.length s := by
  apply Fragment.check
  rw [h, Bool.true_and, decide_eq_true_eq]

/-- A number has as many characters as digits. -/
theorem Fragment.nat {k : Nat} (hk : 0 < k) (h : n < 10 ^ k) : Fragment k (toString n) where
  oneLine := by
    rw [Nat.toString_eq_repr, Nat.toList_repr]
    intro hmem
    have hdigit := Nat.isDigit_of_mem_toDigits (by decide) (by decide) hmem
    cases hdigit
  length_le := by
    rw [Nat.toString_eq_repr, ← String.length_toList, Nat.toList_repr]
    exact (Nat.length_toDigits_le_iff (by decide) hk).mpr h

end Fragments
