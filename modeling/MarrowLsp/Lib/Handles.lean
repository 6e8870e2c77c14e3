-- SUMMARY: Tables that hand out ever greater numbers for values and can be emptied: a number never stands for two values.
import Mathlib.Data.List.Basic

/-!
# Handles

A table gives each value the next number. Emptying it forgets the values, but not how far
the numbers have got.
-/
namespace Handles

structure Table (ε : Type*) where
  entries : List (Nat × ε)
  next : Nat

variable {ε : Type*} {s t u : Table ε} {first handle : Nat}

namespace Table

/-- What a number stands for. -/
def lookup (s : Table ε) (handle : Nat) : Option ε := s.entries.lookup handle

/-- The next number, for a value. -/
def alloc (s : Table ε) (value : ε) : Table ε := ⟨(s.next, value) :: s.entries, s.next + 1⟩

/-- The next numbers, one for each value. -/
def give (s : Table ε) : List ε → Table ε
  | [] => s
  | value :: values => (s.alloc value).give values

def clear (s : Table ε) : Table ε := ⟨[], s.next⟩

@[simp] theorem next_give (s : Table ε) (values : List ε) :
    (s.give values).next = s.next + values.length := by
  induction values generalizing s with
  | nil => rfl
  | cons value values ih =>
    rw [give, ih, List.length_cons]
    simp only [alloc]
    omega

@[simp] theorem lookup_clear (s : Table ε) (handle : Nat) : s.clear.lookup handle = none := rfl

/-! ## What a number stands for -/

theorem lookup_alloc_self (s : Table ε) (value : ε) : (s.alloc value).lookup s.next = some value :=
  List.lookup_cons_self

theorem lookup_alloc_of_lt (value : ε) (h : handle < s.next) :
    (s.alloc value).lookup handle = s.lookup handle := by
  have hne : (handle == s.next) = false := by simpa using Nat.ne_of_lt h
  simp only [lookup, alloc, List.lookup_cons, hne]

/-- Later numbers leave the earlier ones as they were. -/
theorem lookup_give_of_lt (values : List ε) (h : handle < s.next) :
    (s.give values).lookup handle = s.lookup handle := by
  induction values generalizing s with
  | nil => rfl
  | cons value values ih =>
    have hnext : handle < (s.alloc value).next := Nat.lt_succ_of_lt h
    rw [give, ih hnext, lookup_alloc_of_lt value h]

/-- Each new number stands for the value it was given for. -/
theorem lookup_give (s : Table ε) {values : List ε} {index : Nat} {value : ε}
    (h : values[index]? = some value) :
    (s.give values).lookup (s.next + index) = some value := by
  induction values generalizing s index with
  | nil => cases h
  | cons first values ih =>
    rw [give]
    cases index with
    | zero =>
      cases h
      rw [Nat.add_zero, lookup_give_of_lt values (Nat.lt_succ_self s.next), lookup_alloc_self]
    | succ index =>
      have hlookup := ih (s.alloc first) h
      have hnext : (s.alloc first).next + index = s.next + (index + 1) := by
        simp only [alloc]
        omega
      rwa [hnext] at hlookup

theorem lookup_give_of_mem {values : List ε} (h : handle ∈ List.range' s.next values.length) :
    ∃ value, (s.give values).lookup handle = some value := by
  obtain ⟨hle, hlt⟩ := List.mem_range'_1.mp h
  obtain ⟨index, rfl⟩ := Nat.exists_eq_add_of_le hle
  have hindex : index < values.length := by omega
  exact ⟨_, s.lookup_give (List.getElem?_eq_getElem hindex)⟩

/-! ## Where the numbers lie -/

/-- Every number in the table is one it has given out, from the first on. -/
def Bounded (first : Nat) (s : Table ε) : Prop :=
  ∀ entry ∈ s.entries, first ≤ entry.1 ∧ entry.1 < s.next

theorem Bounded.clear : s.clear.Bounded first := by
  intro entry hentry
  cases hentry

theorem Bounded.alloc (h : s.Bounded first) (hfirst : first ≤ s.next) (value : ε) :
    (s.alloc value).Bounded first := by
  intro entry hentry
  cases hentry with
  | head => exact ⟨hfirst, Nat.lt_succ_self s.next⟩
  | tail _ hentry => exact ⟨(h entry hentry).1, Nat.lt_succ_of_lt (h entry hentry).2⟩

theorem Bounded.give (h : s.Bounded first) (hfirst : first ≤ s.next) (values : List ε) :
    (s.give values).Bounded first := by
  induction values generalizing s with
  | nil => exact h
  | cons value values ih => exact ih (h.alloc hfirst value) (Nat.le_succ_of_le hfirst)

end Table

/-! ## Over time -/

/-- A later table: the numbers go on, and an old one stands for what it did or for nothing. -/
structure Later (s t : Table ε) : Prop where
  next_le : s.next ≤ t.next
  lookup : ∀ handle < s.next, t.lookup handle = s.lookup handle ∨ t.lookup handle = none

theorem Later.refl (s : Table ε) : Later s s := ⟨Nat.le_refl _, fun _ _ => .inl rfl⟩

theorem Later.trans (h : Later s t) (h' : Later t u) : Later s u where
  next_le := Nat.le_trans h.next_le h'.next_le
  lookup := by
    intro handle hlt
    cases h'.lookup handle (Nat.lt_of_lt_of_le hlt h.next_le) with
    | inl hsame =>
      rw [hsame]
      exact h.lookup handle hlt
    | inr hnone => exact .inr hnone

theorem later_give (s : Table ε) (values : List ε) : Later s (s.give values) where
  next_le := by
    rw [Table.next_give]
    exact Nat.le_add_right _ _
  lookup := fun _ hlt => .inl (Table.lookup_give_of_lt values hlt)

theorem later_clear (s : Table ε) : Later s s.clear := ⟨Nat.le_refl _, fun _ _ => .inr rfl⟩

/-- A number given out stands for one value as long as it stands for any. -/
theorem Later.lookup_of_some {value : ε} (h : Later s t) (hlt : handle < s.next)
    (hvalue : s.lookup handle = some value) :
    t.lookup handle = some value ∨ t.lookup handle = none := by
  rw [← hvalue]
  exact h.lookup handle hlt

/-- A number that no longer stands for anything never does again. -/
theorem Later.lookup_of_none (h : Later s t) (hlt : handle < s.next)
    (hnone : s.lookup handle = none) : t.lookup handle = none := by
  cases h.lookup handle hlt with
  | inl hsame => rw [hsame, hnone]
  | inr hnone' => exact hnone'

end Handles
