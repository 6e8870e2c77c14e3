-- SUMMARY: Bytes and editor positions as a pair of orders: each maps into the other monotonically, and going there and back rounds to the text's own boundaries and columns.
import Mathlib.Order.Bounds.Basic
import MarrowLsp.Core.Positions

/-!
# The order of positions

Positions are ordered by line, then by column. On the character boundaries of a
text `position` keeps the order of bytes, and `offset` takes it back: a byte is
rounded down to its boundary, a column is clamped to its line and rounded up past
a surrogate pair.
-/
namespace MarrowLsp

open Utf8

instance : LT Position :=
  ⟨fun p q => p.line < q.line ∨ p.line = q.line ∧ p.character < q.character⟩

instance : LE Position :=
  ⟨fun p q => p.line < q.line ∨ p.line = q.line ∧ p.character ≤ q.character⟩

theorem Position.lt_iff {p q : Position} :
    p < q ↔ p.line < q.line ∨ p.line = q.line ∧ p.character < q.character := Iff.rfl

theorem Position.le_iff {p q : Position} :
    p ≤ q ↔ p.line < q.line ∨ p.line = q.line ∧ p.character ≤ q.character := Iff.rfl

namespace LineIndex

/-! ## The walk along a line -/

theorem advance_of_le {character utf16 : Nat} (line : Text) (h : character ≤ utf16) :
    advance character utf16 line = 0 := by
  cases line with
  | nil => rfl
  | cons c line => rw [advance, if_pos (.inl h)]

theorem advance_mono {character character' : Nat} (utf16 : Nat) (line : Text)
    (h : character ≤ character') :
    advance character utf16 line ≤ advance character' utf16 line := by
  induction line generalizing utf16 with
  | nil => exact le_rfl
  | cons c line ih =>
    rw [advance, advance]
    split
    · exact Nat.zero_le _
    · next hgo =>
      have hgo' : ¬ (utf16 ≥ character' ∨ c = '\n') := by
        rintro (hstop | hc)
        · exact hgo (.inl (by omega))
        · exact hgo (.inr hc)
      rw [if_neg hgo']
      exact Nat.add_le_add_left (ih _) _

/-- The walk stops at the boundary of the column it is clamped to. -/
theorem advance_clampColumn {line : Text} (n : Nat) {utf16 : Nat} (hline : '\n' ∉ line)
    (hsmall : utf16 + utf16Len line < 2 ^ 32) : ∃ s r, line = s ++ r ∧
      advance (utf16 + n) utf16 line = byteLen s ∧ utf16Len s = clampColumn line n := by
  induction line generalizing utf16 n with
  | nil => exact ⟨[], [], rfl, rfl, by simp [clampColumn, columns]⟩
  | cons c line ih =>
    simp only [List.mem_cons, not_or] at hline
    simp only [utf16Len_cons] at hsmall
    rcases Nat.eq_zero_or_pos n with rfl | hpos
    · exact ⟨[], c :: line, rfl, advance_of_le _ le_rfl, by simp⟩
    have hmod : (utf16 + lenUtf16 c) % 2 ^ 32 = utf16 + lenUtf16 c :=
      Nat.mod_eq_of_lt (by omega)
    have hgo : ¬ (utf16 ≥ utf16 + n ∨ c = '\n') := by
      rintro (h | h)
      · omega
      · exact hline.1 h.symm
    have hstep : advance (utf16 + n) utf16 (c :: line) =
        c.utf8Size + advance (utf16 + n) (utf16 + lenUtf16 c) line := by
      rw [advance, if_neg hgo, hmod]
    rcases Nat.lt_or_ge n (lenUtf16 c) with hlt | hge
    · -- The column is inside this character's surrogate pair.
      refine ⟨[c], line, rfl, ?_, ?_⟩
      · rw [hstep, advance_of_le _ (by omega)]
        simp
      · rw [clampColumn_cons_of_lt hpos hlt]
        simp
    · obtain ⟨m, rfl⟩ := Nat.exists_eq_add_of_le hge
      obtain ⟨s, r, rfl, hadvance, hcolumn⟩ := @ih m (utf16 + lenUtf16 c) hline.2 (by omega)
      refine ⟨c :: s, r, rfl, ?_, ?_⟩
      · rw [hstep, ← Nat.add_assoc, hadvance, byteLen_cons]
      · rw [utf16Len_cons, hcolumn, clampColumn_cons_add]

/-! ## From bytes to positions -/

section Text

variable {text : Text}

/-- The round trip of a byte is the largest boundary that is not past it. -/
theorem offset_position_isGreatest (hsmall : utf16Len text < 2 ^ 32) (byte : Nat) :
    IsGreatest {b | isCharBoundary text b = true ∧ b ≤ min byte (byteLen text)}
      ((new text).offset ((new text).position byte)) := by
  rw [offset_position hsmall]
  refine ⟨⟨isCharBoundary_floorCharBoundary _ _, floorCharBoundary_le _ _⟩, ?_⟩
  rintro b ⟨hb, hle⟩
  exact le_floorCharBoundary hb hle

theorem position_strictMono (hsmall : utf16Len text < 2 ^ 32) {a b : Nat}
    (ha : isCharBoundary text a = true) (hb : isCharBoundary text b = true) (hlt : a < b) :
    (new text).position a < (new text).position b := by
  obtain ⟨before, after, rfl, rfl⟩ := isCharBoundary_iff.mp ha
  obtain ⟨before', after', hsplit, rfl⟩ := isCharBoundary_iff.mp hb
  -- The later boundary is the earlier one with some text in between.
  obtain ⟨mid, rfl, rfl⟩ : ∃ mid, before' = before ++ mid ∧ after = mid ++ after' := by
    rcases List.append_eq_append_iff.mp hsplit with ⟨mid, h, h'⟩ | ⟨mid, rfl, h'⟩
    · exact ⟨mid, h, h'⟩
    · simp only [byteLen_append] at hlt
      omega
  obtain ⟨front, line, rfl, hline, hfront⟩ := exists_lastLine before
  obtain ⟨front', line', rfl, hline', hfront'⟩ := exists_lastLine mid
  have hposition := @position_line front line (front' ++ line' ++ after')
    (by simpa using hsmall) hfront hline
  rcases hfront' with rfl | ⟨f, rfl⟩
  · -- No newline in between: the same line, further on.
    have hposition' := @position_line front (line ++ line') after' (by simpa using hsmall) hfront
      (by simp [hline, hline'])
    have hne : line' ≠ [] := by
      rintro rfl
      simp at hlt
    have hpos : 0 < utf16Len line' := by
      cases line' with
      | nil => exact (hne rfl).elim
      | cons c line' =>
        have := lenUtf16_pos c
        rw [utf16Len_cons]
        omega
    simp only [List.nil_append, List.append_assoc, byteLen_append] at hposition hposition' ⊢
    rw [hposition, hposition']
    refine .inr ⟨rfl, ?_⟩
    simp only [utf16Len_append]
    omega
  · have hposition' := @position_line (front ++ line ++ f ++ ['\n']) line' after'
      (by simpa using hsmall) (.inr ⟨_, rfl⟩) hline'
    simp only [List.append_assoc, byteLen_append, Nat.add_assoc] at hposition hposition' ⊢
    rw [hposition, hposition']
    refine .inl ?_
    simp

/-! ## From positions to bytes -/

/-- A line beyond the text has no start. -/
theorem offset_of_lines_eq_none {p : Position} (hline : (lines text)[p.line]? = none) :
    (new text).offset p = byteLen text := by
  have hstart : (new text).lineStarts[p.line]? = none := by
    rw [List.getElem?_eq_none_iff, length_lines] at hline
    simpa [new] using hline
  simp only [offset, hstart]
  rfl

/-- The byte of a position lies on its line, at the boundary of its clamped column. -/
theorem exists_offset_line (hsmall : utf16Len text < 2 ^ 32) {p : Position} {line : Text}
    (hline : (lines text)[p.line]? = some line) :
    ∃ front s r rest, text = front ++ (s ++ (r ++ rest)) ∧ line = s ++ r ∧ '\n' ∉ line ∧
      LineFront front ∧ front.count '\n' = p.line ∧ byteLen front = lineStart text p.line ∧
      (new text).offset p = byteLen front + byteLen s ∧
      utf16Len s = clampColumn line p.character := by
  obtain ⟨front, rest, rfl, hnl, hfront, hrest, hcount, hbytes⟩ := exists_of_lines hline
  have hlen : utf16Len line < 2 ^ 32 := by
    simp only [utf16Len_append] at hsmall
    omega
  obtain ⟨s, r, rfl, hadvance, hcolumn⟩ :=
    @advance_clampColumn line p.character 0 hnl (by omega)
  rw [Nat.zero_add] at hadvance
  have hoffset := offset_line hfront hnl hrest p.character
  rw [hcount, hadvance] at hoffset
  exact ⟨front, s, r, rest, by simp, rfl, hnl, hfront, hcount, hbytes, hoffset, hcolumn⟩

theorem isCharBoundary_offset (hsmall : utf16Len text < 2 ^ 32) (p : Position) :
    isCharBoundary text ((new text).offset p) = true := by
  cases hline : (lines text)[p.line]? with
  | none =>
    rw [offset_of_lines_eq_none hline]
    exact isCharBoundary_iff.mpr ⟨text, [], by simp, rfl⟩
  | some line =>
    obtain ⟨front, s, r, rest, htext, -, -, -, -, -, hoffset, -⟩ := exists_offset_line hsmall hline
    rw [hoffset]
    exact isCharBoundary_iff.mpr ⟨front ++ s, r ++ rest, by simp [htext], by simp⟩

/-- The round trip of a position is the position, its column clamped. -/
theorem position_offset (hsmall : utf16Len text < 2 ^ 32) {p : Position} {line : Text}
    (hline : (lines text)[p.line]? = some line) :
    (new text).position ((new text).offset p) = ⟨p.line, clampColumn line p.character⟩ := by
  obtain ⟨front, s, r, rest, rfl, rfl, hnl, hfront, hcount, -, hoffset, hcolumn⟩ :=
    exists_offset_line hsmall hline
  have hs : '\n' ∉ s := fun h => hnl (List.mem_append_left r h)
  rw [hoffset, position_line hsmall hfront hs, hcount, hcolumn]

theorem offset_mono (hsmall : utf16Len text < 2 ^ 32) {p q : Position} (hle : p ≤ q) :
    (new text).offset p ≤ (new text).offset q := by
  have hbound (p : Position) : (new text).offset p ≤ byteLen text := by
    obtain ⟨before, after, htext, hlen⟩ := isCharBoundary_iff.mp (isCharBoundary_offset hsmall p)
    rw [← hlen, htext, byteLen_append]
    omega
  cases hq : (lines text)[q.line]? with
  | none =>
    rw [offset_of_lines_eq_none hq]
    exact hbound p
  | some line' =>
    rcases Position.le_iff.mp hle with hlt | ⟨hsame, hchar⟩
    · -- An earlier line: the order of the two bytes is that of their positions.
      obtain ⟨line, hp⟩ : ∃ line, (lines text)[p.line]? = some line := by
        have hq' := (List.getElem?_eq_some_iff.mp hq).1
        exact ⟨(lines text)[p.line], List.getElem?_eq_getElem _⟩
      by_contra hnot
      have hback := position_strictMono hsmall (isCharBoundary_offset hsmall q)
        (isCharBoundary_offset hsmall p) (Nat.lt_of_not_le hnot)
      rw [position_offset hsmall hp, position_offset hsmall hq, Position.lt_iff] at hback
      simp only at hback
      omega
    · obtain ⟨front, rest, rfl, hnl, hfront, hrest, hcount, -⟩ := exists_of_lines hq
      have hoffset := offset_line hfront hnl hrest p.character
      have hoffset' := offset_line hfront hnl hrest q.character
      rw [hcount, ← hsame] at hoffset
      rw [hcount] at hoffset'
      rw [hoffset, hoffset']
      exact Nat.add_le_add_left (advance_mono 0 line' hchar) _

end Text

/-- In a text the columns of which fit the source's `u32`, bytes and positions map
into each other: a byte comes back as the boundary at or before it, boundaries keep
their order, and a position comes back with its column clamped. -/
theorem position_offset_galois (text : Text) (hsmall : utf16Len text < 2 ^ 32) :
    (∀ byte, IsGreatest {b | isCharBoundary text b = true ∧ b ≤ min byte (byteLen text)}
      ((new text).offset ((new text).position byte))) ∧
    (∀ a b, isCharBoundary text a = true → isCharBoundary text b = true → a < b →
      (new text).position a < (new text).position b) ∧
    (∀ p, isCharBoundary text ((new text).offset p) = true) ∧
    (∀ p line, (lines text)[p.line]? = some line →
      lineStart text p.line ≤ (new text).offset p ∧
      (new text).offset p ≤ lineStart text p.line + byteLen line ∧
      (new text).position ((new text).offset p) = ⟨p.line, clampColumn line p.character⟩) ∧
    (∀ p, (lines text)[p.line]? = none → (new text).offset p = byteLen text) ∧
    (∀ p q, p ≤ q → (new text).offset p ≤ (new text).offset q) := by
  refine ⟨offset_position_isGreatest hsmall, ?_, isCharBoundary_offset hsmall, ?_, ?_, ?_⟩
  · intro a b ha hb hlt
    exact position_strictMono hsmall ha hb hlt
  · intro p line hline
    refine ⟨?_, ?_, position_offset hsmall hline⟩
    · obtain ⟨front, s, r, rest, -, -, -, -, -, hbytes, hoffset, -⟩ :=
        exists_offset_line hsmall hline
      rw [hoffset, hbytes]
      exact Nat.le_add_right _ _
    · obtain ⟨front, s, r, rest, -, rfl, -, -, -, hbytes, hoffset, -⟩ :=
        exists_offset_line hsmall hline
      rw [hoffset, hbytes, byteLen_append]
      omega
  · intro p hline
    exact offset_of_lines_eq_none hline
  · intro p q hle
    exact offset_mono hsmall hle

/-- A column inside an astral character is rounded up to the character's end. -/
theorem position_offset_galois_astral :
    utf16Len ['a', '😀', '\n', 'b'] < 2 ^ 32 ∧
      (new ['a', '😀', '\n', 'b']).position
        ((new ['a', '😀', '\n', 'b']).offset ⟨0, 2⟩) = ⟨0, 3⟩ :=
  ⟨by decide, ((position_offset_galois ['a', '😀', '\n', 'b'] (by decide)).2.2.2.1
    ⟨0, 2⟩ ['a', '😀'] (by decide)).2.2⟩

end LineIndex

end MarrowLsp
