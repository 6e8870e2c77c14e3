-- SUMMARY: Byte offsets and editor positions of a text, and that mapping a byte to a position and back finds the character boundary at or before it (positions.rs).
import MarrowLsp.Lib.Lines
import MarrowLsp.Core.Marrow

/-!
# Positions

Marrow spans carry UTF-8 byte offsets, an editor wants lines and UTF-16 columns.
`LineIndex` maps one to the other. The source holds lines and columns as `u32`.
-/
namespace MarrowLsp

open Utf8

/-- A line and a column in UTF-16 code units, both from zero. -/
structure Position where
  line : Nat
  character : Nat
  deriving DecidableEq, Repr

structure Range where
  start : Position
  stop : Position
  deriving DecidableEq, Repr

structure TextEdit where
  range : Range
  newText : Text
  deriving DecidableEq, Repr

/-- What follows each newline, as byte offsets, in a text that starts at `offset`. -/
def newlineEnds (offset : Nat) : Text → List Nat
  | [] => []
  | c :: t =>
    if c = '\n' then (offset + c.utf8Size) :: newlineEnds (offset + c.utf8Size) t
    else newlineEnds (offset + c.utf8Size) t

/-- `slice::binary_search` in an increasing list: where `x` is, or where it would go. -/
def binarySearch (xs : List Nat) (x : Nat) : Except Nat Nat :=
  let next := (xs.takeWhile (· < x)).length
  if xs[next]? = some x then .ok next else .error next

structure LineIndex where
  /-- The byte offset of the first character of each line. -/
  lineStarts : List Nat
  text : Text

namespace LineIndex

def new (text : Text) : LineIndex := ⟨0 :: newlineEnds 0 text, text⟩

/-- The position of a byte, floored to a character boundary of the text. -/
def position (index : LineIndex) (byte : Nat) : Position :=
  let byte := floorCharBoundary index.text (min byte (byteLen index.text))
  let line :=
    match binarySearch index.lineStarts byte with
    | .ok line => line
    | .error next => next - 1
  let lineStart := index.lineStarts.getD line 0
  ⟨line % 2 ^ 32, utf16Len ((slice index.text lineStart byte).getD []) % 2 ^ 32⟩

/-- The bytes `offset` walks over on one line, from the column `utf16`. -/
def advance (character : Nat) : Nat → Text → Nat
  | _, [] => 0
  | utf16, c :: t =>
    if utf16 ≥ character ∨ c = '\n' then 0
    else c.utf8Size + advance character ((utf16 + lenUtf16 c) % 2 ^ 32) t

/-- The byte of a position: a column past the end of its line is the line's end,
a line past the end of the text is the text's end. -/
def offset (index : LineIndex) (position : Position) : Nat :=
  match index.lineStarts[position.line]? with
  | none => byteLen index.text
  | some lineStart =>
    let lineEnd := index.lineStarts[position.line + 1]?.getD (byteLen index.text)
    lineStart + advance position.character 0 ((slice index.text lineStart lineEnd).getD [])

def range (index : LineIndex) (startByte endByte : Nat) : Range :=
  ⟨index.position startByte, index.position endByte⟩

end LineIndex

/-! ## Line starts -/

theorem newlineEnds_append (offset : Nat) (s t : Text) :
    newlineEnds offset (s ++ t) = newlineEnds offset s ++ newlineEnds (offset + byteLen s) t := by
  induction s generalizing offset with
  | nil => simp [newlineEnds]
  | cons c s ih =>
    by_cases hc : c = '\n'
    · simp [newlineEnds, hc, ih, Nat.add_assoc]
    · simp [newlineEnds, hc, ih, Nat.add_assoc]

theorem lt_of_mem_newlineEnds {offset x : Nat} {t : Text} (h : x ∈ newlineEnds offset t) :
    offset < x := by
  induction t generalizing offset with
  | nil => simp [newlineEnds] at h
  | cons c t ih =>
    have hpos := c.utf8Size_pos
    simp only [newlineEnds] at h
    split at h
    · rcases List.mem_cons.mp h with rfl | h
      · omega
      · have := ih h
        omega
    · have := ih h
      omega

theorem le_of_mem_newlineEnds {offset x : Nat} {t : Text} (h : x ∈ newlineEnds offset t) :
    x ≤ offset + byteLen t := by
  induction t generalizing offset with
  | nil => simp [newlineEnds] at h
  | cons c t ih =>
    simp only [newlineEnds, byteLen_cons] at h ⊢
    split at h
    · rcases List.mem_cons.mp h with rfl | h
      · omega
      · have := ih h
        omega
    · have := ih h
      omega

theorem newlineEnds_eq_nil {offset : Nat} {t : Text} (h : '\n' ∉ t) :
    newlineEnds offset t = [] := by
  induction t generalizing offset with
  | nil => rfl
  | cons c t ih =>
    simp only [List.mem_cons, not_or] at h
    simp [newlineEnds, Ne.symm h.1, ih h.2]

@[simp] theorem length_newlineEnds (offset : Nat) (t : Text) :
    (newlineEnds offset t).length = t.count '\n' := by
  induction t generalizing offset with
  | nil => rfl
  | cons c t ih =>
    by_cases hc : c = '\n'
    · simp [newlineEnds, hc, ih]
    · simp [newlineEnds, hc, ih]

/-- The starts of a text's lines, cut at a line: those before it, its own, and
those after it. -/
theorem lineStarts_split {front : Text} (rest : Text) (hfront : LineFront front) :
    ∃ earlier, (LineIndex.new (front ++ rest)).lineStarts =
        earlier ++ byteLen front :: newlineEnds (byteLen front) rest ∧
      (∀ x ∈ earlier, x < byteLen front) ∧ earlier.length = front.count '\n' := by
  rcases hfront with rfl | ⟨f, rfl⟩
  · exact ⟨[], by simp [LineIndex.new], by simp, rfl⟩
  · refine ⟨0 :: newlineEnds 0 f, ?_, ?_, by simp⟩
    · simp [LineIndex.new, newlineEnds_append, newlineEnds]
    · intro x hx
      have hx' : x ≤ byteLen f := by
        rcases List.mem_cons.mp hx with rfl | hx
        · exact Nat.zero_le _
        · have := le_of_mem_newlineEnds hx
          omega
      simp only [byteLen_append, byteLen_cons]
      have := ('\n' : Char).utf8Size_pos
      omega

/-- Where the line after a byte ends: past its newline, or at the text's end. -/
theorem newlineEnds_lineEnd (start : Nat) {line rest : Text} (hline : '\n' ∉ line)
    (hrest : LineRest rest) :
    (newlineEnds start (line ++ rest))[0]?.getD (start + byteLen (line ++ rest)) =
      start + byteLen (line ++ rest.take 1) := by
  rw [newlineEnds_append, newlineEnds_eq_nil hline, List.nil_append]
  rcases hrest with rfl | ⟨r, rfl⟩
  · simp [newlineEnds]
  · simp [newlineEnds, Nat.add_assoc]

/-- A search finds the last line that starts at or before the byte. -/
theorem binarySearch_line {earlier later : List Nat} {start byte : Nat}
    (hearlier : ∀ x ∈ earlier, x < start) (hstart : start ≤ byte)
    (hlater : ∀ x ∈ later, byte < x) :
    (match binarySearch (earlier ++ start :: later) byte with
      | .ok line => line
      | .error next => next - 1) = earlier.length := by
  have hlaterTake : later.takeWhile (· < byte) = [] := by
    cases later with
    | nil => rfl
    | cons y later =>
      have := hlater y (by simp)
      exact List.takeWhile_cons_of_neg (by simp; omega)
  have htake : (earlier ++ start :: later).takeWhile (· < byte) =
      earlier ++ (start :: later).takeWhile (· < byte) := by
    rw [List.takeWhile_append_of_pos]
    intro x hx
    have := hearlier x hx
    exact decide_eq_true (by omega)
  -- Past the start the search misses and gives the next line, at it the search hits.
  rcases Nat.lt_or_eq_of_le hstart with hlt | rfl
  · have hnext : ((earlier ++ start :: later).takeWhile (· < byte)).length =
        earlier.length + 1 := by
      rw [htake, List.takeWhile_cons_of_pos (by simpa using hlt), hlaterTake]
      simp
    have hnone : (earlier ++ start :: later)[earlier.length + 1]? ≠ some byte := by
      rw [List.getElem?_append_right (by omega)]
      simp only [Nat.add_sub_cancel_left, List.getElem?_cons_succ]
      intro h
      have := hlater byte (List.mem_of_getElem? h)
      omega
    simp [binarySearch, hnext, hnone]
  · have hnext : ((earlier ++ start :: later).takeWhile (· < start)).length =
        earlier.length := by
      rw [htake, List.takeWhile_cons_of_neg (by simp)]
      simp
    simp [binarySearch, hnext]

/-- A walk along a line stops at the line's end at the latest. -/
theorem advance_append {line rest : Text} (character utf16 : Nat) (hrest : LineRest rest) :
    LineIndex.advance character utf16 (line ++ rest) = LineIndex.advance character utf16 line := by
  induction line generalizing utf16 with
  | nil =>
    rcases hrest with rfl | ⟨r, rfl⟩
    · rfl
    · simp [LineIndex.advance]
  | cons c line ih =>
    rw [List.cons_append, LineIndex.advance, LineIndex.advance]
    split
    · rfl
    · rw [ih]

namespace LineIndex

section Cut

variable {front line rest : Text}

theorem floorCharBoundary_cut (front line rest : Text) :
    floorCharBoundary (front ++ (line ++ rest))
        (min (byteLen front + byteLen line) (byteLen (front ++ (line ++ rest)))) =
      byteLen front + byteLen line := by
  have hboundary : isCharBoundary (front ++ (line ++ rest)) (byteLen front + byteLen line) = true :=
    isCharBoundary_iff.mpr ⟨front ++ line, rest, by simp, by simp⟩
  rw [Nat.min_eq_left (by simp), floorCharBoundary_of_boundary hboundary]

/-- The line starts around a boundary: all after its own are past it. -/
theorem lineStarts_cut (rest : Text) (hfront : LineFront front) (hline : '\n' ∉ line) :
    ∃ earlier later, (new (front ++ (line ++ rest))).lineStarts =
        earlier ++ byteLen front :: later ∧
      (∀ x ∈ earlier, x < byteLen front) ∧ (∀ x ∈ later, byteLen front + byteLen line < x) ∧
        earlier.length = front.count '\n' := by
  obtain ⟨earlier, hstarts, hearlier, hcount⟩ := lineStarts_split (line ++ rest) hfront
  refine ⟨earlier, newlineEnds (byteLen front + byteLen line) rest, ?_, hearlier, ?_, hcount⟩
  · rw [hstarts, newlineEnds_append, newlineEnds_eq_nil hline, List.nil_append]
  · intro x hx
    exact lt_of_mem_newlineEnds hx

/-- The position of a boundary: its line, and the text before it on that line. -/
theorem position_cut (rest : Text) (hfront : LineFront front) (hline : '\n' ∉ line) :
    (new (front ++ (line ++ rest))).position (byteLen front + byteLen line) =
      ⟨front.count '\n' % 2 ^ 32, utf16Len line % 2 ^ 32⟩ := by
  obtain ⟨earlier, later, hstarts, hearlier, hlater, hcount⟩ := lineStarts_cut rest hfront hline
  have hsearch := binarySearch_line hearlier (Nat.le_add_right _ (byteLen line)) hlater
  have hget : (new (front ++ (line ++ rest))).lineStarts.getD earlier.length 0 = byteLen front := by
    rw [hstarts]
    simp
  unfold position
  simp only [show (new (front ++ (line ++ rest))).text = front ++ (line ++ rest) from rfl,
    floorCharBoundary_cut, hstarts] at hsearch hget ⊢
  rw [hsearch, hget, slice_append, hcount, Option.getD_some]

theorem position_line (hsmall : utf16Len (front ++ (line ++ rest)) < 2 ^ 32)
    (hfront : LineFront front) (hline : '\n' ∉ line) :
    (new (front ++ (line ++ rest))).position (byteLen front + byteLen line) =
      ⟨front.count '\n', utf16Len line⟩ := by
  have hlines := count_newline_le front
  rw [utf16Len_append, utf16Len_append] at hsmall
  rw [position_cut rest hfront hline, Nat.mod_eq_of_lt (by omega), Nat.mod_eq_of_lt (by omega)]

/-- The byte of a position on a line: the line's start, then the walk along it. -/
theorem offset_line (hfront : LineFront front) (hline : '\n' ∉ line) (hrest : LineRest rest)
    (character : Nat) :
    (new (front ++ (line ++ rest))).offset ⟨front.count '\n', character⟩ =
      byteLen front + advance character 0 line := by
  obtain ⟨earlier, hstarts, -, hcount⟩ := lineStarts_split (line ++ rest) hfront
  have hstart : (new (front ++ (line ++ rest))).lineStarts[front.count '\n']? =
      some (byteLen front) := by
    rw [hstarts, ← hcount]
    simp
  have hnext : (new (front ++ (line ++ rest))).lineStarts[front.count '\n' + 1]?.getD
      (byteLen (front ++ (line ++ rest))) = byteLen front + byteLen (line ++ rest.take 1) := by
    rw [hstarts, ← hcount, List.getElem?_append_right (by omega), Nat.add_sub_cancel_left,
      List.getElem?_cons_succ, byteLen_append, newlineEnds_lineEnd _ hline hrest]
  have hslice : slice (front ++ (line ++ rest)) (byteLen front)
      (byteLen front + byteLen (line ++ rest.take 1)) = some (line ++ rest.take 1) := by
    have h := slice_append front (line ++ rest.take 1) (rest.drop 1)
    rwa [List.append_assoc, List.take_append_drop] at h
  have hrest' : LineRest (rest.take 1) := by
    rcases hrest with rfl | ⟨r, rfl⟩
    · exact .inl rfl
    · exact .inr ⟨[], rfl⟩
  simp only [offset, hstart, hnext, show (new (front ++ (line ++ rest))).text =
    front ++ (line ++ rest) from rfl, hslice, Option.getD_some]
  rw [advance_append _ _ hrest']

end Cut

/-- The boundary at or before a byte, cut out of the text with the line it is on. -/
theorem exists_boundaryLine (text : Text) (byte : Nat) : ∃ front line post,
    text = front ++ (line ++ post) ∧ LineFront front ∧ '\n' ∉ line ∧
      floorCharBoundary text (min byte (byteLen text)) = byteLen front + byteLen line := by
  obtain ⟨before, post, htext, hbefore⟩ := isCharBoundary_iff.mp
    (isCharBoundary_floorCharBoundary text (min byte (byteLen text)))
  obtain ⟨front, line, rfl, hline, hfront⟩ := exists_lastLine before
  exact ⟨front, line, post, by rw [htext, List.append_assoc], hfront, hline,
    by rw [← hbefore, byteLen_append]⟩

/-- A byte has the position of the character boundary at or before it. -/
theorem position_floor (text : Text) (byte : Nat) :
    (new text).position (floorCharBoundary text (min byte (byteLen text))) =
      (new text).position byte := by
  have hle := (floorCharBoundary_le text (min byte (byteLen text))).trans (min_le_right _ _)
  unfold position
  simp only [show (new text).text = text from rfl, Nat.min_eq_left hle,
    floorCharBoundary_of_boundary (isCharBoundary_floorCharBoundary text _)]

/-- Walking a line up to a column of its own stops right there. -/
theorem advance_column {line : Text} (rest : Text) {utf16 : Nat} (hline : '\n' ∉ line)
    (hsmall : utf16 + utf16Len line < 2 ^ 32) :
    advance (utf16 + utf16Len line) utf16 (line ++ rest) = byteLen line := by
  induction line generalizing utf16 with
  | nil =>
    cases rest with
    | nil => rfl
    | cons c rest => simp [advance]
  | cons c line ih =>
    simp only [List.mem_cons, not_or] at hline
    have hpos := lenUtf16_pos c
    simp only [utf16Len_cons] at hsmall
    have hmod : (utf16 + lenUtf16 c) % 2 ^ 32 = utf16 + lenUtf16 c :=
      Nat.mod_eq_of_lt (by omega)
    have hgo : ¬ (utf16 ≥ utf16 + (lenUtf16 c + utf16Len line) ∨ c = '\n') := by
      rintro (h | h)
      · omega
      · exact hline.1 h.symm
    have hrest := @ih (utf16 + lenUtf16 c) hline.2 (by omega)
    rw [List.cons_append, utf16Len_cons, byteLen_cons, advance, if_neg hgo, hmod,
      ← Nat.add_assoc, hrest]

/-- In a text the columns of which fit the source's `u32`, a byte mapped to its
position and back is floored to a character boundary. -/
theorem offset_position {text : Text} (hsmall : utf16Len text < 2 ^ 32) (byte : Nat) :
    (new text).offset ((new text).position byte) =
      floorCharBoundary text (min byte (byteLen text)) := by
  obtain ⟨front, line, post, rfl, hfront, hline, hb⟩ := exists_boundaryLine text byte
  have hposition := position_line hsmall hfront hline
  rw [← hb, position_floor] at hposition
  obtain ⟨more, rest, rfl, hmore, hrest⟩ := exists_firstLine post
  have hwhole : '\n' ∉ line ++ more := by simp [hline, hmore]
  have hoffset := offset_line hfront hwhole hrest (utf16Len line)
  rw [List.append_assoc] at hoffset
  have hadvance := @advance_column line more 0 hline (by
    simp only [utf16Len_append] at hsmall
    omega)
  rw [Nat.zero_add] at hadvance
  rw [hposition, hoffset, hb, hadvance]

end LineIndex

end MarrowLsp
