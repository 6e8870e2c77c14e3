-- SUMMARY: The lines of a text: taking it apart at a line, the line a place is on, and the columns of a line in UTF-16 code units.
import Mathlib.Algebra.Ring.Nat
import Mathlib.Data.List.Infix
import MarrowLsp.Lib.Utf8

/-!
# Lines

A text is cut into lines at its newlines, which belong to no line. A place in a
text is what precedes it: its line is the number of newlines before it, its column
the UTF-16 length of what precedes it on that line.
-/
namespace Utf8

def lines (t : List Char) : List (List Char) := t.splitOn '\n'

/-- A line's text less the carriage return right before its newline. -/
def stripCarriageReturn (line : List Char) : List Char :=
  if line.getLast? = some '\r' then line.dropLast else line

/-- `str::lines`: no empty line after the last newline. -/
def textLines (t : List Char) : List (List Char) :=
  (lines t).dropLast.map stripCarriageReturn ++
    (lines t).getLast?.toList.filter fun line => line ≠ []

/-- The byte a line starts at: every earlier line counts with its newline. -/
def lineStart (t : List Char) (line : Nat) : Nat :=
  (((lines t).take line).map (byteLen · + 1)).sum

/-- The columns a line has a character boundary at. -/
def columns (line : List Char) : List Nat := line.inits.map utf16Len

/-- A column clamped to a line's length, and one inside a surrogate pair rounded up
to the pair's end. -/
def clampColumn (line : List Char) (character : Nat) : Nat :=
  let column := min character (utf16Len line)
  if column ∈ columns line then column else column + 1

/-- The text before a line: nothing, or something that ends in a newline. -/
def LineFront (front : List Char) : Prop := front = [] ∨ ∃ f, front = f ++ ['\n']

/-- The text after a line: nothing, or something that starts with a newline. -/
def LineRest (rest : List Char) : Prop := rest = [] ∨ ∃ r, rest = '\n' :: r

theorem lines_cons (c : Char) (t : List Char) :
    lines (c :: t) = if c = '\n' then [] :: lines t else (lines t).modifyHead (c :: ·) := by
  simp [lines, List.splitOn, List.splitOnP_cons_eq_if_modifyHead]

@[simp] theorem lines_nil : lines [] = [[]] := rfl

theorem length_lines (t : List Char) : (lines t).length = t.count '\n' + 1 := by
  induction t with
  | nil => rfl
  | cons c t ih =>
    rw [lines_cons]
    by_cases hc : c = '\n'
    · simp [hc, ih]
    · simp [hc, ih]

@[simp] theorem lineStart_zero (t : List Char) : lineStart t 0 = 0 := by simp [lineStart]

theorem count_newline_le (t : List Char) : t.count '\n' ≤ utf16Len t := by
  induction t with
  | nil => exact le_rfl
  | cons c t ih =>
    have hpos := lenUtf16_pos c
    rw [List.count_cons, utf16Len_cons]
    split <;> omega

/-- What a text ends on: what precedes its last line, and that line. -/
theorem exists_lastLine (t : List Char) :
    ∃ front line, t = front ++ line ∧ '\n' ∉ line ∧ LineFront front := by
  induction t using List.reverseRecOn with
  | nil => exact ⟨[], [], rfl, by simp, .inl rfl⟩
  | append_singleton t c ih =>
    by_cases hc : c = '\n'
    · exact ⟨t ++ [c], [], by simp, by simp, .inr ⟨t, by rw [hc]⟩⟩
    · obtain ⟨front, line, rfl, hline, hfront⟩ := ih
      refine ⟨front, line ++ [c], by simp, ?_, hfront⟩
      simp [hline, Ne.symm hc]

/-- What a text starts with: its first line, and what follows it. -/
theorem exists_firstLine (t : List Char) :
    ∃ line rest, t = line ++ rest ∧ '\n' ∉ line ∧ LineRest rest := by
  induction t with
  | nil => exact ⟨[], [], rfl, by simp, .inl rfl⟩
  | cons c t ih =>
    by_cases hc : c = '\n'
    · exact ⟨[], c :: t, rfl, by simp, .inr ⟨t, by rw [hc]⟩⟩
    · obtain ⟨line, rest, rfl, hline, hrest⟩ := ih
      refine ⟨c :: line, rest, rfl, ?_, hrest⟩
      simp [hline, Ne.symm hc]

theorem LineFront.eq_nil {front : List Char} (h : LineFront front) (hcount : front.count '\n' = 0) :
    front = [] := by
  rcases h with rfl | ⟨f, rfl⟩
  · rfl
  · simp at hcount

theorem LineFront.cons {front : List Char} (c : Char) (h : LineFront front) (hne : front ≠ []) :
    LineFront (c :: front) := by
  rcases h with rfl | ⟨f, rfl⟩
  · exact (hne rfl).elim
  · exact .inr ⟨c :: f, rfl⟩

/-- A text cut at one of its lines. -/
theorem exists_of_lines {t line : List Char} {n : Nat} (h : (lines t)[n]? = some line) :
    ∃ front rest, t = front ++ (line ++ rest) ∧ '\n' ∉ line ∧ LineFront front ∧ LineRest rest ∧
      front.count '\n' = n ∧ byteLen front = lineStart t n := by
  induction t generalizing n line with
  | nil =>
    obtain ⟨rfl, rfl⟩ : n = 0 ∧ line = [] := by
      cases n with
      | zero => exact ⟨rfl, by simpa using h.symm⟩
      | succ n => simp at h
    exact ⟨[], [], rfl, by simp, .inl rfl, .inl rfl, rfl, by simp⟩
  | cons c t ih =>
    have hhead : ∃ first later, lines t = first :: later := by
      have hlen := length_lines t
      cases hl : lines t with
      | nil => rw [hl] at hlen; simp at hlen
      | cons first later => exact ⟨first, later, rfl⟩
    obtain ⟨first, later, hfirst⟩ := hhead
    by_cases hc : c = '\n'
    · subst hc
      have hsize : ('\n' : Char).utf8Size = 1 := by decide
      rw [lines_cons, if_pos rfl] at h
      cases n with
      | zero =>
        obtain rfl : line = [] := by simpa using h.symm
        exact ⟨[], '\n' :: t, rfl, by simp, .inl rfl, .inr ⟨t, rfl⟩, rfl, by simp⟩
      | succ n =>
        obtain ⟨front, rest, rfl, hline, hfront, hrest, hcount, hbytes⟩ := ih (by simpa using h)
        refine ⟨'\n' :: front, rest, rfl, hline, ?_, hrest, by simp [hcount], ?_⟩
        · rcases hfront with rfl | ⟨f, rfl⟩
          · exact .inr ⟨[], rfl⟩
          · exact .inr ⟨'\n' :: f, rfl⟩
        · simp [lineStart, lines_cons, hsize, hbytes, Nat.add_comm]
    · rw [lines_cons, if_neg hc, hfirst, List.modifyHead_cons] at h
      cases n with
      | zero =>
        -- The character goes in front of the first line.
        obtain rfl : line = c :: first := by simpa using h.symm
        obtain ⟨front, rest, ht, hline, hfront, hrest, hcount, -⟩ :=
          @ih first 0 (by simp [hfirst])
        obtain rfl := hfront.eq_nil hcount
        refine ⟨[], rest, by rw [ht]; rfl, ?_, .inl rfl, hrest, rfl, by simp⟩
        simp [hline, Ne.symm hc]
      | succ n =>
        obtain ⟨front, rest, ht, hline, hfront, hrest, hcount, hbytes⟩ :=
          @ih line (n + 1) (by simpa [hfirst] using h)
        have hne : front ≠ [] := by
          rintro rfl
          simp at hcount
        refine ⟨c :: front, rest, by rw [ht]; rfl, hline, hfront.cons c hne, hrest, ?_, ?_⟩
        · simp [hc, hcount]
        · rw [byteLen_cons, hbytes]
          simp [lineStart, lines_cons, hc, hfirst]
          omega

/-- The first newline of a text is where its first line ends. -/
theorem findChar_firstLine {line rest : List Char} (hline : '\n' ∉ line) (hrest : LineRest rest) :
    findChar (line ++ rest) '\n' = if rest = [] then none else some (byteLen line) := by
  rcases hrest with rfl | ⟨r, rfl⟩
  · rw [if_pos rfl, List.append_nil, findChar_of_not_mem hline]
  · rw [if_neg (List.cons_ne_nil _ _), findChar_append r hline]

/-- The first line of a text. -/
theorem lines_firstLine {line rest : List Char} (hline : '\n' ∉ line) (hrest : LineRest rest) :
    ∃ later, lines (line ++ rest) = line :: later := by
  induction line with
  | nil =>
    rcases hrest with rfl | ⟨r, rfl⟩
    · exact ⟨[], rfl⟩
    · exact ⟨lines r, by rw [List.nil_append, lines_cons, if_pos rfl]⟩
  | cons c line ih =>
    simp only [List.mem_cons, not_or] at hline
    obtain ⟨later, ih⟩ := ih hline.2
    refine ⟨later, ?_⟩
    rw [List.cons_append, lines_cons, if_neg (Ne.symm hline.1), ih, List.modifyHead_cons]

theorem lines_append_newline {line : List Char} (hline : '\n' ∉ line) (rest : List Char) :
    lines (line ++ '\n' :: rest) = line :: lines rest := by
  induction line with
  | nil => rw [List.nil_append, lines_cons, if_pos rfl]
  | cons c line ih =>
    simp only [List.mem_cons, not_or] at hline
    rw [List.cons_append, lines_cons, if_neg (Ne.symm hline.1), ih hline.2, List.modifyHead_cons]

/-- Written one after the other, each with its newline, lines read back as they are. -/
theorem lines_flatMap {written : List (List Char)} (h : ∀ line ∈ written, '\n' ∉ line) :
    lines (written.flatMap (· ++ ['\n'])) = written ++ [[]] := by
  induction written with
  | nil => rfl
  | cons line written ih =>
    rw [List.flatMap_cons, List.append_assoc, List.singleton_append,
      lines_append_newline (h line (List.mem_cons_self ..)),
      ih fun l hl => h l (List.mem_cons_of_mem _ hl), List.cons_append]

theorem textLines_flatMap {written : List (List Char)} (h : ∀ line ∈ written, '\n' ∉ line) :
    textLines (written.flatMap (· ++ ['\r', '\n'])) = written := by
  have hreturns : written.flatMap (· ++ ['\r', '\n']) =
      (written.map (· ++ ['\r'])).flatMap (· ++ ['\n']) := by
    rw [List.flatMap_map]
    simp
  have hlines : ∀ line ∈ written.map (· ++ ['\r']), '\n' ∉ line := by
    intro line hline
    obtain ⟨text, htext, rfl⟩ := List.mem_map.mp hline
    simpa using h text htext
  have hstrip : (stripCarriageReturn ∘ fun line : List Char => line ++ ['\r']) = id := by
    funext line
    simp [stripCarriageReturn]
  rw [textLines, hreturns, lines_flatMap hlines, List.dropLast_concat, List.map_map, hstrip]
  simp

/-- The line a place is on: the number of newlines before it. -/
theorem lines_getElem_count {front line rest : List Char} (hfront : LineFront front)
    (hline : '\n' ∉ line) (hrest : LineRest rest) :
    (lines (front ++ (line ++ rest)))[front.count '\n']? = some line := by
  obtain ⟨later, hfirst⟩ := lines_firstLine hline hrest
  rcases hfront with rfl | ⟨f, rfl⟩
  · simp [hfirst]
  · induction f with
    | nil => simp [lines_cons, hfirst]
    | cons c f ih =>
      by_cases hc : c = '\n'
      · simpa [lines_cons, hc] using ih
      · have hcount : (f ++ ['\n']).count '\n' = f.count '\n' + 1 := by simp
        have hcount' : (c :: f ++ ['\n']).count '\n' = f.count '\n' + 1 := by simp [hc]
        rw [hcount] at ih
        rw [hcount', List.cons_append, List.cons_append, lines_cons, if_neg hc, ← ih]
        cases lines (f ++ ['\n'] ++ (line ++ rest)) with
        | nil => rfl
        | cons first later => rfl

/-! ## Columns -/

theorem mem_columns {line : List Char} {column : Nat} :
    column ∈ columns line ↔ ∃ s r, line = s ++ r ∧ utf16Len s = column := by
  simp only [columns, List.mem_map, List.mem_inits]
  constructor
  · rintro ⟨s, ⟨r, rfl⟩, rfl⟩
    exact ⟨s, r, rfl, rfl⟩
  · rintro ⟨s, r, rfl, rfl⟩
    exact ⟨s, List.prefix_append s r, rfl⟩

theorem zero_mem_columns (line : List Char) : 0 ∈ columns line :=
  mem_columns.mpr ⟨[], line, rfl, rfl⟩

theorem add_mem_columns_cons {c : Char} {line : List Char} {n : Nat} :
    lenUtf16 c + n ∈ columns (c :: line) ↔ n ∈ columns line := by
  simp only [mem_columns]
  constructor
  · rintro ⟨s, r, hsplit, hlen⟩
    cases s with
    | nil =>
      have hpos := lenUtf16_pos c
      simp only [utf16Len_nil] at hlen
      omega
    | cons d s =>
      simp only [List.cons_append, List.cons.injEq] at hsplit
      obtain ⟨rfl, rfl⟩ := hsplit
      exact ⟨s, r, rfl, by simpa using hlen⟩
  · rintro ⟨s, r, rfl, rfl⟩
    exact ⟨c :: s, r, rfl, rfl⟩

@[simp] theorem clampColumn_zero (line : List Char) : clampColumn line 0 = 0 := by
  simp [clampColumn, zero_mem_columns]

theorem clampColumn_cons_add (c : Char) (line : List Char) (n : Nat) :
    clampColumn (c :: line) (lenUtf16 c + n) = lenUtf16 c + clampColumn line n := by
  have hmin : min (lenUtf16 c + n) (utf16Len (c :: line)) =
      lenUtf16 c + min n (utf16Len line) := by
    rw [utf16Len_cons, Nat.add_min_add_left]
  simp only [clampColumn, hmin, add_mem_columns_cons]
  split <;> rfl

/-- Inside a surrogate pair the column is the pair's end. -/
theorem clampColumn_cons_of_lt {c : Char} {line : List Char} {n : Nat} (hpos : 0 < n)
    (hlt : n < lenUtf16 c) : clampColumn (c :: line) n = lenUtf16 c := by
  have hle := lenUtf16_le c
  have hmin : min n (utf16Len (c :: line)) = n := by
    rw [utf16Len_cons]
    omega
  have hnot : n ∉ columns (c :: line) := by
    rw [mem_columns]
    rintro ⟨s, r, hsplit, rfl⟩
    cases s with
    | nil => simp at hpos
    | cons d s =>
      obtain ⟨rfl, -⟩ := List.cons.inj hsplit
      simp only [utf16Len_cons] at hlt
      omega
  simp only [clampColumn, hmin, hnot, if_false]
  omega

end Utf8
