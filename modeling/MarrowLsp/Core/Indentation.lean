-- SUMMARY: The indentation of a new line, and its line scanner against the one of `LineIndex`: on which lines the two agree on where the content ends (indentation.rs).
import MarrowLsp.Core.PositionOrder

/-!
# Indentation

`line_bounds` scans the text for newlines and leaves a carriage return before one out of the
line. `LineIndex` scans it too, and does not. Both stop at the same newlines.
-/
namespace MarrowLsp

open Utf8

/-! ## Lines -/

/-- The loop of `line_bounds`, over the newlines before the line. -/
def skipLines (text : Text) (start : Nat) : Nat → Option Nat
  | 0 => some start
  | line + 1 =>
    match (sliceFrom text start).bind (findChar · '\n') with
    | none => none
    | some newline => skipLines text (start + newline + 1) line

/-- The bytes of a line without its terminator. An ASCII byte is a character of its own. -/
def lineBounds (text : Text) (line : Nat) : Option (Nat × Nat) :=
  (skipLines text 0 line).map fun start =>
    let stop := (((sliceFrom text start).bind (findChar · '\n')).map (start + ·)).getD
      (byteLen text)
    (start, if stop > start ∧ slice text (stop - 1) stop = some ['\r'] then stop - 1 else stop)

def isIndent (c : Char) : Bool := c == ' ' || c == '\t'

def leadingIndent (text : Text) (start stop : Nat) : Text :=
  ((slice text start stop).getD []).takeWhile isIndent

def leadingIndentEnd (text : Text) (start stop : Nat) : Nat :=
  start + (leadingIndent text start stop).length

/-! ## Tokens -/

/-- The keywords that open a block or end one. -/
inductive Keyword where
  | «pub»
  | «fn»
  | «resource»
  | «enum»
  | «surface»
  | «evolve»
  | «if»
  | «else»
  | «for»
  | «while»
  | «match»
  | «transaction»
  | «try»
  | «catch»
  | «return»
  | «throw»
  | «break»
  | «continue»
  | other
  deriving DecidableEq, Repr

inductive TokenKind where
  | indent
  | dedent
  | newline
  | eof
  | comment
  | docComment
  | keyword (keyword : Keyword)
  | other
  deriving DecidableEq, Repr

structure LexedToken where
  startByte : Nat
  kind : TokenKind
  deriving DecidableEq, Repr

def isTrivia : TokenKind → Bool
  | .indent | .dedent | .newline | .eof | .comment | .docComment => true
  | _ => false

def significantLineTokens (tokens : List LexedToken) (lineStart lineEnd : Nat) :
    List TokenKind :=
  ((tokens.filter fun token => lineStart ≤ token.startByte && token.startByte < lineEnd).filter
    fun token => !isTrivia token.kind).map (·.kind)

def isBlockStarter : List TokenKind → Bool
  | .keyword .pub :: .keyword .fn :: _ => true
  | .keyword .pub :: .keyword .enum :: _ => true
  | .keyword keyword :: _ =>
    keyword ∈ [.fn, .resource, .enum, .surface, .evolve, .if, .else, .for, .while, .match,
      .transaction, .try, .catch]
  | _ => false

def isTerminator : List TokenKind → Bool
  | .keyword keyword :: _ => keyword ∈ [.return, .throw, .break, .continue]
  | _ => false

/-! ## The edit -/

structure FormattingOptions where
  tabSize : Nat
  insertSpaces : Bool
  deriving DecidableEq, Repr

def tabSize (options : FormattingOptions) : Nat :=
  if options.tabSize = 0 then 4 else options.tabSize

def indentUnit (options : FormattingOptions) : Text :=
  if options.insertSpaces then List.replicate (tabSize options) ' ' else ['\t']

/-- The loop of `outdented`, over the indent from its end. -/
def cutIndent : Nat → Text → Text
  | remaining + 1, ' ' :: indent => cutIndent remaining indent
  | _ + 1, '\t' :: indent => indent
  | _, indent => indent

def outdented (indent : Text) (options : FormattingOptions) : Text :=
  match options.insertSpaces, indent.reverse with
  | false, '\t' :: stripped => stripped.reverse
  | _, reversed => (cutIndent (tabSize options) reversed).reverse

/-- The indentation that the line before a new line asks for. -/
def desiredIndent (previousIndent : Text) (significantTokens : List TokenKind)
    (options : FormattingOptions) : Text :=
  if significantTokens = [] then previousIndent
  else if isTerminator significantTokens then outdented previousIndent options
  else if isBlockStarter significantTokens then previousIndent ++ indentUnit options
  else previousIndent

def newlineIndentation (text : Text) (lexed : List LexedToken) (line : Nat)
    (options : FormattingOptions) : Option TextEdit :=
  if line = 0 then none
  else
    match lineBounds text (line - 1), lineBounds text line with
    | some (previousStart, previousEnd), some (currentStart, currentEnd) =>
      let desired := desiredIndent (leadingIndent text previousStart previousEnd)
        (significantLineTokens lexed previousStart previousEnd) options
      let currentIndentEnd := leadingIndentEnd text currentStart currentEnd
      if leadingIndent text currentStart currentEnd = desired then none
      else
        some ⟨⟨⟨line, 0⟩, ⟨line, (currentIndentEnd - currentStart) % 2 ^ 32⟩⟩, desired⟩
    | _, _ => none

/-! ## Where the content of a line ends -/

/-- Between the two characters of a `\r\n`. -/
def InsideCrlf (text : Text) (byte : Nat) : Prop :=
  ∃ before after, text = before ++ '\r' :: '\n' :: after ∧ byte = byteLen before + 1

/-- A line without a carriage return that it ends in. -/
def withoutReturn (line : Text) : Text :=
  if line.getLast? = some '\r' then line.dropLast else line

/-- The largest column a `u32` holds. -/
def MAX_COLUMN : Nat := 2 ^ 32 - 1

/-- The part of a line before the first place whose column, as a `u32`, is the largest one:
all of it, on a line of fewer columns. -/
def covered : Nat → Text → Text
  | _, [] => []
  | utf16, c :: line =>
    if utf16 = MAX_COLUMN then [] else c :: covered ((utf16 + lenUtf16 c) % 2 ^ 32) line

/-- On a line the two scanners agree, and no place that a position of the line stands for is
inside a line terminator. -/
structure LinesAgree (text : Text) (line : Nat) : Prop where
  numbered : lineBounds text line = none ↔ (LineIndex.new text).lineStarts[line]? = none
  bounds : ∀ start stop, lineBounds text line = some (start, stop) →
    (LineIndex.new text).offset ⟨line, 0⟩ = start ∧
      (LineIndex.new text).offset ⟨line, MAX_COLUMN⟩ = stop
  excluded : ∀ start stop, lineBounds text line = some (start, stop) →
    (∃ content, slice text start stop = some content ∧ '\n' ∉ content) ∧ ¬ InsideCrlf text stop
  cursor : ∀ character < 2 ^ 32,
    ¬ InsideCrlf text ((LineIndex.new text).offset ⟨line, character⟩)
  edit : ∀ lexed options edit, newlineIndentation text lexed line options = some edit →
    ¬ InsideCrlf text ((LineIndex.new text).offset edit.range.start) ∧
      ¬ InsideCrlf text ((LineIndex.new text).offset edit.range.stop)

/-! ### The scanner of `line_bounds` -/

theorem lineStart_append_newline {line : Text} (hline : '\n' ∉ line) (rest : Text) (n : Nat) :
    lineStart (line ++ '\n' :: rest) (n + 1) = byteLen line + 1 + lineStart rest n := by
  simp [lineStart, lines_append_newline hline]

/-- The loop gets to the line, where the rest of the text has it. -/
theorem skipLines_append (n : Nat) (front t : Text) :
    skipLines (front ++ t) (byteLen front) n =
      if n < (lines t).length then some (byteLen front + lineStart t n) else none := by
  induction n generalizing front t with
  | zero =>
    have hpos : 0 < (lines t).length := by
      rw [length_lines]
      exact Nat.succ_pos _
    rw [if_pos hpos, lineStart_zero]
    rfl
  | succ n ih =>
    obtain ⟨line, rest, rfl, hline, hrest⟩ := exists_firstLine t
    rw [skipLines, sliceFrom_append, Option.bind_some, findChar_firstLine hline hrest]
    rcases hrest with rfl | ⟨r, rfl⟩
    · have hone : (lines (line ++ [])).length = 1 := by
        rw [List.append_nil, length_lines, List.count_eq_zero.mpr hline]
      rw [if_pos rfl, hone, if_neg (by omega)]
    · have hsize : byteLen (front ++ line ++ ['\n']) = byteLen front + byteLen line + 1 := by
        rw [byteLen_append, byteLen_append]
        rfl
      have hnext := ih (front ++ line ++ ['\n']) r
      rw [hsize] at hnext
      simp only [List.append_assoc, List.singleton_append] at hnext
      rw [if_neg (List.cons_ne_nil _ _), lines_append_newline hline, List.length_cons,
        lineStart_append_newline hline]
      dsimp only
      rw [hnext]
      simp only [Nat.add_lt_add_iff_right, Nat.add_assoc]

theorem getLast?_iff {line : Text} {c : Char} :
    line.getLast? = some c ↔ ∃ before, line = before ++ [c] := by
  constructor
  · intro h
    exact ⟨line.dropLast, (List.dropLast_append_getLast? c h).symm⟩
  · rintro ⟨before, rfl⟩
    exact List.getLast?_concat ..

/-- The character that ends a line is the one before its last byte, when it takes one. -/
theorem slice_last_iff (front line rest : Text) :
    byteLen front + byteLen line > byteLen front ∧
        slice (front ++ (line ++ rest)) (byteLen front + byteLen line - 1)
          (byteLen front + byteLen line) = some ['\r'] ↔ line.getLast? = some '\r' := by
  have hsize : byteLen ['\r'] = 1 := by decide
  rw [getLast?_iff]
  constructor
  · rintro ⟨hpos, hslice⟩
    obtain ⟨before, after, htext, hbefore, -⟩ := slice_eq_some_iff.mp hslice
    -- Both cut the text at the same byte.
    have hcut : front ++ line ++ rest = before ++ ['\r'] ++ after := by
      rw [List.append_assoc, List.append_assoc, htext]
    have hlen : byteLen (front ++ line) = byteLen (before ++ ['\r']) := by
      rw [byteLen_append, byteLen_append, hsize, hbefore]
      omega
    have hsame := splitAtByte_append (front ++ line) rest
    rw [hcut, hlen, splitAtByte_append] at hsame
    obtain ⟨hends, -⟩ := Prod.mk.inj (Option.some.inj hsame)
    rcases List.eq_nil_or_concat line with rfl | ⟨l, c, rfl⟩
    · exact absurd hpos (by simp)
    · rw [List.concat_eq_append, ← List.append_assoc] at hends
      obtain ⟨-, hc⟩ := List.append_inj' hends rfl
      exact ⟨l, by rw [List.concat_eq_append, ← List.singleton_inj.mp hc]⟩
  · rintro ⟨before, rfl⟩
    have hslice := slice_append (front ++ before) ['\r'] rest
    simp only [byteLen_append, hsize, List.append_assoc] at hslice ⊢
    refine ⟨by omega, ?_⟩
    rwa [← Nat.add_assoc, Nat.add_sub_cancel]

theorem byteLen_withoutReturn (line : Text) : byteLen (withoutReturn line) =
    if line.getLast? = some '\r' then byteLen line - 1 else byteLen line := by
  unfold withoutReturn
  split
  · next h =>
    obtain ⟨before, rfl⟩ := getLast?_iff.mp h
    have hsize : byteLen ['\r'] = 1 := by decide
    rw [List.dropLast_concat, byteLen_append, hsize, Nat.add_sub_cancel]
  · rfl

/-- `line_bounds` finds the line, without the carriage return. -/
theorem lineBounds_of_lines {text content : Text} {line : Nat}
    (hcontent : (lines text)[line]? = some content) :
    lineBounds text line = some (lineStart text line,
      lineStart text line + byteLen (withoutReturn content)) := by
  obtain ⟨front, rest, rfl, hnl, -, hrest, -, hbytes⟩ := exists_of_lines hcontent
  have hlt := (List.getElem?_eq_some_iff.mp hcontent).1
  have hskip := skipLines_append line [] (front ++ (content ++ rest))
  rw [if_pos hlt, byteLen_nil, Nat.zero_add, List.nil_append, ← hbytes] at hskip
  have hstop : (((sliceFrom (front ++ (content ++ rest)) (byteLen front)).bind
      (findChar · '\n')).map (byteLen front + ·)).getD (byteLen (front ++ (content ++ rest))) =
        byteLen front + byteLen content := by
    rw [sliceFrom_append, Option.bind_some, findChar_firstLine hnl hrest]
    rcases hrest with rfl | ⟨r, rfl⟩
    · simp
    · simp
  rw [lineBounds, hskip, Option.map_some, ← hbytes, hstop]
  dsimp only
  rw [byteLen_withoutReturn]
  by_cases hreturn : content.getLast? = some '\r'
  · have hlast := (slice_last_iff front content rest).mpr hreturn
    rw [if_pos hlast, if_pos hreturn]
    have hpos := hlast.1
    congr 2
    omega
  · rw [if_neg fun hlast => hreturn ((slice_last_iff front content rest).mp hlast), if_neg hreturn]

theorem lineBounds_eq_none {text : Text} {line : Nat} (h : (lines text)[line]? = none) :
    lineBounds text line = none := by
  have hskip := skipLines_append line [] text
  rw [if_neg (Nat.not_lt.mpr (List.getElem?_eq_none_iff.mp h)), byteLen_nil,
    List.nil_append] at hskip
  rw [lineBounds, hskip, Option.map_none]

/-! ### The walk of `LineIndex` -/

theorem covered_append (utf16 : Nat) (line : Text) : ∃ r, line = covered utf16 line ++ r := by
  induction line generalizing utf16 with
  | nil => exact ⟨[], rfl⟩
  | cons c line ih =>
    unfold covered
    split
    · exact ⟨c :: line, rfl⟩
    · obtain ⟨r, hr⟩ := ih ((utf16 + lenUtf16 c) % 2 ^ 32)
      exact ⟨r, by rw [List.cons_append, ← hr]⟩

theorem withoutReturn_append (line : Text) : ∃ r, line = withoutReturn line ++ r := by
  unfold withoutReturn
  split
  · next h => exact ⟨['\r'], (List.dropLast_append_getLast? _ h).symm⟩
  · exact ⟨[], (List.append_nil line).symm⟩

/-- A line of fewer columns is covered whole. -/
theorem covered_of_lt {utf16 : Nat} {line : Text} (h : utf16 + utf16Len line < 2 ^ 32) :
    covered utf16 line = line := by
  induction line generalizing utf16 with
  | nil => rfl
  | cons c line ih =>
    have hpos := lenUtf16_pos c
    rw [utf16Len_cons] at h
    have hmod : (utf16 + lenUtf16 c) % 2 ^ 32 = utf16 + lenUtf16 c :=
      Nat.mod_eq_of_lt (by omega)
    have hne : utf16 ≠ MAX_COLUMN := by
      unfold MAX_COLUMN
      omega
    rw [covered, if_neg hne, hmod, ih (by omega)]

/-- The largest column walks over what is covered. -/
theorem advance_maxColumn {utf16 : Nat} {line : Text} (hutf16 : utf16 < 2 ^ 32)
    (hline : '\n' ∉ line) :
    LineIndex.advance MAX_COLUMN utf16 line = byteLen (covered utf16 line) := by
  induction line generalizing utf16 with
  | nil => rfl
  | cons c line ih =>
    simp only [List.mem_cons, not_or] at hline
    rw [LineIndex.advance, covered]
    by_cases hmax : utf16 = MAX_COLUMN
    · rw [if_pos (.inl (Nat.le_of_eq hmax.symm)), if_pos hmax, byteLen_nil]
    · have hgo : ¬ (utf16 ≥ MAX_COLUMN ∨ c = '\n') := by
        rintro (h | h)
        · unfold MAX_COLUMN at h hmax
          omega
        · exact hline.1 h.symm
      rw [if_neg hgo, if_neg hmax, byteLen_cons, ih (Nat.mod_lt _ (Nat.two_pow_pos 32)) hline.2]

/-! ### Line terminators -/

/-- Where a text is cut inside a `\r\n`, it is cut before a newline. -/
theorem insideCrlf_cut {front line s r rest : Text} (hfront : LineFront front)
    (hline : line = s ++ r) (hnl : '\n' ∉ line) (hrest : LineRest rest) :
    InsideCrlf (front ++ (line ++ rest)) (byteLen front + byteLen s) ↔
      r = [] ∧ rest ≠ [] ∧ line.getLast? = some '\r' := by
  subst hline
  constructor
  · rintro ⟨before, after, htext, hbyte⟩
    have hsize : byteLen ['\r'] = 1 := by decide
    have hcut : front ++ s ++ (r ++ rest) = before ++ ['\r'] ++ '\n' :: after := by
      simpa using htext
    have hlen : byteLen (front ++ s) = byteLen (before ++ ['\r']) := by
      rw [byteLen_append, byteLen_append, hsize, hbyte]
    have hsame := eq_of_byteLen_eq hcut hlen
    have hafter : r ++ rest = '\n' :: after := by
      rw [hsame] at hcut
      exact List.append_cancel_left hcut
    have hr : r = [] := by
      cases r with
      | nil => rfl
      | cons c r =>
        obtain ⟨rfl, -⟩ := List.cons.inj hafter
        exact absurd (List.mem_append_right s List.mem_cons_self) hnl
    subst hr
    refine ⟨rfl, ?_, ?_⟩
    · rintro rfl
      cases hafter
    · rcases List.eq_nil_or_concat s with rfl | ⟨l, c, rfl⟩
      · -- A front does not end in a carriage return.
        rw [List.append_nil] at hsame
        rcases hfront with rfl | ⟨f, rfl⟩
        · cases before <;> cases hsame
        · obtain ⟨-, hc⟩ := List.append_inj' hsame rfl
          cases List.singleton_inj.mp hc
      · rw [List.concat_eq_append, ← List.append_assoc] at hsame
        obtain ⟨-, hc⟩ := List.append_inj' hsame rfl
        rw [List.append_nil, List.concat_eq_append, List.singleton_inj.mp hc]
        exact List.getLast?_concat ..
  · rintro ⟨rfl, hne, hreturn⟩
    obtain ⟨before, hbefore⟩ := getLast?_iff.mp hreturn
    rw [List.append_nil] at hbefore
    subst hbefore
    rcases hrest with rfl | ⟨after, rfl⟩
    · exact absurd rfl hne
    · refine ⟨front ++ before, after, by simp, ?_⟩
      simp only [byteLen_append]
      rfl

theorem not_insideCrlf_byteLen (text : Text) : ¬ InsideCrlf text (byteLen text) := by
  rintro ⟨before, after, rfl, hbyte⟩
  have hsize : byteLen ('\r' :: '\n' :: after) = byteLen after + 2 := by
    rw [byteLen_cons, byteLen_cons, show ('\r' : Char).utf8Size = 1 by decide,
      show ('\n' : Char).utf8Size = 1 by decide]
    omega
  rw [byteLen_append, hsize] at hbyte
  omega

theorem byteLen_withoutReturn_lt {line : Text} (h : line.getLast? = some '\r') :
    byteLen (withoutReturn line) < byteLen line := by
  obtain ⟨before, rfl⟩ := getLast?_iff.mp h
  have hsize : byteLen ['\r'] = 1 := by decide
  rw [byteLen_withoutReturn, if_pos h, byteLen_append, hsize]
  omega

/-- The walk along a line stops at a character boundary. -/
theorem exists_advance (character utf16 : Nat) (line : Text) : ∃ s r, line = s ++ r ∧
    LineIndex.advance character utf16 line = byteLen s := by
  induction line generalizing utf16 with
  | nil => exact ⟨[], [], rfl, rfl⟩
  | cons c line ih =>
    rw [LineIndex.advance]
    split
    · exact ⟨[], c :: line, rfl, rfl⟩
    · obtain ⟨s, r, hline, hadvance⟩ := ih ((utf16 + lenUtf16 c) % 2 ^ 32)
      refine ⟨c :: s, r, ?_, ?_⟩
      · rw [List.cons_append, ← hline]
      · rw [byteLen_cons, hadvance]

/-! ### Where the two agree -/

/-- The edit of a new line is on that line. -/
theorem range_newlineIndentation {text : Text} {lexed : List LexedToken} {line : Nat}
    {options : FormattingOptions} {edit : TextEdit}
    (h : newlineIndentation text lexed line options = some edit) :
    edit.range.start = ⟨line, 0⟩ ∧ ∃ character < 2 ^ 32, edit.range.stop = ⟨line, character⟩ := by
  unfold newlineIndentation at h
  split at h
  · cases h
  · split at h
    · dsimp only at h
      split at h
      · cases h
      · cases h
        exact ⟨rfl, _, Nat.mod_lt _ (Nat.two_pow_pos 32), rfl⟩
    · cases h

theorem linesAgree_of_cursor {text : Text} {line : Nat}
    (hnumbered : lineBounds text line = none ↔ (LineIndex.new text).lineStarts[line]? = none)
    (hbounds : ∀ start stop, lineBounds text line = some (start, stop) →
      (LineIndex.new text).offset ⟨line, 0⟩ = start ∧
        (LineIndex.new text).offset ⟨line, MAX_COLUMN⟩ = stop ∧
        ∃ content, slice text start stop = some content ∧ '\n' ∉ content)
    (hcursor : ∀ character < 2 ^ 32,
      ¬ InsideCrlf text ((LineIndex.new text).offset ⟨line, character⟩)) :
    LinesAgree text line where
  numbered := hnumbered
  bounds := by
    intro start stop hsome
    obtain ⟨hstart, hstop, -⟩ := hbounds start stop hsome
    exact ⟨hstart, hstop⟩
  excluded := by
    intro start stop hsome
    obtain ⟨-, hstop, hcontent⟩ := hbounds start stop hsome
    refine ⟨hcontent, ?_⟩
    rw [← hstop]
    apply hcursor
    decide
  cursor := hcursor
  edit := by
    intro lexed options edit hedit
    obtain ⟨hstart, character, hlt, hstop⟩ := range_newlineIndentation hedit
    rw [hstart, hstop]
    exact ⟨hcursor 0 (by decide), hcursor character hlt⟩

theorem lineStarts_eq_none_iff {text : Text} {line : Nat} :
    (LineIndex.new text).lineStarts[line]? = none ↔ (lines text)[line]? = none := by
  rw [List.getElem?_eq_none_iff, List.getElem?_eq_none_iff, length_lines]
  simp [LineIndex.new]

/-- The two scanners agree on a line if and only if `offset` covers it up to the carriage
return, if any, that it ends in. -/
theorem linesAgree_iff (text : Text) (line : Nat) :
    LinesAgree text line ↔ ∀ content, (lines text)[line]? = some content →
      covered 0 content = withoutReturn content := by
  cases hline : (lines text)[line]? with
  | none =>
    refine ⟨fun _ _ hsome => (nomatch hsome), fun _ => ?_⟩
    have hnone := lineBounds_eq_none hline
    apply linesAgree_of_cursor
    · exact ⟨fun _ => lineStarts_eq_none_iff.mpr hline, fun _ => hnone⟩
    · intro start stop hsome
      rw [hnone] at hsome
      cases hsome
    · intro character _
      rw [LineIndex.offset_of_lines_eq_none hline]
      exact not_insideCrlf_byteLen text
  | some content =>
    have hbounds := lineBounds_of_lines hline
    obtain ⟨front, rest, rfl, hnl, hfront, hrest, hcount, hbytes⟩ := exists_of_lines hline
    have hoffset (character : Nat) :
        (LineIndex.new (front ++ (content ++ rest))).offset ⟨line, character⟩ =
          byteLen front + LineIndex.advance character 0 content := by
      rw [← hcount]
      exact LineIndex.offset_line hfront hnl hrest character
    have hmax := advance_maxColumn (Nat.two_pow_pos 32) hnl
    rw [← hbytes] at hbounds
    obtain ⟨r, hcovered⟩ := covered_append 0 content
    obtain ⟨r', hwithout⟩ := withoutReturn_append content
    constructor
    · rintro hagree _ ⟨⟩
      obtain ⟨-, hstop⟩ := hagree.bounds _ _ hbounds
      rw [hoffset, hmax] at hstop
      apply eq_of_byteLen_eq (hcovered.symm.trans hwithout)
      omega
    · intro h
      have hsame := h content rfl
      apply linesAgree_of_cursor
      · rw [hbounds, lineStarts_eq_none_iff, hline]
        exact ⟨nofun, nofun⟩
      · intro start stop hsome
        rw [hbounds] at hsome
        cases hsome
        refine ⟨?_, ?_, withoutReturn content, ?_, ?_⟩
        · rw [hoffset, LineIndex.advance_of_le _ (Nat.le_refl 0), Nat.add_zero]
        · rw [hoffset, hmax, hsame]
        · have hslice := slice_append front (withoutReturn content) (r' ++ rest)
          rwa [← List.append_assoc (withoutReturn content), ← hwithout] at hslice
        · intro hmem
          apply hnl
          rw [hwithout]
          exact List.mem_append_left r' hmem
      · intro character hlt hinside
        rw [hoffset] at hinside
        obtain ⟨s, t, hst, hadvance⟩ := exists_advance character 0 content
        rw [hadvance] at hinside
        obtain ⟨rfl, -, hreturn⟩ := (insideCrlf_cut hfront hst hnl hrest).mp hinside
        -- The whole line is walked over, and so is no more than is covered.
        have hle : LineIndex.advance character 0 content ≤ byteLen (covered 0 content) := by
          rw [← hmax]
          apply LineIndex.advance_mono
          unfold MAX_COLUMN
          omega
        have hshort := byteLen_withoutReturn_lt hreturn
        rw [List.append_nil] at hst
        rw [hadvance, hsame, ← hst] at hle
        omega

/-- A line that ends in `\r\n`. -/
theorem not_linesAgree_crlf : ¬ LinesAgree ['a', '\r', '\n', 'b'] 0 := by
  intro hagree
  obtain ⟨-, hstop⟩ := hagree.bounds 0 1 (by decide)
  exact absurd hstop (by decide)

end MarrowLsp
