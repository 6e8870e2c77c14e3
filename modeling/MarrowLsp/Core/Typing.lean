-- SUMMARY: What the edits of indentation and of formatting do to the text: the one rewrites the blanks that a new line starts with, so that while a program is typed every line stands at the depth of its block, the other replaces all of the text (indentation.rs, formatting.rs, backend.rs).
import MarrowLsp.Core.Indentation

/-!
# Typing a program

On Enter the editor asks for the indentation of the new line and applies the edit it gets.
The indentations that come of it are a number of units each, and the number is counted from
the tokens of the lines before: one more after a line that opens a block, one less after a
line that leaves it.
-/
namespace MarrowLsp

open Utf8

/-- The text after an edit. -/
def editedText (text : Text) (edit : TextEdit) : Option Text := do
  let before ← slice text 0 ((LineIndex.new text).offset edit.range.start)
  let after ← sliceFrom text ((LineIndex.new text).offset edit.range.stop)
  some (before ++ edit.newText ++ after)

/-- The text after the indentation of one of its lines was asked for. -/
def reindented (text : Text) (lexed : List LexedToken) (line : Nat) (options : FormattingOptions) :
    Option Text :=
  match newlineIndentation text lexed line options with
  | none => some text
  | some edit => editedText text edit

/-! ## One line -/

theorem eq_nil_of_lineFront {front x : Text} (h : LineFront (front ++ x))
    (hx : x.count '\n' = 0) : x = [] := by
  rcases List.eq_nil_or_concat x with rfl | ⟨l, c, rfl⟩
  · rfl
  · rcases h with hnil | ⟨f, hf⟩
    · simp at hnil
    · rw [List.concat_eq_append, ← List.append_assoc] at hf
      obtain ⟨-, hc⟩ := List.append_inj' hf rfl
      rw [List.concat_eq_append, hc] at hx
      simp at hx

section Cut

variable {front line rest : Text}

/-- A line starts where the text before it ends. -/
theorem lineStart_count (hfront : LineFront front) (hline : '\n' ∉ line) (hrest : LineRest rest) :
    lineStart (front ++ (line ++ rest)) (front.count '\n') = byteLen front := by
  obtain ⟨front', rest', htext, -, hfront', -, hcount, hbytes⟩ :=
    exists_of_lines (lines_getElem_count hfront hline hrest)
  rw [← hbytes]
  -- Of two fronts, one begins the other, and they have the same newlines.
  rcases List.append_eq_append_iff.mp htext with ⟨x, rfl, -⟩ | ⟨x, rfl, -⟩
  · rw [List.count_append] at hcount
    rw [eq_nil_of_lineFront hfront' (by omega), List.append_nil]
  · rw [List.count_append] at hcount
    rw [eq_nil_of_lineFront hfront (by omega), List.append_nil]

theorem lineBounds_count (hfront : LineFront front) (hline : '\n' ∉ line) (hrest : LineRest rest) :
    lineBounds (front ++ (line ++ rest)) (front.count '\n') =
      some (byteLen front, byteLen front + byteLen (withoutReturn line)) := by
  rw [lineBounds_of_lines (lines_getElem_count hfront hline hrest),
    lineStart_count hfront hline hrest]

theorem takeWhile_withoutReturn (line : Text) :
    (withoutReturn line).takeWhile isIndent = line.takeWhile isIndent := by
  unfold withoutReturn
  split
  · next h =>
    obtain ⟨before, rfl⟩ := getLast?_iff.mp h
    rw [List.dropLast_concat]
    induction before with
    | nil => rfl
    | cons c before ih =>
      rw [List.cons_append, List.takeWhile_cons, List.takeWhile_cons]
      split
      · rw [ih (List.getLast?_concat ..)]
      · rfl
  · rfl

theorem leadingIndent_count (front line rest : Text) :
    leadingIndent (front ++ (line ++ rest)) (byteLen front)
        (byteLen front + byteLen (withoutReturn line)) = line.takeWhile isIndent := by
  obtain ⟨r, hr⟩ := withoutReturn_append line
  have hslice := slice_append front (withoutReturn line) (r ++ rest)
  rw [← List.append_assoc (withoutReturn line), ← hr] at hslice
  rw [leadingIndent, hslice, Option.getD_some, takeWhile_withoutReturn]

end Cut

/-! ### The edit -/

theorem isIndent_iff {c : Char} : isIndent c = true ↔ c = ' ' ∨ c = '\t' := by simp [isIndent]

theorem newline_not_mem_of_blank {blanks : Text} (h : ∀ c ∈ blanks, isIndent c = true) :
    '\n' ∉ blanks := fun hmem => absurd (h _ hmem) (by decide)

theorem newline_not_mem_line {blanks content : Text} (hblank : ∀ c ∈ blanks, isIndent c = true)
    (hcontent : '\n' ∉ content) : '\n' ∉ blanks ++ content := by
  rw [List.mem_append]
  exact fun h => h.elim (newline_not_mem_of_blank hblank) hcontent

/-- A blank takes one byte and one column. -/
theorem sizes_of_blank {blanks : Text} (h : ∀ c ∈ blanks, isIndent c = true) :
    byteLen blanks = blanks.length ∧ utf16Len blanks = blanks.length := by
  induction blanks with
  | nil => exact ⟨rfl, rfl⟩
  | cons c blanks ih =>
    obtain ⟨hbytes, hcolumns⟩ := ih fun c hc => h c (List.mem_cons_of_mem _ hc)
    have hone : c.utf8Size = 1 ∧ lenUtf16 c = 1 := by
      rcases isIndent_iff.mp (h c List.mem_cons_self) with rfl | rfl <;> decide
    rw [byteLen_cons, utf16Len_cons, hbytes, hcolumns, hone.1, hone.2, List.length_cons]
    exact ⟨Nat.add_comm .., Nat.add_comm ..⟩

/-- The rest of a line after the blanks that it starts with. -/
def Unindented (content : Text) : Prop := ∀ c ∈ content.head?, isIndent c = false

theorem takeWhile_indent {blanks content : Text} (hblank : ∀ c ∈ blanks, isIndent c = true)
    (hcontent : Unindented content) : (blanks ++ content).takeWhile isIndent = blanks := by
  rw [List.takeWhile_append_of_pos hblank]
  cases content with
  | nil => exact List.append_nil blanks
  | cons c content =>
    rw [List.takeWhile_cons, hcontent c rfl, if_neg Bool.false_ne_true, List.append_nil]

/-- An edit of the columns before one of the same line. -/
theorem editedText_count {front blanks content rest : Text} (newText : Text)
    (hfront : LineFront front) (hblank : ∀ c ∈ blanks, isIndent c = true)
    (hline : '\n' ∉ content) (hrest : LineRest rest) (hshort : blanks.length < 2 ^ 32) :
    editedText (front ++ (blanks ++ content ++ rest))
        ⟨⟨⟨front.count '\n', 0⟩, ⟨front.count '\n', blanks.length⟩⟩, newText⟩ =
      some (front ++ (newText ++ (content ++ rest))) := by
  obtain ⟨hbytes, hcolumns⟩ := sizes_of_blank hblank
  have hwhole := newline_not_mem_line hblank hline
  have hstart : (LineIndex.new (front ++ (blanks ++ content ++ rest))).offset
      ⟨front.count '\n', 0⟩ = byteLen front := by
    rw [LineIndex.offset_line hfront hwhole hrest, LineIndex.advance_of_le _ (Nat.le_refl 0),
      Nat.add_zero]
  have hstop : (LineIndex.new (front ++ (blanks ++ content ++ rest))).offset
      ⟨front.count '\n', blanks.length⟩ = byteLen (front ++ blanks) := by
    have hwalk := LineIndex.advance_column content (newline_not_mem_of_blank hblank)
      (show 0 + utf16Len blanks < 2 ^ 32 by omega)
    rw [Nat.zero_add, hcolumns] at hwalk
    rw [LineIndex.offset_line hfront hwhole hrest, hwalk, byteLen_append]
  have hbefore : slice (front ++ (blanks ++ content ++ rest)) 0 (byteLen front) = some front := by
    have h := slice_append [] front (blanks ++ content ++ rest)
    rwa [List.nil_append, byteLen_nil, Nat.zero_add] at h
  have hafter : sliceFrom (front ++ (blanks ++ content ++ rest)) (byteLen (front ++ blanks)) =
      some (content ++ rest) := by
    have h := sliceFrom_append (front ++ blanks) (content ++ rest)
    rwa [List.append_assoc, ← List.append_assoc blanks] at h
  rw [editedText, hstart, hstop, hbefore, hafter]
  simp

/-- The indentation that a text asks for below one of its lines. -/
def desiredBelow (lexed : List LexedToken) (front previous : Text) (options : FormattingOptions) :
    Text :=
  desiredIndent (previous.takeWhile isIndent)
    (significantLineTokens lexed (byteLen front) (byteLen front + byteLen (withoutReturn previous)))
    options

theorem lineFront_below (front previous : Text) : LineFront (front ++ (previous ++ ['\n'])) :=
  .inr ⟨front ++ previous, (List.append_assoc ..).symm⟩

theorem count_below (front : Text) {previous : Text} (hprevious : '\n' ∉ previous) :
    (front ++ (previous ++ ['\n'])).count '\n' = front.count '\n' + 1 := by
  rw [List.count_append, List.count_append, List.count_eq_zero.mpr hprevious]
  rfl

section Below

variable {front previous line rest : Text} (lexed : List LexedToken) (options : FormattingOptions)

theorem newlineIndentation_below (hfront : LineFront front) (hprevious : '\n' ∉ previous)
    (hline : '\n' ∉ line) (hrest : LineRest rest) :
    newlineIndentation (front ++ (previous ++ '\n' :: (line ++ rest))) lexed
        (front.count '\n' + 1) options =
      if line.takeWhile isIndent = desiredBelow lexed front previous options then none
      else some ⟨⟨⟨front.count '\n' + 1, 0⟩,
        ⟨front.count '\n' + 1, (line.takeWhile isIndent).length % 2 ^ 32⟩⟩,
        desiredBelow lexed front previous options⟩ := by
  have habove := lineBounds_count hfront hprevious (.inr ⟨line ++ rest, rfl⟩)
  have hindent := leadingIndent_count front previous ('\n' :: (line ++ rest))
  -- The line itself, after a front that ends in the newline.
  have hassoc : front ++ (previous ++ ['\n']) ++ (line ++ rest) =
      front ++ (previous ++ '\n' :: (line ++ rest)) := by simp
  have hbelow := lineBounds_count (lineFront_below front previous) hline hrest
  have hcurrent := leadingIndent_count (front ++ (previous ++ ['\n'])) line rest
  rw [count_below front hprevious, hassoc] at hbelow
  rw [hassoc] at hcurrent
  rw [newlineIndentation, if_neg (Nat.succ_ne_zero _), Nat.add_sub_cancel, habove, hbelow]
  dsimp only
  rw [leadingIndentEnd, hindent, hcurrent, Nat.add_sub_cancel_left]
  rfl

variable {blanks content : Text}

/-- Whatever the line starts with, the edit replaces its blanks by those asked for, and
nothing else. -/
theorem reindented_below (hfront : LineFront front) (hprevious : '\n' ∉ previous)
    (hblank : ∀ c ∈ blanks, isIndent c = true) (hcontent : Unindented content)
    (hline : '\n' ∉ content) (hrest : LineRest rest) (hshort : blanks.length < 2 ^ 32) :
    reindented (front ++ (previous ++ '\n' :: (blanks ++ content ++ rest))) lexed
        (front.count '\n' + 1) options =
      some (front ++ (previous ++ '\n' ::
        (desiredBelow lexed front previous options ++ (content ++ rest)))) := by
  have hwhole := newline_not_mem_line hblank hline
  have hasked := newlineIndentation_below lexed options hfront hprevious hwhole hrest
  rw [takeWhile_indent hblank hcontent, Nat.mod_eq_of_lt hshort] at hasked
  by_cases hsame : blanks = desiredBelow lexed front previous options
  · rw [if_pos hsame] at hasked
    rw [reindented, hasked, ← hsame, List.append_assoc]
  · rw [if_neg hsame] at hasked
    have hedited := editedText_count (desiredBelow lexed front previous options)
      (lineFront_below front previous) hblank hline hrest hshort
    rw [count_below front hprevious] at hedited
    rw [reindented, hasked]
    simpa using hedited

end Below

/-! ## A whole document -/

/-- The edit that formats a text, where it parses and is not formatted yet. -/
def formatting (formatSource : Text → Text) (hasErrors : Bool) (text : Text) : Option TextEdit :=
  if hasErrors then none
  else
    let formatted := formatSource text
    if formatted = text then none
    else some ⟨⟨⟨0, 0⟩, (LineIndex.new text).position (byteLen text)⟩, formatted⟩

theorem offset_start (text : Text) : (LineIndex.new text).offset ⟨0, 0⟩ = 0 := by
  obtain ⟨line, rest, rfl, hline, hrest⟩ := exists_firstLine text
  have hoffset := LineIndex.offset_line (.inl rfl) hline hrest 0
  rwa [List.count_nil, List.nil_append, LineIndex.advance_of_le _ (Nat.le_refl 0)] at hoffset

theorem offset_end {text : Text} (hsmall : utf16Len text < 2 ^ 32) :
    (LineIndex.new text).offset ((LineIndex.new text).position (byteLen text)) = byteLen text := by
  have hend : isCharBoundary text (byteLen text) = true :=
    isCharBoundary_iff.mpr ⟨text, [], (List.append_nil text).symm, rfl⟩
  rw [LineIndex.offset_position hsmall, Nat.min_self, floorCharBoundary_of_boundary hend]

/-- The edit leaves what the formatter makes of the text, and nothing of the text itself. -/
theorem editedText_formatting {formatSource : Text → Text} {hasErrors : Bool} {text : Text}
    (hsmall : utf16Len text < 2 ^ 32) {edit : TextEdit}
    (h : formatting formatSource hasErrors text = some edit) :
    editedText text edit = some (formatSource text) := by
  unfold formatting at h
  split at h
  · cases h
  · dsimp only at h
    split at h
    · cases h
    · cases h
      have hbefore : slice text 0 0 = some [] := slice_append [] [] text
      have hafter : sliceFrom text (byteLen text) = some [] := by
        have hcut := sliceFrom_append text []
        rwa [List.append_nil] at hcut
      rw [editedText, offset_start, offset_end hsmall, hbefore, hafter]
      simp

theorem editedText_formatting_tabs :
    editedText ['\t', 'x', '\r', '\n'] ⟨⟨⟨0, 0⟩, ⟨1, 0⟩⟩, ['x', '\n']⟩ = some ['x', '\n'] :=
  @editedText_formatting (fun _ => ['x', '\n']) false _ (by decide) _ (by decide)

/-! ## Depth -/

/-- The depth of the line below one at a depth. -/
def depthBelow (tokens : List TokenKind) (depth : Nat) : Nat :=
  if isTerminator tokens then depth - 1 else if isBlockStarter tokens then depth + 1 else depth

/-- The indentation of a depth. -/
def indentOf (options : FormattingOptions) (depth : Nat) : Text :=
  (List.replicate depth (indentUnit options)).flatten

section Units

variable (options : FormattingOptions)

theorem indentOf_succ (depth : Nat) :
    indentOf options (depth + 1) = indentOf options depth ++ indentUnit options := by
  rw [indentOf, List.replicate_succ', List.flatten_append, List.flatten_singleton]
  rfl

theorem blank_indentUnit : ∀ c ∈ indentUnit options, isIndent c = true := by
  intro c hc
  unfold indentUnit at hc
  split at hc
  · exact isIndent_iff.mpr (.inl (List.eq_of_mem_replicate hc))
  · exact isIndent_iff.mpr (.inr (List.mem_singleton.mp hc))

theorem blank_indentOf (depth : Nat) : ∀ c ∈ indentOf options depth, isIndent c = true := by
  induction depth with
  | zero => nofun
  | succ depth ih =>
    intro c hc
    rw [indentOf_succ, List.mem_append] at hc
    exact hc.elim (ih c) (blank_indentUnit options c)

theorem cutIndent_replicate (n : Nat) (indent : Text) :
    cutIndent n (List.replicate n ' ' ++ indent) = indent := by
  induction n with
  | zero => rw [List.replicate_zero, List.nil_append, cutIndent.eq_def]
  | succ n ih => rw [List.replicate_succ, List.cons_append, cutIndent, ih]

/-- One unit less takes back one unit more. -/
theorem outdented_append_indentUnit (indent : Text) :
    outdented (indent ++ indentUnit options) options = indent := by
  unfold outdented
  cases hspaces : options.insertSpaces with
  | false =>
    have hunit : indentUnit options = ['\t'] := by rw [indentUnit, hspaces]; rfl
    rw [hunit, List.reverse_append]
    exact List.reverse_reverse indent
  | true =>
    have hunit : indentUnit options = List.replicate (tabSize options) ' ' := by
      rw [indentUnit, hspaces]
      rfl
    rw [hunit, List.reverse_append, List.reverse_replicate]
    dsimp only
    rw [cutIndent_replicate, List.reverse_reverse]

theorem cutIndent_append (n : Nat) (indent : Text) : ∃ cut, indent = cut ++ cutIndent n indent := by
  induction n, indent using cutIndent.induct with
  | case1 n indent ih =>
    obtain ⟨cut, hcut⟩ := ih
    exact ⟨' ' :: cut, by rw [cutIndent, List.cons_append, ← hcut]⟩
  | case2 n indent => exact ⟨['\t'], rfl⟩
  | case3 n indent hspace htab => exact ⟨[], by rw [cutIndent]; exacts [rfl, hspace, htab]⟩

/-- What is taken back is the end of the indentation. -/
theorem outdented_append (indent : Text) : ∃ cut, indent = outdented indent options ++ cut := by
  unfold outdented
  split
  · next stripped hreverse =>
    refine ⟨['\t'], ?_⟩
    rw [← List.reverse_cons, ← hreverse, List.reverse_reverse]
  · obtain ⟨cut, hcut⟩ := cutIndent_append (tabSize options) indent.reverse
    refine ⟨cut.reverse, ?_⟩
    rw [← List.reverse_append, ← hcut, List.reverse_reverse]

theorem outdented_nil : outdented [] options = [] := by
  obtain ⟨cut, hcut⟩ := outdented_append options []
  exact (List.append_eq_nil_iff.mp hcut.symm).1

theorem blank_desiredIndent {indent : Text} (tokens : List TokenKind)
    (hindent : ∀ c ∈ indent, isIndent c = true) :
    ∀ c ∈ desiredIndent indent tokens options, isIndent c = true := by
  intro c hc
  unfold desiredIndent at hc
  split at hc
  · exact hindent c hc
  · split at hc
    · obtain ⟨cut, hcut⟩ := outdented_append options indent
      exact hindent c (hcut ▸ List.mem_append_left cut hc)
    · split at hc
      · rw [List.mem_append] at hc
        exact hc.elim (hindent c) (blank_indentUnit options c)
      · exact hindent c hc

/-- The indentations are the depths. -/
theorem desiredIndent_indentOf (depth : Nat) (tokens : List TokenKind) :
    desiredIndent (indentOf options depth) tokens options =
      indentOf options (depthBelow tokens depth) := by
  unfold desiredIndent depthBelow
  cases tokens with
  | nil => rfl
  | cons token tokens =>
    rw [if_neg (List.cons_ne_nil _ _)]
    split
    · cases depth with
      | zero => exact outdented_nil options
      | succ depth => rw [indentOf_succ, outdented_append_indentUnit, Nat.add_sub_cancel]
    · split
      · exact (indentOf_succ options depth).symm
      · rfl

end Units

/-! ## Asking again -/

theorem blank_desiredBelow (lexed : List LexedToken) (front previous : Text)
    (options : FormattingOptions) :
    ∀ c ∈ desiredBelow lexed front previous options, isIndent c = true :=
  blank_desiredIndent options _ fun _ hc => List.mem_takeWhile_imp hc

/-- A text that has a line below another, cut at both, and the second one after its blanks. -/
theorem exists_of_below {text : Text} {line : Nat} (h : line + 1 < (lines text).length) :
    ∃ front previous blanks content rest,
      text = front ++ (previous ++ '\n' :: (blanks ++ content ++ rest)) ∧ LineFront front ∧
        front.count '\n' = line ∧ '\n' ∉ previous ∧ '\n' ∉ content ∧ LineRest rest ∧
        (∀ c ∈ blanks, isIndent c = true) ∧ Unindented content ∧
        (lines text)[line + 1]? = some (blanks ++ content) := by
  obtain ⟨previous, hprevious⟩ : ∃ previous, (lines text)[line]? = some previous :=
    ⟨_, List.getElem?_eq_getElem (by omega)⟩
  obtain ⟨front, below, rfl, hnl, hfront, hbelow, rfl, -⟩ := exists_of_lines hprevious
  rcases hbelow with rfl | ⟨t, rfl⟩
  · rw [length_lines, List.append_nil, List.count_append, List.count_eq_zero.mpr hnl] at h
    omega
  · obtain ⟨current, rest, rfl, hcurrent, hrest⟩ := exists_firstLine t
    have hsplit := List.takeWhile_append_dropWhile (p := isIndent) (l := current)
    have hcontent : '\n' ∉ current.dropWhile isIndent := fun hmem =>
      hcurrent (hsplit ▸ List.mem_append_right _ hmem)
    have hline := lines_getElem_count (lineFront_below front previous) hcurrent hrest
    refine ⟨front, previous, current.takeWhile isIndent, current.dropWhile isIndent, rest, ?_,
      hfront, rfl, hnl, hcontent, hrest, fun _ hc => List.mem_takeWhile_imp hc, ?_, ?_⟩
    · rw [hsplit]
    · intro c hc
      have hnot := List.head?_dropWhile_not isIndent current
      rw [Option.mem_def.mp hc] at hnot
      exact hnot
    · rw [hsplit, ← hline, count_below front hnl]
      simp

/-- Two texts that differ at most in the blanks that a line starts with. -/
def Reblanked (text text' : Text) (line : Nat) : Prop :=
  text' = text ∨ ∃ front blanks blanks' rest, text = front ++ (blanks ++ rest) ∧
    text' = front ++ (blanks' ++ rest) ∧ LineFront front ∧ front.count '\n' = line ∧
    ∀ c ∈ blanks ++ blanks', isIndent c = true

/-- On any text and at any line the edit applies, touches the blanks of its line alone, and
when the line before it is lexed as it was, asking again gives no edit. -/
theorem reindented_settles {text : Text} {line : Nat} (lexed lexed' : List LexedToken)
    (options : FormattingOptions)
    (hshort : ∀ content ∈ (lines text)[line]?, (content.takeWhile isIndent).length < 2 ^ 32)
    (hsame : ∀ start stop, lineBounds text (line - 1) = some (start, stop) →
      significantLineTokens lexed' start stop = significantLineTokens lexed start stop) :
    ∃ text', reindented text lexed line options = some text' ∧
      newlineIndentation text' lexed' line options = none ∧ Reblanked text text' line := by
  have hnone (h : ∀ lexed, newlineIndentation text lexed line options = none) :
      ∃ text', reindented text lexed line options = some text' ∧
        newlineIndentation text' lexed' line options = none ∧ Reblanked text text' line :=
    ⟨text, by rw [reindented, h], h lexed', .inl rfl⟩
  cases line with
  | zero => exact hnone fun _ => rfl
  | succ line =>
    by_cases hbelow : line + 1 < (lines text).length
    · obtain ⟨front, previous, blanks, content, rest, rfl, hfront, rfl, hprevious, hcontent, hrest,
        hblank, hunindented, hline⟩ := exists_of_below hbelow
      have hfew := hshort _ hline
      rw [takeWhile_indent hblank hunindented] at hfew
      have hdesired := blank_desiredBelow lexed front previous options
      refine ⟨_, reindented_below lexed options hfront hprevious hblank hunindented hcontent hrest
        hfew, ?_, ?_⟩
      · -- The line before stands where it stood, and asks for what the line has now.
        have hbounds := lineBounds_count hfront hprevious (.inr ⟨blanks ++ content ++ rest, rfl⟩)
        have hagain : desiredBelow lexed' front previous options =
            desiredBelow lexed front previous options := by
          rw [desiredBelow, hsame _ _ hbounds, desiredBelow]
        have hwhole := newline_not_mem_line hdesired hcontent
        rw [← List.append_assoc (desiredBelow lexed front previous options),
          newlineIndentation_below lexed' options hfront hprevious hwhole hrest,
          takeWhile_indent hdesired hunindented, hagain, if_pos rfl]
      · refine .inr ⟨front ++ (previous ++ ['\n']), blanks,
          desiredBelow lexed front previous options, content ++ rest, by simp, by simp,
          lineFront_below front previous, count_below front hprevious, ?_⟩
        intro c hc
        rw [List.mem_append] at hc
        exact hc.elim (hblank c) (hdesired c)
    · apply hnone
      intro lexed
      have hbeyond : lineBounds text (line + 1) = none :=
        lineBounds_eq_none (List.getElem?_eq_none_iff.mpr (Nat.le_of_not_lt hbelow))
      rw [newlineIndentation, if_neg (Nat.succ_ne_zero _), hbeyond]
      cases lineBounds text (line + 1 - 1) <;> rfl

/-- A line below a function's head, over-indented. -/
theorem reindented_settles_fn : ∃ text',
    reindented ['f', 'n', '\n', '\t', '\t', 'x'] [⟨0, .keyword .fn⟩] 1 ⟨2, true⟩ =
      some text' ∧
      newlineIndentation text' [⟨0, .keyword .fn⟩] 1 ⟨2, true⟩ = none ∧
      Reblanked ['f', 'n', '\n', '\t', '\t', 'x'] text' 1 :=
  reindented_settles _ _ _ (by decide) fun _ _ _ => rfl

/-! ## Typing -/

/-- A line as it is typed: the blanks that the editor carries over from the line before, and
what follows the indentation. -/
structure TypedLine where
  carried : Text
  content : Text
  blank : ∀ c ∈ carried, isIndent c = true
  short : carried.length < 2 ^ 32
  unindented : Unindented content
  oneLine : '\n' ∉ content

/-- A text that ends in a line at a depth. -/
def EndsAt (options : FormattingOptions) (depth : Nat) (text : Text) : Prop :=
  ∃ front content, text = front ++ (indentOf options depth ++ content) ∧ LineFront front ∧
    Unindented content ∧ '\n' ∉ content

section Typing

variable (lex : Text → List LexedToken) (options : FormattingOptions)

/-- The text after Enter at its end. -/
def enterLine (text : Text) (typed : TypedLine) : Text := text ++ '\n' :: typed.carried

/-- Enter at the end of the text, the indentation of the new line, and what is typed on it. -/
def typeLine (text : Text) (typed : TypedLine) : Option Text :=
  (reindented (enterLine text typed) (lex (enterLine text typed)) (text.count '\n' + 1) options).map
    (· ++ typed.content)

/-- What the lexer reports of the line before the new one. -/
def reportedAbove (text : Text) (typed : TypedLine) : List TokenKind :=
  match lineBounds (enterLine text typed) (text.count '\n') with
  | some (start, stop) => significantLineTokens (lex (enterLine text typed)) start stop
  | none => []

/-- A typed line at its depth. -/
def rowText (depth : Nat) (content : Text) : Text := '\n' :: (indentOf options depth ++ content)

/-- The typed lines at their depths, each counted from what was reported of the line before. -/
def rowsBelow : Text → Nat → List TypedLine → Text
  | _, _, [] => []
  | text, depth, typed :: later =>
    let below := depthBelow (reportedAbove lex text typed) depth
    let row := rowText options below typed.content
    row ++ rowsBelow (text ++ row) below later

variable {options}

/-- A line typed below one at a depth stands at the depth below. -/
theorem typeLine_of_endsAt {depth : Nat} {text : Text} (h : EndsAt options depth text)
    (typed : TypedLine) : typeLine lex options text typed =
      some (text ++
        rowText options (depthBelow (reportedAbove lex text typed) depth) typed.content) := by
  obtain ⟨front, content, htext, hfront, hcontent, hline⟩ := h
  have hblank := blank_indentOf options depth
  have hprevious := newline_not_mem_line hblank hline
  have hcount : text.count '\n' = front.count '\n' := by
    rw [htext, List.count_append, List.count_eq_zero.mpr hprevious, Nat.add_zero]
  have hentered : enterLine text typed =
      front ++ (indentOf options depth ++ content ++ '\n' :: (typed.carried ++ [] ++ [])) := by
    simp [enterLine, htext]
  have hbounds := lineBounds_count hfront hprevious (.inr ⟨typed.carried ++ [] ++ [], rfl⟩)
  have hreported : reportedAbove lex text typed =
      significantLineTokens (lex (enterLine text typed)) (byteLen front)
        (byteLen front + byteLen (withoutReturn (indentOf options depth ++ content))) := by
    rw [reportedAbove, hcount, hentered, hbounds]
  have hdesired : desiredBelow (lex (enterLine text typed)) front
      (indentOf options depth ++ content) options =
        indentOf options (depthBelow (reportedAbove lex text typed) depth) := by
    rw [desiredBelow, takeWhile_indent hblank hcontent, ← hreported, desiredIndent_indentOf]
  have hreindented := @reindented_below front _ [] (lex (enterLine text typed)) options _ [] hfront
    hprevious typed.blank nofun nofun (.inl rfl) typed.short
  rw [hdesired, ← hentered] at hreindented
  rw [typeLine, hcount, hreindented]
  simp [rowText, htext]

theorem endsAt_row {depth : Nat} (text : Text) (typed : TypedLine) :
    EndsAt options depth (text ++ rowText options depth typed.content) :=
  ⟨text ++ ['\n'], typed.content, by simp [rowText], .inr ⟨text, rfl⟩, typed.unindented,
    typed.oneLine⟩

/-- Whatever is typed, whatever the lexer makes of it and whatever blanks the editor carries
over: every line comes to stand at its depth, and no other line is touched. -/
theorem typed_lines_stand_at_depth {depth : Nat} {text : Text} (h : EndsAt options depth text)
    (typed : List TypedLine) :
    typed.foldlM (typeLine lex options) text =
      some (text ++ rowsBelow lex options text depth typed) := by
  induction typed generalizing depth text with
  | nil => rw [rowsBelow, List.append_nil]; rfl
  | cons line typed ih =>
    have hline := typeLine_of_endsAt lex h line
    rw [List.foldlM_cons, hline]
    dsimp only [Option.bind_eq_bind, Option.bind_some]
    rw [ih (endsAt_row text line), rowsBelow, List.append_assoc]

end Typing

namespace Sample

/-- A lexer that knows one keyword, at the start of the text. -/
def lexFn (text : Text) : List LexedToken :=
  if text.take 2 = ['f', 'n'] then [⟨0, .keyword .fn⟩] else []

def spaces : FormattingOptions := ⟨2, true⟩

def statementLine : TypedLine :=
  ⟨['\t'], ['x'], by simp [isIndent], by decide, by rintro _ ⟨⟩; rfl, by decide⟩

end Sample

open Sample in
/-- Two statements typed below a function's head. -/
theorem typed_lines_stand_at_depth_fn :
    [statementLine, statementLine].foldlM (typeLine lexFn spaces) ['f', 'n'] =
      some ['f', 'n', '\n', ' ', ' ', 'x', '\n', ' ', ' ', 'x'] := by
  have hhead : EndsAt spaces 0 ['f', 'n'] :=
    ⟨[], ['f', 'n'], rfl, .inl rfl, by rintro _ ⟨⟩; rfl, by decide⟩
  rw [typed_lines_stand_at_depth lexFn hhead]
  decide

end MarrowLsp
