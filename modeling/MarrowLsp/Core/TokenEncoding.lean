-- SUMMARY: The encoding of semantic token facts as deltas, and that decoding gives each fact back at its line and column (semantic_tokens/encoding.rs).
import MarrowLsp.Core.Positions
import MarrowLsp.Core.SemanticTokens

/-!
# Encoding of semantic tokens

Marrow gives byte spans, the wire wants each token relative to the one before it. The
encoder keeps the line and the column of the last token and subtracts; a subtraction
below zero and a slice that does not fit panic.
-/
namespace MarrowLsp

open Utf8

/-! ## Facts -/

inductive SourceSemanticTokenRole where
  | keyword
  | typeKeyword
  | stringLiteral
  | numberLiteral
  | booleanLiteral
  | comment
  | operator
  | «namespace»
  | «variable»
  | savedRoot
  | function
  | resource
  | surface
  | identityTypeConstructor
  | enum
  | enumMember
  | resourceMember
  | «index»
  | parameter
  | keyParameter
  deriving DecidableEq, Repr

structure SourceSemanticTokenModifiers where
  modification : Bool
  defaultLibrary : Bool
  readonly : Bool
  deriving DecidableEq, Repr

structure SourceSemanticTokenFact where
  startByte : Nat
  endByte : Nat
  role : SourceSemanticTokenRole
  modifiers : SourceSemanticTokenModifiers
  deriving DecidableEq, Repr

/-- The place of the role's type in the legend. -/
def tokenTypeForRole : SourceSemanticTokenRole → Nat
  | .keyword => 0
  | .typeKeyword => 1
  | .stringLiteral => 2
  | .numberLiteral => 3
  | .comment => 4
  | .operator => 5
  | .namespace => 6
  | .variable => 7
  | .savedRoot => 8
  | .function => 9
  | .resource => 10
  | .surface => 10
  | .identityTypeConstructor => 10
  | .enum => 11
  | .enumMember => 12
  | .resourceMember => 13
  | .index => 13
  | .parameter => 14
  | .keyParameter => 14
  | .booleanLiteral => 15

def MOD_MODIFICATION : Nat := 1
def MOD_DEFAULT_LIBRARY : Nat := 2
def MOD_READONLY : Nat := 4

def modifierBits (modifiers : SourceSemanticTokenModifiers) : Nat :=
  (if modifiers.modification then MOD_MODIFICATION else 0) |||
    (if modifiers.defaultLibrary then MOD_DEFAULT_LIBRARY else 0) |||
    (if modifiers.readonly then MOD_READONLY else 0)

/-! ## The encoder -/

/-- A subtraction of unsigned integers, `none` where it underflows. -/
def checkedSub (a b : Nat) : Option Nat := if b ≤ a then some (a - b) else none

/-- The line that a byte is on. -/
def checkedLine (lineStarts : List Nat) (byte : Nat) : Option Nat :=
  match binarySearch lineStarts byte with
  | .ok line => some line
  | .error next => checkedSub next 1

/-- `LineIndex::position`, `none` where its indexing or slicing panics. -/
def LineIndex.checkedPosition (index : LineIndex) (byte : Nat) : Option Position := do
  let byte := floorCharBoundary index.text (min byte (byteLen index.text))
  let line ← checkedLine index.lineStarts byte
  let lineStart ← index.lineStarts[line]?
  let before ← slice index.text lineStart byte
  some ⟨line % 2 ^ 32, utf16Len before % 2 ^ 32⟩

/-- The length of the first line of a span of several; `-` saturates. -/
def firstLineLength (fact : SourceSemanticTokenFact) (index : LineIndex) (startCharacter : Nat) :
    Option Nat := do
  let tokenText ← slice index.text fact.startByte (min fact.endByte (byteLen index.text))
  let lineEnd := ((findChar tokenText '\n').map (fact.startByte + ·)).getD fact.endByte
  let stop ← index.checkedPosition lineEnd
  some (max (stop.character - startCharacter) 1)

def tokenLength (fact : SourceSemanticTokenFact) (index : LineIndex) (start stop : Position) :
    Option Nat :=
  if stop.line = start.line then some (stop.character - start.character)
  else firstLineLength fact index start.character

def startDelta (deltaLine startCharacter prevStart : Nat) : Option Nat :=
  if deltaLine = 0 then checkedSub startCharacter prevStart else some startCharacter

/-- `push`, with the cursor after the token. -/
def push (fact : SourceSemanticTokenFact) (index : LineIndex) (prevLine prevStart : Nat) :
    Option (SemanticToken × Nat × Nat) := do
  let start ← index.checkedPosition fact.startByte
  let stop ← index.checkedPosition fact.endByte
  let length ← tokenLength fact index start stop
  let deltaLine ← checkedSub start.line prevLine
  let deltaStart ← startDelta deltaLine start.character prevStart
  some (⟨deltaLine, deltaStart, length, tokenTypeForRole fact.role, modifierBits fact.modifiers⟩,
    start.line, start.character)

def encodeFrom (index : LineIndex) (prevLine prevStart : Nat) :
    List SourceSemanticTokenFact → Option (List SemanticToken)
  | [] => some []
  | fact :: facts => do
    let (token, line, start) ← push fact index prevLine prevStart
    let tokens ← encodeFrom index line start facts
    some (token :: tokens)

def encodeFacts (facts : List SourceSemanticTokenFact) (index : LineIndex) :
    Option (List SemanticToken) :=
  encodeFrom index 0 0 facts

/-! ## The client's side -/

/-- A token at its line and column. -/
structure PlacedToken where
  line : Nat
  start : Nat
  length : Nat
  tokenType : Nat
  tokenModifiersBitset : Nat
  deriving DecidableEq, Repr

def decodeFrom (line start : Nat) : List SemanticToken → List PlacedToken
  | [] => []
  | token :: tokens =>
    let start := if token.deltaLine = 0 then start + token.deltaStart else token.deltaStart
    let line := line + token.deltaLine
    ⟨line, start, token.length, token.tokenType, token.tokenModifiersBitset⟩ ::
      decodeFrom line start tokens

def decode (tokens : List SemanticToken) : List PlacedToken := decodeFrom 0 0 tokens

/-- One token ends where the other starts, or before. -/
def PlacedToken.Before (p q : PlacedToken) : Prop :=
  p.line < q.line ∨ p.line = q.line ∧ p.start + p.length ≤ q.start

/-! ## Places in a text -/

/-- The last line of a text. -/
def lastLine (t : Text) : Text := (t.reverse.takeWhile (· ≠ '\n')).reverse

def firstLine (t : Text) : Text := t.takeWhile (· ≠ '\n')

theorem lastLine_append {front line : Text} (hfront : LineFront front) (hline : '\n' ∉ line) :
    lastLine (front ++ line) = line := by
  have htake : (front ++ line).reverse.takeWhile (· ≠ '\n') = line.reverse := by
    rw [List.reverse_append, List.takeWhile_append_of_pos]
    · rcases hfront with rfl | ⟨f, rfl⟩
      · simp
      · simp
    · intro c hc
      exact decide_eq_true fun h => hline (h ▸ List.mem_reverse.mp hc)
  rw [lastLine, htake, List.reverse_reverse]

theorem firstLine_append {line rest : Text} (hline : '\n' ∉ line) (hrest : LineRest rest) :
    firstLine (line ++ rest) = line := by
  unfold firstLine
  rw [List.takeWhile_append_of_pos]
  · rcases hrest with rfl | ⟨r, rfl⟩
    · simp
    · simp
  · intro c hc
    exact decide_eq_true fun h => hline (h ▸ hc)

namespace SourceSemanticTokenFact

/-- The text before the fact. -/
def before (fact : SourceSemanticTokenFact) (text : Text) : Text :=
  (slice text 0 fact.startByte).getD []

/-- The text of the fact. -/
def body (fact : SourceSemanticTokenFact) (text : Text) : Text :=
  (slice text fact.startByte fact.endByte).getD []

/-- The fact as the client is to have it. -/
def placed (fact : SourceSemanticTokenFact) (text : Text) : PlacedToken where
  line := (fact.before text).count '\n'
  start := utf16Len (lastLine (fact.before text))
  length := utf16Len (firstLine (fact.body text))
  tokenType := tokenTypeForRole fact.role
  tokenModifiersBitset := modifierBits fact.modifiers

/-- The lines of the fact, and the columns on its first, have numbers that a `u32` holds. -/
def Fits (fact : SourceSemanticTokenFact) (text : Text) : Prop :=
  (fact.before text ++ fact.body text).count '\n' < 2 ^ 32 ∧
    (fact.placed text).start + (fact.placed text).length < 2 ^ 32

end SourceSemanticTokenFact

/-- Facts of a text: spans that are not empty and cut at characters, in order, apart from
each other, none starting with a newline. -/
structure WellPlaced (text : Text) (facts : List SourceSemanticTokenFact) : Prop where
  nonempty : ∀ fact ∈ facts, fact.startByte < fact.endByte
  boundaries : ∀ fact ∈ facts, isCharBoundary text fact.startByte = true ∧
    isCharBoundary text fact.endByte = true
  starts : ∀ fact ∈ facts, (fact.body text).head? ≠ some '\n'
  sorted : facts.Pairwise fun a b => a.startByte ≤ b.startByte
  disjoint : facts.Pairwise fun a b => a.endByte ≤ b.startByte ∨ b.endByte ≤ a.startByte

/-! ## Positions -/

/-- A byte at or after the first start has a line. -/
theorem checkedLine_cons {first : Nat} {later : List Nat} {byte line : Nat} (hfirst : first ≤ byte)
    (hline : (match binarySearch (first :: later) byte with
      | .ok line => line
      | .error next => next - 1) = line) : checkedLine (first :: later) byte = some line := by
  unfold checkedLine
  cases hbinary : binarySearch (first :: later) byte with
  | ok found =>
    rw [hbinary] at hline
    exact congrArg some hline
  | error next =>
    rw [hbinary] at hline
    have hpos : 1 ≤ next := by
      by_contra hzero
      unfold binarySearch at hbinary
      by_cases hlt : first < byte
      · rw [List.takeWhile_cons_of_pos (by simpa using hlt)] at hbinary
        dsimp only at hbinary
        split at hbinary
        · cases hbinary
        · cases hbinary
          simp at hzero
      · rw [List.takeWhile_cons_of_neg (by simpa using hlt)] at hbinary
        have hsame : first = byte := by omega
        simp [hsame] at hbinary
    dsimp only
    rw [checkedSub, if_pos hpos]
    exact congrArg some hline

/-- The position of a boundary, and that nothing panics there. -/
theorem checkedPosition_cut {front line : Text} (rest : Text) (hfront : LineFront front)
    (hline : '\n' ∉ line) :
    (LineIndex.new (front ++ (line ++ rest))).checkedPosition (byteLen front + byteLen line) =
      some ⟨front.count '\n' % 2 ^ 32, utf16Len line % 2 ^ 32⟩ := by
  obtain ⟨earlier, later, hstarts, hearlier, hlater, hcount⟩ :=
    LineIndex.lineStarts_cut rest hfront hline
  have hsearch := binarySearch_line hearlier (Nat.le_add_right _ (byteLen line)) hlater
  rw [← hstarts] at hsearch
  have hfound : checkedLine (LineIndex.new (front ++ (line ++ rest))).lineStarts
      (byteLen front + byteLen line) = some earlier.length :=
    checkedLine_cons (Nat.zero_le _) hsearch
  have hget : (LineIndex.new (front ++ (line ++ rest))).lineStarts[earlier.length]? =
      some (byteLen front) := by
    rw [hstarts]
    simp
  rw [hcount] at hfound hget
  unfold LineIndex.checkedPosition
  simp only [show (LineIndex.new (front ++ (line ++ rest))).text = front ++ (line ++ rest) from rfl,
    LineIndex.floorCharBoundary_cut, hfound, Option.bind_eq_bind, Option.bind_some, hget, slice_append]

/-! ## A fact cut out of its text -/

/-- A fact of a text, with the line it starts on: what precedes the line, the line up to the
fact, the part of the fact on that line, and the rest of the fact. -/
structure Cut (text : Text) (fact : SourceSemanticTokenFact) where
  front : Text
  line : Text
  first : Text
  later : Text
  after : Text
  text_eq : text = front ++ (line ++ (first ++ (later ++ after)))
  startByte_eq : fact.startByte = byteLen front + byteLen line
  endByte_eq : fact.endByte = byteLen front + byteLen line + byteLen first + byteLen later
  front_front : LineFront front
  line_not_mem : '\n' ∉ line
  first_not_mem : '\n' ∉ first
  later_rest : LineRest later
  first_ne : first ≠ []

namespace Cut

variable {text : Text} {fact : SourceSemanticTokenFact}

theorem before_eq (cut : Cut text fact) : fact.before text = cut.front ++ cut.line := by
  have hslice := slice_append [] (cut.front ++ cut.line) (cut.first ++ (cut.later ++ cut.after))
  rw [List.nil_append, byteLen_nil, Nat.zero_add, byteLen_append, List.append_assoc,
    ← cut.text_eq, ← cut.startByte_eq] at hslice
  rw [SourceSemanticTokenFact.before, hslice, Option.getD_some]

theorem slice_body (cut : Cut text fact) :
    slice text fact.startByte fact.endByte = some (cut.first ++ cut.later) := by
  have hslice := slice_append (cut.front ++ cut.line) (cut.first ++ cut.later) cut.after
  simp only [byteLen_append, List.append_assoc] at hslice
  rw [← cut.text_eq] at hslice
  rw [cut.startByte_eq, cut.endByte_eq, ← hslice]
  congr 1
  omega

theorem body_eq (cut : Cut text fact) : fact.body text = cut.first ++ cut.later := by
  rw [SourceSemanticTokenFact.body, cut.slice_body, Option.getD_some]

theorem placed_eq (cut : Cut text fact) : fact.placed text =
    ⟨cut.front.count '\n', utf16Len cut.line, utf16Len cut.first, tokenTypeForRole fact.role,
      modifierBits fact.modifiers⟩ := by
  have hcount : (cut.front ++ cut.line).count '\n' = cut.front.count '\n' := by
    rw [List.count_append, List.count_eq_zero.mpr cut.line_not_mem, Nat.add_zero]
  rw [SourceSemanticTokenFact.placed, cut.before_eq, cut.body_eq, hcount,
    lastLine_append cut.front_front cut.line_not_mem,
    firstLine_append cut.first_not_mem cut.later_rest]

theorem first_pos (cut : Cut text fact) : 0 < utf16Len cut.first := by
  obtain ⟨c, t, hfirst⟩ := List.exists_cons_of_ne_nil cut.first_ne
  have hpos := lenUtf16_pos c
  rw [hfirst, utf16Len_cons]
  omega

end Cut

theorem exists_cut {text : Text} {fact : SourceSemanticTokenFact}
    (hnonempty : fact.startByte < fact.endByte)
    (hboundaries : isCharBoundary text fact.startByte = true ∧
      isCharBoundary text fact.endByte = true)
    (hstarts : (fact.body text).head? ≠ some '\n') : Nonempty (Cut text fact) := by
  obtain ⟨before, rest, rfl, hstart⟩ := isCharBoundary_iff.mp hboundaries.1
  obtain ⟨upTo, after, htext, hend⟩ := isCharBoundary_iff.mp hboundaries.2
  -- The end of the fact is in the text after its start.
  obtain ⟨body, rfl, rfl⟩ : ∃ body, upTo = before ++ body ∧ rest = body ++ after := by
    rcases List.append_eq_append_iff.mp htext with ⟨body, h, h'⟩ | ⟨body, rfl, h'⟩
    · exact ⟨body, h, h'⟩
    · rw [byteLen_append] at hstart
      omega
  obtain ⟨front, line, rfl, hline, hfront⟩ := exists_lastLine before
  obtain ⟨first, later, rfl, hfirst, hlater⟩ := exists_firstLine body
  rw [byteLen_append] at hstart
  rw [byteLen_append, byteLen_append, byteLen_append] at hend
  have hslice := slice_append (front ++ line) (first ++ later) after
  simp only [byteLen_append] at hslice
  refine ⟨⟨front, line, first, later, after, by simp, hstart.symm, by omega, hfront, hline, hfirst,
    hlater, ?_⟩⟩
  rintro rfl
  rcases hlater with rfl | ⟨r, rfl⟩
  · simp only [byteLen_nil] at hend
    omega
  · apply hstarts
    rw [SourceSemanticTokenFact.body, ← hstart, ← hend, hslice]
    rfl

/-! ## Encoding a fact -/

theorem position_start {text : Text} {fact : SourceSemanticTokenFact} (cut : Cut text fact)
    (hfits : fact.Fits text) : (LineIndex.new text).checkedPosition fact.startByte =
      some ⟨(fact.placed text).line, (fact.placed text).start⟩ := by
  obtain ⟨hlines, hcolumns⟩ := hfits
  have hposition := checkedPosition_cut (cut.first ++ (cut.later ++ cut.after)) cut.front_front
    cut.line_not_mem
  rw [cut.before_eq, List.count_append, List.count_append] at hlines
  rw [cut.placed_eq] at hcolumns ⊢
  dsimp only at hcolumns ⊢
  rw [← cut.text_eq, ← cut.startByte_eq] at hposition
  rw [hposition, Nat.mod_eq_of_lt (by omega), Nat.mod_eq_of_lt (by omega)]

/-- The end of the part of the fact on its first line. -/
theorem position_first {text : Text} {fact : SourceSemanticTokenFact} (cut : Cut text fact)
    (hfits : fact.Fits text) :
    (LineIndex.new text).checkedPosition (fact.startByte + byteLen cut.first) =
      some ⟨(fact.placed text).line,
        (fact.placed text).start + (fact.placed text).length⟩ := by
  obtain ⟨hlines, hcolumns⟩ := hfits
  have hnot : '\n' ∉ cut.line ++ cut.first := by
    simp [cut.line_not_mem, cut.first_not_mem]
  have hposition := checkedPosition_cut (cut.later ++ cut.after) cut.front_front hnot
  rw [cut.before_eq, List.count_append, List.count_append] at hlines
  rw [cut.placed_eq] at hcolumns ⊢
  dsimp only at hcolumns ⊢
  rw [List.append_assoc, ← cut.text_eq, byteLen_append, ← Nat.add_assoc, ← cut.startByte_eq,
    utf16Len_append] at hposition
  rw [hposition, Nat.mod_eq_of_lt (by omega), Nat.mod_eq_of_lt (by omega)]

/-- Where the fact goes on past its first line, its end is on another. -/
theorem position_stop {text : Text} {fact : SourceSemanticTokenFact} (cut : Cut text fact)
    (hfits : fact.Fits text) (hlater : cut.later ≠ []) : ∃ line character,
      (LineIndex.new text).checkedPosition fact.endByte = some ⟨line, character⟩ ∧
        line ≠ (fact.placed text).line := by
  obtain ⟨hlines, -⟩ := hfits
  obtain ⟨r, hr⟩ := cut.later_rest.resolve_left hlater
  obtain ⟨front, line, hlast, hline, hfront⟩ :=
    exists_lastLine (cut.front ++ cut.line ++ (cut.first ++ cut.later))
  have hposition := checkedPosition_cut cut.after hfront hline
  have hcount : (front ++ line).count '\n' = front.count '\n' := by
    rw [List.count_append, List.count_eq_zero.mpr hline, Nat.add_zero]
  have htext : front ++ (line ++ cut.after) = text := by
    rw [← List.append_assoc, ← hlast]
    simp only [List.append_assoc]
    exact cut.text_eq.symm
  have hend : byteLen front + byteLen line = fact.endByte := by
    rw [← byteLen_append, ← hlast, cut.endByte_eq]
    simp only [byteLen_append]
    omega
  rw [htext, hend, ← hcount, ← hlast] at hposition
  rw [cut.before_eq, cut.body_eq] at hlines
  refine ⟨_, _, hposition, ?_⟩
  rw [Nat.mod_eq_of_lt hlines, cut.placed_eq, hr]
  simp only [List.count_append, List.count_cons]
  simp only [beq_self_eq_true, if_true]
  omega

theorem firstLineLength_cut {text : Text} {fact : SourceSemanticTokenFact} (cut : Cut text fact)
    (hfits : fact.Fits text) :
    firstLineLength fact (LineIndex.new text) (fact.placed text).start =
      some (fact.placed text).length := by
  have hmin : min fact.endByte (byteLen text) = fact.endByte := by
    have hlen := congrArg byteLen cut.text_eq
    simp only [byteLen_append] at hlen
    rw [cut.endByte_eq]
    omega
  have hstop : ((findChar (cut.first ++ cut.later) '\n').map (fact.startByte + ·)).getD
      fact.endByte = fact.startByte + byteLen cut.first := by
    rw [findChar_firstLine cut.first_not_mem cut.later_rest]
    split
    · next hnil =>
      rw [Option.map_none, Option.getD_none, cut.endByte_eq, cut.startByte_eq, hnil, byteLen_nil,
        Nat.add_zero]
    · rfl
  have hpos : 0 < (fact.placed text).length := by
    rw [cut.placed_eq]
    exact cut.first_pos
  unfold firstLineLength
  simp only [show (LineIndex.new text).text = text from rfl, hmin, cut.slice_body,
    Option.bind_eq_bind, Option.bind_some, hstop, position_first cut hfits, Option.some.injEq]
  omega

/-- A fact is encoded from a cursor that is not past it. -/
theorem push_cut {text : Text} {fact : SourceSemanticTokenFact} (cut : Cut text fact)
    (hfits : fact.Fits text) {prevLine prevStart : Nat} (hline : prevLine ≤ (fact.placed text).line)
    (hstart : prevLine = (fact.placed text).line → prevStart ≤ (fact.placed text).start) :
    ∃ token, push fact (LineIndex.new text) prevLine prevStart =
        some (token, (fact.placed text).line, (fact.placed text).start) ∧
      ∀ tokens, decodeFrom prevLine prevStart (token :: tokens) = fact.placed text ::
        decodeFrom (fact.placed text).line (fact.placed text).start tokens := by
  -- The length is that of the first line, be it the only one or not.
  have hlength : ∃ stop, (LineIndex.new text).checkedPosition fact.endByte = some stop ∧
      tokenLength fact (LineIndex.new text) ⟨(fact.placed text).line, (fact.placed text).start⟩
        stop = some (fact.placed text).length := by
    unfold tokenLength
    by_cases hlater : cut.later = []
    · have hend : fact.endByte = fact.startByte + byteLen cut.first := by
        rw [cut.endByte_eq, cut.startByte_eq, hlater, byteLen_nil, Nat.add_zero]
      refine ⟨_, hend ▸ position_first cut hfits, ?_⟩
      rw [if_pos rfl, Nat.add_sub_cancel_left]
    · obtain ⟨line, character, hposition, hne⟩ := position_stop cut hfits hlater
      refine ⟨_, hposition, ?_⟩
      rw [if_neg hne, firstLineLength_cut cut hfits]
  obtain ⟨stop, hstop, hlength⟩ := hlength
  have hdeltaLine : checkedSub (fact.placed text).line prevLine =
      some ((fact.placed text).line - prevLine) := if_pos hline
  have hdeltaStart : startDelta ((fact.placed text).line - prevLine) (fact.placed text).start
      prevStart = some (if (fact.placed text).line - prevLine = 0 then
        (fact.placed text).start - prevStart else (fact.placed text).start) := by
    unfold startDelta
    split
    · next hsame => exact if_pos (hstart (by omega))
    · rfl
  refine ⟨⟨(fact.placed text).line - prevLine,
    if (fact.placed text).line - prevLine = 0 then (fact.placed text).start - prevStart
    else (fact.placed text).start, (fact.placed text).length, (fact.placed text).tokenType,
    (fact.placed text).tokenModifiersBitset⟩, ?_, ?_⟩
  · unfold push
    simp only [position_start cut hfits, hstop, hlength, Option.bind_eq_bind, Option.bind_some,
      hdeltaLine, hdeltaStart]
    rfl
  · intro tokens
    rw [decodeFrom]
    dsimp only
    by_cases hsame : (fact.placed text).line - prevLine = 0
    · have hle := hstart (by omega)
      rw [if_pos hsame, if_pos hsame, Nat.add_sub_cancel' hle, Nat.add_sub_cancel' hline]
    · rw [if_neg hsame, if_neg hsame, Nat.add_sub_cancel' hline]

/-! ## Facts one after the other -/

/-- A fact that ends where another starts, or before, is before it on the lines too. -/
theorem before_of_le {text : Text} {a b : SourceSemanticTokenFact} (cut : Cut text a)
    (cut' : Cut text b) (hle : a.endByte ≤ b.startByte) :
    (a.placed text).Before (b.placed text) := by
  have hboth : cut.front ++ (cut.line ++ (cut.first ++ cut.later)) ++ cut.after =
      cut'.front ++ cut'.line ++ (cut'.first ++ (cut'.later ++ cut'.after)) := by
    simp only [List.append_assoc]
    exact cut.text_eq.symm.trans cut'.text_eq
  rw [cut.endByte_eq, cut'.startByte_eq] at hle
  obtain ⟨gap, hgap⟩ : ∃ gap, cut'.front ++ cut'.line =
      cut.front ++ (cut.line ++ (cut.first ++ cut.later)) ++ gap := by
    rcases List.append_eq_append_iff.mp hboth with ⟨gap, h, -⟩ | ⟨gap, h, -⟩
    · exact ⟨gap, h⟩
    · have hlen := congrArg byteLen h
      simp only [byteLen_append] at hlen
      have hnil : gap = [] := by
        cases gap with
        | nil => rfl
        | cons c gap =>
          have hpos := c.utf8Size_pos
          rw [byteLen_cons] at hlen
          omega
      exact ⟨[], by rw [h, hnil, List.append_nil, List.append_nil]⟩
  have hcount := congrArg (List.count '\n') hgap
  simp only [List.count_append, List.count_eq_zero.mpr cut.line_not_mem,
    List.count_eq_zero.mpr cut'.line_not_mem, List.count_eq_zero.mpr cut.first_not_mem] at hcount
  unfold PlacedToken.Before
  rw [cut.placed_eq, cut'.placed_eq]
  by_cases hnewline : '\n' ∈ cut.later ++ gap
  · -- A newline in between.
    have hpos := List.count_pos_iff.mpr hnewline
    rw [List.count_append] at hpos
    left
    dsimp only
    omega
  · have hzero := List.count_eq_zero.mpr hnewline
    rw [List.count_append] at hzero
    have hnot : '\n' ∉ cut.line ++ (cut.first ++ (cut.later ++ gap)) := by
      simp only [List.mem_append, not_or] at hnewline ⊢
      exact ⟨cut.line_not_mem, cut.first_not_mem, hnewline⟩
    have hline : cut'.line = cut.line ++ (cut.first ++ (cut.later ++ gap)) := by
      rw [← lastLine_append cut'.front_front cut'.line_not_mem, hgap]
      simp only [List.append_assoc]
      exact lastLine_append cut.front_front hnot
    right
    dsimp only
    refine ⟨by omega, ?_⟩
    rw [hline]
    simp only [utf16Len_append]
    omega

/-- A fact's token is within its line. -/
theorem placed_within {text : Text} {fact : SourceSemanticTokenFact} (cut : Cut text fact) :
    ∃ line, (lines text)[(fact.placed text).line]? = some line ∧
      (fact.placed text).start + (fact.placed text).length ≤ utf16Len line := by
  obtain ⟨more, rest, hsplit, hmore, hrest⟩ := exists_firstLine (cut.later ++ cut.after)
  have hnot : '\n' ∉ cut.line ++ (cut.first ++ more) := by
    simp only [List.mem_append, not_or]
    exact ⟨cut.line_not_mem, cut.first_not_mem, hmore⟩
  have hline := lines_getElem_count cut.front_front hnot hrest
  rw [List.append_assoc, List.append_assoc, ← hsplit, ← cut.text_eq] at hline
  rw [cut.placed_eq]
  refine ⟨cut.line ++ (cut.first ++ more), hline, ?_⟩
  simp only [utf16Len_append]
  omega

theorem WellPlaced.cut {text : Text} {facts : List SourceSemanticTokenFact}
    (h : WellPlaced text facts) {fact : SourceSemanticTokenFact} (hmem : fact ∈ facts) :
    Nonempty (Cut text fact) :=
  exists_cut (h.nonempty fact hmem) (h.boundaries fact hmem) (h.starts fact hmem)

/-- Spans in order and apart from each other follow one another. -/
theorem WellPlaced.ordered {text : Text} {facts : List SourceSemanticTokenFact}
    (h : WellPlaced text facts) : facts.Pairwise fun a b => a.endByte ≤ b.startByte := by
  refine (h.sorted.and h.disjoint).imp_of_mem ?_
  rintro a b - hb ⟨hsorted, hdisjoint⟩
  have hnonempty := h.nonempty b hb
  omega

theorem WellPlaced.before {text : Text} {facts : List SourceSemanticTokenFact}
    (h : WellPlaced text facts) : (facts.map (·.placed text)).Pairwise PlacedToken.Before := by
  rw [List.pairwise_map]
  refine h.ordered.imp_of_mem ?_
  intro a b ha hb hle
  obtain ⟨cut⟩ := h.cut ha
  obtain ⟨cut'⟩ := h.cut hb
  exact before_of_le cut cut' hle

/-- From a cursor that no fact is before, the encoder runs through and its tokens decode. -/
theorem encodeFrom_eq {text : Text} {facts : List SourceSemanticTokenFact}
    (hcut : ∀ fact ∈ facts, Nonempty (Cut text fact)) (hfits : ∀ fact ∈ facts, fact.Fits text)
    (hordered : (facts.map (·.placed text)).Pairwise PlacedToken.Before) {line start : Nat}
    (hcursor : ∀ fact ∈ facts, line ≤ (fact.placed text).line ∧
      (line = (fact.placed text).line → start ≤ (fact.placed text).start)) :
    ∃ tokens, encodeFrom (LineIndex.new text) line start facts = some tokens ∧
      decodeFrom line start tokens = facts.map (·.placed text) := by
  induction facts generalizing line start with
  | nil => exact ⟨[], rfl, rfl⟩
  | cons fact facts ih =>
    rw [List.map_cons, List.pairwise_cons] at hordered
    obtain ⟨cut⟩ := hcut fact List.mem_cons_self
    obtain ⟨hline, hstart⟩ := hcursor fact List.mem_cons_self
    obtain ⟨token, hpush, hdecode⟩ :=
      push_cut cut (hfits fact List.mem_cons_self) hline hstart
    -- The token is the next cursor, and the facts after it are past its end.
    have hnext : ∀ later ∈ facts, (fact.placed text).line ≤ (later.placed text).line ∧
        ((fact.placed text).line = (later.placed text).line →
          (fact.placed text).start ≤ (later.placed text).start) := by
      intro later hmem
      have hbefore := hordered.1 _ (List.mem_map_of_mem hmem)
      unfold PlacedToken.Before at hbefore
      omega
    obtain ⟨tokens, hencode, hrest⟩ := ih
      (fun f hf => hcut f (List.mem_cons_of_mem _ hf))
      (fun f hf => hfits f (List.mem_cons_of_mem _ hf)) hordered.2 hnext
    refine ⟨token :: tokens, ?_, ?_⟩
    · rw [encodeFrom, hpush]
      simp only [Option.bind_eq_bind, Option.bind_some, hencode]
    · rw [hdecode, hrest, List.map_cons]

/-- The facts of a text, where its lines and columns have `u32` numbers, are encoded without
a panic, and the tokens decode to them: in order, each within its line, none over another. -/
theorem decode_encodeFacts {text : Text} {facts : List SourceSemanticTokenFact}
    (hfacts : WellPlaced text facts) (hfits : ∀ fact ∈ facts, fact.Fits text) :
    ∃ tokens, encodeFacts facts (LineIndex.new text) = some tokens ∧
      decode tokens = facts.map (·.placed text) ∧ (decode tokens).Pairwise PlacedToken.Before ∧
      ∀ token ∈ decode tokens, ∃ line, (lines text)[token.line]? = some line ∧
        token.start + token.length ≤ utf16Len line := by
  obtain ⟨tokens, hencode, hdecode⟩ := @encodeFrom_eq text facts (fun _ hmem => hfacts.cut hmem)
    hfits hfacts.before 0 0 (fun _ _ => ⟨Nat.zero_le _, fun _ => Nat.zero_le _⟩)
  refine ⟨tokens, hencode, hdecode, ?_, ?_⟩
  · unfold decode
    rw [hdecode]
    exact hfacts.before
  · intro token hmem
    unfold decode at hmem
    rw [hdecode] at hmem
    obtain ⟨fact, hfact, rfl⟩ := List.mem_map.mp hmem
    obtain ⟨cut⟩ := hfacts.cut hfact
    exact placed_within cut

/-- A comment that ends with its line, past an astral character, and a name below it. -/
theorem decode_encodeFacts_twoLines : ∃ tokens,
    encodeFacts [⟨1, 6, .comment, ⟨false, false, false⟩⟩, ⟨6, 7, .variable, ⟨true, false, false⟩⟩]
        (LineIndex.new ['a', '😀', '\n', 'b']) = some tokens ∧
      decode tokens = [⟨0, 1, 2, 4, 0⟩, ⟨1, 0, 1, 7, 1⟩] := by
  obtain ⟨tokens, hencode, hdecode, -⟩ := @decode_encodeFacts ['a', '😀', '\n', 'b']
    [⟨1, 6, .comment, ⟨false, false, false⟩⟩, ⟨6, 7, .variable, ⟨true, false, false⟩⟩]
    ⟨by decide, by decide, by decide, by decide, by decide⟩
    (by unfold SourceSemanticTokenFact.Fits; decide)
  exact ⟨tokens, hencode, hdecode.trans (by decide)⟩

/-! ## A line without a number -/

theorem byteLen_replicate_newline (n : Nat) : byteLen (List.replicate n '\n') = n := by
  induction n with
  | zero => rfl
  | succ n ih =>
    rw [List.replicate_succ, byteLen_cons, ih, show ('\n' : Char).utf8Size = 1 by decide,
      Nat.add_comm]

/-- One letter after some newlines. -/
def belowNewlines (n : Nat) : Text := List.replicate n '\n' ++ (['a'] ++ [])

def letterFact (n : Nat) : SourceSemanticTokenFact := ⟨n, n + 1, .variable, ⟨false, false, false⟩⟩

def letterCut {n : Nat} (hn : 0 < n) : Cut (belowNewlines n) (letterFact n) where
  front := List.replicate n '\n'
  line := []
  first := ['a']
  later := []
  after := []
  text_eq := rfl
  startByte_eq := by rw [byteLen_replicate_newline]; rfl
  endByte_eq := by rw [byteLen_replicate_newline]; rfl
  front_front := by
    obtain ⟨m, rfl⟩ : ∃ m, n = m + 1 := ⟨n - 1, by omega⟩
    exact .inr ⟨List.replicate m '\n', List.replicate_succ'⟩
  line_not_mem := by simp
  first_not_mem := by decide
  later_rest := .inl rfl
  first_ne := by simp

theorem wellPlaced_letterFact {n : Nat} (hn : 0 < n) :
    WellPlaced (belowNewlines n) [letterFact n] where
  nonempty := by
    intro fact hmem
    rw [List.mem_singleton.mp hmem]
    exact Nat.lt_succ_self n
  boundaries := by
    intro fact hmem
    rw [List.mem_singleton.mp hmem]
    refine ⟨isCharBoundary_iff.mpr ⟨List.replicate n '\n', ['a'], rfl, ?_⟩,
      isCharBoundary_iff.mpr ⟨belowNewlines n, [], (List.append_nil _).symm, ?_⟩⟩
    · exact byteLen_replicate_newline n
    · rw [belowNewlines, byteLen_append, byteLen_replicate_newline]
      rfl
  starts := by
    intro fact hmem
    rw [List.mem_singleton.mp hmem, (letterCut hn).body_eq]
    simp [letterCut]
  sorted := List.pairwise_singleton _ _
  disjoint := List.pairwise_singleton _ _

theorem push_letterFact (hn : 0 < 2 ^ 32) : push (letterFact (2 ^ 32))
    (LineIndex.new (belowNewlines (2 ^ 32))) 0 0 = some (⟨0, 0, 1, 7, 0⟩, 0, 0) := by
  have hfront := (letterCut hn).front_front
  have hcount : (List.replicate (2 ^ 32) '\n').count '\n' = 2 ^ 32 := List.count_replicate_self
  have hstart := checkedPosition_cut (['a'] ++ []) hfront (List.not_mem_nil (a := '\n'))
  have hstop := checkedPosition_cut [] hfront (show '\n' ∉ ['a'] by decide)
  dsimp only [letterCut] at hstart hstop
  rw [hcount, Nat.mod_self, byteLen_replicate_newline] at hstart hstop
  have hstart : (LineIndex.new (belowNewlines (2 ^ 32))).checkedPosition
      (letterFact (2 ^ 32)).startByte = some ⟨0, 0⟩ := hstart
  have hstop : (LineIndex.new (belowNewlines (2 ^ 32))).checkedPosition
      (letterFact (2 ^ 32)).endByte = some ⟨0, 1⟩ := hstop
  unfold push
  simp only [hstart, hstop, Option.bind_eq_bind, Option.bind_some]
  rfl

/-- On line `2 ^ 32` the line number wraps. -/
theorem not_decode_encodeFacts : ¬ ∀ text facts, WellPlaced text facts → ∃ tokens,
    encodeFacts facts (LineIndex.new text) = some tokens ∧
      decode tokens = facts.map (·.placed text) := by
  intro h
  have hn : 0 < 2 ^ 32 := by decide
  obtain ⟨tokens, hencode, hdecode⟩ := h _ _ (wellPlaced_letterFact hn)
  -- The position wraps around to line 0, and so does the token.
  have hpush : encodeFacts [letterFact (2 ^ 32)] (LineIndex.new (belowNewlines (2 ^ 32))) =
      some [⟨0, 0, 1, 7, 0⟩] := by
    unfold encodeFacts encodeFrom
    rw [push_letterFact hn]
    rfl
  rw [hpush] at hencode
  cases hencode
  have hline : 0 = ((letterFact (2 ^ 32)).placed (belowNewlines (2 ^ 32))).line :=
    congrArg PlacedToken.line (List.cons.inj hdecode).1
  rw [(letterCut hn).placed_eq] at hline
  dsimp only [letterCut] at hline
  rw [List.count_replicate_self] at hline
  omega

end MarrowLsp
