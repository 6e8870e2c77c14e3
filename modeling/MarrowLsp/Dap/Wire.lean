-- SUMMARY: The framing of the adapter's messages: frames, with whatever other headers, are read back in order and byte for byte, and a frame that is cut off is not read (protocol.rs).
import Mathlib.Data.List.DropRight
import MarrowLsp.Core.Json
import MarrowLsp.Lib.Utf8

/-!
# The wire

Headers are lines of text up to a blank one, the body is counted in bytes. Of the headers
only the length of the body is read.
-/
namespace MarrowLsp

namespace Dap.Wire

open Utf8

/-! ## Reading -/

/-- `BufRead::read_line`: up to a newline, or to the end; and what is left. -/
def readLine (input : List UInt8) : List UInt8 × List UInt8 :=
  match input.dropWhile (· ≠ 10) with
  | [] => (input, [])
  | newline :: rest => (input.takeWhile (· ≠ 10) ++ [newline], rest)

/-- `trim_end_matches(['\r', '\n'])`. -/
def trimLineEnd (line : List Char) : List Char := line.rdropWhile fun c => c = '\r' || c = '\n'

/-- `str::parse::<usize>`. -/
def parseUsize (value : List Char) : Option Nat :=
  let digits := if value.head? = some '+' then value.tail else value
  if digits = [] || !digits.all Char.isDigit then none
  else
    let length := Nat.ofDigitChars 10 digits 0
    if length < 2 ^ 64 then some length else none

def contentLengthKey : List Char := "Content-Length:".toList

/-- The length after a header line. -/
def headerLength (contentLength : Option Nat) (trimmed : List Char) : Option Nat :=
  if contentLengthKey <+: trimmed then parseUsize (trim (trimmed.drop contentLengthKey.length))
  else contentLength

theorem readLine_length_lt {input : List UInt8} (h : input ≠ []) :
    (readLine input).2.length < input.length := by
  have hpos := List.length_pos_of_ne_nil h
  have happend := congrArg List.length
    (List.takeWhile_append_dropWhile (p := (· ≠ 10)) (l := input))
  unfold readLine
  cases hdrop : input.dropWhile (· ≠ 10) with
  | nil => exact hpos
  | cons newline rest =>
    rw [hdrop, List.length_append, List.length_cons] at happend
    dsimp only
    omega

/-- The header block: the length in it, and the input after it. -/
def readHeaders (contentLength : Option Nat) (input : List UInt8) :
    Option (Option Nat × List UInt8) :=
  if _h : input = [] then none
  else
    match decode (readLine input).1 with
    | none => none
    | some line =>
      if trimLineEnd line = [] then some (contentLength, (readLine input).2)
      else readHeaders (headerLength contentLength (trimLineEnd line)) (readLine input).2
termination_by input.length
decreasing_by exact readLine_length_lt ‹_›

section Messages

-- `serde_json::from_slice` and `serde_json::to_vec`.
variable (fromSlice : List UInt8 → Option Json) (toVec : Json → List UInt8)

/-- The message at the head of the input, and the input after it. -/
def readMessage (input : List UInt8) : Option (Json × List UInt8) := do
  let (contentLength, rest) ← readHeaders none input
  let length ← contentLength
  if length ≤ rest.length then
    let message ← fromSlice (rest.take length)
    some (message, rest.drop length)
  else none

/-- Read this many messages. -/
def readMessages : Nat → List UInt8 → Option (List Json × List UInt8)
  | 0, input => some ([], input)
  | n + 1, input => do
    let (message, rest) ← readMessage fromSlice input
    let (messages, rest) ← readMessages n rest
    some (message :: messages, rest)

def writeMessage (message : Json) : List UInt8 :=
  let body := toVec message
  encode ("Content-Length: ".toList ++ Nat.toDigits 10 body.length ++ "\r\n\r\n".toList) ++ body

end Messages

/-! ## Frames -/

/-- A header that is no length, up to its newline. -/
structure ExtraHeader (text : List Char) : Prop where
  oneLine : '\n' ∉ text
  notBlank : ∃ c ∈ text, c ≠ '\r'
  other : ¬ contentLengthKey <+: text

def lengthHeader (length : Nat) : List Char :=
  "Content-Length: ".toList ++ Nat.toDigits 10 length ++ ['\r']

def headerLine (text : List Char) : List UInt8 := encode text ++ [10]

/-- A message with the other headers of its frame. -/
structure WireFrame where
  before : List (List Char)
  message : Json
  after : List (List Char)

namespace WireFrame

def Formed (frame : WireFrame) : Prop :=
  (∀ text ∈ frame.before, ExtraHeader text) ∧ ∀ text ∈ frame.after, ExtraHeader text

variable (toVec : Json → List UInt8)

def headers (frame : WireFrame) : List (List Char) :=
  frame.before ++ lengthHeader (toVec frame.message).length :: frame.after

def bytes (frame : WireFrame) : List UInt8 :=
  (frame.headers toVec).flatMap headerLine ++ ([13, 10] ++ toVec frame.message)

end WireFrame

/-- Without other headers a frame is what the server writes. -/
theorem bytes_eq_writeMessage (toVec : Json → List UInt8) (message : Json) :
    (WireFrame.mk [] message []).bytes toVec = writeMessage toVec message := by
  have hend : encode "\r\n\r\n".toList = encode ['\r'] ++ ([10] ++ [13, 10]) := by decide
  unfold WireFrame.bytes WireFrame.headers writeMessage headerLine lengthHeader
  simp only [List.nil_append, List.flatMap_cons, List.flatMap_nil, List.append_nil, encode_append,
    hend, List.append_assoc]

/-! ## Lines -/

theorem readLine_of_not_mem {input : List UInt8} (h : 10 ∉ input) : readLine input = (input, []) := by
  rw [readLine, dropWhile_ne_of_not_mem h]

theorem readLine_append {line : List UInt8} (h : 10 ∉ line) (rest : List UInt8) :
    readLine (line ++ 10 :: rest) = (line ++ [10], rest) := by
  rw [readLine, dropWhile_ne_append rest h, takeWhile_ne_append rest h]

theorem trimLineEnd_newline (text : List Char) : trimLineEnd (text ++ ['\n']) = trimLineEnd text :=
  List.rdropWhile_concat_pos _ _ _ rfl

theorem trimLineEnd_ne_nil {text : List Char} (hline : '\n' ∉ text) (h : ∃ c ∈ text, c ≠ '\r') :
    trimLineEnd text ≠ [] := by
  intro hnil
  obtain ⟨c, hc, hne⟩ := h
  have hall := List.rdropWhile_eq_nil_iff.mp hnil c hc
  simp only [Bool.or_eq_true, decide_eq_true_eq] at hall
  rcases hall with rfl | rfl
  · exact hne rfl
  · exact hline hc

/-- A whole line is read as the header that it is. -/
theorem readHeaders_headerLine {text : List Char} (hline : '\n' ∉ text)
    (contentLength : Option Nat) (rest : List UInt8) :
    readHeaders contentLength (headerLine text ++ rest) =
      if trimLineEnd text = [] then some (contentLength, rest)
      else readHeaders (headerLength contentLength (trimLineEnd text)) rest := by
  have hread : readLine (headerLine text ++ rest) = (encode (text ++ ['\n']), rest) := by
    rw [headerLine, List.append_assoc, encode_append]
    exact readLine_append (newline_not_mem_encode hline) rest
  rw [readHeaders, dif_neg (by simp [headerLine]), hread]
  dsimp only
  rw [decode_encode]
  dsimp only
  rw [trimLineEnd_newline]

/-- Input that ends within a line has no body. -/
theorem readHeaders_of_not_mem {input : List UInt8} (h : 10 ∉ input) (contentLength : Option Nat) :
    readHeaders contentLength input = none ∨
      readHeaders contentLength input = some (contentLength, []) := by
  rw [readHeaders, readLine_of_not_mem h]
  by_cases hnil : input = []
  · rw [dif_pos hnil]
    exact .inl rfl
  · rw [dif_neg hnil]
    dsimp only
    cases decode input with
    | none => exact .inl rfl
    | some line =>
      dsimp only
      by_cases hblank : trimLineEnd line = []
      · rw [if_pos hblank]
        exact .inr rfl
      · rw [if_neg hblank, readHeaders, dif_pos rfl]
        exact .inl rfl

/-! ## Header blocks -/

/-- The length after some header lines. -/
def blockLength (contentLength : Option Nat) (headers : List (List Char)) : Option Nat :=
  headers.foldl (fun contentLength text => headerLength contentLength (trimLineEnd text))
    contentLength

/-- A header line, blank or not, is one line; only the end of the block is blank. -/
def IsHeader (text : List Char) : Prop := '\n' ∉ text ∧ ∃ c ∈ text, c ≠ '\r'

theorem readHeaders_block {headers : List (List Char)} (h : ∀ text ∈ headers, IsHeader text)
    (contentLength : Option Nat) (rest : List UInt8) :
    readHeaders contentLength (headers.flatMap headerLine ++ ([13, 10] ++ rest)) =
      some (blockLength contentLength headers, rest) := by
  induction headers generalizing contentLength with
  | nil =>
    have hblank : headerLine ['\r'] = [13, 10] := by decide
    rw [List.flatMap_nil, List.nil_append, ← hblank, readHeaders_headerLine (by decide),
      if_pos (by decide)]
    rfl
  | cons text headers ih =>
    obtain ⟨hline, hnotBlank⟩ := h text List.mem_cons_self
    rw [List.flatMap_cons, List.append_assoc, readHeaders_headerLine hline,
      if_neg (trimLineEnd_ne_nil hline hnotBlank)]
    exact ih (fun t ht => h t (List.mem_cons_of_mem _ ht)) _

theorem prefix_or_past {p a b : List UInt8} (h : p <+: a ++ b) :
    p <+: a ∨ ∃ q, p = a ++ q ∧ q <+: b := by
  rcases List.prefix_or_prefix_of_prefix h (List.prefix_append a b) with hp | ⟨q, rfl⟩
  · exact .inl hp
  · exact .inr ⟨q, rfl, (List.prefix_append_right_inj a).mp h⟩

/-- A line that is not whole has no newline. -/
theorem prefix_headerLine {p : List UInt8} {text : List Char} (hline : '\n' ∉ text)
    (h : p <+: headerLine text) : 10 ∉ p ∨ p = headerLine text := by
  rcases List.prefix_concat_iff.mp h with rfl | hp
  · exact .inr rfl
  · exact .inl fun hmem => newline_not_mem_encode hline (hp.subset hmem)

/-- Input that ends in or right after the header block has no body. -/
theorem readHeaders_prefix {headers : List (List Char)} (h : ∀ text ∈ headers, IsHeader text)
    {p : List UInt8} (hp : p <+: headers.flatMap headerLine ++ [13, 10])
    (contentLength : Option Nat) : readHeaders contentLength p = none ∨
      ∃ length, readHeaders contentLength p = some (length, []) := by
  induction headers generalizing p contentLength with
  | nil =>
    have hblank : headerLine ['\r'] = [13, 10] := by decide
    rw [List.flatMap_nil, List.nil_append, ← hblank] at hp
    rcases prefix_headerLine (by decide) hp with hnot | rfl
    · exact (readHeaders_of_not_mem hnot contentLength).imp id fun h => ⟨_, h⟩
    · have hread := @readHeaders_block [] (fun _ h => by cases h) contentLength []
      rw [List.flatMap_nil, List.nil_append, List.append_nil, ← hblank] at hread
      exact .inr ⟨_, hread⟩
  | cons text headers ih =>
    obtain ⟨hline, hnotBlank⟩ := h text List.mem_cons_self
    rw [List.flatMap_cons, List.append_assoc] at hp
    have hwhole : ∀ q, q <+: headers.flatMap headerLine ++ [13, 10] →
        readHeaders contentLength (headerLine text ++ q) = none ∨
          ∃ length, readHeaders contentLength (headerLine text ++ q) = some (length, []) := by
      intro q hq
      rw [readHeaders_headerLine hline, if_neg (trimLineEnd_ne_nil hline hnotBlank)]
      exact ih (fun t ht => h t (List.mem_cons_of_mem _ ht)) hq _
    rcases prefix_or_past hp with hp | ⟨q, rfl, hq⟩
    · rcases prefix_headerLine hline hp with hnot | rfl
      · exact (readHeaders_of_not_mem hnot contentLength).imp id fun h => ⟨_, h⟩
      · have hempty := hwhole [] List.nil_prefix
        rwa [List.append_nil] at hempty
    · exact hwhole q hq

/-! ## Lengths -/

theorem isWhitespace_of_isDigit {c : Char} (h : c.isDigit = true) : isWhitespace c = false := by
  simp only [Char.isDigit, Bool.and_eq_true, decide_eq_true_eq, ge_iff_le,
    UInt32.le_iff_toNat_le] at h
  simp only [isWhitespace, Bool.or_eq_false_iff, Bool.and_eq_false_iff, decide_eq_false_iff_not,
    beq_eq_false_iff_ne, UInt32.le_iff_toNat_le, ne_eq, ← UInt32.toNat_inj]
  have hzero : '0'.val.toNat = 48 := rfl
  have hnine : '9'.val.toNat = 57 := rfl
  simp only [UInt32.reduceToNat] at h ⊢
  omega

theorem parseUsize_toDigits (n : Nat) :
    parseUsize (Nat.toDigits 10 n) = if n < 2 ^ 64 then some n else none := by
  have hdigits : ∀ c ∈ Nat.toDigits 10 n, c.isDigit = true := fun c hc =>
    Nat.isDigit_of_mem_toDigits (by decide) (by decide) hc
  have hne : Nat.toDigits 10 n ≠ [] := Nat.toDigits_ne_nil
  have hsign : (Nat.toDigits 10 n).head? ≠ some '+' := by
    intro hplus
    have hdigit := hdigits '+' (List.mem_of_head? hplus)
    cases hdigit
  have hall : (Nat.toDigits 10 n).all Char.isDigit = true := List.all_eq_true.mpr hdigits
  rw [parseUsize, if_neg hsign]
  simp only [hne, decide_false, hall, Bool.not_true, Bool.or_self, Bool.false_eq_true, if_false,
    Nat.ofDigitChars_ten_toDigits]

theorem parseUsize_lt {value : List Char} {n : Nat} (h : parseUsize value = some n) :
    n < 2 ^ 64 := by
  simp only [parseUsize] at h
  generalize (if value.head? = some '+' then value.tail else value) = digits at h
  split at h
  · cases h
  · split at h
    · next hlt => exact Option.some.inj h ▸ hlt
    · cases h

theorem blockLength_extra {headers : List (List Char)} (h : ∀ text ∈ headers, ExtraHeader text)
    (contentLength : Option Nat) : blockLength contentLength headers = contentLength := by
  induction headers with
  | nil => rfl
  | cons text headers ih =>
    have hother : ¬ contentLengthKey <+: trimLineEnd text := fun hkeyed =>
      (h text List.mem_cons_self).other (hkeyed.trans (List.rdropWhile_prefix _ _))
    have htail := ih fun t ht => h t (List.mem_cons_of_mem _ ht)
    rw [blockLength, List.foldl_cons, headerLength, if_neg hother]
    exact htail

/-- What is written after the key of a length is read back. -/
theorem trim_toDigits (n : Nat) : trim (' ' :: Nat.toDigits 10 n) = Nat.toDigits 10 n := by
  apply @trim_append [' '] _ (List.forall_mem_singleton.mpr rfl)
  intro c hc
  exact isWhitespace_of_isDigit (Nat.isDigit_of_mem_toDigits (by decide) (by decide) hc)

theorem contentLengthKey_append : "Content-Length: ".toList = contentLengthKey ++ [' '] := by decide

theorem headerLength_lengthHeader (n : Nat) (contentLength : Option Nat) :
    headerLength contentLength (trimLineEnd (lengthHeader n)) =
      if n < 2 ^ 64 then some n else none := by
  have hdigits : ∀ c ∈ Nat.toDigits 10 n, c.isDigit = true := fun c hc =>
    Nat.isDigit_of_mem_toDigits (by decide) (by decide) hc
  have htrimmed : trimLineEnd (lengthHeader n) = contentLengthKey ++ (' ' :: Nat.toDigits 10 n) := by
    unfold trimLineEnd lengthHeader
    rw [List.rdropWhile_concat_pos _ _ _ rfl, List.rdropWhile_eq_self_iff.mpr, contentLengthKey_append]
    · simp
    · intro hne
      rw [List.getLast_append_of_ne_nil hne Nat.toDigits_ne_nil]
      have hlast := hdigits _ (List.getLast_mem Nat.toDigits_ne_nil)
      intro hend
      simp only [Bool.or_eq_true, decide_eq_true_eq] at hend
      rcases hend with hend | hend <;> rw [hend] at hlast <;> cases hlast
  rw [htrimmed, headerLength, if_pos (List.prefix_append _ _), List.drop_left, trim_toDigits,
    parseUsize_toDigits]

/-! ## Frames are read -/

theorem ExtraHeader.isHeader {text : List Char} (h : ExtraHeader text) : IsHeader text :=
  ⟨h.oneLine, h.notBlank⟩

theorem isHeader_lengthHeader (n : Nat) : IsHeader (lengthHeader n) := by
  constructor
  · intro hmem
    unfold lengthHeader at hmem
    simp only [List.mem_append] at hmem
    rcases hmem with (hmem | hmem) | hmem
    · exact absurd hmem (by decide)
    · cases Nat.isDigit_of_mem_toDigits (by decide) (by decide) hmem
    · exact absurd hmem (by decide)
  · refine ⟨'C', ?_, by decide⟩
    unfold lengthHeader
    rw [List.append_assoc]
    exact List.mem_append_left _ (by decide)

namespace WireFrame

variable {fromSlice : List UInt8 → Option Json} {toVec : Json → List UInt8} {frame : WireFrame}

theorem Formed.headers (h : frame.Formed) : ∀ text ∈ frame.headers toVec, IsHeader text := by
  intro text hmem
  rw [WireFrame.headers, List.mem_append, List.mem_cons] at hmem
  rcases hmem with hmem | rfl | hmem
  · exact (h.1 text hmem).isHeader
  · exact isHeader_lengthHeader _
  · exact (h.2 text hmem).isHeader

/-- The length in a header block, where it is one. -/
theorem Formed.blockLength_eq (h : frame.Formed) : blockLength none (frame.headers toVec) =
    if (toVec frame.message).length < 2 ^ 64 then some (toVec frame.message).length else none := by
  unfold blockLength WireFrame.headers
  rw [List.foldl_append, List.foldl_cons, headerLength_lengthHeader]
  exact blockLength_extra h.2 _

/-- What is left of a frame in its header block has no body, and what is left in its body has
less of it than the length says. -/
theorem readMessage_prefix (h : frame.Formed) (hempty : fromSlice [] = none) {p : List UInt8}
    (hp : p <+: frame.bytes toVec) (hne : p ≠ frame.bytes toVec) :
    readMessage fromSlice p = none := by
  rw [WireFrame.bytes, ← List.append_assoc] at hp hne
  unfold readMessage
  rcases prefix_or_past hp with hp | ⟨q, rfl, hq⟩
  · rcases readHeaders_prefix h.headers hp none with hread | ⟨contentLength, hread⟩
    · rw [hread]
      rfl
    · rw [hread]
      cases contentLength with
      | none => rfl
      | some length => simp [hempty]
  · have hshort : ¬ (toVec frame.message).length ≤ q.length := fun hle =>
      hne (congrArg _ (hq.eq_of_length_le hle))
    rw [List.append_assoc, readHeaders_block h.headers, h.blockLength_eq]
    split
    · simp only [Option.bind_eq_bind, Option.bind_some, if_neg hshort]
    · rfl

theorem readMessage_bytes (h : frame.Formed)
    (hparse : fromSlice (toVec frame.message) = some frame.message)
    (hlength : (toVec frame.message).length < 2 ^ 64) (rest : List UInt8) :
    readMessage fromSlice (frame.bytes toVec ++ rest) = some (frame.message, rest) := by
  unfold readMessage WireFrame.bytes
  rw [List.append_assoc, List.append_assoc, readHeaders_block h.headers, h.blockLength_eq,
    if_pos hlength]
  simp [hparse]

end WireFrame

/-! ## Streams -/

section Streams

variable {fromSlice : List UInt8 → Option Json} {toVec : Json → List UInt8}
  {frames : List WireFrame}

theorem readMessages_stream (hformed : ∀ frame ∈ frames, frame.Formed)
    (hparse : ∀ frame ∈ frames, fromSlice (toVec frame.message) = some frame.message)
    (hlength : ∀ frame ∈ frames, (toVec frame.message).length < 2 ^ 64) (rest : List UInt8) :
    readMessages fromSlice frames.length (frames.flatMap (·.bytes toVec) ++ rest) =
      some (frames.map (·.message), rest) := by
  induction frames with
  | nil => rfl
  | cons frame frames ih =>
    have hmem := List.mem_cons_self (a := frame) (l := frames)
    have htail := ih (fun f hf => hformed f (List.mem_cons_of_mem _ hf))
      (fun f hf => hparse f (List.mem_cons_of_mem _ hf))
      (fun f hf => hlength f (List.mem_cons_of_mem _ hf))
    rw [List.flatMap_cons, List.append_assoc, List.length_cons, readMessages,
      WireFrame.readMessage_bytes (hformed frame hmem) (hparse frame hmem) (hlength frame hmem)]
    simp only [Option.bind_eq_bind, Option.bind_some, htail, List.map_cons]

/-- The frames of a stream are read in order and nothing past them, and what is left of a
frame after them is not read. -/
theorem readMessages_frames (hformed : ∀ frame ∈ frames, frame.Formed)
    (hparse : ∀ frame ∈ frames, fromSlice (toVec frame.message) = some frame.message)
    (hlength : ∀ frame ∈ frames, (toVec frame.message).length < 2 ^ 64)
    (hempty : fromSlice [] = none) (trailing : List UInt8) :
    readMessages fromSlice frames.length (frames.flatMap (·.bytes toVec) ++ trailing) =
        some (frames.map (·.message), trailing) ∧
      ∀ frame : WireFrame, frame.Formed → trailing <+: frame.bytes toVec →
        trailing ≠ frame.bytes toVec → readMessage fromSlice trailing = none :=
  ⟨readMessages_stream hformed hparse hlength trailing, fun _ hformed hcut hne =>
    WireFrame.readMessage_prefix hformed hempty hcut hne⟩

end Streams

/-! ## A stream -/

def nullBytes : List UInt8 := encode "null".toList

/-- A reader of one message. -/
def nullFromSlice (bytes : List UInt8) : Option Json := if bytes = nullBytes then some .null else none

/-- One header before the length in the first frame, one after it in the second. -/
def nullFrames : List WireFrame :=
  [⟨["É: \r".toList], .null, []⟩, ⟨[], .null, ["Content-Type: a\r".toList]⟩]

theorem formed_nullFrames : ∀ frame ∈ nullFrames, frame.Formed := by
  intro frame hmem
  unfold nullFrames at hmem
  rw [List.mem_cons, List.mem_singleton] at hmem
  rcases hmem with rfl | rfl
  · refine ⟨?_, by simp⟩
    intro text htext
    rw [List.mem_singleton.mp htext]
    exact ⟨by decide, ⟨':', by decide, by decide⟩, by decide⟩
  · refine ⟨by simp, ?_⟩
    intro text htext
    rw [List.mem_singleton.mp htext]
    exact ⟨by decide, ⟨':', by decide, by decide⟩, by decide⟩

/-- Two frames, and two bytes of a third. -/
theorem readMessages_frames_null :
    readMessages nullFromSlice 2 (nullFrames.flatMap (·.bytes fun _ => nullBytes) ++ [67, 111]) =
        some ([.null, .null], [67, 111]) ∧ readMessage nullFromSlice [67, 111] = none := by
  have hread : nullFromSlice nullBytes = some .null := if_pos rfl
  have hmessage : ∀ frame ∈ nullFrames, frame.message = .null := by
    intro frame hmem
    unfold nullFrames at hmem
    rw [List.mem_cons, List.mem_singleton] at hmem
    rcases hmem with rfl | rfl <;> rfl
  obtain ⟨hstream, hcut⟩ := @readMessages_frames nullFromSlice (fun _ => nullBytes) nullFrames
    formed_nullFrames (fun frame hmem => hread.trans (congrArg some (hmessage frame hmem).symm))
    (fun _ _ => by decide) (by decide) [67, 111]
  refine ⟨hstream, hcut ⟨[], .null, []⟩ ⟨by simp, by simp⟩ ?_ ?_⟩
  · decide
  · decide

end Dap.Wire

end MarrowLsp
