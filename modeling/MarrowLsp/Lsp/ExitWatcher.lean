-- SUMMARY: The watcher that looks for the exit notification in what is read from stdin: how reads are cut does not matter, and which declared lengths it does not survive (marrow-lsp main.rs).
import MarrowLsp.Dap.Wire
import MarrowLsp.Lib.Lines
import MarrowLsp.Lsp.ExitNotification

/-!
# The exit watcher

What is read is kept until it holds whole frames, and the frames are scanned in order. The
length of a frame is added up without a check, so it can overflow.
-/
namespace MarrowLsp

namespace ExitWatcher

open Utf8
open Dap.Wire (parseUsize contentLengthKey)

/-- `b"\r\n\r\n"`. -/
def headerEnd : List UInt8 := [13, 10, 13, 10]

def stripKey (line : List Char) : Option (List Char) :=
  if contentLengthKey <+: line then some (line.drop contentLengthKey.length) else none

/-- The length of a whole header, and the length it declares. -/
def parseHeader (buffer : List UInt8) : Option (Nat × Nat) := do
  let position ← findSubslice buffer headerEnd
  let header ← Utf8.decode (buffer.take (position + 4))
  let value ← (textLines header).findSome? stripKey
  let contentLength ← parseUsize (trim value)
  some (position + 4, contentLength)

/-- `header_len + body_len` in a `usize`: `none` where a build with overflow checks panics,
and wrapped in one without. -/
def frameLen (overflowChecks : Bool) (headerLen bodyLen : Nat) : Option Nat :=
  if headerLen + bodyLen < 2 ^ 64 then some (headerLen + bodyLen)
  else if overflowChecks then none
  else some ((headerLen + bodyLen) % 2 ^ 64)

/-- `&buffer[start..stop]`, `none` where it panics. -/
def sliceRange (buffer : List UInt8) (start stop : Nat) : Option (List UInt8) :=
  if start ≤ stop ∧ stop ≤ buffer.length then some ((buffer.take stop).drop start) else none

/-- What a scan comes to: bytes kept for the next read, the end of the process, or a
panic. -/
inductive Scan where
  | waiting (buffer : List UInt8)
  | exits
  | panics
  deriving DecidableEq, Repr

/-- A scan goes on with more bytes where it waits for them. -/
def Scan.andThen (next : List UInt8 → Scan) : Scan → Scan
  | waiting buffer => next buffer
  | exits => exits
  | panics => panics

/-- One poll of stdin. -/
inductive Poll where
  | pending
  | failed
  | ready (new : List UInt8)
  deriving DecidableEq, Repr

def Poll.bytes : Poll → List UInt8
  | ready new => new
  | _ => []

inductive Process where
  | reading (buffer : List UInt8)
  | exited (code : Nat)
  | panicked
  deriving DecidableEq, Repr

/-! ## Headers -/

theorem parseHeader_eq_some {buffer : List UInt8} {headerLen bodyLen : Nat}
    (h : parseHeader buffer = some (headerLen, bodyLen)) :
    ∃ position header value, findSubslice buffer headerEnd = some position ∧
      headerLen = position + 4 ∧ Utf8.decode (buffer.take (position + 4)) = some header ∧
      (textLines header).findSome? stripKey = some value ∧
      parseUsize (trim value) = some bodyLen := by
  unfold parseHeader at h
  obtain ⟨position, hposition, h⟩ := Option.bind_eq_some_iff.mp h
  obtain ⟨header, hheader, h⟩ := Option.bind_eq_some_iff.mp h
  obtain ⟨value, hvalue, h⟩ := Option.bind_eq_some_iff.mp h
  obtain ⟨length, hlength, h⟩ := Option.bind_eq_some_iff.mp h
  cases h
  exact ⟨position, header, value, hposition, rfl, hheader, hvalue, hlength⟩

theorem parseHeader_bounds {buffer : List UInt8} {headerLen bodyLen : Nat}
    (h : parseHeader buffer = some (headerLen, bodyLen)) :
    4 ≤ headerLen ∧ headerLen ≤ buffer.length ∧ bodyLen < 2 ^ 64 := by
  obtain ⟨position, header, value, hposition, rfl, -, -, hlength⟩ := parseHeader_eq_some h
  exact ⟨Nat.le_add_left _ _, Search.find_le hposition, Dap.Wire.parseUsize_lt hlength⟩

/-- A whole header is read the same whatever comes after it. -/
theorem parseHeader_append {buffer : List UInt8} {headerLen bodyLen : Nat}
    (h : parseHeader buffer = some (headerLen, bodyLen)) (more : List UInt8) :
    parseHeader (buffer ++ more) = some (headerLen, bodyLen) := by
  obtain ⟨position, header, value, hposition, rfl, hheader, hvalue, hlength⟩ :=
    parseHeader_eq_some h
  have hfound : findSubslice (buffer ++ more) headerEnd = some position :=
    Search.find_append hposition more
  have htake : (buffer ++ more).take (position + 4) = buffer.take (position + 4) :=
    List.take_append_of_le_length (Search.find_le hposition)
  simp only [parseHeader, hfound, htake, hheader, hvalue, hlength, Option.bind_eq_bind,
    Option.bind_some]

/-! ## The scan -/

/-- What one turn of the loop in `scan` comes to. -/
inductive Turn where
  | waits
  | panics
  | exits
  | drains (frameLen : Nat)
  deriving DecidableEq, Repr

/-- Where a turn leaves the scan. -/
def Turn.result (buffer : List UInt8) (next : Nat → Scan) : Turn → Scan
  | waits => .waiting buffer
  | panics => .panics
  | exits => .exits
  | drains frameLen => next frameLen

section Scanning

variable (fromSlice : List UInt8 → Option Json) (overflowChecks : Bool)

/-- One turn of the loop in `ExitWatcher::scan`. -/
def turn (buffer : List UInt8) : Turn :=
  match parseHeader buffer with
  | none => .waits
  | some (headerLen, bodyLen) =>
    match frameLen overflowChecks headerLen bodyLen with
    | none => .panics
    | some frameLen =>
      if buffer.length < frameLen then .waits
      else
        match sliceRange buffer headerLen frameLen with
        | none => .panics
        | some body => if isExitNotification fromSlice body then .exits else .drains frameLen

section Turns

variable {fromSlice} {overflowChecks} {buffer : List UInt8} {headerLen bodyLen : Nat}

theorem turn_of_none (hheader : parseHeader buffer = none) :
    turn fromSlice overflowChecks buffer = .waits := by
  rw [turn, hheader]

/-- A length that overflows panics, where the sum is added up or where it is sliced. -/
theorem turn_of_overflow (hheader : parseHeader buffer = some (headerLen, bodyLen))
    (hover : 2 ^ 64 ≤ headerLen + bodyLen) :
    turn fromSlice overflowChecks buffer = .panics := by
  obtain ⟨-, hle, hlt⟩ := parseHeader_bounds hheader
  have hwraps : (headerLen + bodyLen) % 2 ^ 64 < headerLen := by omega
  have hslice : sliceRange buffer headerLen ((headerLen + bodyLen) % 2 ^ 64) = none :=
    if_neg fun h => absurd h.1 (Nat.not_le.mpr hwraps)
  rw [turn, hheader]
  dsimp only
  cases overflowChecks with
  | true => rw [frameLen, if_neg (Nat.not_lt.mpr hover), if_pos rfl]
  | false =>
    rw [frameLen, if_neg (Nat.not_lt.mpr hover), if_neg Bool.false_ne_true]
    dsimp only
    rw [if_neg (Nat.not_lt.mpr (hwraps.le.trans hle)), hslice]

theorem turn_of_short (hheader : parseHeader buffer = some (headerLen, bodyLen))
    (hfits : headerLen + bodyLen < 2 ^ 64) (hshort : buffer.length < headerLen + bodyLen) :
    turn fromSlice overflowChecks buffer = .waits := by
  rw [turn, hheader]
  dsimp only
  rw [frameLen, if_pos hfits]
  dsimp only
  rw [if_pos hshort]

theorem turn_of_whole (hheader : parseHeader buffer = some (headerLen, bodyLen))
    (hfits : headerLen + bodyLen < 2 ^ 64) (hwhole : headerLen + bodyLen ≤ buffer.length) :
    turn fromSlice overflowChecks buffer =
      if isExitNotification fromSlice ((buffer.drop headerLen).take bodyLen) then .exits
      else .drains (headerLen + bodyLen) := by
  have hslice : sliceRange buffer headerLen (headerLen + bodyLen) =
      some ((buffer.drop headerLen).take bodyLen) := by
    rw [sliceRange, if_pos ⟨Nat.le_add_right _ _, hwhole⟩, List.take_drop]
  rw [turn, hheader]
  dsimp only
  rw [frameLen, if_pos hfits]
  dsimp only
  rw [if_neg (Nat.not_lt.mpr hwhole), hslice]

/-- What a turn can be, with the frame it has come to. -/
theorem turn_cases (fromSlice : List UInt8 → Option Json) (overflowChecks : Bool)
    (buffer : List UInt8) :
    (turn fromSlice overflowChecks buffer = .waits ∧
      ∀ headerLen bodyLen, parseHeader buffer = some (headerLen, bodyLen) →
        headerLen + bodyLen < 2 ^ 64 ∧ buffer.length < headerLen + bodyLen) ∨
    ∃ headerLen bodyLen, parseHeader buffer = some (headerLen, bodyLen) ∧
      (turn fromSlice overflowChecks buffer = .panics ∧ 2 ^ 64 ≤ headerLen + bodyLen ∨
        (headerLen + bodyLen < 2 ^ 64 ∧ headerLen + bodyLen ≤ buffer.length) ∧
          turn fromSlice overflowChecks buffer =
            if isExitNotification fromSlice ((buffer.drop headerLen).take bodyLen) then .exits
            else .drains (headerLen + bodyLen)) := by
  cases hheader : parseHeader buffer with
  | none => exact .inl ⟨turn_of_none hheader, by simp⟩
  | some lengths =>
    obtain ⟨headerLen, bodyLen⟩ := lengths
    obtain hfits | hover := Nat.lt_or_ge (headerLen + bodyLen) (2 ^ 64)
    · obtain hshort | hwhole := Nat.lt_or_ge buffer.length (headerLen + bodyLen)
      · refine .inl ⟨turn_of_short hheader hfits hshort, ?_⟩
        intro _ _ hsame
        cases hsame
        exact ⟨hfits, hshort⟩
      · exact .inr ⟨headerLen, bodyLen, rfl, .inr ⟨⟨hfits, hwhole⟩,
          turn_of_whole hheader hfits hwhole⟩⟩
    · exact .inr ⟨headerLen, bodyLen, rfl, .inl ⟨turn_of_overflow hheader hover, hover⟩⟩

/-- A turn goes on behind a whole frame only. -/
theorem turn_eq_drains {total : Nat} (h : turn fromSlice overflowChecks buffer = .drains total) :
    ∃ headerLen bodyLen, parseHeader buffer = some (headerLen, bodyLen) ∧
      headerLen + bodyLen = total ∧ total < 2 ^ 64 ∧ total ≤ buffer.length ∧
      isExitNotification fromSlice ((buffer.drop headerLen).take bodyLen) = false := by
  obtain ⟨hwaits, -⟩ | ⟨headerLen, bodyLen, hheader, ⟨hpanics, -⟩ | ⟨⟨hfits, hwhole⟩, hturn⟩⟩ :=
    turn_cases fromSlice overflowChecks buffer
  · rw [hwaits] at h
    cases h
  · rw [hpanics] at h
    cases h
  · rw [hturn] at h
    split at h
    · cases h
    · next hother =>
      cases h
      exact ⟨headerLen, bodyLen, hheader, rfl, hfits, hwhole, Bool.eq_false_iff.mpr hother⟩

theorem turn_drains_lt {total : Nat} (h : turn fromSlice overflowChecks buffer = .drains total) :
    (buffer.drop total).length < buffer.length := by
  obtain ⟨headerLen, bodyLen, hheader, rfl, -, hle, -⟩ := turn_eq_drains h
  have hbounds := parseHeader_bounds hheader
  rw [List.length_drop]
  omega

end Turns

/-- `ExitWatcher::scan`. -/
def scan (buffer : List UInt8) : Scan :=
  match _hturn : turn fromSlice overflowChecks buffer with
  | .waits => .waiting buffer
  | .panics => .panics
  | .exits => .exits
  | .drains frameLen => scan (buffer.drop frameLen)
termination_by buffer.length
decreasing_by exact turn_drains_lt _hturn

def Process.pollRead : Process → Poll × Bool → Process
  | .reading buffer, (.ready new, shutdownSeen) =>
    if new = [] then .reading buffer
    else
      match scan fromSlice overflowChecks (buffer ++ new) with
      | .waiting buffer => .reading buffer
      | .exits => .exited (if shutdownSeen then 0 else 1)
      | .panics => .panicked
  | process, _ => process

/-- The process after some polls, each with whether `shutdown` has been seen by then. -/
def watch (polls : List (Poll × Bool)) : Process :=
  polls.foldl (Process.pollRead fromSlice overflowChecks) (.reading [])

def received (polls : List (Poll × Bool)) : List UInt8 := polls.flatMap fun poll => poll.1.bytes

/-- A frame that the scan comes to declares a length that overflows. -/
inductive ReachesOverflow : List UInt8 → Prop where
  | here {buffer : List UInt8} {headerLen bodyLen : Nat}
      (hheader : parseHeader buffer = some (headerLen, bodyLen))
      (hover : 2 ^ 64 ≤ headerLen + bodyLen) : ReachesOverflow buffer
  | next {buffer : List UInt8} {headerLen bodyLen : Nat}
      (hheader : parseHeader buffer = some (headerLen, bodyLen))
      (hwhole : headerLen + bodyLen ≤ buffer.length)
      (hother : isExitNotification fromSlice ((buffer.drop headerLen).take bodyLen) = false)
      (hlater : ReachesOverflow (buffer.drop (headerLen + bodyLen))) : ReachesOverflow buffer

section Scans

variable {fromSlice} {overflowChecks} {buffer : List UInt8}

theorem scan_eq (buffer : List UInt8) :
    scan fromSlice overflowChecks buffer =
      (turn fromSlice overflowChecks buffer).result buffer fun frameLen =>
        scan fromSlice overflowChecks (buffer.drop frameLen) := by
  rw [scan]
  cases turn fromSlice overflowChecks buffer <;> rfl

@[simp] theorem scan_nil : scan fromSlice overflowChecks [] = .waiting [] := by
  rw [scan_eq, turn_of_none rfl]
  rfl

variable (fromSlice overflowChecks) in
/-- What holds behind every frame that is drained holds of the whole. -/
theorem scan_induction {motive : List UInt8 → Prop}
    (step : ∀ buffer, (∀ total, turn fromSlice overflowChecks buffer = .drains total →
      motive (buffer.drop total)) → motive buffer) (buffer : List UInt8) : motive buffer :=
  step buffer fun total _hturn => scan_induction step (buffer.drop total)
termination_by buffer.length
decreasing_by exact turn_drains_lt _hturn

/-! ## Chunks -/

/-- More bytes change a turn only where it waits for them. -/
theorem turn_append (h : turn fromSlice overflowChecks buffer ≠ .waits) (more : List UInt8) :
    turn fromSlice overflowChecks (buffer ++ more) = turn fromSlice overflowChecks buffer := by
  obtain ⟨hwaits, -⟩ | ⟨headerLen, bodyLen, hheader, ⟨hpanics, hover⟩ | ⟨⟨hfits, hwhole⟩, hturn⟩⟩ :=
    turn_cases fromSlice overflowChecks buffer
  · exact absurd hwaits h
  · rw [hpanics, turn_of_overflow (parseHeader_append hheader more) hover]
  · have hstill : headerLen + bodyLen ≤ (buffer ++ more).length := by
      rw [List.length_append]
      omega
    have hbody : ((buffer ++ more).drop headerLen).take bodyLen =
        (buffer.drop headerLen).take bodyLen := by
      rw [List.drop_append_of_le_length (by omega),
        List.take_append_of_le_length (by rw [List.length_drop]; omega)]
    rw [hturn, turn_of_whole (parseHeader_append hheader more) hfits hstill, hbody]

/-- A scan of more bytes goes on where the scan of the first ones stopped. -/
theorem scan_append (buffer more : List UInt8) :
    scan fromSlice overflowChecks (buffer ++ more) =
      (scan fromSlice overflowChecks buffer).andThen fun rest =>
        scan fromSlice overflowChecks (rest ++ more) := by
  induction buffer using scan_induction fromSlice overflowChecks with
  | step buffer ih =>
    by_cases hwaits : turn fromSlice overflowChecks buffer = .waits
    · rw [scan_eq buffer, hwaits]
      rfl
    · rw [scan_eq (buffer ++ more), turn_append hwaits, scan_eq buffer]
      cases hturn : turn fromSlice overflowChecks buffer with
      | waits => exact absurd hturn hwaits
      | panics => rfl
      | exits => rfl
      | drains total =>
        obtain ⟨_, _, -, rfl, -, hle, -⟩ := turn_eq_drains hturn
        dsimp only [Turn.result]
        rw [List.drop_append_of_le_length hle, ih _ hturn]

/-- A process has come where one scan of all that it has read comes. -/
inductive Shows : Process → Scan → Prop where
  | reading (buffer : List UInt8) : Shows (.reading buffer) (.waiting buffer)
  | exited (code : Nat) : Shows (.exited code) .exits
  | panicked : Shows .panicked .panics

theorem Shows.pollRead {process : Process} {read : List UInt8}
    (h : Shows process (scan fromSlice overflowChecks read)) (poll : Poll × Bool) :
    Shows (process.pollRead fromSlice overflowChecks poll)
      (scan fromSlice overflowChecks (read ++ poll.1.bytes)) := by
  obtain ⟨poll, shutdownSeen⟩ := poll
  by_cases hnothing : poll.bytes = []
  · have hsame : process.pollRead fromSlice overflowChecks (poll, shutdownSeen) = process := by
      cases process with
      | reading buffer =>
        cases poll with
        | ready new => exact if_pos hnothing
        | pending => rfl
        | failed => rfl
      | _ => rfl
    rw [hsame, hnothing, List.append_nil]
    exact h
  · cases poll with
    | pending => exact absurd rfl hnothing
    | failed => exact absurd rfl hnothing
    | ready new =>
      rw [scan_append]
      generalize scan fromSlice overflowChecks read = scanned at h
      cases h with
      | exited code => exact .exited code
      | panicked => exact .panicked
      | reading buffer =>
        have hread : Process.pollRead fromSlice overflowChecks (.reading buffer)
            (.ready new, shutdownSeen) =
              match scan fromSlice overflowChecks (buffer ++ new) with
              | .waiting buffer => .reading buffer
              | .exits => .exited (if shutdownSeen then 0 else 1)
              | .panics => .panicked := if_neg hnothing
        rw [hread]
        dsimp only [Scan.andThen, Poll.bytes]
        cases scan fromSlice overflowChecks (buffer ++ new) with
        | waiting rest => exact .reading rest
        | exits => exact .exited _
        | panics => exact .panicked

variable (fromSlice overflowChecks) in
/-- However what is read is cut, it is scanned as a whole. -/
theorem shows_watch (polls : List (Poll × Bool)) :
    Shows (watch fromSlice overflowChecks polls)
      (scan fromSlice overflowChecks (received polls)) := by
  have hfold : ∀ (polls : List (Poll × Bool)) {process : Process} {read : List UInt8},
      Shows process (scan fromSlice overflowChecks read) →
      Shows (polls.foldl (Process.pollRead fromSlice overflowChecks) process)
        (scan fromSlice overflowChecks (read ++ received polls)) := by
    intro polls
    induction polls with
    | nil =>
      intro process read h
      rw [received, List.flatMap_nil, List.append_nil]
      exact h
    | cons poll polls ih =>
      intro process read h
      have hpoll := ih (h.pollRead poll)
      rw [List.append_assoc] at hpoll
      exact hpoll
  have hempty : Shows (.reading []) (scan fromSlice overflowChecks []) := by
    rw [scan_nil]
    exact .reading []
  exact hfold polls hempty

theorem watch_panicked_iff (polls : List (Poll × Bool)) :
    watch fromSlice overflowChecks polls = .panicked ↔
      scan fromSlice overflowChecks (received polls) = .panics := by
  have hshows := shows_watch fromSlice overflowChecks polls
  generalize watch fromSlice overflowChecks polls = process at hshows
  generalize scan fromSlice overflowChecks (received polls) = scanned at hshows
  cases hshows <;> simp

theorem watch_exited_iff (polls : List (Poll × Bool)) :
    (∃ code, watch fromSlice overflowChecks polls = .exited code) ↔
      scan fromSlice overflowChecks (received polls) = .exits := by
  have hshows := shows_watch fromSlice overflowChecks polls
  generalize watch fromSlice overflowChecks polls = process at hshows
  generalize scan fromSlice overflowChecks (received polls) = scanned at hshows
  cases hshows <;> simp

/-! ## Lengths that overflow -/

theorem reachesOverflow_of_drains {total : Nat}
    (hturn : turn fromSlice overflowChecks buffer = .drains total) :
    ReachesOverflow fromSlice buffer ↔ ReachesOverflow fromSlice (buffer.drop total) := by
  obtain ⟨headerLen, bodyLen, hheader, rfl, hfits, hwhole, hother⟩ := turn_eq_drains hturn
  constructor
  · intro h
    cases h with
    | here hheader' hover =>
      rw [hheader] at hheader'
      cases hheader'
      exact absurd hover (Nat.not_le.mpr hfits)
    | next hheader' _ _ hlater =>
      rw [hheader] at hheader'
      cases hheader'
      exact hlater
  · exact .next hheader hwhole hother

/-- A scan that stops has come to an overflow if it panics. -/
theorem reachesOverflow_of_stop
    (hstop : ∀ total, turn fromSlice overflowChecks buffer ≠ .drains total) :
    ReachesOverflow fromSlice buffer ↔ turn fromSlice overflowChecks buffer = .panics := by
  constructor
  · intro h
    cases h with
    | here hheader hover => exact turn_of_overflow hheader hover
    | next hheader hwhole hother _ =>
      apply (Nat.lt_or_ge _ _).elim (fun hfits => ?_) (turn_of_overflow hheader)
      have hturn : turn fromSlice overflowChecks buffer = _ := turn_of_whole hheader hfits hwhole
      rw [hother] at hturn
      exact absurd hturn (hstop _)
  · intro h
    obtain ⟨hwaits, -⟩ | ⟨_, _, hheader, ⟨-, hover⟩ | ⟨-, hturn⟩⟩ :=
      turn_cases fromSlice overflowChecks buffer
    · rw [hwaits] at h
      cases h
    · exact .here hheader hover
    · rw [h] at hturn
      split at hturn
      · cases hturn
      · cases hturn

/-- The watcher panics exactly on the streams that reach such a length. -/
theorem scan_eq_panics_iff (buffer : List UInt8) :
    scan fromSlice overflowChecks buffer = .panics ↔ ReachesOverflow fromSlice buffer := by
  induction buffer using scan_induction fromSlice overflowChecks with
  | step buffer ih =>
    rw [scan_eq]
    cases hturn : turn fromSlice overflowChecks buffer with
    | drains total =>
      rw [reachesOverflow_of_drains hturn, ← ih total hturn, Turn.result]
    | _ =>
      rw [@reachesOverflow_of_stop fromSlice overflowChecks buffer (by simp [hturn]), hturn]
      simp [Turn.result]

end Scans

end Scanning

/-! ## Frames -/

/-- A line of a header block, without its end. -/
structure IsLine (text : List Char) : Prop where
  ne_nil : text ≠ []
  noReturn : '\r' ∉ text
  noNewline : '\n' ∉ text

def lengthLine (length : Nat) : List Char := "Content-Length: ".toList ++ Nat.toDigits 10 length

/-- The lines of a header block: a length among others. -/
def headerLines (before : List (List Char)) (length : Nat) (after : List (List Char)) :
    List (List Char) :=
  before ++ lengthLine length :: after

/-- The others are no lengths. -/
structure OtherLines (before after : List (List Char)) : Prop where
  isLine : ∀ text ∈ before ++ after, IsLine text
  other : ∀ text ∈ before ++ after, ¬ contentLengthKey <+: text

/-- The header block of some lines, with the blank line that ends it. -/
def block (headers : List (List Char)) : List Char :=
  (headers ++ [[]]).flatMap (· ++ ['\r', '\n'])

/-- A body with the lines before and after its length. -/
structure Frame where
  before : List (List Char)
  after : List (List Char)
  body : List UInt8

namespace Frame

/-- The length of the body is one that a `usize` holds. -/
structure Formed (frame : Frame) : Prop where
  lines : OtherLines frame.before frame.after
  length_lt : frame.body.length < 2 ^ 64

def header (frame : Frame) : List UInt8 :=
  encode (block (headerLines frame.before frame.body.length frame.after))

def bytes (frame : Frame) : List UInt8 := frame.header ++ frame.body

end Frame

def stream (frames : List Frame) : List UInt8 := frames.flatMap Frame.bytes

theorem isLine_lengthLine (length : Nat) : IsLine (lengthLine length) := by
  have hdigits {c : Char} (hc : c.isDigit = false) : c ∉ Nat.toDigits 10 length := by
    intro hmem
    rw [Nat.isDigit_of_mem_toDigits (by decide) (by decide) hmem] at hc
    cases hc
  refine ⟨?_, ?_, ?_⟩
  · exact List.append_ne_nil_of_right_ne_nil _ Nat.toDigits_ne_nil
  · exact List.not_mem_append (by decide) (hdigits rfl)
  · exact List.not_mem_append (by decide) (hdigits rfl)

theorem encode_block_nil : encode (block []) = [13, 10] := by decide

theorem encode_block_cons (text : List Char) (headers : List (List Char)) :
    encode (block (text :: headers)) = encode text ++ 13 :: 10 :: encode (block headers) := by
  have hend : encode ['\r', '\n'] = [13, 10] := by decide
  rw [block, List.cons_append, List.flatMap_cons, encode_append, encode_append, hend,
    List.append_assoc]
  rfl

theorem IsLine.return_not_mem {text : List Char} (h : IsLine text) : 13 ∉ encode text := fun hmem =>
  h.noReturn (mem_of_mem_encode (by decide) (by decide) hmem)

/-- A line starts with its text, so not with a return. -/
theorem encode_block_start {text : List Char} (h : IsLine text) (headers : List (List Char)) :
    ∃ b after, b ≠ 13 ∧ encode (block (text :: headers)) = b :: after := by
  rw [encode_block_cons]
  cases htext : encode text with
  | nil => exact absurd htext (encode_ne_nil h.ne_nil)
  | cons b after =>
    refine ⟨b, _, ?_, List.cons_append⟩
    rintro rfl
    exact h.return_not_mem (htext ▸ List.mem_cons_self)

theorem find_headerEnd_pass {b : UInt8} (hb : b ≠ 13) (after : List UInt8) :
    findSubslice (13 :: 10 :: b :: after) headerEnd =
      (findSubslice (b :: after) headerEnd).map (· + 2) := by
  have hfirst : ¬ headerEnd <+: 13 :: 10 :: b :: after := by
    simp [headerEnd, hb.symm]
  have hsecond : ¬ headerEnd <+: 10 :: b :: after := by
    simp [headerEnd]
  simp only [findSubslice]
  rw [Search.find_cons, if_neg hfirst, Search.find_cons, if_neg hsecond, Option.map_map]
  rfl

/-- A header block ends where the first blank line does. -/
theorem find_headerEnd {headers : List (List Char)} (hne : headers ≠ [])
    (hlines : ∀ text ∈ headers, IsLine text) (rest : List UInt8) :
    (findSubslice (encode (block headers) ++ rest) headerEnd).map (· + 4) =
      some (encode (block headers)).length := by
  induction headers with
  | nil => exact absurd rfl hne
  | cons text headers ih =>
    have hskip (more : List UInt8) : findSubslice (encode text ++ more) headerEnd =
        (findSubslice more headerEnd).map (· + (encode text).length) :=
      Search.find_skip (hlines text List.mem_cons_self).return_not_mem more
    rw [encode_block_cons, List.append_assoc, hskip]
    cases headers with
    | nil =>
      have hfound : findSubslice (13 :: 10 :: 13 :: 10 :: rest) headerEnd = some 0 := by
        rw [findSubslice, Search.find_cons, if_pos]
        exact List.prefix_append headerEnd rest
      rw [encode_block_nil]
      simp only [List.cons_append, List.nil_append, hfound]
      simp
    | cons next headers =>
      have hnext := hlines next (List.mem_cons_of_mem _ List.mem_cons_self)
      have hlater := ih (List.cons_ne_nil _ _) fun line hline =>
        hlines line (List.mem_cons_of_mem _ hline)
      obtain ⟨b, after, hb, hstart⟩ := encode_block_start hnext headers
      rw [hstart] at hlater ⊢
      obtain ⟨position, hposition, hlength⟩ := Option.map_eq_some_iff.mp hlater
      simp only [List.cons_append] at hposition ⊢
      rw [find_headerEnd_pass hb, hposition]
      simp only [Option.map_some, List.length_append, List.length_cons] at hlength ⊢
      congr 1
      omega

theorem stripKey_lengthLine (n : Nat) :
    stripKey (lengthLine n) = some (' ' :: Nat.toDigits 10 n) := by
  have hline : lengthLine n = contentLengthKey ++ ' ' :: Nat.toDigits 10 n := by
    have happend := congrArg (· ++ Nat.toDigits 10 n) Dap.Wire.contentLengthKey_append
    simp only [List.append_assoc] at happend
    exact happend
  rw [stripKey, hline, if_pos (List.prefix_append _ _), List.drop_left]

section Headers

variable {before after : List (List Char)} (h : OtherLines before after)

include h

theorem OtherLines.isLine_headerLines (length : Nat) :
    ∀ text ∈ headerLines before length after, IsLine text := by
  intro text htext
  rw [headerLines, List.mem_append, List.mem_cons] at htext
  obtain hbefore | rfl | hafter := htext
  · exact h.isLine text (List.mem_append_left _ hbefore)
  · exact isLine_lengthLine _
  · exact h.isLine text (List.mem_append_right _ hafter)

theorem OtherLines.findSome?_stripKey (length : Nat) :
    (headerLines before length after ++ [[]]).findSome? stripKey =
      some (' ' :: Nat.toDigits 10 length) := by
  have hbefore : before.findSome? stripKey = none := by
    rw [List.findSome?_eq_none_iff]
    intro text htext
    exact if_neg (h.other text (List.mem_append_left _ htext))
  rw [headerLines, List.append_assoc, List.findSome?_append, hbefore, Option.none_or,
    List.cons_append, List.findSome?_cons_of_isSome (by simp [stripKey_lengthLine]),
    stripKey_lengthLine]

/-- The length is read out of the header block, whatever comes after it. -/
theorem OtherLines.parseHeader {length : Nat} (hlt : length < 2 ^ 64) (rest : List UInt8) :
    parseHeader (encode (block (headerLines before length after)) ++ rest) =
      some ((encode (block (headerLines before length after))).length, length) := by
  have hne : headerLines before length after ≠ [] :=
    List.append_ne_nil_of_right_ne_nil _ (List.cons_ne_nil _ _)
  have hlines : textLines (block (headerLines before length after)) =
      headerLines before length after ++ [[]] := by
    apply textLines_flatMap
    intro line hline
    obtain hheader | hblank := List.mem_append.mp hline
    · exact (h.isLine_headerLines length line hheader).noNewline
    · rw [List.mem_singleton.mp hblank]
      exact List.not_mem_nil
  have hparsed : parseUsize (trim (' ' :: Nat.toDigits 10 length)) = some length := by
    rw [Dap.Wire.trim_toDigits, Dap.Wire.parseUsize_toDigits, if_pos hlt]
  obtain ⟨position, hposition, hlength⟩ := Option.map_eq_some_iff.mp
    (find_headerEnd hne (h.isLine_headerLines length) rest)
  simp only [ExitWatcher.parseHeader, hposition, hlength, List.take_left, decode_encode, hlines,
    h.findSome?_stripKey, hparsed, Option.bind_eq_bind, Option.bind_some]

end Headers

theorem Frame.Formed.parseHeader {frame : Frame} (h : frame.Formed) (rest : List UInt8) :
    parseHeader (frame.bytes ++ rest) = some (frame.header.length, frame.body.length) := by
  rw [Frame.bytes, List.append_assoc]
  exact h.lines.parseHeader h.length_lt (frame.body ++ rest)

/-! ## Exits -/

section Exits

variable (fromSlice : List UInt8 → Option Json)

/-- The first of some frames that `isExitNotification` takes for an exit notification ends
within `received` bytes. -/
def ExitsWithin (frames : List Frame) (received : Nat) : Prop :=
  ∃ before frame after, frames = before ++ frame :: after ∧
    (∀ other ∈ before, isExitNotification fromSlice other.body = false) ∧
    isExitNotification fromSlice frame.body = true ∧
    (stream (before ++ [frame])).length ≤ received

variable {fromSlice}

theorem not_exitsWithin_nil (received : Nat) : ¬ ExitsWithin fromSlice [] received := by
  rintro ⟨before, frame, after, hframes, -⟩
  exact List.append_ne_nil_of_right_ne_nil before (List.cons_ne_nil frame after) hframes.symm

theorem exitsWithin_cons {frame : Frame} {frames : List Frame} {received : Nat} :
    ExitsWithin fromSlice (frame :: frames) received ↔
      frame.bytes.length ≤ received ∧ (isExitNotification fromSlice frame.body = true ∨
        isExitNotification fromSlice frame.body = false ∧
          ExitsWithin fromSlice frames (received - frame.bytes.length)) := by
  constructor
  · rintro ⟨before, exit, after, hframes, hothers, hexit, hle⟩
    cases before with
    | nil =>
      cases hframes
      simp only [stream, List.nil_append, List.flatMap_cons, List.flatMap_nil,
        List.append_nil] at hle
      exact ⟨hle, .inl hexit⟩
    | cons first before =>
      cases hframes
      simp only [stream, List.cons_append, List.flatMap_cons, List.length_append] at hle
      refine ⟨by omega, .inr ⟨hothers frame List.mem_cons_self, before, exit, after, rfl, ?_, hexit,
        ?_⟩⟩
      · exact fun other hother => hothers other (List.mem_cons_of_mem _ hother)
      · simp only [stream]
        omega
  · rintro ⟨hle, hexit | ⟨hother, before, exit, after, rfl, hothers, hexit, hlater⟩⟩
    · refine ⟨[], frame, frames, rfl, by simp, hexit, ?_⟩
      simpa [stream] using hle
    · refine ⟨frame :: before, exit, after, rfl, ?_, hexit, ?_⟩
      · intro other hmem
        obtain rfl | hmem := List.mem_cons.mp hmem
        · exact hother
        · exact hothers other hmem
      · simp only [stream, List.cons_append, List.flatMap_cons, List.length_append] at hlater ⊢
        omega

/-- A turn at a whole frame takes it. -/
theorem turn_bytes {frame : Frame} (hformed : frame.Formed) (rest : List UInt8)
    {overflowChecks : Bool} (hfits : frame.bytes.length < 2 ^ 64) :
    turn fromSlice overflowChecks (frame.bytes ++ rest) =
      if isExitNotification fromSlice frame.body then .exits else .drains frame.bytes.length := by
  have hlength : frame.header.length + frame.body.length = frame.bytes.length := by
    rw [Frame.bytes, List.length_append]
  have hbody : ((frame.bytes ++ rest).drop frame.header.length).take frame.body.length =
      frame.body := by
    rw [Frame.bytes, List.append_assoc, List.drop_left, List.take_left]
  rw [turn_of_whole (hformed.parseHeader rest) (by omega) (by rw [List.length_append]; omega),
    hbody, hlength]

/-- A frame that is not all there is waited for. -/
theorem turn_of_prefix {frame : Frame} (hformed : frame.Formed) {overflowChecks : Bool}
    {buffer : List UInt8} (hbegins : buffer <+: frame.bytes)
    (hshort : buffer.length < frame.bytes.length)
    (hsafe : ¬ ReachesOverflow fromSlice buffer) :
    turn fromSlice overflowChecks buffer = .waits := by
  cases hheader : parseHeader buffer with
  | none => exact turn_of_none hheader
  | some lengths =>
    obtain ⟨headerLen, bodyLen⟩ := lengths
    obtain ⟨rest, hrest⟩ := hbegins
    have hwhole := parseHeader_append hheader rest
    have hframe := hformed.parseHeader []
    rw [List.append_nil] at hframe
    rw [hrest, hframe] at hwhole
    cases hwhole
    have hfits : frame.header.length + frame.body.length < 2 ^ 64 :=
      Nat.not_le.mp fun hover => hsafe (.here hheader hover)
    apply turn_of_short hheader hfits
    rwa [Frame.bytes, List.length_append] at hshort

/-- Of a stream of frames a scan exits once it has the first exit notification. -/
theorem scan_eq_exits_iff {frames : List Frame} (hformed : ∀ frame ∈ frames, frame.Formed)
    (overflowChecks : Bool) {buffer : List UInt8} (hbegins : buffer <+: stream frames)
    (hsafe : ¬ ReachesOverflow fromSlice buffer) :
    scan fromSlice overflowChecks buffer = .exits ↔
      ExitsWithin fromSlice frames buffer.length := by
  induction frames generalizing buffer with
  | nil =>
    rw [List.prefix_nil.mp hbegins, scan_nil]
    exact iff_of_false (by simp) (not_exitsWithin_nil _)
  | cons frame frames ih =>
    have hframe := hformed frame List.mem_cons_self
    rw [exitsWithin_cons]
    rw [stream, List.flatMap_cons] at hbegins
    obtain hshort | hwhole := Nat.lt_or_ge buffer.length frame.bytes.length
    · have hpart : buffer <+: frame.bytes :=
        List.prefix_of_prefix_length_le hbegins (List.prefix_append _ _) hshort.le
      rw [scan_eq, turn_of_prefix hframe hpart hshort hsafe]
      exact iff_of_false (by simp [Turn.result]) fun h => absurd h.1 (Nat.not_le.mpr hshort)
    · obtain ⟨rest, rfl⟩ : frame.bytes <+: buffer :=
        List.prefix_of_prefix_length_le (List.prefix_append _ _) hbegins hwhole
      have hlater := (List.prefix_append_right_inj _).mp hbegins
      have hfits : frame.bytes.length < 2 ^ 64 := by
        apply Nat.not_le.mp
        intro hover
        apply hsafe
        apply ReachesOverflow.here (hframe.parseHeader rest)
        rwa [Frame.bytes, List.length_append] at hover
      have hturn : turn fromSlice overflowChecks (frame.bytes ++ rest) = _ :=
        turn_bytes hframe rest hfits
      cases hexit : isExitNotification fromSlice frame.body with
      | true =>
        rw [hexit, if_pos rfl] at hturn
        rw [scan_eq, hturn]
        exact iff_of_true rfl ⟨hwhole, .inl rfl⟩
      | false =>
        rw [hexit, if_neg Bool.false_ne_true] at hturn
        have hrest : ¬ ReachesOverflow fromSlice rest := by
          intro hover
          apply hsafe
          rw [reachesOverflow_of_drains hturn, List.drop_left]
          exact hover
        rw [scan_eq, hturn, Turn.result, List.drop_left,
          ih (fun other hother => hformed other (List.mem_cons_of_mem _ hother)) hlater hrest,
          List.length_append, Nat.add_sub_cancel_left]
        simp

end Exits

/-- The watcher never panics, and signals the exit in the read that completes the first exit
notification of a stream of frames. -/
structure WatchesExit (fromSlice : List UInt8 → Option Json) (overflowChecks : Bool)
    (polls : List (Poll × Bool)) : Prop where
  safe : ∀ k, watch fromSlice overflowChecks (polls.take k) ≠ .panicked
  signals : ∀ frames, (∀ frame ∈ frames, Frame.Formed frame) → received polls <+: stream frames →
    ∀ k, (∃ code, watch fromSlice overflowChecks (polls.take k) = .exited code) ↔
      ExitsWithin fromSlice frames (received (polls.take k)).length

theorem received_take_beginning (polls : List (Poll × Bool)) (k : Nat) :
    received (polls.take k) <+: received polls := by
  conv =>
    rhs
    rw [← List.take_append_drop k polls]
  rw [received, received, List.flatMap_append]
  exact List.prefix_append _ _

theorem ReachesOverflow.of_prefix {fromSlice : List UInt8 → Option Json} {part buffer : List UInt8}
    (h : ReachesOverflow fromSlice part) (hbegins : part <+: buffer) :
    ReachesOverflow fromSlice buffer := by
  obtain ⟨more, rfl⟩ := hbegins
  rw [← @scan_eq_panics_iff fromSlice true] at h ⊢
  rw [scan_append, h]
  rfl

/-- The watcher does what it is for exactly on the streams that reach no length that
overflows. -/
theorem watchesExit_iff (fromSlice : List UInt8 → Option Json) (overflowChecks : Bool)
    (polls : List (Poll × Bool)) :
    WatchesExit fromSlice overflowChecks polls ↔ ¬ ReachesOverflow fromSlice (received polls) := by
  constructor
  · intro h hover
    apply h.safe polls.length
    rw [List.take_length, watch_panicked_iff, scan_eq_panics_iff]
    exact hover
  · intro hsafe
    have hpart (k : Nat) : ¬ ReachesOverflow fromSlice (received (polls.take k)) := fun hover =>
      hsafe (hover.of_prefix (received_take_beginning polls k))
    constructor
    · intro k
      rw [ne_eq, watch_panicked_iff, scan_eq_panics_iff]
      exact hpart k
    · intro frames hformed hbegins k
      rw [watch_exited_iff]
      exact scan_eq_exits_iff hformed overflowChecks
        ((received_take_beginning polls k).trans hbegins) (hpart k)

/-! ## The largest length -/

theorem received_read (new : List UInt8) (shutdownSeen : Bool) :
    received [(.ready new, shutdownSeen)] = new := by
  simp [received, Poll.bytes]

theorem OtherLines.reachesOverflow {before after : List (List Char)}
    (h : OtherLines before after) (fromSlice : List UInt8 → Option Json) {length : Nat}
    (hlt : length < 2 ^ 64) (hlarge : 2 ^ 64 ≤ length + 4) :
    ReachesOverflow fromSlice (encode (block (headerLines before length after))) := by
  have hheader := h.parseHeader hlt []
  rw [List.append_nil] at hheader
  have hbounds := parseHeader_bounds hheader
  apply ReachesOverflow.here hheader
  omega

namespace Sample

/-- One read of a header that declares the largest length. -/
def largestLength : List (Poll × Bool) :=
  [(.ready (encode (block (headerLines [] 18446744073709551615 []))), false)]

end Sample

open ExitWatcher.Sample in
theorem not_watchesExit_largestLength :
    ¬ WatchesExit (fun _ => none) true largestLength ∧
      ¬ WatchesExit (fun _ => none) false largestLength := by
  have hlines : OtherLines [] [] := ⟨by simp, by simp⟩
  have hover : ReachesOverflow (fun _ => none) (received largestLength) := by
    rw [largestLength, received_read]
    exact hlines.reachesOverflow _ (by decide) (by decide)
  have hnever (overflowChecks : Bool) :
      ¬ WatchesExit (fun _ => none) overflowChecks largestLength := by
    intro h
    apply h.safe largestLength.length
    rw [List.take_length, watch_panicked_iff, scan_eq_panics_iff]
    exact hover
  exact ⟨hnever true, hnever false⟩

end ExitWatcher

end MarrowLsp
