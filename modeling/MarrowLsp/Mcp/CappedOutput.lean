-- SUMMARY: The captured output of a run: what `CappedOutput` retains of every sequence of writes (marrow-lsp-core mcp.rs).
import MarrowLsp.Core.Marrow

/-!
# Captured output

What a run prints is retained up to `OUTPUT_CAP` bytes. The write that goes past the cap
is cut at a character boundary, and later writes are dropped.
-/
namespace MarrowLsp

namespace Mcp

open Utf8

def OUTPUT_CAP : Nat := 64 * 1024

structure CappedOutput where
  text : Text
  truncated : Bool
  deriving DecidableEq, Repr

namespace CappedOutput

def new : CappedOutput := ⟨[], false⟩

def intoParts (output : CappedOutput) : Text × Bool := (output.text, output.truncated)

/-- `RunOutputSink::write`; `none` where the subtraction underflows or the slice panics. -/
def write (output : CappedOutput) (text : Text) : Option CappedOutput :=
  if output.truncated then some output
  else if byteLen output.text ≤ OUTPUT_CAP then
    let remaining := OUTPUT_CAP - byteLen output.text
    if byteLen text ≤ remaining then some { output with text := output.text ++ text }
    else
      (slice text 0 (floorCharBoundary text remaining)).map fun kept =>
        ⟨output.text ++ kept, true⟩
  else none

/-- What is left of `output` after `writes`. -/
def writeAll : CappedOutput → List Text → Option CappedOutput
  | output, [] => some output
  | output, text :: writes => (output.write text).bind fun output => output.writeAll writes

/-- `output` retains of `written` what the cap allows. -/
structure Retains (output : CappedOutput) (written : Text) : Prop where
  longest : LongestWithin OUTPUT_CAP written output.text
  truncated_iff : output.truncated = true ↔ OUTPUT_CAP < byteLen written

theorem retains_new : Retains new [] :=
  ⟨longestWithin_self (Nat.zero_le _), by simp [new, OUTPUT_CAP]⟩

/-- Until the cut all of what is written is retained. -/
theorem Retains.text_eq {output : CappedOutput} {written : Text} (h : Retains output written)
    (huncut : output.truncated = false) : output.text = written := by
  have hfits : byteLen written ≤ OUTPUT_CAP := by
    apply Nat.not_lt.mp
    rw [← h.truncated_iff, huncut]
    exact Bool.false_ne_true
  have hlen := h.longest.longest written List.prefix_rfl hfits
  obtain ⟨rest, rfl⟩ := h.longest.prefix_of
  rw [byteLen_append] at hlen
  cases rest with
  | nil => exact (List.append_nil _).symm
  | cons c rest =>
    have hpos := c.utf8Size_pos
    rw [byteLen_cons] at hlen
    omega

/-- One write keeps to the cap, and neither underflows nor slices inside a character. -/
theorem Retains.write {output : CappedOutput} {written : Text} (h : Retains output written)
    (text : Text) : ∃ next, output.write text = some next ∧ Retains next (written ++ text) := by
  unfold CappedOutput.write
  by_cases hcut : output.truncated = true
  · have hpast := h.truncated_iff.mp hcut
    rw [if_pos hcut]
    refine ⟨output, rfl, h.longest.append hpast text, iff_of_true hcut ?_⟩
    exact hpast.trans_le (byteLen_le_of_beginning (List.prefix_append written text))
  · have huncut : output.truncated = false := Bool.eq_false_iff.mpr hcut
    have htext := h.text_eq huncut
    have hcap := h.longest.byteLen_le
    rw [if_neg hcut, if_pos hcap]
    subst htext
    by_cases hfits : byteLen text ≤ OUTPUT_CAP - byteLen output.text
    · rw [if_pos hfits]
      have hall : byteLen (output.text ++ text) ≤ OUTPUT_CAP := by
        rw [byteLen_append]
        omega
      exact ⟨_, rfl, longestWithin_self hall, iff_of_false hcut (Nat.not_lt.mpr hall)⟩
    · rw [if_neg hfits]
      obtain ⟨kept, hslice, hlongest⟩ := longestWithin_floor (t := text) hcap
      rw [hslice]
      refine ⟨_, rfl, hlongest, iff_of_true rfl ?_⟩
      rw [byteLen_append]
      omega

theorem Retains.writeAll {output : CappedOutput} {written : Text} (h : Retains output written)
    (writes : List Text) :
    ∃ last, output.writeAll writes = some last ∧ Retains last (written ++ writes.flatten) := by
  induction writes generalizing output written with
  | nil => exact ⟨output, rfl, by rwa [List.flatten_nil, List.append_nil]⟩
  | cons text writes ih =>
    obtain ⟨next, hwrite, hnext⟩ := h.write text
    obtain ⟨last, hlast, hretains⟩ := ih hnext
    rw [List.append_assoc, ← List.flatten_cons] at hretains
    exact ⟨last, by rw [CappedOutput.writeAll, hwrite, Option.bind_some, hlast], hretains⟩

/-- Whatever is written, no write underflows, and the longest beginning of the text within
the cap is retained. -/
theorem writeAll_exact (writes : List Text) :
    ∃ output, new.writeAll writes = some output ∧
      LongestWithin OUTPUT_CAP writes.flatten output.text ∧
      (output.truncated = true ↔ OUTPUT_CAP < byteLen writes.flatten) := by
  obtain ⟨output, hwrites, hretains⟩ := retains_new.writeAll writes
  exact ⟨output, hwrites, hretains.longest, hretains.truncated_iff⟩

end CappedOutput

end Mcp

end MarrowLsp
