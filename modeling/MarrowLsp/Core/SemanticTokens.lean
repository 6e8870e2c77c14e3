-- SUMMARY: Semantic token streams and the edits of a delta reply (semantic_tokens.rs).
import Mathlib.Algebra.Group.Nat.Defs
import Mathlib.Data.List.Sort
import MarrowLsp.Lib.Splice

/-!
# Semantic tokens

A stream of tokens goes over the wire as an array with five uints for each token. A
delta reply replaces one stretch of the array the client holds. Offsets in the array
are `u32`.
-/
namespace MarrowLsp

open Splice

/-- One delta-encoded token. -/
structure SemanticToken where
  deltaLine : Nat
  deltaStart : Nat
  length : Nat
  tokenType : Nat
  tokenModifiersBitset : Nat
  deriving DecidableEq, Repr

structure SemanticTokensEdit where
  start : Nat
  deleteCount : Nat
  data : Option (List SemanticToken)
  deriving DecidableEq, Repr

def UINTS_PER_TOKEN : Nat := 5

def SemanticToken.uints (token : SemanticToken) : List Nat :=
  [token.deltaLine, token.deltaStart, token.length, token.tokenType, token.tokenModifiersBitset]

/-- The array a stream is on the wire. -/
def flatten (tokens : List SemanticToken) : List Nat := tokens.flatMap SemanticToken.uints

def commonPrefix (previous current : List SemanticToken) : Nat :=
  ((previous.zip current).takeWhile fun pair => pair.1 == pair.2).length

def commonSuffix (previous current : List SemanticToken) (limit : Nat) : Nat :=
  (((previous.reverse.zip current.reverse).take limit).takeWhile
    fun pair => pair.1 == pair.2).length

/-- The suffix that is kept beside the common prefix. -/
def keptSuffix (previous current : List SemanticToken) : Nat :=
  let start := commonPrefix previous current
  commonSuffix (previous.drop start) (current.drop start)
    (min previous.length current.length - start)

/-- The tokens between the kept prefix and the kept suffix. -/
def removedTokens (previous current : List SemanticToken) : List SemanticToken :=
  (previous.take (previous.length - keptSuffix previous current)).drop
    (commonPrefix previous current)

def insertedTokens (previous current : List SemanticToken) : List SemanticToken :=
  (current.take (current.length - keptSuffix previous current)).drop
    (commonPrefix previous current)

/-- A count of tokens in uints, in `u32`. -/
def scaled (tokens : Nat) : Nat := tokens % 2 ^ 32 * UINTS_PER_TOKEN % 2 ^ 32

def semanticTokensDeltaEdits (previous current : List SemanticToken) : List SemanticTokensEdit :=
  let removed := removedTokens previous current
  let inserted := insertedTokens previous current
  if removed.isEmpty && inserted.isEmpty then []
  else
    [{ start := scaled (commonPrefix previous current)
       deleteCount := scaled removed.length
       data := if !inserted.isEmpty then some inserted else none }]

/-! ## The client's side -/

/-- What a client makes of one edit of the array it holds. -/
def SemanticTokensEdit.apply (edit : SemanticTokensEdit) (array : List Nat) : List Nat :=
  splice array edit.start edit.deleteCount (flatten (edit.data.getD []))

/-- The edits of a reply refer to the array before any of them: the last one first. -/
def applyEdits (edits : List SemanticTokensEdit) (array : List Nat) : List Nat :=
  edits.foldr SemanticTokensEdit.apply array

/-! ## A delta gives the current stream -/

@[simp] theorem flatten_nil : flatten [] = [] := rfl

@[simp] theorem flatten_append (xs ys : List SemanticToken) :
    flatten (xs ++ ys) = flatten xs ++ flatten ys := by
  simp [flatten]

theorem length_flatten (tokens : List SemanticToken) :
    (flatten tokens).length = tokens.length * UINTS_PER_TOKEN :=
  @length_flatMap_block _ _ UINTS_PER_TOKEN SemanticToken.uints (fun _ => rfl) tokens

theorem commonPrefix_eq (previous current : List SemanticToken) :
    commonPrefix previous current =
      (agreeing (min previous.length current.length) previous current).length := by
  rw [agreeing_of_le le_rfl]
  rfl

theorem take_commonPrefix (previous current : List SemanticToken) :
    previous.take (commonPrefix previous current) =
      current.take (commonPrefix previous current) := by
  rw [commonPrefix_eq]
  exact take_agreeing _ _ _

/-- The kept prefix and suffix do not overlap, in either stream. -/
theorem commonPrefix_add_keptSuffix_le (previous current : List SemanticToken) :
    commonPrefix previous current + keptSuffix previous current ≤
      min previous.length current.length := by
  have hlimit : keptSuffix previous current ≤
      min previous.length current.length - commonPrefix previous current :=
    length_agreeing_le_limit _ _ _
  have hcommon : commonPrefix previous current ≤ min previous.length current.length := by
    rw [commonPrefix_eq]
    exact length_agreeing_le _ _ _
  omega

theorem drop_keptSuffix (previous current : List SemanticToken) :
    previous.drop (previous.length - keptSuffix previous current) =
      current.drop (current.length - keptSuffix previous current) := by
  have hle := commonPrefix_add_keptSuffix_le previous current
  have hdrop := drop_agreeing_reverse
    (min previous.length current.length - commonPrefix previous current)
    (previous.drop (commonPrefix previous current)) (current.drop (commonPrefix previous current))
  rw [List.drop_drop, List.drop_drop, List.length_drop, List.length_drop] at hdrop
  change previous.drop (_ + (_ - keptSuffix previous current)) =
    current.drop (_ + (_ - keptSuffix previous current)) at hdrop
  have hprevious : commonPrefix previous current +
      (previous.length - commonPrefix previous current - keptSuffix previous current) =
      previous.length - keptSuffix previous current := by omega
  have hcurrent : commonPrefix previous current +
      (current.length - commonPrefix previous current - keptSuffix previous current) =
      current.length - keptSuffix previous current := by omega
  rwa [hprevious, hcurrent] at hdrop

/-- A list in three parts. -/
theorem take_append_drop_take {α : Type*} (xs : List α) {start suffix : Nat}
    (h : start + suffix ≤ xs.length) :
    xs = xs.take start ++ (xs.take (xs.length - suffix)).drop start ++
      xs.drop (xs.length - suffix) := by
  have htake : xs.take start = (xs.take (xs.length - suffix)).take start := by
    rw [List.take_take, min_eq_left (by omega)]
  rw [htake, List.take_append_drop, List.take_append_drop]

theorem previous_eq (previous current : List SemanticToken) :
    previous = previous.take (commonPrefix previous current) ++ removedTokens previous current ++
      previous.drop (previous.length - keptSuffix previous current) :=
  take_append_drop_take previous
    ((commonPrefix_add_keptSuffix_le previous current).trans (min_le_left _ _))

theorem current_eq (previous current : List SemanticToken) :
    current = previous.take (commonPrefix previous current) ++ insertedTokens previous current ++
      previous.drop (previous.length - keptSuffix previous current) := by
  rw [take_commonPrefix, drop_keptSuffix]
  exact take_append_drop_take current
    ((commonPrefix_add_keptSuffix_le previous current).trans (min_le_right _ _))

/-- The edit between two streams has offsets that a `u32` holds. -/
def deltaFits (previous current : List SemanticToken) : Bool :=
  (removedTokens previous current).isEmpty && (insertedTokens previous current).isEmpty ||
    decide (commonPrefix previous current * UINTS_PER_TOKEN < 2 ^ 32) &&
      decide ((removedTokens previous current).length * UINTS_PER_TOKEN < 2 ^ 32)

theorem scaled_of_lt {tokens : Nat} (h : tokens * UINTS_PER_TOKEN < 2 ^ 32) :
    scaled tokens = tokens * UINTS_PER_TOKEN := by
  unfold scaled
  unfold UINTS_PER_TOKEN at h ⊢
  rw [Nat.mod_eq_of_lt (by omega : tokens < 2 ^ 32), Nat.mod_eq_of_lt h]

/-- Spliced into the previous stream's array, the edits give the current one's. -/
theorem applyEdits_semanticTokensDeltaEdits {previous current : List SemanticToken}
    (h : deltaFits previous current = true) :
    applyEdits (semanticTokensDeltaEdits previous current) (flatten previous) =
      flatten current := by
  have hprevious := previous_eq previous current
  have hcurrent := current_eq previous current
  have hstart : (flatten (previous.take (commonPrefix previous current))).length =
      commonPrefix previous current * UINTS_PER_TOKEN := by
    rw [length_flatten, List.length_take, min_eq_left]
    have hle := commonPrefix_add_keptSuffix_le previous current
    omega
  unfold semanticTokensDeltaEdits
  dsimp only
  split
  · -- Nothing to remove or insert: the two streams are one.
    next hempty =>
    rw [Bool.and_eq_true, List.isEmpty_iff, List.isEmpty_iff] at hempty
    rw [hempty.1] at hprevious
    rw [hempty.2, ← hprevious] at hcurrent
    rw [hcurrent]
    rfl
  · next hnonempty =>
    unfold deltaFits at h
    rcases (Bool.or_eq_true _ _).mp h with hempty | hfits
    · exact absurd hempty hnonempty
    · rw [Bool.and_eq_true, decide_eq_true_eq, decide_eq_true_eq] at hfits
      obtain ⟨hfits, hcount⟩ := hfits
      have hdata : (if !(insertedTokens previous current).isEmpty then
            some (insertedTokens previous current) else none).getD [] =
          insertedTokens previous current := by
        cases insertedTokens previous current <;> rfl
      show splice (flatten previous) _ _ (flatten _) = _
      -- Both products fit in 32 bits, so the offsets are the lengths of the arrays.
      rw [scaled_of_lt hfits, scaled_of_lt hcount, hdata, ← hstart, ← length_flatten]
      calc splice (flatten previous) _ _ _
          = splice (flatten (previous.take (commonPrefix previous current)) ++
              flatten (removedTokens previous current) ++
              flatten (previous.drop (previous.length - keptSuffix previous current)))
              (flatten (previous.take (commonPrefix previous current))).length
              (flatten (removedTokens previous current)).length
              (flatten (insertedTokens previous current)) := by
            rw [← flatten_append, ← flatten_append, ← hprevious]
        _ = flatten current := by
            rw [splice_append, ← flatten_append, ← flatten_append, ← hcurrent]

/-! ## A wrapped offset -/

/-- A token appended to a stream is the one token inserted. -/
theorem semanticTokensDeltaEdits_append (previous : List SemanticToken) (token : SemanticToken) :
    semanticTokensDeltaEdits previous (previous ++ [token]) =
      [⟨scaled previous.length, scaled 0, some [token]⟩] := by
  have hcommon : commonPrefix previous (previous ++ [token]) = previous.length := by
    rw [commonPrefix_eq]
    exact agreeing_append _ _ _ (by simp)
  have hsuffix : keptSuffix previous (previous ++ [token]) = 0 := by
    have hle := commonPrefix_add_keptSuffix_le previous (previous ++ [token])
    rw [hcommon, List.length_append] at hle
    have hmin := min_le_left previous.length (previous.length + [token].length)
    omega
  have hremoved : removedTokens previous (previous ++ [token]) = [] := by
    simp [removedTokens, hcommon, hsuffix]
  have hinserted : insertedTokens previous (previous ++ [token]) = [token] := by
    unfold insertedTokens
    rw [hcommon, hsuffix, Nat.sub_zero, List.take_length, List.drop_left]
  simp [semanticTokensDeltaEdits, hcommon, hremoved, hinserted]

/-- A stream of 858993460 tokens: the offset of its end is `2 ^ 32 + 4`. -/
theorem not_applyEdits_semanticTokensDeltaEdits : ¬ ∀ previous current : List SemanticToken,
    applyEdits (semanticTokensDeltaEdits previous current) (flatten previous) =
      flatten current := by
  intro h
  obtain ⟨rest, hlength⟩ : ∃ rest : List SemanticToken, rest.length = 858993459 :=
    ⟨List.replicate 858993459 ⟨0, 0, 0, 0, 0⟩, List.length_replicate⟩
  have hsplice := h (⟨0, 0, 0, 0, 0⟩ :: rest) (⟨0, 0, 0, 0, 0⟩ :: rest ++ [⟨1, 0, 0, 0, 0⟩])
  have hstart : scaled 858993460 = 4 := by decide
  have hcount : scaled 0 = 0 := by decide
  rw [semanticTokensDeltaEdits_append, List.length_cons, hlength, hstart, hcount] at hsplice
  -- The fifth uint is the appended token's on one side and the first token's on the other.
  have hfifth := congrArg (fun array => array[4]?) hsplice
  simp [applyEdits, SemanticTokensEdit.apply, splice, flatten, SemanticToken.uints] at hfifth

end MarrowLsp
