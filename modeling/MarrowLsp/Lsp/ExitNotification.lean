-- SUMMARY: When the bytes of a message are taken for the exit notification, and when for one that they are (marrow-lsp main.rs).
import MarrowLsp.Core.JsonText

/-!
# The exit notification

The transport looks for the bytes `exit` before it parses a message. An exit notification
that spells its strings with escapes can do without them.
-/
namespace MarrowLsp

namespace ExitWatcher

open JsonText Utf8

def findSubslice (haystack needle : List UInt8) : Option Nat := Search.find haystack needle

/-- `b"exit"`. -/
def exitToken : List UInt8 := [101, 120, 105, 116]

def isExitCandidate (body : List UInt8) : Bool := (findSubslice body exitToken).isSome

-- `serde_json::from_slice`.
variable (fromSlice : List UInt8 → Option Json)

def isExitNotification (body : List UInt8) : Bool :=
  if !isExitCandidate body then false
  else
    match fromSlice body with
    | none => false
    | some value =>
      ((value.get "method").bind Json.asStr == some "exit") && (value.get "id").isNone

/-- The bytes are an object with the method `exit` and without an id. -/
def MeansExit (body : List UInt8) : Prop :=
  ∃ members, fromSlice body = some (.object members) ∧
    (Json.object members).get "method" = some (.string "exit") ∧
    (Json.object members).get "id" = none

/-- The bytes are taken for what they mean, and the guard lets every exit notification
pass. -/
structure AgreesWithMeaning (body : List UInt8) : Prop where
  iff_means : isExitNotification fromSlice body = true ↔ MeansExit fromSlice body
  guard : MeansExit fromSlice body → isExitCandidate body = true

/-- A reading of the bytes has a string that is spelled with `e`, `x`, `i` and `t` in a
row. -/
def SpellsExit (body : List UInt8) : Prop :=
  ∃ tokens value, Spells body tokens value ∧
    ∃ s, Token.string s ∈ tokens ∧ exitToken <:+: encode s.text

theorem isExitCandidate_iff (body : List UInt8) :
    isExitCandidate body = true ↔ exitToken <:+: body :=
  Search.find_isSome_iff (by decide)

theorem isExitNotification_iff (body : List UInt8) :
    isExitNotification fromSlice body = true ↔
      isExitCandidate body = true ∧ MeansExit fromSlice body := by
  unfold isExitNotification MeansExit
  cases isExitCandidate body with
  | false => simp
  | true =>
    simp only [Bool.not_true, Bool.false_eq_true, if_false, true_and]
    cases fromSlice body with
    | none => simp
    | some value =>
      dsimp only
      rw [Bool.and_eq_true, beq_iff_eq, Option.isNone_iff_eq_none]
      constructor
      · rintro ⟨hmethod, hid⟩
        obtain ⟨method, hget, hstr⟩ := Option.bind_eq_some_iff.mp hmethod
        cases value with
        | object members =>
          cases method with
          | string text =>
            cases hstr
            exact ⟨members, rfl, hget, hid⟩
          | _ => cases hstr
        | _ => cases hget
      · rintro ⟨members, hvalue, hget, hid⟩
        cases hvalue
        exact ⟨by rw [hget]; rfl, hid⟩

theorem stringOnly_x : StringOnly 'x' where
  space s := by cases s <;> decide
  mark m := by cases m <;> decide
  word w := by
    cases w with
    | null => decide
    | bool b => cases b <;> decide
  number := by decide
  quote := by decide

/-- In a JSON text the bytes `exit` stand within one string. -/
theorem spellsExit_iff {body : List UInt8} {tokens : List Token} {value : Json}
    (h : Spells body tokens value) : SpellsExit body ↔ exitToken <:+: body := by
  constructor
  · rintro ⟨others, _, hothers, s, hs, hin⟩
    have hstring : encode s.text <:+: encode (Token.string s).text := by
      rw [encode_string]
      exact ((List.prefix_append _ _).isInfix).trans (List.suffix_cons _ _).isInfix
    obtain ⟨before, after, hsplit⟩ := List.append_of_mem hs
    have hbody : encode (Token.string s).text <:+: body := by
      rw [← hothers.bytes_eq, hsplit, List.flatMap_append, List.flatMap_cons, encode_append,
        encode_append]
      exact ⟨_, _, by rw [List.append_assoc]⟩
    exact hin.trans (hstring.trans hbody)
  · intro hin
    rw [← h.bytes_eq] at hin
    obtain ⟨s, hs, hstring⟩ :=
      stringOnly_x.string_of_infix (by decide) (by decide) (by decide) hin
    exact ⟨tokens, value, h, s, hs, hstring⟩

/-- Bytes are taken for what they mean unless they are an exit notification none of whose
strings is spelled with `exit`. -/
theorem agreesWithMeaning_iff {fromSlice : List UInt8 → Option Json} (hreads : ReadsJson fromSlice)
    (body : List UInt8) :
    AgreesWithMeaning fromSlice body ↔ (MeansExit fromSlice body → SpellsExit body) := by
  have hspells (hmeans : MeansExit fromSlice body) :
      SpellsExit body ↔ isExitCandidate body = true := by
    obtain ⟨members, hparsed, -⟩ := hmeans
    obtain ⟨tokens, htokens⟩ := hreads body _ hparsed
    rw [spellsExit_iff htokens, isExitCandidate_iff]
  constructor
  · intro h hmeans
    exact (hspells hmeans).mpr (h.guard hmeans)
  · intro h
    have hguard (hmeans : MeansExit fromSlice body) : isExitCandidate body = true :=
      (hspells hmeans).mp (h hmeans)
    refine ⟨?_, hguard⟩
    rw [isExitNotification_iff]
    exact and_iff_right_of_imp hguard

/-! ## Plain and escaped notifications -/

/-- A string that says `exit` is spelled with these letters. -/
def Unescaped (tokens : List Token) : Prop :=
  ∀ s, Token.string s ∈ tokens → s.value = "exit" → s.text = "exit".toList

/-- A notification without escapes is taken for what it means. -/
theorem agreesWithMeaning_of_unescaped {fromSlice : List UInt8 → Option Json}
    (hreads : ReadsJson fromSlice) {body : List UInt8}
    (h : ∀ tokens value, Spells body tokens value → Unescaped tokens) :
    AgreesWithMeaning fromSlice body := by
  rw [agreesWithMeaning_iff hreads]
  rintro ⟨members, hparsed, hmethod, -⟩
  obtain ⟨tokens, htokens⟩ := hreads body _ hparsed
  obtain ⟨s, hs, hvalue⟩ := htokens.exists_string hmethod
  refine ⟨tokens, _, htokens, s, hs, ?_⟩
  rw [h tokens _ htokens s hs hvalue]
  exact List.infix_rfl

namespace Sample

/-- `\u0065` -/
def escapedLetter : Spelled := .unit ⟨['0', '0', '6', '5'], rfl, by simp [isHexDigit]⟩ 'e' (by decide)

def exitTail : StringText :=
  [.plain 'x' (by decide), .plain 'i' (by decide), .plain 't' (by decide)]

def plainExit : StringText := .plain 'e' (by decide) :: exitTail

def escapedExit : StringText := escapedLetter :: exitTail

def methodKey : StringText :=
  [.plain 'm' (by decide), .plain 'e' (by decide), .plain 't' (by decide), .plain 'h' (by decide),
    .plain 'o' (by decide), .plain 'd' (by decide)]

/-- An object with a method alone. -/
def notification (method : StringText) : List Token :=
  [.mark .openObject, .string methodKey, .mark .colon, .string method, .mark .closeObject]

def notificationBytes (method : StringText) : List UInt8 :=
  encode ((notification method).flatMap Token.text)

def notificationValue (method : StringText) : Json :=
  .object [("method", .string method.value)]

/-- A reader that knows one notification. -/
def readsOne (method : StringText) (bytes : List UInt8) : Option Json :=
  if bytes = notificationBytes method then some (notificationValue method) else none

theorem spells_notification (method : StringText) :
    Spells (notificationBytes method) (notification method) (notificationValue method) where
  bytes_eq := rfl
  denotes := by
    apply Denotes.object [(methodKey, [.string method], .string method.value)]
    · intro member hmember
      cases List.mem_singleton.mp hmember
      exact .string method
    · intro key
      have hkey : methodKey.value = "method" := by decide
      by_cases h : "method" = key
      · simp [Json.get, lastMember, hkey, h]
      · simp [Json.get, lastMember, hkey, h]

theorem readsJson_readsOne (method : StringText) : ReadsJson (readsOne method) := by
  intro bytes value h
  unfold readsOne at h
  split at h
  · next hbytes =>
    cases h
    rw [hbytes]
    exact ⟨_, spells_notification method⟩
  · cases h

theorem meansExit_notification {method : StringText} (h : method.value = "exit") :
    MeansExit (readsOne method) (notificationBytes method) :=
  ⟨_, if_pos rfl, by simp [Json.get, h], by simp [Json.get]⟩

end Sample

open ExitWatcher.Sample in
theorem agreesWithMeaning_iff_plainExit :
    isExitNotification (readsOne plainExit) (notificationBytes plainExit) = true :=
  ((agreesWithMeaning_iff (readsJson_readsOne plainExit) (notificationBytes plainExit)).mpr fun _ =>
    ⟨_, _, spells_notification plainExit, plainExit, by simp [notification], by
      decide⟩).iff_means.mpr (meansExit_notification (by decide))

open ExitWatcher.Sample in
theorem not_agreesWithMeaning_escapedExit :
    ¬ ∀ fromSlice, ReadsJson fromSlice → ∀ body, AgreesWithMeaning fromSlice body := by
  intro h
  have hagrees := h _ (readsJson_readsOne escapedExit) (notificationBytes escapedExit)
  have hguard := hagrees.guard (meansExit_notification (by decide))
  have hmissed : isExitCandidate (notificationBytes escapedExit) = false := by decide
  rw [hmissed] at hguard
  cases hguard

end ExitWatcher

end MarrowLsp
