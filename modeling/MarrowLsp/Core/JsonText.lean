-- SUMMARY: JSON texts: the tokens of a text, how the characters of a string can be spelled, and the value that a text denotes.
import MarrowLsp.Core.Json
import MarrowLsp.Lib.Lists
import MarrowLsp.Lib.Search
import MarrowLsp.Lib.Utf8

/-!
# JSON texts

A text is a sequence of tokens. A string can spell a character in several ways, and a
value is denoted by its tokens without the space between them. Of a number only the
characters are described, and not which number they are.
-/
namespace MarrowLsp

namespace JsonText

open Utf8

/-! ## Strings -/

def isHexDigit (c : Char) : Bool := "0123456789abcdefABCDEF".toList.contains c

def hexDigitValue (c : Char) : Nat :=
  if c.isDigit then c.toNat - '0'.toNat
  else if 'a' ≤ c then c.toNat - 'a'.toNat + 10
  else c.toNat - 'A'.toNat + 10

/-- The four digits of a `\u` escape. -/
structure Hex where
  digits : List Char
  four : digits.length = 4
  isHex : ∀ c ∈ digits, isHexDigit c = true

def Hex.value (hex : Hex) : Nat := hex.digits.foldl (fun n c => 16 * n + hexDigitValue c) 0

/-- The letters of the short escapes, and what they stand for. -/
def shortEscapes : List (Char × Char) :=
  [('"', '"'), ('\\', '\\'), ('/', '/'), ('b', '\x08'), ('f', '\x0c'), ('n', '\n'), ('r', '\r'),
    ('t', '\t')]

/-- The surrogates that a pair of escapes gives for a character. -/
structure IsPair (high low : Nat) (c : Char) : Prop where
  high_bounds : 0xD800 ≤ high ∧ high < 0xDC00
  low_bounds : 0xDC00 ≤ low ∧ low < 0xE000
  val_eq : c.val.toNat = 0x10000 + (high - 0xD800) * 0x400 + (low - 0xDC00)

/-- A character of a string as it is spelled. -/
inductive Spelled where
  | plain (c : Char) (h : c ≠ '"' ∧ c ≠ '\\' ∧ 0x20 ≤ c.val)
  | short (letter c : Char) (h : (letter, c) ∈ shortEscapes)
  | unit (hex : Hex) (c : Char) (h : c.val.toNat = hex.value)
  | pair (high low : Hex) (c : Char) (h : IsPair high.value low.value c)

namespace Spelled

def text : Spelled → List Char
  | plain c _ => [c]
  | short letter _ _ => ['\\', letter]
  | unit hex _ _ => '\\' :: 'u' :: hex.digits
  | pair high low _ _ => '\\' :: 'u' :: high.digits ++ '\\' :: 'u' :: low.digits

def char : Spelled → Char
  | plain c _ => c
  | short _ c _ => c
  | unit _ c _ => c
  | pair _ _ c _ => c

end Spelled

/-- A string as it is spelled between its quotes. -/
abbrev StringText := List Spelled

namespace StringText

def text (s : StringText) : List Char := s.flatMap Spelled.text

def value (s : StringText) : String := String.ofList (s.map Spelled.char)

end StringText

/-! ## Tokens -/

inductive Space where
  | blank
  | tab
  | newline
  | carriageReturn
  deriving DecidableEq, Repr

inductive Mark where
  | openObject
  | closeObject
  | openArray
  | closeArray
  | colon
  | comma
  deriving DecidableEq, Repr

inductive Word where
  | null
  | bool (value : Bool)
  deriving DecidableEq, Repr

def isNumberChar (c : Char) : Bool := "0123456789+-.eE".toList.contains c

structure NumberText where
  text : List Char
  ne_nil : text ≠ []
  isNumber : ∀ c ∈ text, isNumberChar c = true

inductive Token where
  | space (space : Space)
  | mark (mark : Mark)
  | word (word : Word)
  | number (number : NumberText)
  | string (string : StringText)

def Space.char : Space → Char
  | blank => ' '
  | tab => '\t'
  | newline => '\n'
  | carriageReturn => '\r'

def Mark.char : Mark → Char
  | openObject => '{'
  | closeObject => '}'
  | openArray => '['
  | closeArray => ']'
  | colon => ':'
  | comma => ','

def Word.text : Word → List Char
  | null => "null".toList
  | bool true => "true".toList
  | bool false => "false".toList

namespace Token

def text : Token → List Char
  | space s => [s.char]
  | mark m => [m.char]
  | word w => w.text
  | number n => n.text
  | string s => '"' :: s.text ++ ['"']

def isSpace : Token → Bool
  | space _ => true
  | _ => false

end Token

/-! ## Values -/

abbrev ObjectMember := StringText × List Token × Json

def ObjectMember.tokens (member : ObjectMember) : List Token :=
  .string member.1 :: .mark .colon :: member.2.1

/-- The value of a key: of members with one key the last counts. -/
def lastMember (members : List ObjectMember) (key : String) : Option Json :=
  (members.reverse.find? fun member => member.1.value == key).map (·.2.2)

/-- The value that tokens denote. -/
inductive Denotes : List Token → Json → Prop where
  | null : Denotes [.word .null] .null
  | bool (b : Bool) : Denotes [.word (.bool b)] (.bool b)
  | number (spelled : NumberText) (n : JsonNumber) : Denotes [.number spelled] (.number n)
  | string (s : StringText) : Denotes [.string s] (.string s.value)
  | array (items : List (List Token × Json)) (h : ∀ item ∈ items, Denotes item.1 item.2) :
      Denotes
        (.mark .openArray :: [.mark .comma].intercalate (items.map (·.1)) ++ [.mark .closeArray])
        (.array (items.map (·.2)))
  | object (members : List ObjectMember) (fields : List (String × Json))
      (h : ∀ member ∈ members, Denotes member.2.1 member.2.2)
      (hfields : ∀ key, (Json.object fields).get key = lastMember members key) :
      Denotes
        (.mark .openObject :: [.mark .comma].intercalate (members.map ObjectMember.tokens) ++
          [.mark .closeObject])
        (.object fields)

/-- `tokens` are how `bytes` spell `value`. -/
structure Spells (bytes : List UInt8) (tokens : List Token) (value : Json) : Prop where
  bytes_eq : encode (tokens.flatMap Token.text) = bytes
  denotes : Denotes (tokens.filter fun token => !token.isSpace) value

/-- A reader that accepts only JSON texts, and gives the value that they denote. -/
def ReadsJson (fromSlice : List UInt8 → Option Json) : Prop :=
  ∀ bytes value, fromSlice bytes = some value → ∃ tokens, Spells bytes tokens value

/-- A string member of an object is one of its strings. -/
theorem Spells.exists_string {bytes : List UInt8} {tokens : List Token}
    {fields : List (String × Json)} {key value : String}
    (h : Spells bytes tokens (.object fields))
    (hget : (Json.object fields).get key = some (.string value)) :
    ∃ s, Token.string s ∈ tokens ∧ s.value = value := by
  obtain ⟨-, hdenotes⟩ := h
  generalize htokens : (tokens.filter fun token => !token.isSpace) = solid at hdenotes
  cases hdenotes with
  | object members fields hmembers hfields =>
    rw [hfields] at hget
    obtain ⟨member, hfind, hvalue⟩ := Option.map_eq_some_iff.mp hget
    have hmember := List.mem_reverse.mp (List.mem_of_find?_eq_some hfind)
    have hstring := hmembers member hmember
    rw [hvalue] at hstring
    generalize hsolid : member.2.1 = memberTokens at hstring
    cases hstring with
    | string s =>
      refine ⟨s, ?_, rfl⟩
      have hin : Token.string s ∈ [Token.mark .comma].intercalate
          (members.map ObjectMember.tokens) := by
        apply Lists.mem_intercalate (List.mem_map_of_mem hmember)
        rw [ObjectMember.tokens, hsolid]
        simp
      apply List.mem_of_mem_filter
      rw [htokens]
      exact List.mem_append_left _ (List.mem_cons_of_mem _ hin)

/-! ## Where bytes stand in a text -/

/-- A character that no space, mark, word or number is written with. -/
structure StringOnly (c : Char) : Prop where
  space : ∀ s : Space, s.char ≠ c
  mark : ∀ m : Mark, m.char ≠ c
  word : ∀ w : Word, c ∉ w.text
  number : isNumberChar c = false
  quote : c ≠ '"'

theorem StringOnly.not_mem {c : Char} (h : StringOnly c) {token : Token}
    (htoken : ∀ s, token ≠ .string s) : c ∉ token.text := by
  cases token with
  | space s => exact fun hmem => h.space s (List.mem_singleton.mp hmem).symm
  | mark m => exact fun hmem => h.mark m (List.mem_singleton.mp hmem).symm
  | word w => exact h.word w
  | number n =>
    intro hmem
    have hnumber := n.isNumber c hmem
    rw [h.number] at hnumber
    cases hnumber
  | string s => exact absurd rfl (htoken s)

theorem Token.text_ne_nil (token : Token) : token.text ≠ [] := by
  cases token with
  | space s => exact List.cons_ne_nil _ _
  | mark m => exact List.cons_ne_nil _ _
  | word w =>
    cases w with
    | null => decide
    | bool b => cases b <;> decide
  | number n => exact n.ne_nil
  | string s => exact List.cons_ne_nil _ _

theorem encode_string (s : StringText) :
    encode (Token.string s).text = 34 :: (encode s.text ++ [34]) := by
  have hquote : encode ['"'] = [34] := by decide
  rw [Token.text, ← List.singleton_append, List.append_assoc, encode_append, encode_append, hquote]
  rfl

section Occurrences

variable {c : Char} {b : UInt8} (hc : StringOnly c) (hb : b.toNat < 128)
  (hval : c.val.toNat = b.toNat)

include hc hb hval

theorem StringOnly.not_mem_encode {token : Token} (htoken : ∀ s, token ≠ .string s) :
    b ∉ encode token.text := fun hmem => hc.not_mem htoken (mem_of_mem_encode hb hval hmem)

/-- Text does not begin with it. -/
theorem StringOnly.head?_ne (tokens : List Token) :
    (encode (tokens.flatMap Token.text)).head? ≠ some b := by
  cases tokens with
  | nil => simp [encode]
  | cons token tokens =>
    rw [List.flatMap_cons, encode_append]
    intro hhead
    cases token with
    | string s =>
      rw [encode_string, List.cons_append, List.head?_cons, Option.some.injEq] at hhead
      apply hc.quote
      apply Char.ext
      apply UInt32.toNat.inj
      rw [hval, ← hhead]
      rfl
    | _ =>
      rw [List.head?_append_of_ne_nil _ (encode_ne_nil (Token.text_ne_nil _))] at hhead
      exact hc.not_mem_encode hb hval (by simp) (List.mem_of_head? hhead)

/-- Bytes with it in the second place and no quote stand within one string. -/
theorem StringOnly.string_of_infix {a : UInt8} {more : List UInt8} {tokens : List Token}
    (hquote : 34 ∉ a :: b :: more)
    (h : a :: b :: more <:+: encode (tokens.flatMap Token.text)) :
    ∃ s, Token.string s ∈ tokens ∧ a :: b :: more <:+: encode s.text := by
  induction tokens with
  | nil => simp [encode] at h
  | cons token tokens ih =>
    rw [List.flatMap_cons, encode_append] at h
    have hlater : a :: b :: more <:+: encode (tokens.flatMap Token.text) →
        ∃ s, Token.string s ∈ token :: tokens ∧ a :: b :: more <:+: encode s.text := by
      intro hrest
      obtain ⟨s, hs, hin⟩ := ih hrest
      exact ⟨s, List.mem_cons_of_mem _ hs, hin⟩
    cases token with
    | string s =>
      rw [encode_string, List.cons_append, List.append_assoc, List.singleton_append] at h
      obtain hnil | hafter := @Search.infix_of_separated _ _ _ hquote [] _ h
      · exact absurd (List.infix_nil.mp hnil) (List.cons_ne_nil _ _)
      · obtain hin | hrest := Search.infix_of_separated hquote hafter
        · exact ⟨s, List.mem_cons_self, hin⟩
        · exact hlater hrest
    | _ =>
      apply hlater
      exact Search.infix_of_passed (hc.not_mem_encode hb hval (by simp))
        (hc.head?_ne hb hval tokens) h

end Occurrences

end JsonText

end MarrowLsp
