-- SUMMARY: Byte offsets into a text given as its characters: lengths, splitting at a byte, slices, and the character boundary at or before a byte; and the bytes of a text.
import Mathlib.Data.List.Basic
import Mathlib.Data.List.TakeWhile
import Mathlib.Algebra.Order.Group.Nat

/-!
# Byte offsets

Texts are lists of characters, offsets count the bytes of their UTF-8 encoding.
A byte offset is a character boundary when the text splits there.
-/
namespace Utf8

/-- The number of bytes of a text. -/
def byteLen : List Char → Nat
  | [] => 0
  | c :: t => c.utf8Size + byteLen t

/-- The UTF-16 code units of a character. -/
def lenUtf16 (c : Char) : Nat := if c.val ≤ 0xFFFF then 1 else 2

def utf16Len : List Char → Nat
  | [] => 0
  | c :: t => lenUtf16 c + utf16Len t

/-- Split a text at a byte offset, `none` inside a character or past the end. -/
def splitAtByte : Nat → List Char → Option (List Char × List Char)
  | 0, t => some ([], t)
  | _ + 1, [] => none
  | n + 1, c :: t =>
    if c.utf8Size ≤ n + 1 then
      (splitAtByte (n + 1 - c.utf8Size) t).map fun (before, after) => (c :: before, after)
    else none

def isCharBoundary (t : List Char) (byte : Nat) : Bool := (splitAtByte byte t).isSome

/-- The text between two byte offsets, `none` where Rust's slicing panics. -/
def slice (t : List Char) (start stop : Nat) : Option (List Char) :=
  if start ≤ stop then
    (splitAtByte start t).bind fun (_, rest) => (splitAtByte (stop - start) rest).map (·.1)
  else none

/-- `&t[start..]`. -/
def sliceFrom (t : List Char) (start : Nat) : Option (List Char) := slice t start (byteLen t)

/-- `str::find` of a character: the byte of the first one. -/
def findChar (t : List Char) (c : Char) : Option Nat :=
  if c ∈ t then some (byteLen (t.takeWhile (· ≠ c))) else none

/-- The largest character boundary at or before `byte`. -/
def floorCharBoundary (t : List Char) : Nat → Nat
  | 0 => 0
  | byte + 1 => if isCharBoundary t (byte + 1) then byte + 1 else floorCharBoundary t byte

/-- `char::is_whitespace`. -/
def isWhitespace (c : Char) : Bool :=
  (9 ≤ c.val && c.val ≤ 13) || c.val == 32 || c.val == 0x85 || c.val == 0xA0 || c.val == 0x1680 ||
    (0x2000 ≤ c.val && c.val ≤ 0x200A) || c.val == 0x2028 || c.val == 0x2029 || c.val == 0x202F ||
    c.val == 0x205F || c.val == 0x3000

/-- `str::trim`. -/
def trim (t : List Char) : List Char :=
  ((t.dropWhile isWhitespace).reverse.dropWhile isWhitespace).reverse

/-- The bytes of a text. -/
def encode (t : List Char) : List UInt8 := t.flatMap String.utf8EncodeChar

/-- The text of bytes that are UTF-8. -/
def decode (bytes : List UInt8) : Option (List Char) :=
  (String.fromUTF8? ⟨bytes.toArray⟩).map String.toList

/-! ## Lengths -/

@[simp] theorem byteLen_nil : byteLen [] = 0 := rfl

@[simp] theorem byteLen_cons (c : Char) (t : List Char) :
    byteLen (c :: t) = c.utf8Size + byteLen t := rfl

@[simp] theorem byteLen_append (s t : List Char) : byteLen (s ++ t) = byteLen s + byteLen t := by
  induction s with
  | nil => simp
  | cons c s ih => simp [ih, Nat.add_assoc]

@[simp] theorem utf16Len_nil : utf16Len [] = 0 := rfl

@[simp] theorem utf16Len_cons (c : Char) (t : List Char) :
    utf16Len (c :: t) = lenUtf16 c + utf16Len t := rfl

@[simp] theorem utf16Len_append (s t : List Char) :
    utf16Len (s ++ t) = utf16Len s + utf16Len t := by
  induction s with
  | nil => simp
  | cons c s ih => simp [ih, Nat.add_assoc]

theorem lenUtf16_pos (c : Char) : 0 < lenUtf16 c := by
  unfold lenUtf16
  split <;> omega

theorem lenUtf16_le (c : Char) : lenUtf16 c ≤ 2 := by
  unfold lenUtf16
  split <;> omega

/-! ## Splitting -/

theorem splitAtByte_append (before after : List Char) :
    splitAtByte (byteLen before) (before ++ after) = some (before, after) := by
  induction before with
  | nil => simp [splitAtByte]
  | cons c before ih =>
    have hpos := c.utf8Size_pos
    obtain ⟨n, hn⟩ : ∃ n, c.utf8Size + byteLen before = n + 1 :=
      ⟨c.utf8Size + byteLen before - 1, by omega⟩
    have hrest : n + 1 - c.utf8Size = byteLen before := by omega
    have hle : c.utf8Size ≤ n + 1 := by omega
    simp [byteLen_cons, hn, splitAtByte, hle, hrest, ih]

theorem eq_append_of_splitAtByte {n : Nat} {t before after : List Char}
    (h : splitAtByte n t = some (before, after)) : t = before ++ after ∧ byteLen before = n := by
  induction t generalizing n before with
  | nil =>
    cases n with
    | zero =>
      simp only [splitAtByte, Option.some.injEq, Prod.mk.injEq] at h
      obtain ⟨rfl, rfl⟩ := h
      exact ⟨rfl, rfl⟩
    | succ n => simp [splitAtByte] at h
  | cons c t ih =>
    cases n with
    | zero =>
      simp only [splitAtByte, Option.some.injEq, Prod.mk.injEq] at h
      obtain ⟨rfl, rfl⟩ := h
      exact ⟨rfl, rfl⟩
    | succ n =>
      simp only [splitAtByte] at h
      split at h
      · next hle =>
        obtain ⟨⟨b, a⟩, hsplit, heq⟩ := Option.map_eq_some_iff.mp h
        simp only [Prod.mk.injEq] at heq
        obtain ⟨rfl, rfl⟩ := heq
        obtain ⟨rfl, hlen⟩ := ih hsplit
        exact ⟨rfl, by rw [byteLen_cons, hlen]; omega⟩
      · cases h

theorem isCharBoundary_iff {t : List Char} {n : Nat} :
    isCharBoundary t n = true ↔ ∃ before after, t = before ++ after ∧ byteLen before = n := by
  unfold isCharBoundary
  constructor
  · intro h
    obtain ⟨⟨before, after⟩, hsplit⟩ := Option.isSome_iff_exists.mp h
    exact ⟨before, after, eq_append_of_splitAtByte hsplit⟩
  · rintro ⟨before, after, rfl, rfl⟩
    rw [splitAtByte_append]
    rfl

/-- The slice between two boundaries is the text between them. -/
theorem slice_append (before mid after : List Char) :
    slice (before ++ (mid ++ after)) (byteLen before) (byteLen before + byteLen mid) =
      some mid := by
  simp [slice, splitAtByte_append]

theorem slice_eq_some_iff {t mid : List Char} {start stop : Nat} :
    slice t start stop = some mid ↔
      ∃ before after, t = before ++ (mid ++ after) ∧ byteLen before = start ∧
        byteLen before + byteLen mid = stop := by
  constructor
  · intro h
    unfold slice at h
    split at h
    · next hle =>
      obtain ⟨⟨before, rest⟩, hstart, h⟩ := Option.bind_eq_some_iff.mp h
      obtain ⟨⟨m, after⟩, hstop, rfl⟩ := Option.map_eq_some_iff.mp h
      obtain ⟨rfl, hb⟩ := eq_append_of_splitAtByte hstart
      obtain ⟨rfl, hm⟩ := eq_append_of_splitAtByte hstop
      exact ⟨before, after, rfl, hb, by rw [hb, hm]; omega⟩
    · cases h
  · rintro ⟨before, after, rfl, rfl, rfl⟩
    exact slice_append before mid after

theorem sliceFrom_append (front t : List Char) :
    sliceFrom (front ++ t) (byteLen front) = some t := by
  have h := slice_append front t []
  rwa [List.append_nil, ← byteLen_append] at h

/-- Beginnings of a text with one length are one. -/
theorem eq_of_byteLen_eq {s r s' r' : List Char} (happend : s ++ r = s' ++ r')
    (hlen : byteLen s = byteLen s') : s = s' := by
  have hsplit := splitAtByte_append s r
  rw [happend, hlen, splitAtByte_append] at hsplit
  exact (Prod.mk.inj (Option.some.inj hsplit)).1.symm

/-! ## Searching -/

section UpTo

variable {α : Type*} [DecidableEq α] {front : List α} {x : α}

theorem takeWhile_ne_append (after : List α) (h : x ∉ front) :
    (front ++ x :: after).takeWhile (· ≠ x) = front := by
  rw [List.takeWhile_append_of_pos]
  · simp
  · intro y hy
    exact decide_eq_true fun heq => h (heq ▸ hy)

theorem dropWhile_ne_append (after : List α) (h : x ∉ front) :
    (front ++ x :: after).dropWhile (· ≠ x) = x :: after := by
  rw [List.dropWhile_append_of_pos]
  · simp
  · intro y hy
    exact decide_eq_true fun heq => h (heq ▸ hy)

theorem dropWhile_ne_of_not_mem (h : x ∉ front) : front.dropWhile (· ≠ x) = [] := by
  rw [List.dropWhile_eq_nil_iff]
  intro y hy
  exact decide_eq_true fun heq => h (heq ▸ hy)

end UpTo

theorem findChar_of_not_mem {t : List Char} {c : Char} (h : c ∉ t) : findChar t c = none :=
  if_neg h

theorem findChar_append {before : List Char} {c : Char} (after : List Char) (h : c ∉ before) :
    findChar (before ++ c :: after) c = some (byteLen before) := by
  rw [findChar, if_pos (by simp), takeWhile_ne_append after h]

/-! ## White space -/

/-- A text is what `trim` leaves of it between white space. -/
theorem exists_trim (t : List Char) : ∃ lead trail, t = lead ++ (trim t ++ trail) ∧
    (∀ c ∈ lead, isWhitespace c = true) ∧ ∀ c ∈ trail, isWhitespace c = true := by
  have hback := List.takeWhile_append_dropWhile (p := isWhitespace)
    (l := (t.dropWhile isWhitespace).reverse)
  refine ⟨t.takeWhile isWhitespace, ((t.dropWhile isWhitespace).reverse.takeWhile
    isWhitespace).reverse, ?_, fun c hc => List.mem_takeWhile_imp hc, fun c hc =>
    List.mem_takeWhile_imp (List.mem_reverse.mp hc)⟩
  rw [trim, ← List.reverse_append, hback, List.reverse_reverse, List.takeWhile_append_dropWhile]

theorem trim_eq_nil_iff {t : List Char} : trim t = [] ↔ ∀ c ∈ t, isWhitespace c = true := by
  constructor
  · intro h
    obtain ⟨lead, trail, ht, hlead, htrail⟩ := exists_trim t
    rw [h] at ht
    intro c hc
    rw [ht] at hc
    rcases List.mem_append.mp hc with hc | hc
    · exact hlead c hc
    · exact htrail c hc
  · intro h
    rw [trim, List.dropWhile_eq_nil_iff.mpr h]
    rfl

/-- Text without white space is what `trim` leaves of it after some. -/
theorem trim_append {lead t : List Char} (hlead : ∀ c ∈ lead, isWhitespace c = true)
    (ht : ∀ c ∈ t, isWhitespace c = false) : trim (lead ++ t) = t := by
  have hnot {u : List Char} (hu : ∀ c ∈ u, isWhitespace c = false) :
      u.dropWhile isWhitespace = u := by
    cases u with
    | nil => rfl
    | cons c u => exact List.dropWhile_cons_of_neg (by simp [hu c List.mem_cons_self])
  rw [trim, List.dropWhile_append_of_pos hlead, hnot ht,
    hnot fun c hc => ht c (List.mem_reverse.mp hc), List.reverse_reverse]

/-! ## The boundary at or before a byte -/

theorem isCharBoundary_floorCharBoundary (t : List Char) (byte : Nat) :
    isCharBoundary t (floorCharBoundary t byte) = true := by
  induction byte with
  | zero => exact isCharBoundary_iff.mpr ⟨[], t, rfl, rfl⟩
  | succ n ih =>
    unfold floorCharBoundary
    split
    · assumption
    · exact ih

theorem floorCharBoundary_le (t : List Char) (byte : Nat) : floorCharBoundary t byte ≤ byte := by
  induction byte with
  | zero => exact le_rfl
  | succ n ih =>
    unfold floorCharBoundary
    split
    · exact le_rfl
    · exact ih.trans n.le_succ

theorem le_floorCharBoundary {t : List Char} {n byte : Nat} (hn : isCharBoundary t n = true)
    (hle : n ≤ byte) : n ≤ floorCharBoundary t byte := by
  induction byte with
  | zero => exact hle
  | succ m ih =>
    unfold floorCharBoundary
    split
    · exact hle
    · next hnot =>
      have hne : n ≠ m + 1 := fun h => hnot (h ▸ hn)
      exact ih (by omega)

/-- A boundary is its own floor. -/
theorem floorCharBoundary_of_boundary {t : List Char} {n : Nat} (hn : isCharBoundary t n = true) :
    floorCharBoundary t n = n :=
  le_antisymm (floorCharBoundary_le t n) (le_floorCharBoundary hn le_rfl)

/-! ## The longest beginning within a bound -/

/-- `kept` is the longest beginning of a text that has at most `bound` bytes. -/
structure LongestWithin (bound : Nat) (t kept : List Char) : Prop where
  prefix_of : kept <+: t
  byteLen_le : byteLen kept ≤ bound
  longest : ∀ front, front <+: t → byteLen front ≤ bound → byteLen front ≤ byteLen kept

theorem byteLen_le_of_beginning {s t : List Char} (h : s <+: t) : byteLen s ≤ byteLen t := by
  obtain ⟨rest, rfl⟩ := h
  rw [byteLen_append]
  exact Nat.le_add_right _ _

theorem longestWithin_self {bound : Nat} {t : List Char} (h : byteLen t ≤ bound) :
    LongestWithin bound t t :=
  ⟨List.prefix_rfl, h, fun _ hfront _ => byteLen_le_of_beginning hfront⟩

/-- What comes after a text that is past the bound does not change what is kept of it. -/
theorem LongestWithin.append {bound : Nat} {t kept : List Char} (h : LongestWithin bound t kept)
    (hpast : bound < byteLen t) (more : List Char) : LongestWithin bound (t ++ more) kept := by
  refine ⟨h.prefix_of.trans (List.prefix_append t more), h.byteLen_le, ?_⟩
  intro front hfront hle
  obtain hin | hpassed := List.prefix_or_prefix_of_prefix hfront (List.prefix_append t more)
  · exact h.longest front hin hle
  · exact absurd ((byteLen_le_of_beginning hpassed).trans hle) (Nat.not_le.mpr hpast)

/-- Behind a text within the bound, the beginning up to the boundary before the bound is
kept. -/
theorem longestWithin_floor {bound : Nat} {front t : List Char} (hfront : byteLen front ≤ bound) :
    ∃ kept, slice t 0 (floorCharBoundary t (bound - byteLen front)) = some kept ∧
      LongestWithin bound (front ++ t) (front ++ kept) := by
  obtain ⟨kept, rest, hsplit, hlen⟩ := isCharBoundary_iff.mp
    (isCharBoundary_floorCharBoundary t (bound - byteLen front))
  have hle := floorCharBoundary_le t (bound - byteLen front)
  refine ⟨kept, slice_eq_some_iff.mpr ⟨[], rest, hsplit, rfl, ?_⟩, ?_, ?_, ?_⟩
  · rw [byteLen_nil, Nat.zero_add, hlen]
  · exact List.prefix_append_right_inj front |>.mpr ⟨rest, hsplit.symm⟩
  · rw [byteLen_append, hlen]
    omega
  · intro beginning hbeginning hbound
    obtain hin | hpassed := List.prefix_or_prefix_of_prefix hbeginning (List.prefix_append front t)
    · exact (byteLen_le_of_beginning hin).trans (byteLen_le_of_beginning (List.prefix_append front kept))
    · obtain ⟨more, rfl⟩ := hpassed
      obtain ⟨after, hafter⟩ := (List.prefix_append_right_inj front).mp hbeginning
      have hboundary : isCharBoundary t (byteLen more) = true :=
        isCharBoundary_iff.mpr ⟨more, after, hafter.symm, rfl⟩
      rw [byteLen_append] at hbound ⊢
      have hmore : byteLen more ≤ floorCharBoundary t (bound - byteLen front) :=
        le_floorCharBoundary hboundary (by omega)
      rw [byteLen_append, hlen]
      omega

/-! ## Bytes -/

@[simp] theorem encode_append (s t : List Char) : encode (s ++ t) = encode s ++ encode t :=
  List.flatMap_append

theorem encode_ne_nil {t : List Char} (h : t ≠ []) : encode t ≠ [] := by
  cases t with
  | nil => exact absurd rfl h
  | cons c t =>
    rw [encode, List.flatMap_cons]
    exact List.append_ne_nil_of_left_ne_nil String.utf8EncodeChar_ne_nil _

theorem decode_encode (t : List Char) : decode (encode t) = some t := by
  have hbytes : (⟨(encode t).toArray⟩ : ByteArray) = t.utf8Encode := by
    apply ByteArray.ext
    rw [List.utf8Encode, List.data_toByteArray]
    rfl
  have hvalid : ByteArray.IsValidUTF8 t.utf8Encode := ⟨t, rfl⟩
  rw [decode, hbytes, String.fromUTF8?, dif_pos hvalid, Option.map_some]
  exact congrArg some String.toList_ofList

theorem ne_or_of_lt {b x y : UInt8} (h : b.toNat < y.toNat) : b ≠ x ||| y := by
  intro heq
  have hle : y.toNat ≤ x.toNat ||| y.toNat := Nat.right_le_or
  rw [← UInt8.toNat_or, ← heq] at hle
  exact absurd hle (Nat.not_le.mpr h)

/-- The bytes of a character of several have their high bit set. -/
theorem val_eq_of_mem {c : Char} {b : UInt8} (hb : b.toNat < 128)
    (h : b ∈ String.utf8EncodeChar c) : c.val.toNat = b.toNat := by
  have hne {x y : UInt8} (hy : 128 ≤ y.toNat) : b ≠ x ||| y := ne_or_of_lt (hb.trans_le hy)
  rcases c.utf8Size_eq with hsize | hsize | hsize | hsize
  · rw [String.utf8EncodeChar_eq_singleton hsize, List.mem_singleton] at h
    rw [Char.utf8Size_eq_one_iff, UInt32.le_iff_toNat_le] at hsize
    have hlt : c.val.toNat < 2 ^ 8 := Nat.lt_of_le_of_lt hsize (by decide)
    have hval := congrArg UInt8.toNat h
    rw [UInt32.toNat_toUInt8, Nat.mod_eq_of_lt hlt] at hval
    exact hval.symm
  · rw [String.utf8EncodeChar_eq_cons_cons hsize] at h
    simp only [List.mem_cons, List.not_mem_nil, or_false] at h
    rcases h with h | h <;> exact absurd h (hne (by decide))
  · rw [String.utf8EncodeChar_eq_cons_cons_cons hsize] at h
    simp only [List.mem_cons, List.not_mem_nil, or_false] at h
    rcases h with h | h | h <;> exact absurd h (hne (by decide))
  · rw [String.utf8EncodeChar_eq_cons_cons_cons_cons hsize] at h
    simp only [List.mem_cons, List.not_mem_nil, or_false] at h
    rcases h with h | h | h | h <;> exact absurd h (hne (by decide))

/-- An ASCII byte of a text is one of its characters. -/
theorem mem_of_mem_encode {c : Char} {b : UInt8} (hb : b.toNat < 128)
    (hc : c.val.toNat = b.toNat) {t : List Char} (h : b ∈ encode t) : c ∈ t := by
  obtain ⟨d, hd, hbyte⟩ := List.mem_flatMap.mp h
  have heq : d = c := by
    apply Char.ext
    apply UInt32.toNat.inj
    rw [val_eq_of_mem hb hbyte, hc]
  rwa [heq] at hd

theorem newline_not_mem_encode {t : List Char} (h : '\n' ∉ t) : 10 ∉ encode t := fun hmem =>
  h (mem_of_mem_encode (by decide) (by decide) hmem)

end Utf8
