/-
This file is about text as bytes: a text's UTF-8 form, the lenient reading back
that puts a replacement character where the bytes are no text, and the readings
of fixed-width fields that end at a NUL. The one result the readers of a format
need is that what was written as UTF-8 is read back as it was.
-/

import Mathlib.Data.List.Basic
import Mathlib.Data.List.TakeWhile

namespace Text

open List

-- What holds of all members of a list is decided along the list, not over all characters.
instance (priority := high) decidableMembers {Member : Type} (holds : Member → Prop)
    [DecidablePred holds] (members : List Member) : Decidable (∀ member ∈ members, holds member) :=
  List.decidableBAll holds members

/-- Bytes, as a buffer holds them. -/
abbrev Bytes := List UInt8

/-! ### UTF-8 -/

/-- The UTF-8 form of a text. -/
def encode (text : List Char) : Bytes :=
  text.flatMap String.utf8EncodeChar

/-- The least and the greatest byte that may follow a lead byte. -/
def secondBytes (lead : UInt8) : UInt8 × UInt8 :=
  if lead = 0xE0 then (0xA0, 0xBF)
  else if lead = 0xED then (0x80, 0x9F)
  else if lead = 0xF0 then (0x90, 0xBF)
  else if lead = 0xF4 then (0x80, 0x8F)
  else (0x80, 0xBF)

/-- How many bytes one replacement character stands for, where no character can be read:
the longest beginning of a character there is, and one byte where there is none. -/
def illFormed : Bytes → Nat
  | lead :: second :: rest =>
    if lead < 0xE0 || 0xF4 < lead then 1
    else if second < (secondBytes lead).1 || (secondBytes lead).2 < second then 1
    else
      match rest with
      | third :: _ => if 0xF0 ≤ lead && 0x80 ≤ third && third ≤ 0xBF then 3 else 2
      | [] => 2
  | _ => 1

/-- The character the bytes begin with, if they begin with one. -/
def firstChar (bytes : Bytes) : Option Char :=
  (bytes.take 4).toByteArray.utf8DecodeChar? 0

/-- The text the bytes are read as, after the given number of bytes that were read
already. -/
def decodeFrom : Nat → Bytes → List Char
  | _, [] => []
  | skip + 1, _ :: rest => decodeFrom skip rest
  | 0, byte :: rest =>
    match firstChar (byte :: rest) with
    | some char => char :: decodeFrom (char.utf8Size - 1) rest
    | none => '\uFFFD' :: decodeFrom (illFormed (byte :: rest) - 1) rest

/-- The text the bytes are read as: a replacement character stands where they are
ill-formed. -/
def decode (bytes : Bytes) : List Char :=
  decodeFrom 0 bytes

@[simp]
theorem encode_nil : encode [] = [] := rfl

@[simp]
theorem encode_cons (char : Char) (text : List Char) :
    encode (char :: text) = String.utf8EncodeChar char ++ encode text := rfl

@[simp]
theorem encode_append (first second : List Char) :
    encode (first ++ second) = encode first ++ encode second := by
  unfold encode
  exact flatMap_append

theorem firstChar_encoded (char : Char) (rest : Bytes) :
    firstChar (String.utf8EncodeChar char ++ rest) = some char := by
  unfold firstChar
  have short : (String.utf8EncodeChar char).length ≤ 4 := by
    rw [String.length_utf8EncodeChar]
    exact char.utf8Size_le_four
  rw [take_append, take_of_length_le short, toByteArray_append]
  exact ByteArray.utf8DecodeChar?_utf8EncodeChar_append

theorem decodeFrom_skips (first rest : Bytes) :
    decodeFrom first.length (first ++ rest) = decodeFrom 0 rest := by
  induction first with
  | nil => rfl
  | cons byte first inductionHypothesis => exact inductionHypothesis

/-- Text that was written as UTF-8 is read back as it was, whatever follows it. -/
theorem decode_encode_append (text : List Char) (rest : Bytes) :
    decode (encode text ++ rest) = text ++ decode rest := by
  induction text with
  | nil => rfl
  | cons char text inductionHypothesis =>
    obtain ⟨byte, tail, split⟩ := exists_cons_of_ne_nil (@String.utf8EncodeChar_ne_nil char)
    have size : tail.length = char.utf8Size - 1 := by
      have whole := String.length_utf8EncodeChar char
      rw [split, length_cons] at whole
      omega
    have first : firstChar (byte :: (tail ++ (encode text ++ rest))) = some char := by
      rw [← cons_append, ← split]
      exact firstChar_encoded char _
    rw [encode_cons, split, append_assoc, cons_append]
    unfold decode
    rw [decodeFrom, first]
    show char :: decodeFrom (char.utf8Size - 1) (tail ++ (encode text ++ rest)) = _
    rw [← size, decodeFrom_skips, cons_append]
    exact congrArg (char :: ·) inductionHypothesis

/-- Text that was written as UTF-8 is read back as it was. -/
@[simp]
theorem decode_encode (text : List Char) : decode (encode text) = text := by
  have whole := decode_encode_append text []
  rw [append_nil] at whole
  rw [whole]
  exact append_nil text

/-- A byte of zero is the character NUL. -/
theorem encode_nuls (count : Nat) :
    encode (List.replicate count '\x00') = List.replicate count 0 := by
  induction count with
  | zero => rfl
  | succ count inductionHypothesis =>
    rw [replicate_succ, encode_cons, inductionHypothesis, replicate_succ]
    rfl

/-! ### A text written into a field of bytes -/

/-- As many whole characters of a text as fit in so many bytes. -/
def encodeWithin : Nat → List Char → Bytes
  | _, [] => []
  | room, char :: text =>
    if (String.utf8EncodeChar char).length ≤ room then
      String.utf8EncodeChar char ++
        encodeWithin (room - (String.utf8EncodeChar char).length) text
    else []

/-- A text that fits is written whole. -/
theorem encodeWithin_eq (room : Nat) (text : List Char)
    (fits : (encode text).length ≤ room) : encodeWithin room text = encode text := by
  induction text generalizing room with
  | nil => rfl
  | cons char text inductionHypothesis =>
    rw [encode_cons, length_append] at fits
    unfold encodeWithin
    rw [if_pos (by omega), inductionHypothesis _ (by omega), encode_cons]

/-- What is written of a text begins as the text's UTF-8 form begins. -/
theorem head_encodeWithin (room : Nat) (char : Char) (text : List Char) (room_ge : 4 ≤ room) :
    (encodeWithin room (char :: text)).head? = (encode (char :: text)).head? := by
  have short : (String.utf8EncodeChar char).length ≤ 4 := by
    rw [String.length_utf8EncodeChar]
    exact char.utf8Size_le_four
  obtain ⟨byte, tail, split⟩ := exists_cons_of_ne_nil (@String.utf8EncodeChar_ne_nil char)
  unfold encodeWithin
  rw [if_pos (by omega), encode_cons, split]
  rfl

/-! ### Reading a field -/

/-- What a dot of a pattern does not match. -/
def endsLine (char : Char) : Bool :=
  char = '\n' || char = '\r' || char = '\u2028' || char = '\u2029'

/-- A text without the first NUL that nothing but its own line follows, and what follows
it: what is left when the pattern of a NUL and the rest of the line, up to the text's end,
is taken away. -/
def cutAtNul : List Char → List Char
  | [] => []
  | char :: rest =>
    if char = '\x00' ∧ rest.all (fun later => !endsLine later) then [] else char :: cutAtNul rest

/-- A text padded with NULs is read back without them. -/
theorem cutAtNul_padded (text : List Char) (count : Nat) (clean : '\x00' ∉ text) :
    cutAtNul (text ++ List.replicate count '\x00') = text := by
  induction text with
  | nil =>
    cases count with
    | zero => rfl
    | succ count =>
      have plain : (List.replicate count '\x00').all (fun later => !endsLine later) = true := by
        rw [List.all_eq_true]
        intro later member
        rw [eq_of_mem_replicate member]
        rfl
      rw [nil_append, replicate_succ, cutAtNul, if_pos ⟨rfl, plain⟩]
  | cons char text inductionHypothesis =>
    rw [mem_cons, not_or] at clean
    rw [cons_append, cutAtNul, if_neg (fun both => clean.1 both.1.symm),
      inductionHypothesis clean.2]

/-- A field that holds a text and NULs is read as the text. -/
theorem cutAtNul_decode_padded (text : List Char) (count : Nat) (clean : '\x00' ∉ text) :
    cutAtNul (decode (encode text ++ List.replicate count 0)) = text := by
  rw [← encode_nuls, ← encode_append, decode_encode, cutAtNul_padded text count clean]

/-- The text of bytes that are read as ASCII: the high bit of each is ignored. -/
def ascii (bytes : Bytes) : List Char :=
  bytes.map fun byte => Char.ofNat (byte.toNat % 128)

/-- ASCII text, as bytes. -/
def asciiBytes (text : List Char) : Bytes :=
  text.map fun char => UInt8.ofNat char.toNat

theorem ascii_asciiBytes (text : List Char) (plain : ∀ char ∈ text, char.toNat < 128) :
    ascii (asciiBytes text) = text := by
  unfold ascii asciiBytes
  rw [List.map_map]
  conv => rhs; rw [← List.map_id text]
  apply map_congr_left
  intro char member
  have small := plain char member
  show Char.ofNat ((UInt8.ofNat char.toNat).toNat % 128) = char
  rw [UInt8.toNat_ofNat', Nat.mod_eq_of_lt (show char.toNat < 2 ^ 8 by omega),
    Nat.mod_eq_of_lt small, Char.ofNat_toNat]

end Text
