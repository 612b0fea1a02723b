/-
This file proves that the headers the agent writes are read back field by field: the
name as long as it fits, the size up to twelve octal digits, the type, and the path
of an extended header, whose record counts itself.
-/

import Geeboard.Agent.Tar

namespace Geeboard.Tar

open Text List

/-! ### Fields -/

theorem length_fieldOf (width : Nat) (written : Bytes) : (fieldOf width written).length = width := by
  unfold fieldOf
  rw [length_append, length_take, length_replicate]
  omega

theorem subarray_middle (before field after : Bytes) {start stop : Nat}
    (starts : before.length = start) (stops : before.length + field.length = stop) :
    subarray (before ++ field ++ after) start stop = field := by
  unfold subarray
  rw [take_left' (by rw [length_append, stops]), ← starts, drop_left]

theorem length_headerWith (name : List Char) (size : Nat) (type : Char) (mode : Nat)
    (mtimeMs : Int) (checksum : List Char) :
    (headerWith name size type mode mtimeMs checksum).length = block := by
  unfold headerWith
  simp only [length_append, length_fieldOf]
  rfl

theorem length_header (name : List Char) (size : Nat) (type : Char) (mode : Nat)
    (mtimeMs : Int) : (header name size type mode mtimeMs).length = block :=
  length_headerWith _ _ _ _ _ _

section
variable (name : List Char) (size : Nat) (type : Char) (mode : Nat) (mtimeMs : Int)

/-- A header as a field between what stands before and behind it. -/
def HasField (start width : Nat) (field : Bytes) : Prop :=
  ∀ checksum, ∃ before after,
    headerWith name size type mode mtimeMs checksum = before ++ fieldOf width field ++ after ∧
      before.length = start

variable {name size type mode mtimeMs}

theorem HasField.subarray_eq {start width : Nat} {field : Bytes}
    (has : HasField name size type mode mtimeMs start width field) :
    subarray (header name size type mode mtimeMs) start (start + width) = fieldOf width field := by
  unfold header
  obtain ⟨before, after, split, starts⟩ := has (padStart 6 (inBase 8 (sumOf
    (headerWith name size type mode mtimeMs "        ".toList))) ++ ['\x00', ' '])
  dsimp only
  rw [split]
  exact subarray_middle before (fieldOf width field) after starts (by rw [starts, length_fieldOf])

variable (name size type mode mtimeMs)

theorem hasField_name : HasField name size type mode mtimeMs 0 100 (encodeWithin 100 name) := by
  intro checksum
  refine ⟨[], fieldOf 8 (asciiBytes (octal (mode % 0o10000 : Nat) 7)) ++
    fieldOf 8 (asciiBytes (octal 0 7)) ++ fieldOf 8 (asciiBytes (octal 0 7)) ++
    fieldOf 12 (asciiBytes (octal size 11)) ++
    fieldOf 12 (asciiBytes (octal (mtimeMs / 1000) 11)) ++ fieldOf 8 (asciiBytes checksum) ++
    fieldOf 1 (asciiBytes [type]) ++ fieldOf 100 [] ++
    fieldOf 6 (asciiBytes "ustar\x00".toList) ++ fieldOf 2 (asciiBytes "00".toList) ++
    fieldOf 247 [], ?_, rfl⟩
  unfold headerWith
  simp only [append_assoc, nil_append]

theorem hasField_size : HasField name size type mode mtimeMs 124 12
    (asciiBytes (octal size 11)) := by
  intro checksum
  refine ⟨fieldOf 100 (encodeWithin 100 name) ++
    fieldOf 8 (asciiBytes (octal (mode % 0o10000 : Nat) 7)) ++
    fieldOf 8 (asciiBytes (octal 0 7)) ++ fieldOf 8 (asciiBytes (octal 0 7)),
    fieldOf 12 (asciiBytes (octal (mtimeMs / 1000) 11)) ++ fieldOf 8 (asciiBytes checksum) ++
    fieldOf 1 (asciiBytes [type]) ++ fieldOf 100 [] ++
    fieldOf 6 (asciiBytes "ustar\x00".toList) ++ fieldOf 2 (asciiBytes "00".toList) ++
    fieldOf 247 [], ?_, ?_⟩
  · unfold headerWith
    simp only [append_assoc]
  · simp only [length_append, length_fieldOf]

theorem hasField_type : HasField name size type mode mtimeMs 156 1 (asciiBytes [type]) := by
  intro checksum
  refine ⟨fieldOf 100 (encodeWithin 100 name) ++
    fieldOf 8 (asciiBytes (octal (mode % 0o10000 : Nat) 7)) ++
    fieldOf 8 (asciiBytes (octal 0 7)) ++ fieldOf 8 (asciiBytes (octal 0 7)) ++
    fieldOf 12 (asciiBytes (octal size 11)) ++
    fieldOf 12 (asciiBytes (octal (mtimeMs / 1000) 11)) ++ fieldOf 8 (asciiBytes checksum),
    fieldOf 100 [] ++ fieldOf 6 (asciiBytes "ustar\x00".toList) ++
    fieldOf 2 (asciiBytes "00".toList) ++ fieldOf 247 [], ?_, ?_⟩
  · unfold headerWith
    simp only [append_assoc]
  · simp only [length_append, length_fieldOf]

theorem prefixIn_header : prefixIn (header name size type mode mtimeMs) = [] := by
  have field : subarray (header name size type mode mtimeMs) 345 500 =
      List.replicate 155 0 := by
    unfold header
    dsimp only
    generalize padStart 6 _ ++ ['\x00', ' '] = checksum
    have split : headerWith name size type mode mtimeMs checksum =
        (fieldOf 100 (encodeWithin 100 name) ++
          fieldOf 8 (asciiBytes (octal (mode % 0o10000 : Nat) 7)) ++
          fieldOf 8 (asciiBytes (octal 0 7)) ++ fieldOf 8 (asciiBytes (octal 0 7)) ++
          fieldOf 12 (asciiBytes (octal size 11)) ++
          fieldOf 12 (asciiBytes (octal (mtimeMs / 1000) 11)) ++
          fieldOf 8 (asciiBytes checksum) ++ fieldOf 1 (asciiBytes [type]) ++ fieldOf 100 [] ++
          fieldOf 6 (asciiBytes "ustar\x00".toList) ++ fieldOf 2 (asciiBytes "00".toList) ++
          List.replicate 80 0) ++ List.replicate 155 0 ++ List.replicate 12 0 := by
      have blank : fieldOf 247 [] =
          List.replicate 80 0 ++ (List.replicate 155 0 ++ List.replicate 12 0) := by
        rw [replicate_append_replicate, replicate_append_replicate]
        rfl
      unfold headerWith
      rw [blank]
      simp only [append_assoc]
    rw [split]
    refine subarray_middle _ _ _ ?_ ?_
    · simp only [length_append, length_fieldOf, length_replicate]
    · simp only [length_append, length_fieldOf, length_replicate]
  unfold prefixIn
  rw [field]
  exact cutAtNul_decode_padded [] 155 not_mem_nil

variable {name size type mode mtimeMs}

/-! ### The fields read -/

theorem nameIn_header (fits : (encode name).length ≤ 100) (clean : '\x00' ∉ name) :
    nameIn (header name size type mode mtimeMs) = name := by
  have field := (hasField_name name size type mode mtimeMs).subarray_eq
  unfold nameIn
  rw [Nat.zero_add] at field
  rw [field, encodeWithin_eq 100 name fits]
  unfold fieldOf
  rw [take_of_length_le fits]
  exact cutAtNul_decode_padded name _ clean

theorem head_header (char : Char) (rest : List Char) (clean : char ≠ '\x00') :
    (header (char :: rest) size type mode mtimeMs).head? ≠ some 0 := by
  unfold header
  obtain ⟨before, after, split, starts⟩ := hasField_name (char :: rest) size type mode mtimeMs
    (padStart 6 (inBase 8 (sumOf
      (headerWith (char :: rest) size type mode mtimeMs "        ".toList))) ++ ['\x00', ' '])
  dsimp only
  obtain rfl : before = [] := length_eq_zero_iff.mp starts
  obtain ⟨byte, tail, bytes⟩ := exists_cons_of_ne_nil (@String.utf8EncodeChar_ne_nil char)
  have written : (encodeWithin 100 (char :: rest)).head? = some byte := by
    rw [head_encodeWithin 100 char rest (by decide), encode_cons, bytes]
    rfl
  have first : (fieldOf 100 (encodeWithin 100 (char :: rest))).head? = some byte := by
    unfold fieldOf
    rw [head?_append, head?_take, if_neg (by decide), written]
    rfl
  rw [split, nil_append, head?_append, first]
  intro zero
  have zero' : byte = 0 := Option.some.inj zero
  rw [zero'] at bytes
  have read := firstChar_encoded char []
  rw [bytes] at read
  have nul : firstChar (0 :: tail ++ []) = some '\x00' := by
    have again := firstChar_encoded '\x00' tail
    rw [append_nil]
    exact again
  exact clean (Option.some.inj (read.symm.trans nul))

theorem typeIn_header (plain : type.toNat < 128) :
    typeIn (header name size type mode mtimeMs) = type := by
  have field := (hasField_type name size type mode mtimeMs).subarray_eq
  have read : ascii (asciiBytes [type]) = [type] := by
    refine ascii_asciiBytes [type] fun char member => ?_
    rw [mem_singleton.mp member]
    exact plain
  unfold typeIn
  rw [show 156 + 1 = 157 from rfl] at field
  rw [field]
  show (ascii (asciiBytes [type])).headD '\x00' = type
  rw [read]
  rfl

theorem toNat_lt_of_isDigit (char : Char) (digit : char.isDigit) : char.toNat < 128 := by
  simp only [Char.isDigit, Bool.and_eq_true, decide_eq_true_eq] at digit
  have upper : char.toNat ≤ '9'.toNat := UInt32.le_iff_toNat_le.mp digit.2
  have nine : '9'.toNat = 57 := rfl
  omega

/-- The octal digits of a size, as a header's field holds them. -/
theorem sizeIn_header (small : size < 8 ^ 12) :
    sizeIn (header name size type mode mtimeMs) = size := by
  have field := (hasField_size name size type mode mtimeMs).subarray_eq
  have digits := isDigit_padStart 11 8 size (by decide) (by decide)
  have width : (padStart 11 (Nat.toDigits 8 size)).length ≤ 12 := by
    rw [length_padStart]
    have few : (Nat.toDigits 8 size).length ≤ 12 :=
      (Nat.length_toDigits_le_iff (by decide) (by decide)).mpr small
    omega
  have wide : 11 ≤ (padStart 11 (Nat.toDigits 8 size)).length := by
    rw [length_padStart]
    omega
  have written : fieldOf 12 (asciiBytes (octal size 11)) =
      asciiBytes (padStart 11 (Nat.toDigits 8 size) ++
        List.replicate (12 - (padStart 11 (Nat.toDigits 8 size)).length) '\x00') := by
    have shape : octal size 11 = padStart 11 (Nat.toDigits 8 size) ++ ['\x00'] := by
      unfold octal inBase
      rw [if_neg (by omega)]
      rfl
    unfold fieldOf
    rw [shape]
    generalize padStart 11 (Nat.toDigits 8 size) = text at width wide
    have length : (asciiBytes (text ++ ['\x00'])).length = text.length + 1 := by
      unfold asciiBytes
      rw [length_map, length_append]
      rfl
    rw [length]
    obtain same | more : text.length = 11 ∨ text.length = 12 := by omega
    · rw [same, take_of_length_le (by omega)]
      simp only [Nat.sub_self, replicate_zero, append_nil]
      rfl
    · rw [more]
      unfold asciiBytes
      rw [map_append, take_left' (by rw [length_map, more])]
      simp only [Nat.sub_self, replicate_zero, append_nil, Nat.reduceAdd,
        Nat.reduceSub]
  have clean : '\x00' ∉ padStart 11 (Nat.toDigits 8 size) :=
    fun member => absurd (digits _ member) (by decide)
  have plain : ∀ char ∈ padStart 11 (Nat.toDigits 8 size) ++
      List.replicate (12 - (padStart 11 (Nat.toDigits 8 size)).length) '\x00',
      char.toNat < 128 := by
    intro char member
    obtain digit | nul := mem_append.mp member
    · exact toNat_lt_of_isDigit char (digits char digit)
    · rw [eq_of_mem_replicate nul]
      decide
  unfold sizeIn
  rw [show 124 + 12 = 136 from rfl] at field
  rw [field, written, ascii_asciiBytes _ plain, cutAtNul_padded _ _ clean, trimmed_digits _ digits,
    parseOctal_padStart]

/-- A size with too many digits for a header's field loses its last ones, and stays large. -/
theorem le_sizeIn_header (large : 8 ^ 12 ≤ size) :
    8 ^ 11 ≤ sizeIn (header name size type mode mtimeMs) := by
  have field := (hasField_size name size type mode mtimeMs).subarray_eq
  have wide : 12 < (Nat.toDigits 8 size).length := by
    by_contra few
    exact absurd ((Nat.length_toDigits_le_iff (by decide) (by decide)).mp (Nat.le_of_not_lt few))
      (Nat.not_lt.mpr large)
  have digits : ∀ char ∈ (Nat.toDigits 8 size).take 12, char.isDigit := fun char member =>
    Nat.isDigit_of_mem_toDigits (by decide) (by decide) (mem_of_mem_take member)
  have octal' : ∀ char ∈ (Nat.toDigits 8 size).take 12, isOctal char := fun char member =>
    isOctal_toDigits size char (mem_of_mem_take member)
  have written : fieldOf 12 (asciiBytes (octal size 11)) =
      asciiBytes ((Nat.toDigits 8 size).take 12) := by
    have shape : octal size 11 = Nat.toDigits 8 size ++ ['\x00'] := by
      unfold octal inBase padStart
      rw [if_neg (by omega), show Int.natAbs size = size from rfl,
        show 11 - (Nat.toDigits 8 size).length = 0 by omega]
      rfl
    unfold fieldOf asciiBytes
    rw [shape, ← map_take, take_append_of_le_length (by omega), length_map,
      length_append, show 12 - ((Nat.toDigits 8 size).length + ['\x00'].length) = 0 by omega]
    exact append_nil _
  have clean : '\x00' ∉ (Nat.toDigits 8 size).take 12 :=
    fun member => absurd (digits _ member) (by decide)
  have uncut := cutAtNul_padded ((Nat.toDigits 8 size).take 12) 0 clean
  rw [replicate_zero, append_nil] at uncut
  unfold sizeIn
  rw [show 124 + 12 = 136 from rfl] at field
  rw [field, written, ascii_asciiBytes _ fun char member =>
    toNat_lt_of_isDigit char (digits char member), uncut, trimmed_digits _ digits,
    parseOctal_digits _ digits octal']
  exact_mod_cast le_ofDigitChars_take size 11 (by omega)

theorem length_cutAtNul_le (text : List Char) : (cutAtNul text).length ≤ text.length := by
  induction text with
  | nil => exact le_refl _
  | cons char text inductionHypothesis =>
    unfold cutAtNul
    split
    · exact Nat.zero_le _
    · exact Nat.succ_le_succ inductionHypothesis

theorem length_trimmed_le (text : List Char) : (trimmed text).length ≤ text.length :=
  (List.rdropWhile_prefix _ _).length_le.trans (dropWhile_suffix isSpace).length_le

end

/-- A size read from a header is below the twelfth power of eight. -/
theorem sizeIn_lt (header : Bytes) : sizeIn header < 8 ^ 12 := by
  have short : (trimmed (cutAtNul (ascii (subarray header 124 136)))).length ≤ 12 := by
    refine (length_trimmed_le _).trans ((length_cutAtNul_le _).trans ?_)
    unfold ascii subarray
    rw [length_map, length_drop, length_take]
    omega
  have bound := parseOctal_lt (trimmed (cutAtNul (ascii (subarray header 124 136))))
  exact lt_of_lt_of_le bound (pow_le_pow_right₀ (by decide) short)

/-! ### The record that counts itself -/

theorem encodeChar_of_isDigit (char : Char) (digit : char.isDigit) :
    String.utf8EncodeChar char = [UInt8.ofNat char.toNat] := by
  have small := toNat_lt_of_isDigit char digit
  have size : char.utf8Size = 1 := by
    rw [Char.utf8Size_eq_one_iff]
    exact UInt32.le_iff_toNat_le.mpr (show char.toNat ≤ 127 by omega)
  rw [String.utf8EncodeChar_eq_singleton size]
  rfl

theorem encode_digits (text : List Char) (digits : ∀ char ∈ text, char.isDigit) :
    encode text = asciiBytes text := by
  induction text with
  | nil => rfl
  | cons char text inductionHypothesis =>
    rw [encode_cons, encodeChar_of_isDigit char (digits char mem_cons_self),
      inductionHypothesis fun later member => digits later (mem_cons_of_mem _ member)]
    rfl

/-- The length that is found is the length of the record it is written in front of. -/
theorem recordLength_spec (body length : Nat) (grows : length ≤ digitCount length + body) :
    recordLength body length grows = digitCount (recordLength body length grows) + body := by
  induction length, grows using recordLength.induct body with
  | case1 length grows found =>
    unfold recordLength
    rw [if_pos found, found]
  | case2 length grows more inductionHypothesis =>
    unfold recordLength
    rw [if_neg more]
    exact inductionHypothesis

/-- What a record holds behind its length. -/
def recordBody (key value : List Char) : List Char :=
  ' ' :: (key ++ '=' :: (value ++ ['\n']))

/-- The length in front of a record. -/
def lengthIn (key value : List Char) : Nat :=
  recordLength (encode (recordBody key value)).length (encode (recordBody key value)).length
    (Nat.le_add_left _ _)

theorem paxRecord_eq (key value : List Char) :
    paxRecord key value = asciiBytes (Nat.toDigits 10 (lengthIn key value)) ++
      encode (recordBody key value) := by
  show encode (Nat.toDigits 10 (lengthIn key value) ++ recordBody key value) = _
  rw [encode_append, encode_digits _ fun char member =>
    Nat.isDigit_of_mem_toDigits (by decide) (by decide) member]

/-- A record's length is the number in front of it. -/
theorem length_paxRecord (key value : List Char) :
    (paxRecord key value).length = lengthIn key value := by
  rw [paxRecord_eq, length_append]
  unfold asciiBytes
  rw [length_map]
  exact (recordLength_spec _ _ _).symm

/-- How long a path may be for its record to be read as metadata. -/
theorem lengthIn_le_iff (name : List Char) :
    lengthIn "path".toList name ≤ maxMetadataBytes ↔ (encode name).length ≤ 1048562 := by
  have spec : lengthIn "path".toList name = digitCount (lengthIn "path".toList name) +
      (encode (recordBody "path".toList name)).length := recordLength_spec _ _ _
  have body : (encode (recordBody "path".toList name)).length = (encode name).length + 7 := by
    show (encode (" path=".toList ++ (name ++ ['\n']))).length = _
    rw [encode_append, encode_append, length_append, length_append,
      show (encode " path=".toList).length = 6 by decide,
      show (encode ['\n']).length = 1 by decide]
    omega
  rw [body] at spec
  generalize lengthIn "path".toList name = length at spec
  have seven : digitCount length ≤ 7 ↔ length < 10 ^ 7 :=
    Nat.length_toDigits_le_iff (by decide) (by decide)
  have six : digitCount length ≤ 6 ↔ length < 10 ^ 6 :=
    Nat.length_toDigits_le_iff (by decide) (by decide)
  have half := digitCount_le_half length
  have limit : maxMetadataBytes = 1048576 := rfl
  omega

theorem ascii_digits (value : Nat) :
    ascii (asciiBytes (Nat.toDigits 10 value)) = Nat.toDigits 10 value := by
  refine ascii_asciiBytes _ fun char member => ?_
  exact toNat_lt_of_isDigit char (Nat.isDigit_of_mem_toDigits (by decide) (by decide) member)

theorem recordSpan_paxRecord (key value : List Char) (rest : Bytes)
    (small : (paxRecord key value).length < 2 ^ 53) :
    recordSpan (paxRecord key value ++ rest) =
      some (digitCount (lengthIn key value), lengthIn key value) := by
  have count : (asciiBytes (Nat.toDigits 10 (lengthIn key value))).length =
      digitCount (lengthIn key value) := by
    unfold asciiBytes
    rw [length_map]
    rfl
  have digits : (asciiBytes (Nat.toDigits 10 (lengthIn key value))).findIdx? (· = 0x20) =
      none := by
    rw [findIdx?_eq_none_iff]
    intro byte member
    unfold asciiBytes at member
    obtain ⟨char, digit, rfl⟩ := List.mem_map.mp member
    have isDigit := Nat.isDigit_of_mem_toDigits (by decide) (by decide) digit
    have small := toNat_lt_of_isDigit char isDigit
    rw [decide_eq_false_iff_not]
    intro blank
    have same : char.toNat = 0x20 := by
      have value := congrArg UInt8.toNat blank
      rw [UInt8.toNat_ofNat', Nat.mod_eq_of_lt (show char.toNat < 2 ^ 8 by omega)] at value
      exact value
    simp only [Char.isDigit, Bool.and_eq_true, decide_eq_true_eq] at isDigit
    have lower : '0'.toNat ≤ char.toNat := UInt32.le_iff_toNat_le.mp isDigit.1
    have nought : '0'.toNat = 48 := rfl
    omega
  have found : (paxRecord key value ++ rest).findIdx? (· = 0x20) =
      some (digitCount (lengthIn key value)) := by
    have first : (encode (recordBody key value) ++ rest).findIdx? (· = 0x20) = some 0 := by
      show (0x20 :: (encode (key ++ '=' :: (value ++ ['\n'])) ++ rest)).findIdx? (· = 0x20) = _
      rw [findIdx?_cons]
      rfl
    rw [paxRecord_eq, append_assoc, findIdx?_append, digits, count, first]
    exact congrArg some (Nat.zero_add _)
  have front : (paxRecord key value ++ rest).take (digitCount (lengthIn key value)) =
      asciiBytes (Nat.toDigits 10 (lengthIn key value)) := by
    rw [paxRecord_eq, append_assoc, take_left' count]
  have whole : digitCount (lengthIn key value) < lengthIn key value ∧
      lengthIn key value ≤ (paxRecord key value ++ rest).length := by
    refine ⟨?_, ?_⟩
    · have spec := length_paxRecord key value
      rw [paxRecord_eq, length_append, count] at spec
      have positive : 0 < (encode (recordBody key value)).length := Nat.succ_pos _
      omega
    · rw [length_append, length_paxRecord]
      omega
  unfold recordSpan
  rw [found]
  dsimp only
  rw [front, ascii_digits, wholeNumber_toDigits _ (by rw [← length_paxRecord]; exact small)]
  dsimp only
  rw [if_pos (by omega)]
  rfl

/-- The record that carries a path is read as the path. -/
theorem pathRecords_paxRecord (name : List Char)
    (small : (paxRecord "path".toList name).length < 2 ^ 53) :
    nameFromMetadata 'x' (paxRecord "path".toList name) = .ok (some name) := by
  have span := recordSpan_paxRecord "path".toList name [] small
  have length := length_paxRecord "path".toList name
  rw [append_nil] at span
  have some' : paxRecord "path".toList name ≠ [] := by
    intro empty
    have bounds := recordSpan_bounds span
    rw [empty, length_nil] at length
    omega
  have count : (asciiBytes (Nat.toDigits 10 (lengthIn "path".toList name))).length =
      digitCount (lengthIn "path".toList name) := by
    unfold asciiBytes
    rw [length_map]
    rfl
  have body : recordBody "path".toList name = ' ' :: ("path".toList ++ '=' :: name) ++ ['\n'] := by
    unfold recordBody
    simp only [cons_append, append_assoc]
  have inner : ((paxRecord "path".toList name).drop
      (digitCount (lengthIn "path".toList name) + 1)).take
        (lengthIn "path".toList name - 1 - (digitCount (lengthIn "path".toList name) + 1)) =
      encode ("path".toList ++ '=' :: name) := by
    have blank : encode (recordBody "path".toList name) =
        0x20 :: (encode ("path".toList ++ '=' :: name) ++ [0x0A]) := by
      rw [body, encode_append, encode_cons]
      rfl
    have total : lengthIn "path".toList name =
        digitCount (lengthIn "path".toList name) +
          (1 + ((encode ("path".toList ++ '=' :: name)).length + 1)) := by
      conv => lhs; rw [← length, paxRecord_eq, length_append, count, blank]
      rw [length_cons, length_append, length_singleton]
      omega
    rw [paxRecord_eq, ← count, blank, drop_append, drop_of_length_le (by omega),
      nil_append]
    rw [show (asciiBytes (Nat.toDigits 10 (lengthIn "path".toList name))).length + 1 -
      (asciiBytes (Nat.toDigits 10 (lengthIn "path".toList name))).length = 1 by omega]
    show List.take _ (encode ("path".toList ++ '=' :: name) ++ [0x0A]) = _
    rw [take_left']
    rw [count]
    omega
  have path : pathOf ("path".toList ++ '=' :: name) = some name := by
    unfold pathOf
    have key : ("path".toList ++ '=' :: name).takeWhile (· ≠ '=') = "path".toList := rfl
    dsimp only
    rw [key, if_pos ⟨by rw [length_append, length_cons]; omega, rfl⟩]
    rfl
  unfold nameFromMetadata
  rw [if_neg (by decide), if_neg (by decide), pathRecords, if_neg some']
  split
  · next missing =>
    rw [span] at missing
    cases missing
  · next space size found =>
    rw [span] at found
    obtain ⟨rfl, rfl⟩ := Prod.mk.inj (Option.some.inj found)
    dsimp only
    rw [inner, decode_encode, path, ← length, drop_length, pathRecords, if_pos rfl]
    rfl

end Geeboard.Tar
