/-
This file is about base32, the form authenticator apps take a secret in.

Both loops shift what they read into a value of thirty-two bits and never mask it, so for a
secret of any length the bits at its top are lost. What they take from it are its low bits
alone. The value is that of all the bytes read so far, as one number, but for these lost
bits; and a reader that follows the writer symbol by symbol is behind it by the bits the
writer has not written yet.
-/

import Geeboard.Text.Lines
import Mathlib.Data.List.Induction
import Mathlib.Data.Nat.Bitwise

namespace Geeboard.Base32

open List
open Text (isSpace)

/-! ### Writing and reading -/

def ALPHABET : List Char := "ABCDEFGHIJKLMNOPQRSTUVWXYZ234567".toList

def symbol (index : UInt32) : Char := ALPHABET.getD index.toNat 'A'

structure Encoder where
  bits : Nat := 0
  value : UInt32 := 0
  out : List Char := []

/-- The symbols that are whole are written. -/
def Encoder.drain (state : Encoder) : Encoder :=
  if 5 ≤ state.bits then
    Encoder.drain { state with
      out := state.out ++ [symbol ((state.value >>> UInt32.ofNat (state.bits - 5)) &&& 31)],
      bits := state.bits - 5 }
  else state
  termination_by state.bits

def Encoder.read (state : Encoder) (byte : UInt8) : Encoder :=
  Encoder.drain { state with
    value := (state.value <<< 8) ||| byte.toUInt32, bits := state.bits + 8 }

def base32Encode (bytes : List UInt8) : List Char :=
  let state := bytes.foldl Encoder.read {}
  if 0 < state.bits then
    state.out ++ [symbol ((state.value <<< UInt32.ofNat (5 - state.bits)) &&& 31)]
  else state.out

/-- Capital letters as the language makes them: of one character there may come several, but an
ASCII letter has its capital, and what is a blank or any other ASCII character stays. -/
structure Uppercase where
  of : Char → List Char
  ascii : ∀ char, char.toNat < 128 → of char = [char.toUpper]
  blank : ∀ char, isSpace char = true → of char = [char]

structure Decoder where
  bits : Nat := 0
  value : UInt32 := 0
  out : List UInt8 := []

def Decoder.take (state : Decoder) (index : Nat) : Decoder :=
  let value := (state.value <<< 5) ||| UInt32.ofNat index
  let bits := state.bits + 5
  if 8 ≤ bits then
    { bits := bits - 8, value,
      out := state.out ++ [((value >>> UInt32.ofNat (bits - 8)) &&& 255).toUInt8] }
  else { state with bits, value }

def Decoder.read (state : Decoder) (char : Char) : Except String Decoder :=
  match ALPHABET.idxOf? char with
  | none => .error "not a base32 secret"
  | some index => .ok (state.take index)

/-- What is left out of a text before it is read. -/
def isSeparator (char : Char) : Bool := char == '=' || isSpace char || char == '-'

def clean (upper : Uppercase) (text : List Char) : List Char :=
  (text.flatMap upper.of).filter fun char => !isSeparator char

def base32Decode (upper : Uppercase) (text : List Char) : Except String (List UInt8) :=
  ((clean upper text).foldlM Decoder.read {}).map Decoder.out

/-! ### Shifts -/

/-- What is shifted in stands below what was there, of which the top is lost. -/
theorem toNat_shifted (value small : UInt32) {width : Nat} (narrow : width < 32)
    (fits : small.toNat < 2 ^ width) :
    ((value <<< UInt32.ofNat width) ||| small).toNat =
      (value.toNat * 2 ^ width + small.toNat) % 2 ^ 32 := by
  have count : (UInt32.ofNat width).toNat % 32 = width := by
    rw [UInt32.toNat_ofNat_of_lt' (Nat.lt_trans narrow (by decide)), Nat.mod_eq_of_lt narrow]
  have below : small.toNat % 2 ^ 32 = small.toNat := Nat.mod_eq_of_lt small.toNat_lt
  rw [UInt32.toNat_or, UInt32.toNat_shiftLeft, count, ← below, ← Nat.or_mod_two_pow, below,
    ← Nat.shiftLeft_add_eq_or_of_lt fits, Nat.shiftLeft_eq]

/-- Bits that the accumulator has not lost yet are those of the number. -/
theorem bits_of_mod (number low width : Nat) (held : low + width ≤ 32) :
    number % 2 ^ 32 / 2 ^ low % 2 ^ width = number / 2 ^ low % 2 ^ width := by
  have split : 2 ^ 32 = 2 ^ low * 2 ^ (32 - low) := by
    rw [← Nat.pow_add]
    congr 1
    omega
  rw [split, Nat.mod_mul_right_div_self, Nat.mod_mod_of_dvd _ (Nat.pow_dvd_pow 2 (by omega))]

theorem toNat_low (value : UInt32) {low width : Nat} (mask : UInt32)
    (ones : mask.toNat = 2 ^ width - 1) (held : low < 32) :
    ((value >>> UInt32.ofNat low) &&& mask).toNat = value.toNat / 2 ^ low % 2 ^ width := by
  have count : (UInt32.ofNat low).toNat % 32 = low := by
    rw [UInt32.toNat_ofNat_of_lt' (Nat.lt_trans held (by decide)), Nat.mod_eq_of_lt held]
  rw [UInt32.toNat_and, UInt32.toNat_shiftRight, count, ones, Nat.and_two_pow_sub_one_eq_mod,
    Nat.shiftRight_eq_div_pow]

variable {number : Nat} {bytes : List UInt8}

/-- Five bits taken in. -/
theorem toNat_taken {value : UInt32} {index : Nat} (held : value.toNat = number % 2 ^ 32)
    (small : index < 32) :
    ((value <<< 5) ||| UInt32.ofNat index).toNat = (number * 32 + index) % 2 ^ 32 := by
  have same : (UInt32.ofNat index).toNat = index :=
    UInt32.toNat_ofNat_of_lt' (Nat.lt_trans small (by decide))
  have shifted := toNat_shifted value (UInt32.ofNat index) (show 5 < 32 by decide)
    (by rw [same]; exact small)
  rw [show (UInt32.ofNat 5) = 5 from rfl, same, held] at shifted
  rw [shifted]
  omega

/-- Eight bits given. -/
theorem toUInt8_given {value : UInt32} {low : Nat} (held : value.toNat = number % 2 ^ 32)
    (within : low + 8 ≤ 32) :
    ((value >>> UInt32.ofNat low) &&& 255).toUInt8 = UInt8.ofNat (number / 2 ^ low) := by
  refine ((UInt8.ofNat_eq_iff_mod_eq_toNat _ _).mpr ?_).symm
  rw [UInt32.toNat_toUInt8, toNat_low _ 255 (show (255 : UInt32).toNat = 2 ^ 8 - 1 from rfl)
    (by omega), held, bits_of_mod _ _ 8 within, Nat.mod_mod]

/-! ### The reader behind the writer -/

/-- The last bytes of a number. -/
def lastBytes (number : Nat) : Nat → List UInt8
  | 0 => []
  | count + 1 => UInt8.ofNat (number / 256 ^ count) :: lastBytes number count

theorem lastBytes_byte (number : Nat) (byte : UInt8) (count : Nat) :
    lastBytes (number * 256 + byte.toNat) (count + 1) = lastBytes number count ++ [byte] := by
  induction count with
  | zero =>
    have same : UInt8.ofNat ((number * 256 + byte.toNat) / 256 ^ 0) = byte := by
      rw [Nat.pow_zero, Nat.div_one, UInt8.ofNat_eq_iff_mod_eq_toNat]
      have small := byte.toNat_lt
      omega
    exact congrArg (· :: []) same
  | succ count inductionHypothesis =>
    have higher : (number * 256 + byte.toNat) / 256 ^ (count + 1) = number / 256 ^ count := by
      have small := byte.toNat_lt
      rw [Nat.pow_succ', ← Nat.div_div_eq_div_mul]
      congr 1
      omega
    rw [lastBytes, higher, inductionHypothesis]
    rfl

/-- The reader has everything but the lowest bits of the number, and has given the bytes but
those that it or the writer still holds bits of. -/
structure Follows (number pending : Nat) (bytes : List UInt8) (reader : Decoder) : Prop where
  value : reader.value.toNat = number / 2 ^ pending % 2 ^ 32
  few : reader.bits < 8
  rest : ∃ count, 8 * count = reader.bits + pending ∧
    bytes = reader.out ++ lastBytes number count

theorem Follows.byte {pending : Nat} {reader : Decoder}
    (follows : Follows number pending bytes reader) (byte : UInt8) :
    Follows (number * 256 + byte.toNat) (pending + 8) (bytes ++ [byte]) reader := by
  obtain ⟨value, few, count, held, given⟩ := follows
  refine ⟨?_, few, count + 1, by omega, ?_⟩
  · have small := byte.toNat_lt
    have high : (number * 256 + byte.toNat) / 2 ^ (pending + 8) = number / 2 ^ pending := by
      rw [Nat.add_comm pending, Nat.pow_add, ← Nat.div_div_eq_div_mul]
      congr 1
      omega
    rw [value, high]
  · rw [lastBytes_byte, given, append_assoc]

theorem Follows.symbol {low : Nat} {reader : Decoder}
    (follows : Follows number (low + 5) bytes reader) :
    Follows number low bytes (reader.take (number / 2 ^ low % 32)) := by
  obtain ⟨value, few, count, held, given⟩ := follows
  have joined := toNat_taken value (Nat.mod_lt (number / 2 ^ low) (show 0 < 32 by decide))
  have whole : number / 2 ^ (low + 5) * 32 + number / 2 ^ low % 32 = number / 2 ^ low := by
    rw [Nat.pow_add, ← Nat.div_div_eq_div_mul, Nat.mul_comm]
    exact Nat.div_add_mod _ 32
  rw [whole] at joined
  unfold Decoder.take
  dsimp only
  split
  · next full =>
    obtain ⟨left, rfl⟩ : ∃ left, count = left + 1 := ⟨count - 1, by omega⟩
    refine ⟨joined, by show reader.bits + 5 - 8 < 8; omega, left,
      by show _ = reader.bits + 5 - 8 + low; omega, ?_⟩
    have power : 256 ^ left = 2 ^ low * 2 ^ (reader.bits + 5 - 8) := by
      rw [show 256 = 2 ^ 8 from rfl, ← Nat.pow_mul, ← Nat.pow_add]
      congr 1
      omega
    rw [toUInt8_given joined (by omega), Nat.div_div_eq_div_mul, ← power, given, lastBytes,
      append_assoc]
    rfl
  · next space =>
    exact ⟨joined, by show reader.bits + 5 < 8; omega, count,
      by show _ = reader.bits + 5 + low; omega, given⟩

/-- The last symbol holds the bits that are left and noughts below them, and gives the last
byte. -/
theorem Follows.ends {pending : Nat} {reader : Decoder}
    (follows : Follows number pending bytes reader) (some_ : 0 < pending) (few : pending < 5) :
    (reader.take (number * 2 ^ (5 - pending) % 32)).out = bytes := by
  obtain ⟨value, space, count, held, given⟩ := follows
  obtain rfl : count = 1 := by omega
  have joined := toNat_taken value (Nat.mod_lt (number * 2 ^ (5 - pending)) (show 0 < 32 by decide))
  have power : 32 = 2 ^ pending * 2 ^ (5 - pending) := by
    rw [← Nat.pow_add, Nat.add_sub_cancel' (Nat.le_of_lt few)]
  have high : number * 2 ^ (5 - pending) / 32 = number / 2 ^ pending := by
    rw [power]
    exact Nat.mul_div_mul_right _ _ (Nat.two_pow_pos _)
  rw [← high, Nat.mul_comm _ 32, Nat.div_add_mod] at joined
  unfold Decoder.take
  dsimp only
  rw [if_pos (by omega)]
  have low : reader.bits + 5 - 8 = 5 - pending := by omega
  rw [low]
  show reader.out ++ [_] = bytes
  rw [toUInt8_given joined (by omega), Nat.mul_div_cancel _ (Nat.two_pow_pos _), given]
  show _ = reader.out ++ [UInt8.ofNat (number / 256 ^ 0)]
  rw [Nat.pow_zero, Nat.div_one]

/-! ### The writer -/

theorem mem_symbol {index : Nat} (small : index < 32) :
    ALPHABET.idxOf? (symbol (UInt32.ofNat index)) = some index := by
  have all : ∀ place : Fin 32, ALPHABET.idxOf? (symbol (UInt32.ofNat place)) = some place.val := by
    decide
  exact all ⟨index, small⟩

/-- What the writer has written is read, and the reader stands right behind it. -/
structure Writes (number : Nat) (bytes : List UInt8) (state : Encoder) : Prop where
  value : state.value.toNat = number % 2 ^ 32
  room : state.bits ≤ 12
  read : ∃ reader, state.out.foldlM Decoder.read {} = .ok reader ∧
    Follows number state.bits bytes reader

theorem Writes.wrote {low : Nat} {out : List Char}
    (reads : ∃ reader, out.foldlM Decoder.read {} = .ok reader ∧
      Follows number (low + 5) bytes reader) :
    ∃ reader, (out ++ [symbol (UInt32.ofNat (number / 2 ^ low % 32))]).foldlM Decoder.read {} =
      .ok reader ∧ Follows number low bytes reader := by
  obtain ⟨reader, read, follows⟩ := reads
  refine ⟨_, ?_, follows.symbol⟩
  rw [foldlM_append, read]
  show (List.foldlM Decoder.read reader [_]) = _
  rw [foldlM_cons, Decoder.read, mem_symbol (Nat.mod_lt _ (by decide))]
  rfl

theorem Writes.drain {state : Encoder} (writes : Writes number bytes state) :
    Writes number bytes state.drain ∧ state.drain.bits < 5 := by
  induction state using Encoder.drain.induct with
  | case1 state full inductionHypothesis =>
    rw [Encoder.drain, if_pos full]
    refine inductionHypothesis ⟨writes.value, Nat.le_trans (Nat.sub_le _ _) writes.room, ?_⟩
    have taken : ((state.value >>> UInt32.ofNat (state.bits - 5)) &&& 31).toNat =
        number / 2 ^ (state.bits - 5) % 32 := by
      have room := writes.room
      rw [toNat_low state.value 31 (show (31 : UInt32).toNat = 2 ^ 5 - 1 from rfl) (by omega),
        writes.value, bits_of_mod _ _ 5 (by omega)]
      rfl
    rw [← UInt32.ofNat_toNat (x := (state.value >>> UInt32.ofNat (state.bits - 5)) &&& 31), taken]
    refine Writes.wrote ?_
    rw [Nat.sub_add_cancel full]
    exact writes.read
  | case2 state small =>
    rw [Encoder.drain, if_neg small]
    exact ⟨writes, Nat.lt_of_not_le small⟩

theorem Writes.byte {state : Encoder} (writes : Writes number bytes state) (small : state.bits < 5)
    (byte : UInt8) :
    Writes (number * 256 + byte.toNat) (bytes ++ [byte]) (state.read byte) ∧
      (state.read byte).bits < 5 := by
  refine Writes.drain ⟨?_, by show state.bits + 8 ≤ 12; omega, ?_⟩
  · have shifted := toNat_shifted state.value byte.toUInt32 (show 8 < 32 by decide)
      (by rw [UInt8.toNat_toUInt32]; exact byte.toNat_lt)
    rw [show (UInt32.ofNat 8) = 8 from rfl, writes.value, UInt8.toNat_toUInt32] at shifted
    rw [shifted]
    omega
  · obtain ⟨reader, read, follows⟩ := writes.read
    exact ⟨reader, read, follows.byte byte⟩

theorem exists_writes (bytes : List UInt8) :
    ∃ number, Writes number bytes (bytes.foldl Encoder.read {}) ∧
      (bytes.foldl Encoder.read {}).bits < 5 := by
  induction bytes using List.reverseRecOn with
  | nil => exact ⟨0, ⟨rfl, by decide, {}, rfl, rfl, by decide, 0, rfl, rfl⟩, by decide⟩
  | append_singleton bytes byte inductionHypothesis =>
    obtain ⟨number, writes, small⟩ := inductionHypothesis
    rw [foldl_append]
    exact ⟨_, writes.byte small byte⟩

/-! ### The round trip -/

theorem symbol_of_alphabet (upper : Uppercase) {char : Char} (member : char ∈ ALPHABET) :
    clean upper [char] = [char] := by
  have facts : (ALPHABET.all fun char => decide (char.toNat < 128 ∧ char.toUpper = char ∧
      isSeparator char = false)) = true := by decide
  obtain ⟨small, capital, solid⟩ := of_decide_eq_true (List.all_eq_true.mp facts char member)
  unfold clean
  rw [flatMap_singleton, upper.ascii char small, capital]
  exact filter_cons_of_pos (by rw [solid]; rfl)

theorem clean_append (upper : Uppercase) (first second : List Char) :
    clean upper (first ++ second) = clean upper first ++ clean upper second := by
  unfold clean
  rw [flatMap_append, filter_append]

theorem clean_of_alphabet (upper : Uppercase) {text : List Char}
    (symbols : ∀ char ∈ text, char ∈ ALPHABET) : clean upper text = text := by
  induction text with
  | nil => rfl
  | cons char text inductionHypothesis =>
    obtain ⟨first, others⟩ := forall_mem_cons.mp symbols
    rw [← singleton_append, clean_append, symbol_of_alphabet upper first,
      inductionHypothesis others]

theorem symbol_mem (index : UInt32) : symbol index ∈ ALPHABET := by
  unfold symbol
  rw [getD_eq_getElem?_getD]
  cases found : ALPHABET[index.toNat]? with
  | none => decide
  | some char => exact mem_of_getElem? found

theorem drain_symbols (state : Encoder) (symbols : ∀ char ∈ state.out, char ∈ ALPHABET) :
    ∀ char ∈ state.drain.out, char ∈ ALPHABET := by
  induction state using Encoder.drain.induct with
  | case1 state full inductionHypothesis =>
    rw [Encoder.drain, if_pos full]
    exact inductionHypothesis (forall_mem_append.mpr
      ⟨symbols, forall_mem_singleton.mpr (symbol_mem _)⟩)
  | case2 state small =>
    rw [Encoder.drain, if_neg small]
    exact symbols

theorem read_symbols (bytes : List UInt8) :
    ∀ char ∈ (bytes.foldl Encoder.read {}).out, char ∈ ALPHABET := by
  induction bytes using List.reverseRecOn with
  | nil => exact fun char member => absurd member not_mem_nil
  | append_singleton bytes byte inductionHypothesis =>
    rw [foldl_append]
    exact drain_symbols _ inductionHypothesis

/-- What was written is read back. -/
theorem decode_encode (upper : Uppercase) (bytes : List UInt8) :
    base32Decode upper (base32Encode bytes) = .ok bytes := by
  obtain ⟨number, writes, few⟩ := exists_writes bytes
  obtain ⟨reader, read, follows⟩ := writes.read
  have symbols := read_symbols bytes
  unfold base32Decode base32Encode
  dsimp only
  generalize bytes.foldl Encoder.read {} = state at writes few read follows symbols ⊢
  by_cases some_ : 0 < state.bits
  · have last : ((state.value <<< UInt32.ofNat (5 - state.bits)) &&& 31).toNat =
        number * 2 ^ (5 - state.bits) % 32 := by
      have shifted := toNat_shifted state.value 0 (show 5 - state.bits < 32 by omega)
        (Nat.two_pow_pos _)
      rw [UInt32.or_zero, UInt32.toNat_zero, Nat.add_zero, writes.value] at shifted
      rw [UInt32.toNat_and, shifted, show (31 : UInt32).toNat = 2 ^ 5 - 1 from rfl,
        Nat.and_two_pow_sub_one_eq_mod, Nat.mod_mod_of_dvd _ (by decide), Nat.mul_mod,
        Nat.mod_mod_of_dvd _ (by decide), ← Nat.mul_mod]
    rw [if_pos some_, clean_of_alphabet upper (forall_mem_append.mpr
      ⟨symbols, forall_mem_singleton.mpr (symbol_mem _)⟩), foldlM_append, read]
    show (List.foldlM Decoder.read reader [_]).map Decoder.out = _
    rw [foldlM_cons, ← UInt32.ofNat_toNat (x := _ &&& 31), last, Decoder.read,
      mem_symbol (Nat.mod_lt _ (by decide))]
    exact congrArg Except.ok (follows.ends some_ few)
  · rw [if_neg some_, clean_of_alphabet upper symbols, read]
    obtain ⟨value, space, count, held, given⟩ := follows
    obtain rfl : count = 0 := by omega
    rw [given]
    exact congrArg Except.ok (append_nil _).symm

/-! ### Texts that are read alike -/

def LETTERS : List Char := "ABCDEFGHIJKLMNOPQRSTUVWXYZ".toList

/-- A text with some of its letters made small, and with blanks, dashes and padding put in
anywhere. -/
inductive Respells : List Char → List Char → Prop where
  | nil : Respells [] []
  | same (char : Char) {text other : List Char} (rest : Respells text other) :
      Respells (char :: text) (char :: other)
  | small {char : Char} (letter : char ∈ LETTERS) {text other : List Char}
      (rest : Respells text other) : Respells (char :: text) (char.toLower :: other)
  | mark {mark : Char} (separates : isSeparator mark = true) {text other : List Char}
      (rest : Respells text other) : Respells text (mark :: other)

theorem clean_separator (upper : Uppercase) {mark : Char} (separates : isSeparator mark = true) :
    clean upper [mark] = [] := by
  have stays : upper.of mark = [mark] := by
    unfold isSeparator at separates
    rw [Bool.or_eq_true, Bool.or_eq_true, beq_iff_eq, beq_iff_eq] at separates
    rcases separates with (rfl | blank) | rfl
    · exact upper.ascii _ (by decide)
    · exact upper.blank mark blank
    · exact upper.ascii _ (by decide)
  unfold clean
  rw [flatMap_singleton, stays]
  exact filter_cons_of_neg (by rw [separates]; exact Bool.false_ne_true)

theorem clean_small (upper : Uppercase) {char : Char} (letter : char ∈ LETTERS) :
    clean upper [char.toLower] = clean upper [char] := by
  have facts : (LETTERS.all fun char => decide (char.toNat < 128 ∧ char.toLower.toNat < 128 ∧
      char.toLower.toUpper = char.toUpper)) = true := by decide
  obtain ⟨first, second, capital⟩ := of_decide_eq_true (List.all_eq_true.mp facts char letter)
  unfold clean
  rw [flatMap_singleton, flatMap_singleton, upper.ascii _ first, upper.ascii _ second,
    capital]

theorem clean_respelled (upper : Uppercase) {text other : List Char}
    (respells : Respells text other) : clean upper other = clean upper text := by
  induction respells with
  | nil => rfl
  | same char rest inductionHypothesis =>
    rw [← singleton_append, clean_append, inductionHypothesis, ← clean_append]
    rfl
  | @small char letter text other rest inductionHypothesis =>
    rw [← singleton_append, clean_append, inductionHypothesis, clean_small upper letter,
      ← clean_append]
    rfl
  | @mark mark separates text other rest inductionHypothesis =>
    rw [← singleton_append, clean_append, inductionHypothesis,
      clean_separator upper separates, nil_append]

/-- A secret written in base32 is read back, and small letters, blanks, dashes and padding put
anywhere in a text change nothing about what is read. -/
theorem base32_round_trip (upper : Uppercase) :
    (∀ bytes, base32Decode upper (base32Encode bytes) = .ok bytes) ∧
      ∀ text other, Respells text other → base32Decode upper other = base32Decode upper text := by
  refine ⟨decode_encode upper, fun text other respells => ?_⟩
  unfold base32Decode
  rw [clean_respelled upper respells]

/-- Capital letters of the ASCII letters alone. -/
def asciiCapitals : Uppercase where
  of char := [char.toUpper]
  ascii _ _ := rfl
  blank char blank := by
    refine congrArg (· :: []) (dif_neg fun small => ?_)
    have above : 97 ≤ char.toNat := UInt32.le_iff_toNat_le.mp small.1
    have below : char.toNat ≤ 122 := UInt32.le_iff_toNat_le.mp small.2
    unfold isSpace at blank
    simp only [Bool.or_eq_true, Bool.and_eq_true, decide_eq_true_eq, beq_iff_eq] at blank
    omega

theorem base32_round_trip_spelled :
    base32Decode asciiCapitals "mz xW-6===".toList = base32Decode asciiCapitals "MZXW6".toList :=
  (base32_round_trip asciiCapitals).2 "MZXW6".toList _
    (.small (by decide) (.small (by decide) (.mark (by decide) (.small (by decide)
      (.same 'W' (.mark (by decide) (.same '6'
        (.mark (by decide) (.mark (by decide) (.mark (by decide) .nil))))))))))

end Geeboard.Base32
